import TinyOidc.Interaction.Runs
import TinyOidc.Interaction.WriteProtocol

/-! Federation callbacks and the re-authentications that link what they have validated. The
callback leaves a link candidate with an alias and a subject in the interaction; the later request
reads the record of the alias again and takes the issuer from it. -/
namespace TinyOidc.Interaction
open TinyOidc.User Threads
open Threads.Prog (Obeys Only)

/-! ### The requests -/

/-- `/federation/callback`, which may store a candidate, and `passkey/verify`, which links it. -/
inductive LinkRequest where
  | callback (malformed : Bool) (state : Option FederationRef) (binding : Option BindingRef)
      (error code : Option String)
  | reauth (r : ApiRequest) (malformed : Bool) (assertion : Option Assertion)

namespace LinkRequest

def handler : LinkRequest → Handler Response
  | callback malformed state binding error code =>
      federationCallbackHandler malformed state binding error code
  | reauth r malformed assertion => passkeyVerifyHandler r malformed assertion

def id : LinkRequest → Option String
  | callback _ state _ _ _ => state.map (·.interactionId)
  | reauth r _ _ => some r.id

def isReauth : LinkRequest → Bool
  | callback _ _ _ _ _ => false
  | reauth _ _ _ => true

end LinkRequest

/-- What all other endpoints may do beside: anything but store a link candidate. -/
def sparesLink : Op → Bool
  | .interaction _ (.apply _ _ patch _) => patch.link.join.isNone
  | .interaction _ (.patch fields _) => fields.link.join.isNone
  | _ => true

abbrev LinkStep := Label LinkRequest Op Oracle

abbrev LinkThread := Thread LinkRequest Op.Answer Response

abbrev LinkConfig := Config LinkRequest World Op.Answer Response

/-- The records of the upstreams are answers of the schedule: any of them may change between any
two steps. -/
def linkings (sha256 : String → Bytes) : System LinkRequest Oracle World Op.Answer Response where
  start := LinkRequest.handler
  exec := World.exec sha256
  isOutside := sparesLink

/-! ### Reading a log -/

def issuerRead : Entry Op.Answer → Option String
  | ⟨.ask (.upstream _), some (some upstream)⟩ => some upstream.issuer
  | _ => none

def candidateShown : Entry Op.Answer → Option LinkCandidate
  | ⟨.interaction _ (.get _), .ok doc⟩ => doc.link
  | _ => none

def candidateStored : Entry Op.Answer → Option LinkCandidate
  | ⟨.interaction _ (.apply _ _ patch _), .ok _⟩ => patch.link.join
  | _ => none

theorem candidate_of_stored {id : String} {operation : InteractionOperation}
    {target : InteractionStatus} {patch : TransitionPatch} {now : ℤ}
    {answer : (InteractionCall.apply operation target patch now).Answer} {link : LinkCandidate}
    (h : candidateStored ⟨.interaction id (.apply operation target patch now), answer⟩ =
      some link) : patch.link.join = some link := by
  cases answer with
  | error e => cases h
  | ok d => exact h

/-- The issuer and the subject that a call stores on an account, in D1 or in the object. -/
def identityStored : Op → Option (String × String)
  | .ask (.insertIdentity issuer subject _ _) => some (issuer, subject)
  | .user _ (.addIdentity identity _) => some (identity.issuer, identity.subject)
  | _ => none

/-- The request has validated an ID token of the subject. The issuer that it expects in the token is
the one of the record which it has read just before. -/
def Validated (log : Log) (issuer subject : String) : Prop :=
  ∃ recordAlias code leg, ∃ claims : Resolved, ∃ upstream : Upstream, ∃ older : Log,
    (⟨.ask (.upstreamClaims recordAlias code leg), .ok claims⟩ ::
      ⟨.ask (.upstreamMetadata recordAlias), true⟩ ::
      ⟨.ask (.upstream recordAlias), some (some upstream)⟩ :: older) <:+ log ∧
    upstream.issuer = issuer ∧ claims.sub = subject

theorem Validated.grow {log log' : Log} {issuer subject : String} (h : Validated log issuer subject)
    (hgrown : log <:+ log') : Validated log' issuer subject := by
  obtain ⟨recordAlias, code, leg, claims, upstream, older, hsuffix, hrest⟩ := h
  exact ⟨recordAlias, code, leg, claims, upstream, older, hsuffix.trans hgrown, hrest⟩

theorem Validated.exists_issuerRead {log : Log} {issuer subject : String}
    (h : Validated log issuer subject) : ∃ entry ∈ log, issuerRead entry = some issuer := by
  obtain ⟨recordAlias, code, leg, claims, upstream, older, hsuffix, hissuer, -⟩ := h
  have hread : (⟨.ask (.upstream recordAlias), some (some upstream)⟩ : Entry Op.Answer) ∈ log :=
    hsuffix.subset (by simp)
  exact ⟨_, hread, congrArg some hissuer⟩

/-! ### The protocol -/

/-- What a re-authentication stores: the subject of the candidate it has been shown, and an issuer
it has read. -/
def Relinks (log : Log) (issuer subject : String) : Prop :=
  (∃ entry ∈ log, issuerRead entry = some issuer) ∧
    ∃ entry ∈ log, ∃ link, candidateShown entry = some link ∧ link.subject = subject

def LinkPermits (q : LinkRequest) (log : Log) : Op → Prop
  | .interaction id (.get _) => q.id = some id ∧ ∀ entry ∈ log, issuerRead entry = none
  | .interaction id (.apply _ _ patch _) => ∀ link, patch.link.join = some link →
      q.id = some id ∧ ∃ issuer, Validated log issuer link.subject
  | .interaction _ (.patch fields _) => fields.link.join = none
  | .ask (.insertIdentity issuer subject _ _) => q.isReauth = true → Relinks log issuer subject
  | .user _ (.addIdentity identity _) =>
      q.isReauth = true → Relinks log identity.issuer identity.subject
  | _ => True

/-- Calls that neither touch an interaction nor store an identity. -/
def LinkFree : Op → Prop
  | .interaction _ _ => False
  | op => identityStored op = none

section Protocol
variable {q : LinkRequest} {log : Log}

theorem linkPermits_of_free (log : Log) (op : Op) (h : LinkFree op) : LinkPermits q log op := by
  cases op with
  | interaction id call => exact h.elim
  | user uid call =>
    cases call with
    | addIdentity identity now => cases h
    | _ => trivial
  | ask question =>
    cases question with
    | insertIdentity issuer subject uid now => cases h
    | _ => trivial

/-- A callback may store identities as it likes; here they come with the account it creates. -/
theorem linkPermits_of_plain (hq : q.isReauth = false) (log : Log) (op : Op) (h : Plain op) :
    LinkPermits q log op := by
  have hnot : ∀ {p : Prop}, q.isReauth = true → p := fun hreauth => by
    rw [hq] at hreauth
    cases hreauth
  cases op with
  | interaction id call => exact h.elim
  | user uid call =>
    cases call with
    | addIdentity identity now => exact hnot
    | _ => trivial
  | ask question =>
    cases question with
    | insertIdentity issuer subject uid now => exact hnot
    | _ => trivial

theorem interactionClient_free (d : InteractionDocument) : Only LinkFree (interactionClient d) := by
  unfold interactionClient
  cases d.clientId with
  | none => trivial
  | some clientId => exact only_ask_bind rfl fun record => trivial

theorem consentNeeded_free (d : InteractionDocument) (client : Client) (uid : String) :
    Only LinkFree (consentNeeded d client uid) := by
  unfold consentNeeded
  cases d.request with
  | none => trivial
  | some request =>
    refine only_ite trivial (only_ite trivial ?_)
    exact only_userCall_bind rfl fun reply => trivial

theorem assertionUser_free (assertion : Assertion) : Only LinkFree (assertionUser assertion) := by
  unfold assertionUser
  cases assertion.userHandle with
  | some uid => trivial
  | none => exact only_ask_bind rfl fun uid => trivial

theorem verifyAssertion_free (uid credentialId challenge : String) (now : ℤ) :
    Only LinkFree (verifyAssertion uid credentialId challenge now) := by
  unfold verifyAssertion
  refine only_userCall_bind rfl fun reply => ?_
  split
  · exact only_ask_bind rfl fun verified => ⟨rfl, fun _ => trivial⟩
  · trivial

/-- A part of a handler that has nothing to do with links. -/
theorem links_free {α β : Type} {post : Log → β → Prop} {p : Handler α} {f : α → Handler β}
    (hp : Only LinkFree p) (h : ∀ log' a, log ⊆ log' → Obeys (LinkPermits q) post log' (f a)) :
    Obeys (LinkPermits q) post log (p >>= f) :=
  Obeys.bind ((hp.obeys linkPermits_of_free).mono h)

theorem links_plain {α β : Type} {post : Log → β → Prop} {p : Handler α} {f : α → Handler β}
    (hq : q.isReauth = false) (hp : Only Plain p)
    (h : ∀ log' a, log <:+ log' → Obeys (LinkPermits q) post log' (f a)) :
    Obeys (LinkPermits q) post log (p >>= f) :=
  Obeys.bind ((hp.obeys_keeping (linkPermits_of_plain hq) List.suffix_refl
    fun _ _ _ _ _ hsuffix => (List.suffix_cons _ _).trans hsuffix).mono h)

theorem links_ask {α : Type} {post : Log → α → Prop} {question : Question}
    {f : question.Answer → Handler α} (hq : LinkPermits q log (.ask question))
    (h : ∀ r, Obeys (LinkPermits q) post (⟨.ask question, r⟩ :: log) (f r)) :
    Obeys (LinkPermits q) post log (ask question >>= f) := Obeys.perform hq h

theorem links_interaction {α : Type} {post : Log → α → Prop} {id : String}
    {call : InteractionCall} {f : call.Answer → Handler α}
    (hq : LinkPermits q log (.interaction id call))
    (h : ∀ r, Obeys (LinkPermits q) post (⟨.interaction id call, r⟩ :: log) (f r)) :
    Obeys (LinkPermits q) post log (interactionCall id call >>= f) := Obeys.perform hq h

/-- No transition of the login steps but one carries a candidate. -/
theorem permits_apply {id : String} {operation : InteractionOperation} {target : InteractionStatus}
    {patch : TransitionPatch} {now : ℤ} (hlink : patch.link = none) :
    LinkPermits q log (.interaction id (.apply operation target patch now)) := by
  intro link hjoin
  rw [hlink] at hjoin
  cases hjoin

theorem guard_links (r : ApiRequest) (hr : q.id = some r.id) :
    Obeys (LinkPermits q) (fun log' result => ∀ g, result = .ok g → Shown log' r.id g) []
      (guard r false) := by
  unfold guard
  refine links_ask trivial fun limited => ?_
  split
  · exact obeys_refused
  split
  · exact obeys_refused
  refine links_ask trivial fun settings => ?_
  cases settings with
  | none => exact obeys_refused
  | some settings =>
    dsimp only
    split
    · exact obeys_refused
    cases r.binding with
    | none => exact obeys_refused
    | some binding =>
      dsimp only
      split
      · exact obeys_refused
      refine links_ask trivial fun now => ?_
      refine links_interaction ⟨hr, by simp [issuerRead]⟩ fun got => ?_
      cases got with
      | error e => exact obeys_refused
      | ok doc =>
        dsimp only
        split
        · exact obeys_refused
        split
        · exact obeys_refused
        split
        · exact obeys_refused
        · intro g hg
          cases hg
          exact ⟨rfl, by simp, by simp⟩

theorem countAttempt_links (g : Guarded) :
    Obeys (LinkPermits q) (fun log' _ => log ⊆ log') log (countAttempt g) := by
  refine links_interaction trivial fun counted => ?_
  cases counted with
  | error e => exact List.subset_cons_self _ _
  | ok d => exact List.subset_cons_self _ _

theorem authenticateInteraction_links (g : Guarded) (client : Client) (profile : UserProfile)
    (method : AuthMethod) (operation : InteractionOperation) :
    Obeys (LinkPermits q) (fun _ _ => True) log
      (authenticateInteraction g client profile method operation) := by
  unfold authenticateInteraction
  cases loginRefusal g.doc client profile with
  | some description =>
    refine links_interaction (permits_apply rfl) fun refused => ?_
    trivial
  | none =>
    refine links_free (consentNeeded_free g.doc client profile.id) fun log' needed _ => ?_
    refine links_interaction (permits_apply rfl) fun applied => ?_
    cases applied with
    | error e => trivial
    | ok d => trivial

/-! ### The re-authentication -/

/-- The link takes its subject from the document and its issuer from the record it reads. -/
theorem linkIdentity_links {g : Guarded} {id : String} (hshown : Shown log id g) (uid : String)
    {link : LinkCandidate} (hlink : g.doc.link = some link) :
    Obeys (LinkPermits q) (fun _ _ => True) log (linkIdentity uid link) := by
  have hcandidate : ∀ log' : Log, log ⊆ log' →
      ∃ entry ∈ log', ∃ link', candidateShown entry = some link' ∧ link'.subject = link.subject :=
    fun log' hsub => ⟨_, hsub hshown.doc, link, hlink, rfl⟩
  unfold linkIdentity
  refine links_ask trivial fun now => ?_
  refine links_ask trivial fun record => ?_
  rcases record with _ | _ | upstream
  · trivial
  · trivial
  · have hrelinks : ∀ log' : Log, log ⊆ log' →
        (⟨.ask (.upstream link.upstreamAlias), some (some upstream)⟩ : Entry Op.Answer) ∈ log' →
        Relinks log' upstream.issuer link.subject := fun log' hsub hread =>
      ⟨⟨_, hread, rfl⟩, hcandidate log' hsub⟩
    refine links_ask (fun _ => hrelinks _ ?_ List.mem_cons_self) fun inserted => ?_
    · intro e he
      simp [he]
    split
    · trivial
    refine links_ask trivial fun newId => ?_
    refine Obeys.perform (fun _ => hrelinks _ ?_ (by simp)) fun reply => ?_
    · intro e he
      simp [he]
    split
    · trivial
    · exact links_ask trivial fun _ => trivial
    · trivial

theorem passkeyVerified_links {g : Guarded} {id : String} (hshown : Shown log id g)
    (profile : UserProfile) (passkey : PasskeyRow) :
    Obeys (LinkPermits q) (fun _ _ => True) log (passkeyVerified g profile passkey) := by
  unfold passkeyVerified
  refine links_free (interactionClient_free g.doc) fun log' client hsub => ?_
  cases client with
  | none => trivial
  | some client =>
    dsimp only
    split
    · cases hlink : g.doc.link with
      | none => trivial
      | some link =>
        dsimp only
        split
        · trivial
        refine Obeys.bind ((linkIdentity_links (hshown.mono hsub) profile.id hlink).mono ?_)
        intro log'' linked _
        rcases linked with _ | _ | _
        · trivial
        · trivial
        · exact authenticateInteraction_links _ _ _ _ _
    · exact authenticateInteraction_links _ _ _ _ _

theorem passkeyVerifyHandler_links (r : ApiRequest) (malformed : Bool)
    (assertion : Option Assertion) (hr : q.id = some r.id) :
    Obeys (LinkPermits q) (fun _ _ => True) [] (passkeyVerifyHandler r malformed assertion) := by
  unfold passkeyVerifyHandler
  refine Obeys.bind ((guard_links r hr).mono fun log₁ guarded hguard => ?_)
  cases guarded with
  | error response => trivial
  | ok g =>
    have hshown := hguard g rfl
    dsimp only
    split
    · trivial
    refine Obeys.bind ((countAttempt_links g).mono fun log₂ refused hsub => ?_)
    cases refused with
    | some refused => trivial
    | none =>
      dsimp only
      split
      · trivial
      refine links_interaction rfl fun cleared => ?_
      split
      · refine links_free (assertionUser_free _) fun log₃ routed hsub₃ => ?_
        split
        · trivial
        · refine links_free (verifyAssertion_free _ _ _ _) fun log₄ reply hsub₄ => ?_
          have hshown₄ := ((hshown.mono hsub).cons.mono hsub₃).mono hsub₄
          split
          · exact passkeyVerified_links hshown₄ _ _
          · trivial
          · split
            · exact links_ask trivial fun _ => trivial
            · trivial
          · trivial
      · trivial

/-! ### The callback -/

theorem failInteraction_links (id : String) (now : ℤ) (error description : String) :
    Obeys (LinkPermits q) (fun _ _ => True) log (failInteraction id now error description) :=
  links_interaction (permits_apply rfl) fun _ => trivial

/-- The candidate has the subject that was validated. -/
theorem federationResolved_links {g : Guarded} (hq : q.isReauth = false) (hid : q.id = some g.id)
    (upstream : Upstream) (leg : FederationLeg) {claims : Resolved} {issuer : String}
    (hvalidated : Validated log issuer claims.sub) :
    Obeys (LinkPermits q) (fun _ _ => True) log (federationResolved g upstream leg claims) := by
  unfold federationResolved
  refine links_plain hq ((interactionClient_bare g.doc).mono plain_of_bare) fun log₁ client h₁ => ?_
  cases client with
  | none => exact failInteraction_links _ _ _ _
  | some client =>
    refine links_plain hq (resolveAccount_plain _ _ _ _) fun log₂ resolution h₂ => ?_
    cases resolution with
    | fail fault => exact failInteraction_links _ _ _ _
    | link candidateUid =>
      refine links_interaction ?_ fun linked => ?_
      · intro link hjoin
        cases hjoin
        exact ⟨hid, issuer, hvalidated.grow (h₁.trans h₂)⟩
      · cases linked with
        | error e => trivial
        | ok d => trivial
    | user profile =>
      refine Obeys.bind ((authenticateInteraction_links g client profile _ _).mono ?_)
      intro log₃ step _
      split
      · trivial
      · trivial

theorem federationAnswer_links {g : Guarded} (hq : q.isReauth = false) (hid : q.id = some g.id)
    (leg : FederationLeg) (error code : Option String) :
    Obeys (LinkPermits q) (fun _ _ => True) log (federationAnswer g leg error code) := by
  unfold federationAnswer
  split
  · exact failInteraction_links _ _ _ _
  · exact failInteraction_links _ _ _ _
  · refine links_ask trivial fun record => ?_
    rcases record with _ | _ | upstream
    · exact failInteraction_links _ _ _ _
    · exact failInteraction_links _ _ _ _
    · dsimp only
      split
      · exact failInteraction_links _ _ _ _
      refine links_ask trivial fun metadata => ?_
      split
      · exact failInteraction_links _ _ _ _
      · next hmetadata =>
        have hfound : metadata = true := by simpa using hmetadata
        subst hfound
        refine links_ask trivial fun validated => ?_
        cases validated with
        | error fault => exact failInteraction_links _ _ _ _
        | ok claims =>
          exact federationResolved_links hq hid upstream leg
            ⟨_, _, leg, claims, upstream, log, List.suffix_refl _, rfl, rfl⟩

theorem federationCallbackHandler_links (malformed : Bool) (state : Option FederationRef)
    (binding : Option BindingRef) (error code : Option String) (hq : q.isReauth = false)
    (hid : q.id = state.map (·.interactionId)) :
    Obeys (LinkPermits q) (fun _ _ => True) log
      (federationCallbackHandler malformed state binding error code) := by
  unfold federationCallbackHandler
  refine links_ask trivial fun limited => ?_
  split
  · trivial
  refine links_ask trivial fun settings => ?_
  cases settings with
  | none => trivial
  | some settings =>
    dsimp only
    split
    · trivial
    split
    · trivial
    cases state with
    | none => trivial
    | some opened =>
      dsimp only
      split
      · trivial
      refine links_ask trivial fun now => links_interaction trivial fun consumed => ?_
      cases consumed with
      | error e => trivial
      | ok found =>
        dsimp only
        split
        · trivial
        · refine federationAnswer_links hq ?_ _ _ _
          exact hid

theorem linkings_follow (sha256 : String → Bytes) : (linkings sha256).Follows LinkPermits := by
  intro q
  cases q with
  | callback malformed state binding error code =>
    exact federationCallbackHandler_links malformed state binding error code rfl rfl
  | reauth r malformed assertion => exact passkeyVerifyHandler_links r malformed assertion rfl

end Protocol

/-! ### The condition -/

/-- When a re-authentication reads the record of the alias it links, the record has the issuer of
the records read by every callback of the interaction that has stored the candidate. -/
def readsSameIssuer (c : LinkConfig) : LinkStep → Bool
  | .step i oracle =>
      match c.threads[i]? with
      | none => true
      | some t =>
        match t.prog.head with
        | some (.ask (.upstream recordAlias)) =>
            match oracle (.upstream recordAlias) with
            | some (some upstream) => (t.log.filterMap candidateShown).all fun link =>
                c.threads.all fun t' =>
                  !(t'.request.id == t.request.id &&
                    (t'.log.filterMap candidateStored).contains link) ||
                    (t'.log.filterMap issuerRead).all (· == upstream.issuer)
            | _ => true
        | _ => true
  | _ => true

/-- The issuer of an alias is the same at the link as at the validation. -/
def ReadsSameIssuer (sha256 : String → Bytes) : List LinkStep → Prop
  | [] => True
  | l :: steps =>
      readsSameIssuer ((linkings sha256).after .fresh steps) l = true ∧ ReadsSameIssuer sha256 steps

instance decidableReadsSameIssuer (sha256 : String → Bytes) :
    (steps : List LinkStep) → Decidable (ReadsSameIssuer sha256 steps)
  | [] => isTrue trivial
  | _ :: steps =>
      have := decidableReadsSameIssuer sha256 steps
      inferInstanceAs (Decidable (_ ∧ _))

/-! ### One call -/

/-- A candidate of a document was there before a call, or the call has stored it. -/
theorem link_of_exec {sha256 : String → Bytes} {w : World} {oracle : Oracle} {op : Op} {id : String}
    {d : InteractionDocument} {link : LinkCandidate}
    (hd : (w.exec sha256 oracle op).1.doc id = some d) (hlink : d.link = some link) :
    (∃ d₀, w.doc id = some d₀ ∧ d₀.link = some link) ∨
      (∃ fields now, op = .interaction id (.patch fields now) ∧ fields.link.join = some link) ∨
      ∃ operation target patch now, op = .interaction id (.apply operation target patch now) ∧
        candidateStored ⟨op, (w.exec sha256 oracle op).2⟩ = some link := by
  have performed := exec_performed sha256 w oracle op
  generalize w.exec sha256 oracle op = next at performed hd ⊢
  obtain ⟨w', answer⟩ := next
  cases performed with
  | asked question oracle => exact .inl ⟨d, hd, hlink⟩
  | onUser uid call => exact .inl ⟨d, hd, hlink⟩
  | onInteraction id' call o answer answered =>
    by_cases hid : id' = id
    · subst hid
      simp only [World.doc, Function.update_self] at hd ⊢
      cases answered with
      | refused _ e => exact .inl ⟨d, hd, hlink⟩
      | created input now ttlSeconds alarmAt absent =>
        cases hd
        cases hlink
      | read now d₀ stored => exact .inl ⟨d, hd, hlink⟩
      | claimedPushed clientId bindingHash now ttlSeconds alarmAt d₀ stored pushed unclaimed
          client =>
        cases hd
        exact .inl ⟨d₀, stored, hlink⟩
      | applied operation target patch now alarmAt d₀ stored permitted =>
        cases hd
        cases hpatch : patch.link with
        | none =>
          have hsame : d₀.link = some link := by
            simpa [InteractionDocument.transition, InteractionDocument.patched, hpatch] using hlink
          exact .inl ⟨d₀, stored, hsame⟩
        | some stored' =>
          have hstored : stored' = some link := by
            simpa [InteractionDocument.transition, InteractionDocument.patched, hpatch] using hlink
          refine .inr (.inr ⟨operation, target, patch, now, rfl, ?_⟩)
          show patch.link.join = some link
          rw [hpatch, hstored, Option.join_some]
      | claimedCompletion now alarmAt d₀ stored status unclaimed =>
        cases hd
        exact .inl ⟨d₀, stored, hlink⟩
      | consumedFederation stateHash now alarmAt d₀ leg stored status pending =>
        cases hd
        exact .inl ⟨d₀, stored, hlink⟩
      | patched fields now alarmAt d₀ stored live =>
        cases hd
        cases hfields : fields.link with
        | none =>
          have hsame : d₀.link = some link := by
            simpa [InteractionDocument.patched, hfields] using hlink
          exact .inl ⟨d₀, stored, hsame⟩
        | some stored' =>
          have hstored : stored' = some link := by
            simpa [InteractionDocument.patched, hfields] using hlink
          exact .inr (.inl ⟨fields, now, rfl, by rw [hfields, hstored, Option.join_some]⟩)
      | attempted now limit alarmAt d₀ stored live =>
        cases hd
        exact .inl ⟨d₀, stored, hlink⟩
      | exhausted now limit alarmAt d₀ stored live =>
        cases hd
        exact .inl ⟨d₀, stored, hlink⟩
      | early now => exact .inl ⟨d, hd, hlink⟩
      | expired now => cases hd
    · simp only [World.doc, Function.update_of_ne (Ne.symm hid)] at hd ⊢
      exact .inl ⟨d, hd, hlink⟩

/-! ### Runs -/

def StoredBySome (c : LinkConfig) (id : Option String) (link : LinkCandidate) : Prop :=
  ∃ t ∈ c.threads, t.request.id = id ∧ ∃ entry ∈ t.log, candidateStored entry = some link

def ValidatedBySome (c : LinkConfig) (id : Option String) (issuer subject : String) : Prop :=
  ∃ t ∈ c.threads, t.request.id = id ∧ Validated t.log issuer subject

/-- Later threads log at least what earlier ones did. -/
def LogsGrow (c c' : LinkConfig) : Prop :=
  ∀ t ∈ c.threads, ∃ t' ∈ c'.threads, t'.request = t.request ∧ t.log <:+ t'.log

theorem StoredBySome.grow {c c' : LinkConfig} {id : Option String} {link : LinkCandidate}
    (h : StoredBySome c id link) (hgrow : LogsGrow c c') : StoredBySome c' id link := by
  obtain ⟨t, ht, hid, entry, hentry, hstored⟩ := h
  obtain ⟨t', ht', hrequest, hgrown⟩ := hgrow t ht
  exact ⟨t', ht', hrequest ▸ hid, entry, hgrown.subset hentry, hstored⟩

theorem ValidatedBySome.grow {c c' : LinkConfig} {id : Option String} {issuer subject : String}
    (h : ValidatedBySome c id issuer subject) (hgrow : LogsGrow c c') :
    ValidatedBySome c' id issuer subject := by
  obtain ⟨t, ht, hid, hvalidated⟩ := h
  obtain ⟨t', ht', hrequest, hgrown⟩ := hgrow t ht
  exact ⟨t', ht', hrequest ▸ hid, hvalidated.grow hgrown⟩

/-- Where the candidates of an interaction come from, and what a request that has read a record
since it was shown one may rely on. -/
structure Traced (c : LinkConfig) : Prop where
  stored : ∀ id d link, c.shared.doc id = some d → d.link = some link →
    StoredBySome c (some id) link
  shown : ∀ t ∈ c.threads, ∀ entry ∈ t.log, ∀ link, candidateShown entry = some link →
    StoredBySome c t.request.id link
  agreed : ∀ t ∈ c.threads, ∀ entry ∈ t.log, ∀ issuer, issuerRead entry = some issuer →
    ∀ entry' ∈ t.log, ∀ link, candidateShown entry' = some link →
    ValidatedBySome c t.request.id issuer link.subject

section Runs
variable {sha256 : String → Bytes} {steps : List LinkStep}

/-- A candidate is stored only after a validation of its subject. -/
theorem validated_of_stored {t : LinkThread}
    (ht : t ∈ ((linkings sha256).after .fresh steps).threads) {entry : Entry Op.Answer}
    (hentry : entry ∈ t.log) {link : LinkCandidate} (hstored : candidateStored entry = some link) :
    ∃ issuer, Validated t.log issuer link.subject := by
  obtain ⟨newer, older, hlog⟩ := List.append_of_mem hentry
  have hsuffix : entry :: older <:+ t.log := ⟨newer, hlog.symm⟩
  have hperm := System.log_permitted (linkings_follow sha256) .fresh steps t ht entry older hsuffix
  unfold candidateStored at hstored
  split at hstored
  · obtain ⟨-, issuer, hvalidated⟩ := hperm link hstored
    exact ⟨issuer, hvalidated.grow ((List.suffix_cons _ _).trans hsuffix)⟩
  · cases hstored

section Call
variable {i : ℕ} {t : LinkThread} {op : Op} {oracle : Oracle} {prog : Handler Response}

def called (sha256 : String → Bytes) (c : LinkConfig) (i : ℕ) (t : LinkThread) (op : Op)
    (oracle : Oracle) (prog : Handler Response) : LinkConfig :=
  ⟨(c.shared.exec sha256 oracle op).1,
    c.threads.set i ⟨t.request, ⟨op, (c.shared.exec sha256 oracle op).2⟩ :: t.log, prog⟩⟩

variable (sha256 op oracle prog) in
theorem logsGrow_called {c : LinkConfig} (hi : c.threads[i]? = some t) :
    LogsGrow c (called sha256 c i t op oracle prog) :=
  fun _ ht => Threads.exists_grown_of_mem hi _ prog ht

/-- A document's candidate was there before, or the thread has just stored it. -/
theorem Traced.stored_called (h : Traced ((linkings sha256).after .fresh steps))
    (hi : ((linkings sha256).after .fresh steps).threads[i]? = some t)
    (hperm : LinkPermits t.request t.log op) {id : String} {d : InteractionDocument}
    {link : LinkCandidate}
    (hd : (called sha256 ((linkings sha256).after .fresh steps) i t op oracle prog).shared.doc id =
      some d) (hlink : d.link = some link) :
    StoredBySome (called sha256 ((linkings sha256).after .fresh steps) i t op oracle prog) (some id)
      link := by
  rcases link_of_exec hd hlink with ⟨d₀, hd₀, hlink₀⟩ | ⟨fields, now, rfl, hfields⟩ |
    ⟨operation, target, patch, now, rfl, hstored⟩
  · exact (h.stored id d₀ link hd₀ hlink₀).grow (logsGrow_called _ _ _ _ hi)
  · have hnone : fields.link.join = none := hperm
    rw [hnone] at hfields
    cases hfields
  · have hlt := (List.getElem?_eq_some_iff.mp hi).1
    have hid : t.request.id = some id := (hperm link (candidate_of_stored hstored)).1
    exact ⟨_, List.mem_of_getElem? (List.getElem?_set_self hlt), hid, _, List.mem_cons_self,
      hstored⟩

/-- What a thread has been shown was stored by a request on its interaction. -/
theorem Traced.shown_called (h : Traced ((linkings sha256).after .fresh steps))
    (hi : ((linkings sha256).after .fresh steps).threads[i]? = some t)
    (hperm : LinkPermits t.request t.log op) {entry : Entry Op.Answer}
    (hentry : entry ∈ (⟨op, (((linkings sha256).after .fresh steps).shared.exec sha256 oracle op).2⟩
      :: t.log : Log)) {link : LinkCandidate} (hshown : candidateShown entry = some link) :
    StoredBySome ((linkings sha256).after .fresh steps) t.request.id link := by
  rcases List.mem_cons.mp hentry with rfl | hentry
  · unfold candidateShown at hshown
    split at hshown
    · next id now doc heq =>
      obtain ⟨rfl, hanswer⟩ := Sigma.mk.inj heq
      have hdoc := doc_of_get_performed (heq ▸ exec_performed sha256
        ((linkings sha256).after .fresh steps).shared oracle (.interaction id (.get now)))
      rw [hperm.1]
      exact h.stored id doc link hdoc hshown
    · cases hshown
  · exact h.shown t (List.mem_of_getElem? hi) entry hentry link hshown

/-- Under the condition, a thread that has read a record and been shown a candidate may rely on
a validation with the issuer of the record. -/
theorem Traced.agreed_called (h : Traced ((linkings sha256).after .fresh steps))
    (hi : ((linkings sha256).after .fresh steps).threads[i]? = some t)
    (hhead : t.prog.head = some op) (hperm : LinkPermits t.request t.log op)
    (hreads : readsSameIssuer ((linkings sha256).after .fresh steps) (.step i oracle) = true)
    {entry entry' : Entry Op.Answer} {issuer : String} {link : LinkCandidate}
    (hentry : entry ∈ (⟨op, (((linkings sha256).after .fresh steps).shared.exec sha256 oracle op).2⟩
      :: t.log : Log)) (hissuer : issuerRead entry = some issuer)
    (hentry' : entry' ∈ (⟨op, (((linkings sha256).after .fresh steps).shared.exec sha256 oracle
      op).2⟩ :: t.log : Log)) (hshown : candidateShown entry' = some link) :
    ValidatedBySome ((linkings sha256).after .fresh steps) t.request.id issuer link.subject := by
  have ht := List.mem_of_getElem? hi
  rcases List.mem_cons.mp hentry with rfl | hearlier
  · -- The step reads the record of an upstream.
    unfold issuerRead at hissuer
    split at hissuer
    · next recordAlias upstream heq =>
      obtain ⟨rfl, hanswer⟩ := Sigma.mk.inj heq
      have horacle : oracle (.upstream recordAlias) = some (some upstream) := eq_of_heq hanswer
      rcases List.mem_cons.mp hentry' with rfl | hentry'
      · cases hshown
      · obtain ⟨t', ht', hid, stored, hmem, hstored⟩ := h.shown t ht entry' hentry' link hshown
        obtain ⟨issuer', hvalidated⟩ := validated_of_stored ht' hmem hstored
        obtain ⟨read, hread, hissuer'⟩ := hvalidated.exists_issuerRead
        simp only [readsSameIssuer, hi, hhead, horacle, List.all_eq_true, List.mem_filterMap,
          forall_exists_index, and_imp] at hreads
        have hsame := hreads link entry' hentry' hshown t' ht'
        have hcontains : (t'.log.filterMap candidateStored).contains link = true :=
          List.contains_iff_mem.mpr (List.mem_filterMap.mpr ⟨stored, hmem, hstored⟩)
        have hall : (t'.log.filterMap issuerRead).all (· == upstream.issuer) = true := by
          rw [hid, beq_self_eq_true, hcontains] at hsame
          simpa only [Bool.true_and, Bool.not_true, Bool.false_or] using hsame
        have heq' : issuer' = upstream.issuer := by
          have hmem' : issuer' ∈ t'.log.filterMap issuerRead :=
            List.mem_filterMap.mpr ⟨read, hread, hissuer'⟩
          exact beq_iff_eq.mp (List.all_eq_true.mp hall issuer' hmem')
        cases hissuer
        exact ⟨t', ht', hid, heq' ▸ hvalidated⟩
    · cases hissuer
  · rcases List.mem_cons.mp hentry' with rfl | hentry'
    · -- A document is read before any record.
      unfold candidateShown at hshown
      split at hshown
      · next id now doc heq =>
        obtain ⟨rfl, -⟩ := Sigma.mk.inj heq
        have hnone := hperm.2 entry hearlier
        rw [hnone] at hissuer
        cases hissuer
      · cases hshown
    · exact h.agreed t ht entry hearlier issuer hissuer entry' hentry' link hshown

theorem Traced.called (h : Traced ((linkings sha256).after .fresh steps))
    (hi : ((linkings sha256).after .fresh steps).threads[i]? = some t)
    (hhead : t.prog.head = some op) (hperm : LinkPermits t.request t.log op)
    (hreads : readsSameIssuer ((linkings sha256).after .fresh steps) (.step i oracle) = true) :
    Traced (called sha256 ((linkings sha256).after .fresh steps) i t op oracle prog) := by
  have hgrow := logsGrow_called sha256 op oracle prog hi
  constructor
  · intro id d link hd hlink
    exact h.stored_called hi hperm hd hlink
  · intro t' ht' entry hentry link hshown
    rcases Threads.exists_of_mem_set ht' with rfl | ⟨j, -, hj⟩
    · exact (h.shown_called hi hperm hentry hshown).grow hgrow
    · exact (h.shown t' (List.mem_of_getElem? hj) entry hentry link hshown).grow hgrow
  · intro t' ht' entry hentry issuer hissuer entry' hentry' link hshown
    rcases Threads.exists_of_mem_set ht' with rfl | ⟨j, -, hj⟩
    · exact (h.agreed_called hi hhead hperm hreads hentry hissuer hentry' hshown).grow hgrow
    · exact (h.agreed t' (List.mem_of_getElem? hj) entry hentry issuer hissuer entry' hentry' link
        hshown).grow hgrow

end Call

theorem traced_run (hreads : ReadsSameIssuer sha256 steps) :
    Traced ((linkings sha256).after .fresh steps) := by
  refine System.run_invariant (linkings_follow sha256) (C := ReadsSameIssuer sha256)
    (fun _ _ h => h.2) (J := fun c _ => Traced c) ?_ ?_ ?_ ?_ steps hreads
  · exact ⟨fun _ _ _ hd => (by cases hd), by simp, by simp⟩
  · intro steps q h
    have hgrow : LogsGrow ((linkings sha256).after .fresh steps)
        ⟨((linkings sha256).after .fresh steps).shared, ((linkings sha256).after .fresh
          steps).threads ++ [⟨q, [], (linkings sha256).start q⟩]⟩ :=
      fun t ht => ⟨t, List.mem_append_left _ ht, rfl, List.suffix_refl _⟩
    constructor
    · intro id d link hd hlink
      exact (h.stored id d link hd hlink).grow hgrow
    · intro t ht entry hentry link hshown
      rcases List.mem_append.mp ht with ht | ht
      · exact (h.shown t ht entry hentry link hshown).grow hgrow
      · rw [List.mem_singleton.mp ht] at hentry
        cases hentry
    · intro t ht entry hentry issuer hissuer entry' hentry' link hshown
      rcases List.mem_append.mp ht with ht | ht
      · exact (h.agreed t ht entry hentry issuer hissuer entry' hentry' link hshown).grow hgrow
      · rw [List.mem_singleton.mp ht] at hentry
        cases hentry
  · intro steps i t op oracle prog hreads _ h hi hhead hperm
    exact h.called hi hhead hperm hreads.1
  · intro steps op oracle h hop
    refine ⟨fun id d link hd hlink => ?_, h.shown, h.agreed⟩
    rcases link_of_exec hd hlink with ⟨d₀, hd₀, hlink₀⟩ | ⟨fields, now, rfl, hfields⟩ |
      ⟨operation, target, patch, now, rfl, hstored⟩
    · exact h.stored id d₀ link hd₀ hlink₀
    · have hnone : fields.link.join.isNone = true := hop
      rw [hfields] at hnone
      cases hnone
    · have hnone : patch.link.join.isNone = true := hop
      rw [candidate_of_stored hstored] at hnone
      cases hnone

end Runs

/-- In every run in which an alias has the issuer it had at the validation when its candidate is
linked, an identity is linked only after a token of its issuer and subject was validated in the same
interaction. -/
theorem linked_identity_validated (sha256 : String → Bytes) (steps : List LinkStep)
    (hreads : ReadsSameIssuer sha256 steps) :
    ∀ t ∈ ((linkings sha256).after .fresh steps).threads, t.request.isReauth = true →
      ∀ entry ∈ t.log, ∀ issuer subject, identityStored entry.1 = some (issuer, subject) →
      ValidatedBySome ((linkings sha256).after .fresh steps) t.request.id issuer subject := by
  intro t ht hreauth entry hentry issuer subject hstored
  obtain ⟨newer, older, hlog⟩ := List.append_of_mem hentry
  have hsuffix : entry :: older <:+ t.log := ⟨newer, hlog.symm⟩
  have hperm := System.log_permitted (linkings_follow sha256) .fresh steps t ht entry older hsuffix
  have hrelinks : Relinks older issuer subject := by
    unfold identityStored at hstored
    split at hstored
    · next heq =>
      cases hstored
      rw [heq] at hperm
      exact hperm hreauth
    · next heq =>
      cases hstored
      rw [heq] at hperm
      exact hperm hreauth
    · cases hstored
  have hin : older ⊆ t.log := ((List.suffix_cons _ _).trans hsuffix).subset
  obtain ⟨⟨read, hread, hissuer⟩, shown, hmem, link, hshown, rfl⟩ := hrelinks
  exact (traced_run hreads).agreed t ht read (hin hread) issuer hissuer shown (hin hmem) link hshown

/-! ### An alias that changes its issuer -/

namespace Sample

/-- The record of every alias has this issuer; its tokens are for the subject `s`, whose email is
that of `u1`. -/
def federated (issuer : String) : Oracle
  | .upstream recordAlias => some (some ⟨recordAlias, issuer, true⟩)
  | .upstreamMetadata _ => true
  | .upstreamClaims _ _ _ => .ok ⟨"s", some "m@x", true, none⟩
  | .findVerifiedUser _ => some ⟨"u1", some "m@x", true, none, .active⟩
  | question => oracle ix question

def leg : FederationLeg := ⟨"up", Util.encodeBase64Url [2], "nonce", "verifier", 100, none⟩

/-- The interaction `ix` waits for the answer of `up`; `u1` has a passkey. -/
def atUpstream : List LinkStep :=
  [.outside (.interaction ix (.create
      { id := ix, kind := .authorize, status := .loginRequired
        bindingHash := Util.encodeBase64Url [1], clientId := some "app" } 0 600)) (oracle ix),
    .outside (.interaction ix (.patch { federation := some (some leg) } 0)) (oracle ix),
    .outside (.user "u1" (.init ⟨"u1", none, none, false, none, []⟩ 0 [])) (oracle ix),
    .outside (.user "u1" (.addPasskey
      ⟨"p", "c", [], 0, 0, [], none, false, false, none, .me⟩ 0 20)) (oracle ix)]

/-- The request makes its next `n` calls. -/
def answered (i n : ℕ) (issuer : String) : List LinkStep :=
  List.replicate n (.step i (federated issuer))

def callback : LinkStep :=
  .spawn (.callback false (some ⟨ix, [2]⟩) (some ⟨ix, [1]⟩) none (some "code"))

def challenge : LinkStep :=
  .outside (.interaction ix
    (.patch { passkeyChallenge := some (some ⟨"text", 100, none, none⟩) } 0))
    (oracle ix)

def reauth : LinkStep := .spawn (.reauth (api ix) false (some ⟨"c", some "u1"⟩))

/-- The callback leaves a candidate, a challenge is stored, and the re-authentication links the
candidate, with the record of the alias as it is then. -/
def linkedUnder (issuer : String) : List LinkStep :=
  (atUpstream ++ callback :: answered 0 12 "https://a" ++
    challenge :: reauth :: answered 1 15 issuer).reverse

/-- The run with `sha256` constant. -/
def linkedConfig (issuer : String) : LinkConfig :=
  (linkings fun _ => []).after .fresh (linkedUnder issuer)

end Sample

theorem linked_identity_validated_sample :
    ((Sample.linkedConfig "https://a").threads.any fun t =>
      t.log.any fun e => identityStored e.1 == some ("https://a", "s")) = true ∧
    ∀ t ∈ (Sample.linkedConfig "https://a").threads, t.request.isReauth = true →
      ∀ entry ∈ t.log, ∀ issuer subject, identityStored entry.1 = some (issuer, subject) →
      ValidatedBySome (Sample.linkedConfig "https://a") t.request.id issuer subject :=
  ⟨by decide +kernel, linked_identity_validated _ _ (by decide +kernel)⟩

def hasClaims : Entry Op.Answer → Bool
  | ⟨.ask (.upstreamClaims _ _ _), .ok _⟩ => true
  | _ => false

/-- The subject that one issuer has vouched for is linked under another. -/
theorem linked_identity_unvalidated :
    ¬ ∀ (sha256 : String → Bytes) (steps : List LinkStep),
      ∀ t ∈ ((linkings sha256).after .fresh steps).threads, t.request.isReauth = true →
      ∀ entry ∈ t.log, ∀ issuer subject, identityStored entry.1 = some (issuer, subject) →
      ValidatedBySome ((linkings sha256).after .fresh steps) t.request.id issuer subject := by
  intro hall
  have hlinked : ((Sample.linkedConfig "https://b").threads.any fun t => t.request.isReauth &&
      t.log.any fun e => identityStored e.1 == some ("https://b", "s")) = true := by
    decide +kernel
  have hnone : ((Sample.linkedConfig "https://b").threads.all fun t =>
      !(t.log.any (fun e => issuerRead e == some "https://b") && t.log.any hasClaims)) = true := by
    decide +kernel
  obtain ⟨t, ht, hboth⟩ := List.any_eq_true.mp hlinked
  obtain ⟨hreauth, hany⟩ := Bool.and_eq_true_iff.mp hboth
  obtain ⟨entry, hentry, hstored⟩ := List.any_eq_true.mp hany
  obtain ⟨t', ht', -, hvalidated⟩ :=
    hall _ _ t ht hreauth entry hentry "https://b" "s" (beq_iff_eq.mp hstored)
  obtain ⟨read, hread, hissuer⟩ := hvalidated.exists_issuerRead
  obtain ⟨recordAlias, code, leg, claims, upstream, older, hsuffix, -⟩ := hvalidated
  have hclaims : t'.log.any hasClaims = true :=
    List.any_eq_true.mpr ⟨_, hsuffix.subset List.mem_cons_self, rfl⟩
  have hissuers : t'.log.any (fun e => issuerRead e == some "https://b") = true :=
    List.any_eq_true.mpr ⟨read, hread, beq_iff_eq.mpr hissuer⟩
  have hthread := List.all_eq_true.mp hnone t' ht'
  rw [hissuers, hclaims] at hthread
  cases hthread

end TinyOidc.Interaction
