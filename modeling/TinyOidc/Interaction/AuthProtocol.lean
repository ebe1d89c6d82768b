import TinyOidc.Interaction.RequestSources
import TinyOidc.Interaction.WriteProtocol
import TinyOidc.User.AuthTimes

/-! What a login rests on. A request that stores an authentication was shown the interaction on
the binding secret it presents, and saw a passkey, a registration or an upstream login accepted
for it; a request that starts an interaction draws the secret after the time it starts it at. -/
namespace TinyOidc.Interaction
open TinyOidc.User TinyOidc.Util Threads
open Threads.Prog (Obeys Only)

/-! ### What a log shows -/

def Request.presents : Request → Option BindingRef
  | .getInteraction r | .abort r | .consent r _ | .passkeyOptions r | .passkeyVerify r _ _
  | .registerOptions r _ | .registerVerify r _ _ | .upstream r _ _ _ | .logoutDecision r _ =>
      r.binding
  | .federationCallback _ _ binding _ _ | .complete _ binding _ => binding
  | .par _ _ _ | .authorize _ _ | .logout _ _ | .listGrants _ => none

/-- The secret was drawn, some time after the clock had said `now`. -/
def Drew (log : Log) (secretHash : Bytes) (now : ℤ) : Prop :=
  ∃ older, (⟨.ask .newSecret, secretHash⟩ :: older : Log) <:+ log ∧ ⟨.ask .now, now⟩ ∈ older

/-- The document was shown to a request that presents its secret, and the clock said `now`. -/
structure ShownAt (q : Request) (log : Log) (id : String) (d : InteractionDocument) (now : ℤ) :
    Prop where
  seen : Seen log id d
  bound : ∃ binding, q.presents = some binding ∧ d.bindingHash = encodeBase64Url binding.secretHash
  clock : (⟨.ask .now, now⟩ : Entry Op.Answer) ∈ log

def ProfileOf (log : Log) (uid : String) (profile : UserProfile) : Prop :=
  ∃ call, (⟨.user uid call, .profile (.ok profile)⟩ : Entry Op.Answer) ∈ log

def HoldsIdentity (log : Log) (uid issuer subject : String) : Prop :=
  (∃ info now, (⟨.user uid (.touchIdentity issuer subject info now), .flag (.ok true)⟩ :
    Entry Op.Answer) ∈ log) ∨
  ∃ p now identities profile, (⟨.user uid (.init p now identities), .profile (.ok profile)⟩ :
    Entry Op.Answer) ∈ log ∧ ∃ identity ∈ identities, identity.issuer = issuer ∧
      identity.subject = subject

/-- A response to a challenge of the document was checked; a check that does not even start is
answered at once. -/
def CheckedAssertion (log : Log) (uid credentialId challenge : String) (profile : UserProfile)
    (passkey : PasskeyRow) : Prop :=
  ∃ call, (⟨.user uid call, .assertion (.done (.ok profile passkey))⟩ : Entry Op.Answer) ∈ log ∧
    ((∃ now, call = .verifyAssertion credentialId now) ∨
      ∃ suspended verified, call = .resumeAssertion suspended verified ∧
        (⟨.ask (.verifySignature credentialId challenge), verified⟩ : Entry Op.Answer) ∈ log)

/-- What establishes a user in an interaction, from the document the request was shown. -/
inductive Proved (log : Log) (id : String) (d : InteractionDocument) (now : ℤ) :
    UserProfile → AuthMethod → Prop where
  | assertion (uid credentialId : String) (challenge : PasskeyChallenge)
      (hchallenge : d.passkeyChallenge = some challenge) (unexpired : now < challenge.expiresAt)
      (profile : UserProfile) (passkey : PasskeyRow)
      (accepted : CheckedAssertion log uid credentialId challenge.value profile passkey) :
      Proved log id d now profile (passkeyAuthMethod passkey)
  | registration (uid : String) (challenge : PasskeyChallenge)
      (hchallenge : d.passkeyChallenge = some challenge) (unexpired : now < challenge.expiresAt)
      (pending : challenge.pendingUid = some uid) (verified : VerifiedPasskey)
      (accepted : (⟨.ask (.verifyRegistration challenge.value), .ok verified⟩ :
        Entry Op.Answer) ∈ log)
      (profile : UserProfile) (hprofile : ProfileOf log uid profile) (passkey : PasskeyRow)
      (added : ∃ input now' limit, (⟨.user uid (.addPasskey input now' limit),
        .passkey (.ok passkey)⟩ : Entry Op.Answer) ∈ log ∧
          input.credentialId = verified.credentialId) :
      Proved log id d now profile (passkeyAuthMethod passkey)
  | federation (leg : FederationLeg)
      (consumed : ∃ stateHash now', (⟨.interaction id (.consumeFederation stateHash now'),
        .ok (d, leg)⟩ : Entry Op.Answer) ∈ log)
      (upstream : Upstream) (hupstream : (⟨.ask (.upstream leg.upstreamAlias),
        some (some upstream)⟩ : Entry Op.Answer) ∈ log)
      (code : String) (claims : Resolved) (accepted : (⟨.ask (.upstreamClaims leg.upstreamAlias
        code leg), .ok claims⟩ : Entry Op.Answer) ∈ log)
      (uid : String) (profile : UserProfile) (hprofile : ProfileOf log uid profile)
      (holds : HoldsIdentity log uid upstream.issuer claims.sub) :
      Proved log id d now profile (federatedAuthMethod upstream)

/-- The request authenticated a user in the interaction, and `auth` is what it stored of that. -/
def LoggedIn (q : Request) (log : Log) (id : String) (auth : InteractionAuth) : Prop :=
  ∃ d now profile method, ShownAt q log id d now ∧ Proved log id d now profile method ∧
    auth = interactionAuth d profile method now

/-- At `now` the session of `/authorize` was good enough for the request, but for the consent. -/
def AskedConsent (log : Log) (request : AuthorizeRequest) (session : ExistingSession) (now : ℤ) :
    Prop :=
  ∃ ref client settings secretHash a,
    (⟨.user ref.uid (.authorizeWithSession
      (evaluationInput ref client request settings now secretHash)), .authorize (.ok a)⟩ :
        Entry Op.Answer) ∈ log ∧
      a.outcome = .consentRequired ∧ session = ⟨ref.uid, a.session.sid, a.session.authTime⟩

/-- At `now` the request took the pushed request that asks for `request`. -/
def Redeemed (log : Log) (id : String) (request : AuthorizeRequest) (now : ℤ) : Prop :=
  ∃ clientId bindingHash ttl d, (⟨.interaction id (.claimPushed clientId bindingHash now ttl),
    .ok d⟩ : Entry Op.Answer) ∈ log ∧ d.request = some request

/-- The interaction is bound to a secret that is drawn after `now`. -/
def BoundAfter (log : Log) (bindingHash : String) (now : ℤ) : Prop :=
  ∃ secretHash, bindingHash = encodeBase64Url secretHash ∧ Drew log secretHash now

/-- `/authorize` evaluates a request at the time its clock said. -/
structure Evaluates (q : Request) (log : Log) (now : ℤ) : Prop where
  authorize : ∃ params cookie, q = .authorize params cookie
  clock : (⟨.ask .now, now⟩ : Entry Op.Answer) ∈ log

/-- A completion that nobody has authenticated for: the code of the request goes to the session
that consent was asked on. -/
structure OnSession (q : Request) (log : Log) (uid : String) (input : AuthorizeWithSessionInput)
    (id : String) (d : InteractionDocument) (request : AuthorizeRequest)
    (session : ExistingSession) : Prop where
  behalf : q.behalf = some id
  seen : Seen log id d
  authorize : d.kind ≠ .logout
  ready : d.status = .ready
  auth : d.auth = none
  existing : d.existingSession = some session
  requested : d.request = some request
  uid : uid = session.uid
  sid : input.sid = session.sid
  code : ∃ clientId scope secretHash,
    input.code = some (requestCode request clientId scope secretHash)

/-- What the call of a user's object that may issue a code relies on. -/
def IssuesFor (q : Request) (log : Log) (uid : String) : Call → Prop
  | .finalizeLogin input => ∃ id d auth, q.behalf = some id ∧ Seen log id d ∧
      d.auth = some auth ∧ uid = auth.uid ∧ input.session.context = authContext auth
  | .authorizeWithSession input =>
      (∃ ref client request settings now secretHash, uid = ref.uid ∧ Evaluates q log now ∧
        Requested q log (some client.clientId) request request.scope ∧
        input = evaluationInput ref client request settings now secretHash) ∨
      ∃ id d request session, OnSession q log uid input id d request session
  | _ => True

/-- What a request relies on when it starts an interaction, moves it or issues a code for it. -/
def Proves (q : Request) (log : Log) : Op → Prop
  | .interaction _ (.create input now _) => BoundAfter log input.bindingHash now ∧
      (input.status = .consentRequired → ∃ request session, input.request = some request ∧
        input.existingSession = some session ∧ AskedConsent log request session now)
  | .interaction _ (.claimPushed _ bindingHash now _) => BoundAfter log bindingHash now
  | .interaction id (.apply operation target patch now) =>
      (∀ auth, patch.auth = some (some auth) → LoggedIn q log id auth) ∧
      (operation = .consumePar → ∃ request, Redeemed log id request now ∧
        (target = .consentRequired → ∃ session, patch.existingSession = some (some session) ∧
          AskedConsent log request session now))
  | .user uid call => IssuesFor q log uid call
  | _ => True

section Rules

variable {q : Request} {log log' : Log} {id : String} {d : InteractionDocument}

theorem Drew.grow {secretHash : Bytes} {now : ℤ} (h : Drew log secretHash now)
    (hsuffix : log <:+ log') : Drew log' secretHash now := by
  obtain ⟨older, hdrawn, hclock⟩ := h
  exact ⟨older, hdrawn.trans hsuffix, hclock⟩

theorem ShownAt.mono {now : ℤ} (h : ShownAt q log id d now) (hsub : log ⊆ log') :
    ShownAt q log' id d now := ⟨h.seen.mono hsub, h.bound, hsub h.clock⟩

theorem ProfileOf.mono {uid : String} {profile : UserProfile} (h : ProfileOf log uid profile)
    (hsub : log ⊆ log') : ProfileOf log' uid profile := by
  obtain ⟨call, hentry⟩ := h
  exact ⟨call, hsub hentry⟩

theorem HoldsIdentity.mono {uid issuer subject : String} (h : HoldsIdentity log uid issuer subject)
    (hsub : log ⊆ log') : HoldsIdentity log' uid issuer subject := by
  rcases h with ⟨info, now, htouched⟩ | ⟨p, now, identities, profile, hinit, hidentity⟩
  · exact .inl ⟨info, now, hsub htouched⟩
  · exact .inr ⟨p, now, identities, profile, hsub hinit, hidentity⟩

theorem CheckedAssertion.mono {uid credentialId challenge : String} {profile : UserProfile}
    {passkey : PasskeyRow} (h : CheckedAssertion log uid credentialId challenge profile passkey)
    (hsub : log ⊆ log') : CheckedAssertion log' uid credentialId challenge profile passkey := by
  obtain ⟨call, hentry, hstart | ⟨suspended, verified, hcall, hverified⟩⟩ := h
  · exact ⟨call, hsub hentry, .inl hstart⟩
  · exact ⟨call, hsub hentry, .inr ⟨suspended, verified, hcall, hsub hverified⟩⟩

theorem Proved.mono {now : ℤ} {profile : UserProfile} {method : AuthMethod}
    (h : Proved log id d now profile method) (hsub : log ⊆ log') :
    Proved log' id d now profile method := by
  cases h with
  | assertion uid credentialId challenge hchallenge unexpired _ passkey accepted =>
    exact .assertion uid credentialId challenge hchallenge unexpired profile passkey
      (accepted.mono hsub)
  | registration uid challenge hchallenge unexpired pending verified accepted _ hprofile passkey
      added =>
    obtain ⟨input, now', limit, hadded, hcredential⟩ := added
    exact .registration uid challenge hchallenge unexpired pending verified (hsub accepted) profile
      (hprofile.mono hsub) passkey ⟨input, now', limit, hsub hadded, hcredential⟩
  | federation leg consumed upstream hupstream code claims accepted uid _ hprofile holds =>
    obtain ⟨stateHash, now', hconsumed⟩ := consumed
    exact .federation leg ⟨stateHash, now', hsub hconsumed⟩ upstream (hsub hupstream) code claims
      (hsub accepted) uid profile (hprofile.mono hsub) (holds.mono hsub)

theorem LoggedIn.mono {auth : InteractionAuth} (h : LoggedIn q log id auth) (hsub : log ⊆ log') :
    LoggedIn q log' id auth := by
  obtain ⟨d, now, profile, method, hshown, hproved, hauth⟩ := h
  exact ⟨d, now, profile, method, hshown.mono hsub, hproved.mono hsub, hauth⟩

theorem AskedConsent.mono {request : AuthorizeRequest} {session : ExistingSession} {now : ℤ}
    (h : AskedConsent log request session now) (hsub : log ⊆ log') :
    AskedConsent log' request session now := by
  obtain ⟨ref, client, settings, secretHash, a, hentry, hout, hsession⟩ := h
  exact ⟨ref, client, settings, secretHash, a, hsub hentry, hout, hsession⟩

theorem Redeemed.mono {request : AuthorizeRequest} {now : ℤ} (h : Redeemed log id request now)
    (hsub : log ⊆ log') : Redeemed log' id request now := by
  obtain ⟨clientId, bindingHash, ttl, d, hentry, hrequest⟩ := h
  exact ⟨clientId, bindingHash, ttl, d, hsub hentry, hrequest⟩

/-- A fresh secret binds the interaction, when the clock was read before. -/
theorem boundAfter_drawn {secretHash : Bytes} {now : ℤ}
    (hclock : (⟨.ask .now, now⟩ : Entry Op.Answer) ∈ log) :
    BoundAfter (⟨.ask .newSecret, secretHash⟩ :: log) (encodeBase64Url secretHash) now :=
  ⟨secretHash, rfl, log, List.suffix_refl _, hclock⟩

/-- Calls that issue no code rely on nothing. -/
theorem issuesFor_of_quiet {uid : String} {call : Call} (h : quietCall call = true) :
    IssuesFor q log uid call := by
  cases call with
  | finalizeLogin input => cases h
  | authorizeWithSession input => cases h
  | _ => trivial

theorem proves_of_quiet (log : Log) (op : Op) (h : Quiet op) : Proves q log op := by
  match op, h with
  | .ask _, _ => trivial
  | .user _ call, h => exact issuesFor_of_quiet h
  | .interaction _ _, ⟨_, rfl⟩ => trivial

variable {α β : Type}

theorem proves_ask {post : Log → α → Prop} {question : Question} {f : question.Answer → Handler α}
    (h : ∀ r, Obeys (Proves q) post (⟨.ask question, r⟩ :: log) (f r)) :
    Obeys (Proves q) post log (ask question >>= f) := Obeys.perform trivial h

theorem proves_user {post : Log → α → Prop} {uid : String} {call : Call} {f : Reply → Handler α}
    (hcall : IssuesFor q log uid call)
    (h : ∀ r, Obeys (Proves q) post (⟨.user uid call, r⟩ :: log) (f r)) :
    Obeys (Proves q) post log (userCall uid call >>= f) := Obeys.perform hcall h

theorem proves_interaction {post : Log → α → Prop} {id : String} {call : InteractionCall}
    {f : call.Answer → Handler α} (hcall : Proves q log (.interaction id call))
    (h : ∀ r, Obeys (Proves q) post (⟨.interaction id call, r⟩ :: log) (f r)) :
    Obeys (Proves q) post log (interactionCall id call >>= f) := Obeys.perform hcall h

theorem proves_quiet {post : Log → β → Prop} {p : Handler α} {f : α → Handler β}
    (hp : Only Quiet p) (h : ∀ log' a, log ⊆ log' → Obeys (Proves q) post log' (f a)) :
    Obeys (Proves q) post log (p >>= f) :=
  Obeys.bind ((hp.obeys proves_of_quiet).mono h)

theorem proves_bare {post : Log → β → Prop} {p : Handler α} {f : α → Handler β}
    (hp : Only Bare p) (h : ∀ log' a, log ⊆ log' → Obeys (Proves q) post log' (f a)) :
    Obeys (Proves q) post log (p >>= f) :=
  proves_quiet (hp.mono fun op hop => quiet_of_plain op (plain_of_bare op hop)) h

/-- A transition that stores no authentication and takes no pushed request. -/
theorem proves_apply {id : String} {operation : InteractionOperation} {target : InteractionStatus}
    {patch : TransitionPatch} {now : ℤ} (hop : operation ≠ .consumePar)
    (hpatch : patch.auth = none) :
    Proves q log (.interaction id (.apply operation target patch now)) := by
  refine ⟨fun auth hauth => ?_, fun h => absurd h hop⟩
  rw [hpatch] at hauth
  cases hauth

end Rules

/-! ### The login steps -/

variable {q : Request} {log : Log}

/-- The guard shows a request the document its cookie is for. -/
theorem guard_proves {r : ApiRequest} (hq : q.presents = r.binding) (isGet : Bool) :
    Obeys (Proves q) (fun log' result => ∀ g, result = .ok g → ShownAt q log' g.id g.doc g.now) log
      (guard r isGet) := by
  unfold guard
  refine proves_ask fun limited => ?_
  split
  · exact obeys_refused
  split
  · exact obeys_refused
  refine proves_ask fun settings => ?_
  cases settings with
  | none => exact obeys_refused
  | some settings =>
    dsimp only
    split
    · exact obeys_refused
    cases hbinding : r.binding with
    | none => exact obeys_refused
    | some binding =>
      dsimp only
      split
      · exact obeys_refused
      refine proves_ask fun now => proves_interaction trivial fun got => ?_
      cases got with
      | error e => exact obeys_refused
      | ok doc =>
        dsimp only
        split
        · exact obeys_refused
        next hpushed =>
        split
        · exact obeys_refused
        next hbound =>
        split
        · exact obeys_refused
        · intro g hg
          cases hg
          constructor
          · exact ⟨_, List.mem_cons_self, if_pos ⟨rfl, hpushed⟩⟩
          · exact ⟨binding, hq.trans hbinding, not_not.mp hbound⟩
          · simp

theorem countAttempt_proves (g : Guarded) :
    Obeys (Proves q) (fun log' _ => log ⊆ log') log (countAttempt g) := by
  refine proves_interaction trivial fun counted => ?_
  cases counted with
  | error e => exact List.subset_cons_self _ _
  | ok d => exact List.subset_cons_self _ _

/-- What is stored of an authentication was proved on the document that was shown. -/
theorem authenticateInteraction_proves {g : Guarded} (client : Client) {profile : UserProfile}
    {method : AuthMethod} {operation : InteractionOperation} (hop : operation ≠ .consumePar)
    (hshown : ShownAt q log g.id g.doc g.now)
    (hproved : Proved log g.id g.doc g.now profile method) :
    Obeys (Proves q) (fun _ _ => True) log
      (authenticateInteraction g client profile method operation) := by
  unfold authenticateInteraction
  split
  · exact proves_interaction (proves_apply hop rfl) fun _ => trivial
  · refine proves_bare (consentNeeded_bare _ _ _) fun log' needed hsub => ?_
    refine proves_interaction ⟨?_, fun h => absurd h hop⟩ fun applied => ?_
    · intro auth hauth
      cases hauth
      exact ⟨g.doc, g.now, profile, method, hshown.mono hsub, hproved.mono hsub, rfl⟩
    · cases applied with
      | error e => trivial
      | ok d => trivial

theorem passkeyOptionsHandler_proves (r : ApiRequest) (hq : q.presents = r.binding) :
    Obeys (Proves q) (fun _ _ => True) log (passkeyOptionsHandler r) := by
  unfold passkeyOptionsHandler
  refine Obeys.bind ((guard_proves hq false).mono fun log₁ guarded _ => ?_)
  cases guarded with
  | error response => trivial
  | ok g =>
    dsimp only
    split
    · trivial
    refine Obeys.bind ((countAttempt_proves g).mono fun log₂ counted _ => ?_)
    cases counted with
    | some refused => trivial
    | none => exact proves_ask fun challenge => proves_interaction trivial fun _ => trivial

/-- An accepted assertion was checked against the challenge. -/
theorem verifyAssertion_proves (uid credentialId challenge : String) (now : ℤ) :
    Obeys (Proves q)
      (fun log' reply => log ⊆ log' ∧ ∀ profile passkey,
        reply = .assertion (.done (.ok profile passkey)) →
          CheckedAssertion log' uid credentialId challenge profile passkey) log
      (verifyAssertion uid credentialId challenge now) := by
  unfold verifyAssertion
  refine proves_user trivial fun reply => ?_
  split
  · next call =>
    refine proves_ask fun verified => ⟨trivial, fun resumed => ⟨?_, ?_⟩⟩
    · intro e he
      simp [he]
    · intro profile passkey hresumed
      refine ⟨.resumeAssertion call verified, ?_, .inr ⟨call, verified, rfl, ?_⟩⟩
      · rw [hresumed]
        exact List.mem_cons_self
      · exact List.mem_cons_of_mem _ List.mem_cons_self
  · refine ⟨List.subset_cons_self _ _, ?_⟩
    intro profile passkey hreply
    refine ⟨.verifyAssertion credentialId now, ?_, .inl ⟨now, rfl⟩⟩
    rw [hreply]
    exact List.mem_cons_self

theorem passkeyVerified_proves {g : Guarded} {profile : UserProfile} {passkey : PasskeyRow}
    (hshown : ShownAt q log g.id g.doc g.now)
    (hproved : Proved log g.id g.doc g.now profile (passkeyAuthMethod passkey)) :
    Obeys (Proves q) (fun _ _ => True) log (passkeyVerified g profile passkey) := by
  unfold passkeyVerified
  refine proves_bare (interactionClient_bare _) fun log₁ client hsub₁ => ?_
  cases client with
  | none => trivial
  | some client =>
    have hshown₁ := hshown.mono hsub₁
    have hproved₁ := hproved.mono hsub₁
    dsimp only
    split
    · split
      · trivial
      split
      · trivial
      refine proves_bare (linkIdentity_bare _ _) fun log₂ linked hsub₂ => ?_
      split
      · trivial
      · trivial
      · exact authenticateInteraction_proves client (by decide) (hshown₁.mono hsub₂)
          (hproved₁.mono hsub₂)
    · exact authenticateInteraction_proves client (by decide) hshown₁ hproved₁

theorem passkeyVerifyHandler_proves (r : ApiRequest) (malformed : Bool)
    (assertion : Option Assertion) (hq : q.presents = r.binding) :
    Obeys (Proves q) (fun _ _ => True) log (passkeyVerifyHandler r malformed assertion) := by
  unfold passkeyVerifyHandler
  refine Obeys.bind ((guard_proves hq false).mono fun log₁ guarded hguard => ?_)
  cases guarded with
  | error response => trivial
  | ok g =>
    have hshown := hguard g rfl
    dsimp only
    split
    · trivial
    refine Obeys.bind ((countAttempt_proves g).mono fun log₂ counted hsub₂ => ?_)
    cases counted with
    | some refused => trivial
    | none =>
      dsimp only
      split
      · trivial
      refine proves_interaction trivial fun cleared => ?_
      split
      · next challenge assertion hchallenge =>
        obtain ⟨hstored, hunexpired⟩ := Option.filter_eq_some_iff.mp hchallenge
        refine proves_bare (assertionUser_bare _) fun log₃ routed hsub₃ => ?_
        obtain ⟨uid, fromIndex⟩ := routed
        cases uid with
        | none => trivial
        | some uid =>
          refine Obeys.bind ((verifyAssertion_proves _ _ _ _).mono ?_)
          intro log₄ reply hchecked
          obtain ⟨hsub₄, haccepted⟩ := hchecked
          have hsub : log₁ ⊆ log₄ := fun e he => hsub₄ (hsub₃ (List.mem_cons_of_mem _ (hsub₂ he)))
          split
          · next profile passkey =>
            exact passkeyVerified_proves (hshown.mono hsub) (.assertion uid _ challenge hstored
              (of_decide_eq_true hunexpired) profile passkey (haccepted profile passkey rfl))
          · trivial
          · split
            · exact proves_ask fun _ => trivial
            · trivial
          · trivial
      · trivial

/-! ### Registration -/

theorem registerOptionsHandler_proves (r : ApiRequest) (body : Option RegisterOptionsBody)
    (hq : q.presents = r.binding) :
    Obeys (Proves q) (fun _ _ => True) log (registerOptionsHandler r body) := by
  unfold registerOptionsHandler
  refine Obeys.bind ((guard_proves hq false).mono fun log₁ guarded _ => ?_)
  cases guarded with
  | error response => trivial
  | ok g =>
    dsimp only
    split
    · trivial
    refine Obeys.bind ((countAttempt_proves g).mono fun log₂ counted _ => ?_)
    cases counted with
    | some refused => trivial
    | none =>
      cases body with
      | none => trivial
      | some body =>
        refine proves_bare (policy_bare g body) fun log₃ policed _ => ?_
        cases policed with
        | error response => trivial
        | ok invitation =>
          refine proves_bare (registrationDraft_bare _ _) fun log₄ drafted _ => ?_
          cases drafted with
          | error response => trivial
          | ok drafted =>
            refine proves_bare (unverifiedInUse_bare _) fun log₅ emailInUse _ => ?_
            exact proves_ask fun challenge => proves_interaction trivial fun _ => trivial

/-- The object of a new account answered with its profile, and it holds the identities. -/
theorem initializeUser_proves (p : InitProfile) (now : ℤ) (identities : List NewIdentity) :
    Obeys (Proves q)
      (fun log' result => log ⊆ log' ∧ ∀ profile, result = .ok profile →
        (⟨.user p.id (.init p now identities), .profile (.ok profile)⟩ : Entry Op.Answer) ∈ log')
      log (initializeUser p now identities) := by
  have hrefused : ∀ {log' : Log} {error : CreateUserError}, log ⊆ log' →
      log ⊆ log' ∧ ∀ profile, (.error error : Except CreateUserError UserProfile) = .ok profile →
        (⟨.user p.id (.init p now identities), .profile (.ok profile)⟩ : Entry Op.Answer) ∈
          log' := by
    intro log' error hsub
    refine ⟨hsub, ?_⟩
    intro profile hprofile
    cases hprofile
  unfold initializeUser
  refine proves_user trivial fun reply => ?_
  split
  · refine ⟨List.subset_cons_self _ _, ?_⟩
    intro profile hprofile
    cases hprofile
    exact List.mem_cons_self
  · exact hrefused (List.subset_cons_self _ _)
  · have hsub : ∀ {reply reply' : Reply},
        log ⊆ ⟨.user p.id (.init p now identities), reply'⟩ ::
          ⟨.user p.id (.init p now identities), reply⟩ :: log := by
      intro reply reply' e he
      simp [he]
    refine proves_user trivial fun reply' => ?_
    split
    · refine ⟨hsub, ?_⟩
      intro profile hprofile
      cases hprofile
      exact List.mem_cons_self
    · exact hrefused hsub

theorem createUser_proves (user : NewUser) (now : ℤ) :
    Obeys (Proves q)
      (fun log' result => log ⊆ log' ∧ ∀ profile, result = .ok profile → ∃ p,
        (⟨.user user.id (.init p now user.identities), .profile (.ok profile)⟩ :
          Entry Op.Answer) ∈ log') log (createUser user now) := by
  have hrefused : ∀ {log' : Log} {error : CreateUserError}, log ⊆ log' →
      log ⊆ log' ∧ ∀ profile, (.error error : Except CreateUserError UserProfile) = .ok profile →
        ∃ p, (⟨.user user.id (.init p now user.identities), .profile (.ok profile)⟩ :
          Entry Op.Answer) ∈ log' := by
    intro log' error hsub
    refine ⟨hsub, ?_⟩
    intro profile hprofile
    cases hprofile
  unfold createUser
  refine proves_bare (normalizedEmail_bare _) fun log₁ emailNorm hsub₁ => ?_
  refine proves_ask fun claimed => ?_
  have hsub₂ : log ⊆ ⟨.ask (.claimUser user now), claimed⟩ :: log₁ :=
    fun e he => List.mem_cons_of_mem _ (hsub₁ he)
  cases claimed with
  | error e => exact hrefused hsub₂
  | ok _ =>
    refine Obeys.bind ((initializeUser_proves _ _ _).mono ?_)
    intro log₃ initialized hinitialized
    obtain ⟨hsub₃, hprofile⟩ := hinitialized
    cases initialized with
    | error e => exact hrefused fun x hx => hsub₃ (hsub₂ hx)
    | ok profile =>
      refine proves_ask fun activated => ⟨?_, ?_⟩
      · exact fun e he => List.mem_cons_of_mem _ (hsub₃ (hsub₂ he))
      · intro profile' hsame
        cases hsame
        exact ⟨_, List.mem_cons_of_mem _ (hprofile profile rfl)⟩

theorem registrationAccount_proves (uid : String) (draft : RegistrationDraft) (now : ℤ) :
    Obeys (Proves q)
      (fun log' result => log ⊆ log' ∧ ∀ profile, result = .ok profile →
        ProfileOf log' uid profile) log (registrationAccount uid draft now) := by
  unfold registrationAccount
  split
  · refine Obeys.bind ((createUser_proves _ _).mono ?_)
    intro log₁ created hcreated
    obtain ⟨hsub₁, hprofile⟩ := hcreated
    split
    · next profile =>
      refine ⟨hsub₁, ?_⟩
      intro profile' hsame
      cases hsame
      obtain ⟨p, hentry⟩ := hprofile profile rfl
      exact ⟨_, hentry⟩
    · refine ⟨hsub₁, ?_⟩
      intro profile' hsame
      cases hsame
    · refine ⟨hsub₁, ?_⟩
      intro profile' hsame
      cases hsame
  · refine proves_user trivial fun reply => ?_
    split
    · refine proves_user trivial fun revoked => ⟨?_, ?_⟩
      · intro e he
        simp [he]
      · intro profile' hsame
        cases hsame
        exact ⟨_, List.mem_cons_of_mem _ List.mem_cons_self⟩
    · refine ⟨List.subset_cons_self _ _, ?_⟩
      intro profile' hsame
      cases hsame
    · refine ⟨List.subset_cons_self _ _, ?_⟩
      intro profile' hsame
      cases hsame

/-- A registered passkey was added to the object. -/
theorem registerPasskey_proves (uid : String) (passkey : NewPasskey) (now : ℤ) (maxPerUser : ℕ) :
    Obeys (Proves q)
      (fun log' result => log ⊆ log' ∧ ∀ added, result = .ok added →
        (⟨.user uid (.addPasskey passkey now maxPerUser), .passkey (.ok added)⟩ :
          Entry Op.Answer) ∈ log') log (registerPasskey uid passkey now maxPerUser) := by
  have hrefused : ∀ {log' : Log} {error : RegisterPasskeyError}, log ⊆ log' →
      log ⊆ log' ∧ ∀ added, (.error error : Except RegisterPasskeyError PasskeyRow) = .ok added →
        (⟨.user uid (.addPasskey passkey now maxPerUser), .passkey (.ok added)⟩ :
          Entry Op.Answer) ∈ log' := by
    intro log' error hsub
    refine ⟨hsub, ?_⟩
    intro added hadded
    cases hadded
  have hcons : ∀ {e e' : Entry Op.Answer}, log ⊆ e :: e' :: log := by
    intro e e' x hx
    simp [hx]
  unfold registerPasskey
  refine proves_ask fun holder => ?_
  split
  · exact hrefused (List.subset_cons_self _ _)
  refine proves_user trivial fun reply => ?_
  split
  · next added =>
    refine proves_bare (claimCredential_bare _ _ _) fun log₁ indexed hsub₁ => ?_
    have hadded := hsub₁ List.mem_cons_self
    split
    · refine ⟨fun e he => hsub₁ (hcons he), ?_⟩
      intro added' hsame
      cases hsame
      exact hadded
    · refine proves_user trivial fun removed => ?_
      exact hrefused fun e he => List.mem_cons_of_mem _ (hsub₁ (hcons he))
  · exact hrefused hcons
  · exact hrefused hcons
  · exact hrefused hcons

theorem registerVerified_proves {g : Guarded} {uid : String} {challenge : PasskeyChallenge}
    {verified : VerifiedPasskey} (hshown : ShownAt q log g.id g.doc g.now)
    (hchallenge : g.doc.passkeyChallenge = some challenge)
    (hunexpired : g.now < challenge.expiresAt)
    (hpending : challenge.pendingUid = some uid)
    (haccepted : (⟨.ask (.verifyRegistration challenge.value), .ok verified⟩ :
      Entry Op.Answer) ∈ log)
    (invitationId : Option String) (draft : RegistrationDraft) (name : Option String) :
    Obeys (Proves q) (fun _ _ => True) log
      (registerVerified g uid invitationId draft verified name) := by
  unfold registerVerified
  refine proves_bare (takeInvitation_bare _ _ _) fun log₁ taken hsub₁ => ?_
  cases taken with
  | some response => trivial
  | none =>
    refine Obeys.bind ((registrationAccount_proves _ _ _).mono ?_)
    intro log₂ account haccount
    obtain ⟨hsub₂, hprofile⟩ := haccount
    cases account with
    | error response => trivial
    | ok profile =>
      have hprofile₂ := hprofile profile rfl
      refine proves_ask fun id => Obeys.bind ((registerPasskey_proves _ _ _ _).mono ?_)
      intro log₃ registered hregistered
      obtain ⟨hsub₃, hadded⟩ := hregistered
      split
      · trivial
      · trivial
      · next passkey =>
        refine proves_bare (interactionClient_bare _) fun log₄ client hsub₄ => ?_
        cases client with
        | none => trivial
        | some client =>
          have hlast : log₂ ⊆ log₄ := fun e he => hsub₄ (hsub₃ (List.mem_cons_of_mem _ he))
          have hsub : log ⊆ log₄ := fun e he => hlast (hsub₂ (hsub₁ he))
          refine authenticateInteraction_proves client (by decide) (hshown.mono hsub) ?_
          exact .registration uid challenge hchallenge hunexpired hpending verified
            (hsub haccepted) profile (hprofile₂.mono hlast) passkey
            ⟨_, _, _, hsub₄ (hadded passkey rfl), rfl⟩

theorem registerVerifyHandler_proves (r : ApiRequest) (malformed : Bool) (name : Option String)
    (hq : q.presents = r.binding) :
    Obeys (Proves q) (fun _ _ => True) log (registerVerifyHandler r malformed name) := by
  unfold registerVerifyHandler
  refine Obeys.bind ((guard_proves hq false).mono fun log₁ guarded hguard => ?_)
  cases guarded with
  | error response => trivial
  | ok g =>
    have hshown := hguard g rfl
    dsimp only
    split
    · trivial
    refine Obeys.bind ((countAttempt_proves g).mono fun log₂ counted hsub₂ => ?_)
    cases counted with
    | some refused => trivial
    | none =>
      dsimp only
      split
      · trivial
      cases passkeyName name with
      | error _ => trivial
      | ok trimmed =>
        refine proves_interaction trivial fun cleared => ?_
        split
        · next value expiresAt uid invitationId draft hchallenge hdraft =>
          obtain ⟨hstored, hunexpired⟩ := Option.filter_eq_some_iff.mp hchallenge
          refine proves_ask fun verification => ?_
          split
          · trivial
          · trivial
          · next verified =>
            refine proves_ask fun holder => ?_
            split
            · trivial
            refine registerVerified_proves (hshown.mono ?_) hstored (of_decide_eq_true hunexpired)
              rfl ?_ _ _ _
            · intro e he
              simp [hsub₂ he]
            · simp
        · trivial

/-! ### Federation -/

theorem upstreamHandler_proves (r : ApiRequest) (malformed : Bool) (upstreamAlias : String)
    (invitation : Option String) (hq : q.presents = r.binding) :
    Obeys (Proves q) (fun _ _ => True) log
      (upstreamHandler r malformed upstreamAlias invitation) := by
  unfold upstreamHandler
  refine Obeys.bind ((guard_proves hq false).mono fun log₁ guarded _ => ?_)
  cases guarded with
  | error response => trivial
  | ok g =>
    dsimp only
    split
    · trivial
    split
    · trivial
    refine proves_ask fun record => ?_
    split
    · trivial
    split
    · trivial
    refine proves_bare (invitationId_bare _ _) fun log₂ opened _ => ?_
    split
    · trivial
    refine proves_ask fun metadata => ?_
    split
    · trivial
    refine proves_ask fun stateHash => proves_ask fun nonce => ?_
    refine proves_ask fun verifier => proves_interaction trivial fun patched => ?_
    split <;> trivial

/-- The account that a login through `issuer` leads to. -/
def Resolves (log : Log) (issuer subject : String) (profile : UserProfile) : Prop :=
  ∃ uid, ProfileOf log uid profile ∧ HoldsIdentity log uid issuer subject

theorem resolveHolder_proves (issuer subject : String) (claims : Resolved) (now : ℤ)
    (holder : IdentityHolder) :
    Obeys (Proves q)
      (fun log' result => log ⊆ log' ∧ ∀ profile, result = some (.user profile) →
        Resolves log' issuer subject profile) log
      (resolveHolder issuer subject claims now holder) := by
  unfold resolveHolder
  split
  · refine ⟨List.Subset.refl log, ?_⟩
    intro profile hprofile
    cases hprofile
  refine proves_user trivial fun touched => ?_
  split
  · refine proves_user trivial fun reply => ?_
    split
    · next profile =>
      refine ⟨?_, ?_⟩
      · intro e he
        simp [he]
      · intro profile' hsame
        cases hsame
        refine ⟨holder.userId, ⟨_, List.mem_cons_self⟩, .inl
          ⟨⟨claims.email, claims.emailVerified, claims.name⟩, now, ?_⟩⟩
        exact List.mem_cons_of_mem _ List.mem_cons_self
    · refine proves_ask fun released => ⟨?_, ?_⟩
      · intro e he
        simp [he]
      · intro profile hprofile
        cases hprofile
  · refine proves_ask fun released => ⟨?_, ?_⟩
    · intro e he
      simp [he]
    · intro profile hprofile
      cases hprofile

/-- The owner of an email is not signed in for it. -/
theorem resolveOwner_proves (claims : Resolved) (settings : Settings) :
    Obeys (Proves q)
      (fun log' result => log ⊆ log' ∧ ∀ profile, result ≠ some (.user profile)) log
      (resolveOwner claims settings) := by
  unfold resolveOwner
  split
  · refine ⟨List.Subset.refl log, ?_⟩
    intro profile hprofile
    cases hprofile
  · refine proves_ask fun owner => ?_
    cases owner with
    | none =>
      refine ⟨List.subset_cons_self _ _, ?_⟩
      intro profile hprofile
      cases hprofile
    | some owner =>
      dsimp only
      split
      · refine ⟨List.subset_cons_self _ _, ?_⟩
        intro profile hprofile
        cases hprofile
      · refine ⟨List.subset_cons_self _ _, ?_⟩
        intro profile hprofile
        cases hprofile

theorem takeLegInvitation_bare (now : ℤ) (invitation : Option InvitationRow) (uid : String) :
    Only Bare (resolveCreation.takeLegInvitation now invitation uid) := by
  unfold resolveCreation.takeLegInvitation
  split
  · trivial
  · exact only_ask rfl

theorem resolveCreation_proves (upstream : Upstream) (leg : FederationLeg) (claims : Resolved)
    (settings : Settings) (now : ℤ) :
    Obeys (Proves q)
      (fun log' result => log ⊆ log' ∧ ∀ profile, result = .user profile →
        Resolves log' upstream.issuer claims.sub profile) log
      (resolveCreation upstream leg claims settings now) := by
  have hrefused : ∀ {log' : Log} {fault : FederationFault}, log ⊆ log' →
      log ⊆ log' ∧ ∀ profile, Resolution.fail fault = .user profile →
        Resolves log' upstream.issuer claims.sub profile := by
    intro log' fault hsub
    refine ⟨hsub, ?_⟩
    intro profile hprofile
    cases hprofile
  unfold resolveCreation
  refine proves_bare (legInvitation_bare _ _) fun log₁ opened hsub₁ => ?_
  cases opened with
  | error fault => exact hrefused hsub₁
  | ok invitation =>
    dsimp only
    split
    · exact hrefused hsub₁
    refine proves_ask fun id => ?_
    refine proves_bare (takeLegInvitation_bare _ _ _) fun log₂ taken hsub₂ => ?_
    have hsub₂' : log ⊆ log₂ := fun e he => hsub₂ (List.mem_cons_of_mem _ (hsub₁ he))
    split
    · exact hrefused hsub₂'
    refine proves_ask fun identityId => ?_
    refine Obeys.bind ((createUser_proves _ _).mono ?_)
    intro log₃ created hcreated
    obtain ⟨hsub₃, hprofile⟩ := hcreated
    have hsub : log ⊆ log₃ := fun e he => hsub₃ (List.mem_cons_of_mem _ (hsub₂' he))
    cases created with
    | error e => exact hrefused hsub
    | ok profile =>
      refine ⟨hsub, ?_⟩
      intro profile' hsame
      cases hsame
      obtain ⟨p, hentry⟩ := hprofile profile rfl
      exact ⟨id, ⟨_, hentry⟩, .inr ⟨p, now, _, profile, hentry, _, List.mem_singleton.mpr rfl,
        rfl, rfl⟩⟩

theorem resolveAccount_proves (upstream : Upstream) (leg : FederationLeg) (claims : Resolved)
    (settings : Settings) :
    Obeys (Proves q)
      (fun log' result => log ⊆ log' ∧ ∀ profile, result = .user profile →
        Resolves log' upstream.issuer claims.sub profile) log
      (resolveAccount upstream leg claims settings) := by
  unfold resolveAccount
  refine proves_ask fun now => ?_
  have hlinked : Obeys (Proves q)
      (fun log' result => (⟨.ask .now, now⟩ :: log : Log) ⊆ log' ∧ ∀ profile,
        result = some (.user profile) → Resolves log' upstream.issuer claims.sub profile)
      (⟨.ask .now, now⟩ :: log) (resolveAccount.linked upstream claims now) := by
    unfold resolveAccount.linked
    refine proves_ask fun holder => ?_
    cases holder with
    | none =>
      refine ⟨List.subset_cons_self _ _, ?_⟩
      intro profile hprofile
      cases hprofile
    | some holder =>
      refine (resolveHolder_proves _ _ _ _ _).mono ?_
      intro log' result hresult
      exact ⟨fun e he => hresult.1 (List.mem_cons_of_mem _ he), hresult.2⟩
  refine Obeys.bind (hlinked.mono ?_)
  intro log₁ held hheld
  obtain ⟨hsub₁, hresolves⟩ := hheld
  have hsub₁' : log ⊆ log₁ := fun e he => hsub₁ (List.mem_cons_of_mem _ he)
  cases held with
  | some resolution =>
    refine ⟨hsub₁', ?_⟩
    intro profile hprofile
    exact hresolves profile (congrArg some hprofile)
  | none =>
    refine Obeys.bind ((resolveOwner_proves _ _).mono ?_)
    intro log₂ owned howned
    obtain ⟨hsub₂, hnever⟩ := howned
    have hsub₂' : log ⊆ log₂ := fun e he => hsub₂ (hsub₁' he)
    cases owned with
    | some resolution =>
      refine ⟨hsub₂', ?_⟩
      intro profile hprofile
      exact absurd (congrArg some hprofile) (hnever profile)
    | none =>
      refine (resolveCreation_proves _ _ _ _ _).mono ?_
      intro log₃ result hresult
      exact ⟨fun e he => hresult.1 (hsub₂' he), hresult.2⟩

theorem failInteraction_proves (id : String) (now : ℤ) (error description : String) :
    Obeys (Proves q) (fun _ _ => True) log (failInteraction id now error description) :=
  proves_interaction (proves_apply (by decide) rfl) fun _ => trivial

theorem federationResolved_proves {g : Guarded} {upstream : Upstream} {leg : FederationLeg}
    {claims : Resolved} (code : String) (hshown : ShownAt q log g.id g.doc g.now)
    (hconsumed : ∃ stateHash now, (⟨.interaction g.id (.consumeFederation stateHash now),
      .ok (g.doc, leg)⟩ : Entry Op.Answer) ∈ log)
    (hupstream : (⟨.ask (.upstream leg.upstreamAlias), some (some upstream)⟩ :
      Entry Op.Answer) ∈ log)
    (haccepted : (⟨.ask (.upstreamClaims leg.upstreamAlias code leg), .ok claims⟩ :
      Entry Op.Answer) ∈ log) :
    Obeys (Proves q) (fun _ _ => True) log (federationResolved g upstream leg claims) := by
  unfold federationResolved
  refine proves_bare (interactionClient_bare _) fun log₁ client hsub₁ => ?_
  cases client with
  | none => exact failInteraction_proves _ _ _ _
  | some client =>
    refine Obeys.bind ((resolveAccount_proves _ _ _ _).mono ?_)
    intro log₂ resolution hresolution
    obtain ⟨hsub₂, hresolves⟩ := hresolution
    have hsub : log ⊆ log₂ := fun e he => hsub₂ (hsub₁ he)
    cases resolution with
    | fail fault => exact failInteraction_proves _ _ _ _
    | link candidateUid =>
      refine proves_interaction (proves_apply (by decide) rfl) fun applied => ?_
      cases applied with
      | error e => trivial
      | ok d => trivial
    | user profile =>
      obtain ⟨uid, hprofile, hholds⟩ := hresolves profile rfl
      obtain ⟨stateHash, now, hentry⟩ := hconsumed
      refine Obeys.bind ((authenticateInteraction_proves client (by decide) (hshown.mono hsub)
        (.federation leg ⟨stateHash, now, hsub hentry⟩ upstream (hsub hupstream) code claims
          (hsub haccepted) uid profile hprofile hholds)).mono ?_)
      intro log₃ response _
      split <;> trivial

theorem federationAnswer_proves {g : Guarded} {leg : FederationLeg} (error code : Option String)
    (hshown : ShownAt q log g.id g.doc g.now)
    (hconsumed : ∃ stateHash now, (⟨.interaction g.id (.consumeFederation stateHash now),
      .ok (g.doc, leg)⟩ : Entry Op.Answer) ∈ log) :
    Obeys (Proves q) (fun _ _ => True) log (federationAnswer g leg error code) := by
  unfold federationAnswer
  split
  · exact failInteraction_proves _ _ _ _
  · exact failInteraction_proves _ _ _ _
  · next code _ =>
    refine proves_ask fun record => ?_
    split
    · exact failInteraction_proves _ _ _ _
    · exact failInteraction_proves _ _ _ _
    · next upstream =>
      split
      · exact failInteraction_proves _ _ _ _
      refine proves_ask fun metadata => ?_
      split
      · exact failInteraction_proves _ _ _ _
      refine proves_ask fun exchanged => ?_
      cases exchanged with
      | error fault => exact failInteraction_proves _ _ _ _
      | ok claims =>
        obtain ⟨stateHash, now, hentry⟩ := hconsumed
        refine federationResolved_proves code (hshown.mono ?_) ⟨stateHash, now, ?_⟩ ?_ ?_
        · intro e he
          simp [he]
        · simp [hentry]
        · simp
        · simp

theorem federationCallbackHandler_proves (malformed : Bool) (state : Option FederationRef)
    (binding : Option BindingRef) (error code : Option String) (hq : q.presents = binding) :
    Obeys (Proves q) (fun _ _ => True) log
      (federationCallbackHandler malformed state binding error code) := by
  unfold federationCallbackHandler
  refine proves_ask fun limited => ?_
  split
  · trivial
  refine proves_ask fun settings => ?_
  cases settings with
  | none => trivial
  | some settings =>
    dsimp only
    split
    · trivial
    split
    · trivial
    cases state with
    | none => trivial
    | some opened =>
      dsimp only
      split
      · trivial
      · next presented hpresented =>
        obtain ⟨hbinding, -⟩ := Option.filter_eq_some_iff.mp hpresented
        refine proves_ask fun now => proves_interaction trivial fun consumed => ?_
        cases consumed with
        | error e => trivial
        | ok opened =>
          obtain ⟨doc, leg⟩ := opened
          dsimp only
          split
          · trivial
          next hbound =>
          refine federationAnswer_proves _ _ ⟨?_, ?_, ?_⟩ ⟨_, _, List.mem_cons_self⟩
          · exact ⟨_, List.mem_cons_self, if_pos rfl⟩
          · exact ⟨presented, hq.trans hbinding, not_not.mp hbound⟩
          · simp

end TinyOidc.Interaction
