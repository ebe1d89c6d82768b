import TinyOidc.Interaction.Protocol

/-! The login steps keep to the protocol: each one acts on a document it has seen, and asks for
`ready` only where the user's grants cover the request. -/
namespace TinyOidc.Interaction
open TinyOidc.User Threads
open Threads.Prog (Obeys Only)

variable {q : Request} {log : Log}

/-! ### The login steps -/

/-- The guard shows the request an open document. -/
theorem guard_obeys (r : ApiRequest) (isGet : Bool) :
    Obeys (Permits q) (fun log' result => ∀ g, result = .ok g → Seen log' g.id g.doc) log
      (guard r isGet) := by
  unfold guard
  refine obeys_ask fun limited => ?_
  split
  · exact obeys_refused
  split
  · exact obeys_refused
  refine obeys_ask fun settings => ?_
  cases settings with
  | none => exact obeys_refused
  | some settings =>
    dsimp only
    split
    · exact obeys_refused
    cases r.binding with
    | none => exact obeys_refused
    | some binding =>
      dsimp only
      split
      · exact obeys_refused
      refine obeys_ask fun now => obeys_interactionCall trivial fun got => ?_
      cases got with
      | error e => exact obeys_refused
      | ok doc =>
        dsimp only
        split
        · exact obeys_refused
        next hpushed =>
        split
        · exact obeys_refused
        split
        · exact obeys_refused
        · rintro g ⟨⟩
          exact ⟨_, List.mem_cons_self, if_pos ⟨rfl, hpushed⟩⟩

/-- The record of an interaction's client comes from the directory. -/
theorem interactionClient_obeys (d : InteractionDocument) :
    Obeys (Permits q)
      (fun log' result => log ⊆ log' ∧ ∀ client, result = some client →
        ∃ clientId, d.clientId = some clientId ∧ directoryEntry clientId client ∈ log') log
      (interactionClient d) := by
  unfold interactionClient
  cases hclient : d.clientId with
  | none => exact ⟨List.Subset.refl log, nofun⟩
  | some clientId =>
    refine obeys_ask fun record => ⟨List.subset_cons_self _ _, fun client h => ⟨clientId, rfl, ?_⟩⟩
    have hrecord : record = some (some client) := Option.join_eq_some_iff.mp h
    subst hrecord
    exact List.mem_cons_self

/-- Where no consent is needed, the listing covered the request. -/
theorem consentNeeded_obeys (d : InteractionDocument) (client : Client) (uid : String) :
    Obeys (Permits q)
      (fun log' needed => log ⊆ log' ∧ (needed = false → Covered log' d client uid)) log
      (consentNeeded d client uid) := by
  unfold consentNeeded
  cases hrequest : d.request with
  | none => exact ⟨List.Subset.refl log, fun _ => .inr (.inl hrequest)⟩
  | some request =>
    dsimp only
    split
    · next hskip => exact ⟨List.Subset.refl log, fun _ => .inl hskip⟩
    split
    · exact ⟨List.Subset.refl log, nofun⟩
    refine obeys_userCall (.quiet _ rfl) fun reply =>
      ⟨List.subset_cons_self _ _, fun hcovered => ?_⟩
    refine .inr (.inr ⟨request, reply, hrequest, List.mem_cons_self, fun s hs => ?_⟩)
    have hall : request.scope.all (grantedScopes reply).contains = true := by simpa using hcovered
    simpa using List.all_eq_true.mp hall s hs

/-- An authentication asks for `ready` only where consent is covered. -/
theorem authenticateInteraction_obeys {g : Guarded} {client : Client} {clientId : String}
    (hseen : Seen log g.id g.doc) (hclient : g.doc.clientId = some clientId)
    (hrecord : directoryEntry clientId client ∈ log) (profile : UserProfile)
    (method : AuthMethod) {operation : InteractionOperation}
    (hop : operation = .authenticate ∨ operation = .link) :
    Obeys (Permits q) (fun _ _ => True) log
      (authenticateInteraction g client profile method operation) := by
  unfold authenticateInteraction
  cases loginRefusal g.doc client profile with
  | some description =>
    exact obeys_interactionCall (.failed operation _ description g.doc hseen) fun _ => trivial
  | none =>
    refine Obeys.bind ((consentNeeded_obeys g.doc client profile.id).mono ?_)
    rintro log' needed ⟨hsub, hcovered⟩
    refine obeys_interactionCall (.authenticated operation hop _ _ g.doc (hseen.mono hsub) clientId
      client hclient (hsub hrecord) ?_) fun applied => ?_
    · cases needed with
      | true => exact .inl rfl
      | false => exact .inr ⟨rfl, hcovered rfl⟩
    · cases applied with
      | error e => trivial
      | ok d => trivial

theorem countAttempt_obeys {g : Guarded} (hseen : Seen log g.id g.doc) :
    Obeys (Permits q) (fun log' _ => log ⊆ log') log (countAttempt g) := by
  refine obeys_interactionCall ⟨g.doc, hseen⟩ fun counted => ?_
  cases counted with
  | error e => exact List.subset_cons_self _ _
  | ok d => exact List.subset_cons_self _ _

/-! ### Plain programs -/

section Plain

variable {α : Type} {allowed : Op → Prop}

theorem only_ask {question : Question} (h : allowed (.ask question)) :
    Only allowed (ask question) := ⟨h, fun _ => trivial⟩

theorem only_ask_bind {question : Question} {f : question.Answer → Handler α}
    (h : allowed (.ask question)) (hf : ∀ r, Only allowed (f r)) :
    Only allowed (ask question >>= f) := ⟨h, hf⟩

theorem only_userCall_bind {uid : String} {call : Call}
    {f : Reply → Handler α} (hcall : allowed (.user uid call)) (h : ∀ r, Only allowed (f r)) :
    Only allowed (userCall uid call >>= f) := ⟨hcall, h⟩

theorem only_ite {c : Prop} [Decidable c] {p p' : Handler α} (h : Only allowed p)
    (h' : Only allowed p') : Only allowed (if c then p else p') := by
  split
  · exact h
  · exact h'

end Plain

theorem interactionClient_bare (d : InteractionDocument) : Only Bare (interactionClient d) := by
  unfold interactionClient
  split
  · trivial
  · exact only_ask_bind rfl fun record => trivial

theorem consentNeeded_bare (d : InteractionDocument) (client : Client) (uid : String) :
    Only Bare (consentNeeded d client uid) := by
  unfold consentNeeded
  split
  · trivial
  · refine only_ite trivial (only_ite trivial ?_)
    exact only_userCall_bind rfl fun reply => trivial

theorem linkIdentity_bare (uid : String) (link : LinkCandidate) :
    Only Bare (linkIdentity uid link) := by
  unfold linkIdentity
  refine only_ask_bind rfl fun now => only_ask_bind rfl ?_
  rintro (_ | _ | upstream)
  · trivial
  · trivial
  · refine only_ask_bind rfl fun inserted => only_ite trivial ?_
    refine only_ask_bind rfl fun id => only_userCall_bind rfl fun reply => ?_
    split
    · trivial
    · exact only_ask_bind rfl fun _ => trivial
    · trivial

/-- The check of an assertion is quiet, though not plain. -/
theorem verifyAssertion_quiet (uid credentialId challenge : String) (now : ℤ) :
    Only Quiet (verifyAssertion uid credentialId challenge now) := by
  unfold verifyAssertion
  refine only_userCall_bind rfl fun reply => ?_
  split
  · exact ⟨trivial, fun verified => ⟨rfl, fun _ => trivial⟩⟩
  · trivial

theorem assertionUser_bare (assertion : Assertion) : Only Bare (assertionUser assertion) := by
  unfold assertionUser
  split
  · trivial
  · exact only_ask_bind rfl fun uid => trivial

theorem initializeUser_plain (p : InitProfile) (now : ℤ) (identities : List NewIdentity) :
    Only Plain (initializeUser p now identities) := by
  unfold initializeUser
  refine only_userCall_bind rfl fun reply => ?_
  split
  · trivial
  · trivial
  · refine only_userCall_bind rfl fun retried => ?_
    split <;> trivial

theorem normalizedEmail_bare (email : Option String) : Only Bare (normalizedEmail email) := by
  unfold normalizedEmail
  split
  · trivial
  · exact only_ask_bind rfl fun normalized => trivial

theorem createUser_plain (user : NewUser) (now : ℤ) : Only Plain (createUser user now) := by
  unfold createUser
  refine Only.bind ((normalizedEmail_bare _).mono plain_of_bare) fun emailNorm =>
    only_ask_bind rfl ?_
  rintro (e | _)
  · trivial
  · refine Only.bind (initializeUser_plain _ _ _) ?_
    rintro (e | profile)
    · trivial
    · exact only_ask_bind rfl fun _ => trivial

theorem claimCredential_bare (credentialId uid : String) (now : ℤ) :
    Only Bare (claimCredential credentialId uid now) := by
  unfold claimCredential
  refine only_ask_bind rfl fun outcome => ?_
  split
  · exact only_ask rfl
  · trivial

theorem registerPasskey_bare (uid : String) (passkey : NewPasskey) (now : ℤ) (maxPerUser : ℕ) :
    Only Bare (registerPasskey uid passkey now maxPerUser) := by
  unfold registerPasskey
  refine only_ask_bind rfl fun holder => only_ite trivial ?_
  refine only_userCall_bind rfl fun added => ?_
  split
  · refine Only.bind (claimCredential_bare _ _ _) fun outcome => ?_
    split
    · trivial
    · exact only_userCall_bind rfl fun _ => trivial
  all_goals trivial

theorem emailRefusal_bare (email : Option String) (verified : Bool) :
    Only Bare (registrationDraft.emailRefusal email verified) := by
  unfold registrationDraft.emailRefusal
  split
  · trivial
  · refine only_ask_bind rfl fun valid => only_ite trivial (only_ite ?_ trivial)
    exact only_ask_bind rfl fun owner => only_ite trivial trivial

theorem registrationDraft_bare (body : RegisterOptionsBody) (invitation : Option InvitationRow) :
    Only Bare (registrationDraft body invitation) := by
  unfold registrationDraft
  split
  · refine only_ask_bind rfl fun target => ?_
    split
    · trivial
    · exact only_userCall_bind rfl fun _ => trivial
  · refine Only.bind (emailRefusal_bare _ _) ?_
    rintro (_ | response)
    · exact only_ask_bind rfl fun uid => trivial
    · trivial

theorem policy_bare (g : Guarded) (body : RegisterOptionsBody) :
    Only Bare (registerOptionsHandler.policy g body) := by
  unfold registerOptionsHandler.policy
  split
  · refine only_ask_bind rfl ?_
    rintro (fault | invitation) <;> trivial
  · exact only_ite trivial trivial

theorem unverifiedInUse_bare (draft : RegistrationDraft) :
    Only Bare (registerOptionsHandler.unverifiedInUse draft) := by
  unfold registerOptionsHandler.unverifiedInUse
  split
  · trivial
  · exact only_ask_bind rfl fun owner => trivial

theorem registrationAccount_plain (uid : String) (draft : RegistrationDraft) (now : ℤ) :
    Only Plain (registrationAccount uid draft now) := by
  unfold registrationAccount
  split
  · refine Only.bind (createUser_plain _ _) fun created => ?_
    split <;> trivial
  · refine only_userCall_bind rfl fun reply => ?_
    split
    · exact only_userCall_bind rfl fun _ => trivial
    · trivial
    · trivial

theorem takeInvitation_bare (invitationId : Option String) (uid : String) (now : ℤ) :
    Only Bare (takeInvitation invitationId uid now) := by
  unfold takeInvitation
  split
  · trivial
  · refine only_ask_bind rfl fun consumed => only_ite trivial (only_ask_bind rfl ?_)
    rintro (_ | row) <;> trivial

theorem invitationId_bare (g : Guarded) (invitation : Option String) :
    Only Bare (upstreamHandler.invitationId g invitation) := by
  unfold upstreamHandler.invitationId
  split
  · trivial
  · refine only_ask_bind rfl ?_
    rintro (fault | row)
    · trivial
    · exact only_ite trivial trivial

theorem resolveHolder_bare (issuer subject : String) (claims : Resolved) (now : ℤ)
    (holder : IdentityHolder) : Only Bare (resolveHolder issuer subject claims now holder) := by
  unfold resolveHolder
  refine only_ite trivial (only_userCall_bind rfl fun touched => ?_)
  split
  · refine only_userCall_bind rfl fun reply => ?_
    split
    · trivial
    · exact only_ask_bind rfl fun _ => trivial
  · exact only_ask_bind rfl fun _ => trivial

theorem resolveOwner_bare (claims : Resolved) (settings : Settings) :
    Only Bare (resolveOwner claims settings) := by
  unfold resolveOwner
  split
  · trivial
  · refine only_ask_bind rfl ?_
    rintro (_ | owner)
    · trivial
    · exact only_ite trivial trivial

theorem legInvitation_bare (leg : FederationLeg) (now : ℤ) :
    Only Bare (legInvitation leg now) := by
  unfold legInvitation
  split
  · trivial
  · refine only_ask_bind rfl fun row => ?_
    split <;> trivial

theorem resolveCreation_plain (upstream : Upstream) (leg : FederationLeg) (claims : Resolved)
    (settings : Settings) (now : ℤ) :
    Only Plain (resolveCreation upstream leg claims settings now) := by
  unfold resolveCreation
  refine Only.bind ((legInvitation_bare _ _).mono plain_of_bare) ?_
  rintro (fault | invitation)
  · trivial
  refine only_ite trivial
    (only_ask_bind rfl fun id => Only.bind ?_ fun taken => only_ite trivial ?_)
  · unfold resolveCreation.takeLegInvitation
    split
    · trivial
    · exact only_ask rfl
  · refine only_ask_bind rfl fun identityId => Only.bind (createUser_plain _ _) ?_
    rintro (e | profile) <;> trivial

/-- Before an account is created, the resolution only reads and cleans up. -/
theorem resolveAccount_only {allowed : Op → Prop} (hbare : ∀ op, Bare op → allowed op)
    {upstream : Upstream} {leg : FederationLeg} {claims : Resolved} {settings : Settings}
    (hcreation : ∀ now, Only allowed (resolveCreation upstream leg claims settings now)) :
    Only allowed (resolveAccount upstream leg claims settings) := by
  unfold resolveAccount
  refine only_ask_bind (hbare _ rfl) fun now => Only.bind ?_ ?_
  · unfold resolveAccount.linked
    refine only_ask_bind (hbare _ rfl) ?_
    rintro (_ | holder)
    · trivial
    · exact (resolveHolder_bare _ _ _ _ _).mono hbare
  · rintro (_ | resolution)
    · refine Only.bind ((resolveOwner_bare _ _).mono hbare) ?_
      rintro (_ | resolution)
      · exact hcreation now
      · trivial
    · trivial

theorem resolveAccount_plain (upstream : Upstream) (leg : FederationLeg) (claims : Resolved)
    (settings : Settings) : Only Plain (resolveAccount upstream leg claims settings) :=
  resolveAccount_only plain_of_bare fun _ => resolveCreation_plain _ _ _ _ _

theorem resolveClients_bare (clientIds : List String) : Only Bare (resolveClients clientIds) := by
  induction clientIds with
  | nil => trivial
  | cons clientId rest ih =>
    exact only_ask_bind rfl fun client => Only.bind ih fun refs => trivial

/-- A quiet program leaves the log at least as long. -/
theorem obeys_quiet {α β : Type} {post : Log → β → Prop} {p : Handler α} {f : α → Handler β}
    (hp : Only Quiet p)
    (h : ∀ log' a, log ⊆ log' → Obeys (Permits q) post log' (f a)) :
    Obeys (Permits q) post log (p >>= f) :=
  Obeys.bind ((hp.obeys permits_of_quiet).mono h)

theorem obeys_plain {α β : Type} {post : Log → β → Prop} {p : Handler α} {f : α → Handler β}
    (hp : Only Plain p)
    (h : ∀ log' a, log ⊆ log' → Obeys (Permits q) post log' (f a)) :
    Obeys (Permits q) post log (p >>= f) :=
  obeys_quiet (hp.mono quiet_of_plain) h

theorem obeys_bare {α β : Type} {post : Log → β → Prop} {p : Handler α} {f : α → Handler β}
    (hp : Only Bare p)
    (h : ∀ log' a, log ⊆ log' → Obeys (Permits q) post log' (f a)) :
    Obeys (Permits q) post log (p >>= f) :=
  obeys_plain (hp.mono plain_of_bare) h

/-! ### The handlers -/

theorem passkeyOptionsHandler_obeys (r : ApiRequest) :
    Obeys (Permits q) (fun _ _ => True) log (passkeyOptionsHandler r) := by
  unfold passkeyOptionsHandler
  refine Obeys.bind ((guard_obeys r false).mono ?_)
  rintro log' (response | g) hguard
  · trivial
  have hseen := hguard g rfl
  dsimp only
  split
  · trivial
  refine Obeys.bind ((countAttempt_obeys hseen).mono ?_)
  rintro log'' (_ | refused) hsub
  · refine obeys_ask fun challenge => obeys_interactionCall ⟨g.doc, ?_⟩ fun _ => trivial
    exact (hseen.mono hsub).cons
  · trivial

theorem passkeyVerified_obeys {g : Guarded} (hseen : Seen log g.id g.doc) (profile : UserProfile)
    (passkey : PasskeyRow) :
    Obeys (Permits q) (fun _ _ => True) log (passkeyVerified g profile passkey) := by
  unfold passkeyVerified
  refine Obeys.bind ((interactionClient_obeys g.doc).mono ?_)
  rintro log' (_ | client) ⟨hsub, hclient⟩
  · trivial
  obtain ⟨clientId, hclientId, hrecord⟩ := hclient client rfl
  dsimp only
  split
  · split
    · trivial
    · split
      · trivial
      refine obeys_bare (linkIdentity_bare _ _) ?_
      rintro log'' (_ | _ | _) hsub'
      · trivial
      · trivial
      · exact authenticateInteraction_obeys ((hseen.mono hsub).mono hsub') hclientId
          (hsub' hrecord) profile _ (.inr rfl)
  · exact authenticateInteraction_obeys (hseen.mono hsub) hclientId hrecord profile _ (.inl rfl)

theorem passkeyVerifyHandler_obeys (r : ApiRequest) (malformed : Bool)
    (assertion : Option Assertion) :
    Obeys (Permits q) (fun _ _ => True) log (passkeyVerifyHandler r malformed assertion) := by
  unfold passkeyVerifyHandler
  refine Obeys.bind ((guard_obeys r false).mono ?_)
  rintro log₁ (response | g) hguard
  · trivial
  have hseen := hguard g rfl
  dsimp only
  split
  · trivial
  refine Obeys.bind ((countAttempt_obeys hseen).mono ?_)
  rintro log₂ (_ | refused) hsub
  · dsimp only
    split
    · trivial
    refine obeys_interactionCall ⟨g.doc, hseen.mono hsub⟩ fun _ => ?_
    split
    · refine obeys_bare (assertionUser_bare _) fun log₃ routed hsub' => ?_
      split
      · trivial
      · refine obeys_quiet (verifyAssertion_quiet _ _ _ _) fun log₄ reply hsub'' => ?_
        split
        · exact passkeyVerified_obeys (((hseen.mono hsub).cons.mono hsub').mono hsub'') _ _
        · trivial
        · split
          · exact obeys_ask fun _ => trivial
          · trivial
        · trivial
    · trivial
  · trivial

theorem registerOptionsHandler_obeys (r : ApiRequest) (body : Option RegisterOptionsBody) :
    Obeys (Permits q) (fun _ _ => True) log (registerOptionsHandler r body) := by
  unfold registerOptionsHandler
  refine Obeys.bind ((guard_obeys r false).mono ?_)
  rintro log₁ (response | g) hguard
  · trivial
  have hseen := hguard g rfl
  dsimp only
  split
  · trivial
  refine Obeys.bind ((countAttempt_obeys hseen).mono ?_)
  rintro log₂ (_ | refused) hsub
  · cases body with
    | none => trivial
    | some body =>
      refine obeys_bare (policy_bare _ _) ?_
      rintro log₃ (response | invitation) hsub₃
      · trivial
      refine obeys_bare (registrationDraft_bare _ _) ?_
      rintro log₄ (response | ⟨uid, draft⟩) hsub₄
      · trivial
      refine obeys_bare (unverifiedInUse_bare _) fun log₅ emailInUse hsub₅ => ?_
      have hseen₅ := (((hseen.mono hsub).mono hsub₃).mono hsub₄).mono hsub₅
      exact obeys_ask fun challenge =>
        obeys_interactionCall ⟨g.doc, hseen₅.cons⟩ fun _ => trivial
  · trivial

theorem registerVerified_obeys {g : Guarded} (hseen : Seen log g.id g.doc) (uid : String)
    (invitationId : Option String) (draft : RegistrationDraft) (verified : VerifiedPasskey)
    (name : Option String) :
    Obeys (Permits q) (fun _ _ => True) log
      (registerVerified g uid invitationId draft verified name) := by
  unfold registerVerified
  refine obeys_bare (takeInvitation_bare _ _ _) ?_
  rintro log₁ (_ | response) hsub₁
  · refine obeys_plain (registrationAccount_plain _ _ _) ?_
    rintro log₂ (response | profile) hsub₂
    · trivial
    refine obeys_ask fun id => obeys_bare (registerPasskey_bare _ _ _ _) ?_
    intro log₃ registered hsub₃
    have hseen₃ := ((hseen.mono hsub₁).mono hsub₂).cons.mono hsub₃
    split
    · trivial
    · trivial
    · refine Obeys.bind ((interactionClient_obeys g.doc).mono ?_)
      rintro log₄ (_ | client) ⟨hsub₄, hclient⟩
      · trivial
      obtain ⟨clientId, hclientId, hrecord⟩ := hclient client rfl
      exact authenticateInteraction_obeys (hseen₃.mono hsub₄) hclientId hrecord profile _ (.inl rfl)
  · trivial

theorem registerVerifyHandler_obeys (r : ApiRequest) (malformed : Bool) (name : Option String) :
    Obeys (Permits q) (fun _ _ => True) log (registerVerifyHandler r malformed name) := by
  unfold registerVerifyHandler
  refine Obeys.bind ((guard_obeys r false).mono ?_)
  rintro log₁ (response | g) hguard
  · trivial
  have hseen := hguard g rfl
  dsimp only
  split
  · trivial
  refine Obeys.bind ((countAttempt_obeys hseen).mono ?_)
  rintro log₂ (_ | refused) hsub
  · dsimp only
    split
    · trivial
    cases passkeyName name with
    | error _ => trivial
    | ok name =>
      refine obeys_interactionCall ⟨g.doc, hseen.mono hsub⟩ fun _ => ?_
      split
      · refine obeys_ask fun verification => ?_
        split
        · trivial
        · trivial
        · refine obeys_ask fun holder => ?_
          split
          · trivial
          · exact registerVerified_obeys (hseen.mono hsub).cons.cons.cons _ _ _ _ _
      · trivial
  · trivial

theorem upstreamHandler_obeys (r : ApiRequest) (malformed : Bool) (upstreamAlias : String)
    (invitation : Option String) :
    Obeys (Permits q) (fun _ _ => True) log
      (upstreamHandler r malformed upstreamAlias invitation) := by
  unfold upstreamHandler
  refine Obeys.bind ((guard_obeys r false).mono ?_)
  rintro log₁ (response | g) hguard
  · trivial
  have hseen := hguard g rfl
  dsimp only
  split
  · trivial
  split
  · trivial
  refine obeys_ask ?_
  rintro (_ | record)
  · trivial
  dsimp only
  split
  · trivial
  refine obeys_bare (invitationId_bare _ _) ?_
  rintro log₂ (response | invitationId) hsub
  · trivial
  refine obeys_ask fun metadata => ?_
  split
  · trivial
  refine obeys_ask fun stateHash => obeys_ask fun nonce => obeys_ask fun verifier => ?_
  refine obeys_interactionCall ⟨g.doc, (hseen.cons.mono hsub).cons.cons.cons.cons⟩ fun patched => ?_
  cases patched with
  | error _ => trivial
  | ok _ => trivial

theorem failInteraction_obeys {id : String} {d : InteractionDocument} (hseen : Seen log id d)
    (now : ℤ) (error description : String) :
    Obeys (Permits q) (fun _ _ => True) log (failInteraction id now error description) :=
  obeys_interactionCall (.failed _ error description d hseen) fun _ => trivial

theorem federationResolved_obeys {g : Guarded} (hseen : Seen log g.id g.doc) (upstream : Upstream)
    (leg : FederationLeg) (claims : Resolved) :
    Obeys (Permits q) (fun _ _ => True) log (federationResolved g upstream leg claims) := by
  unfold federationResolved
  refine Obeys.bind ((interactionClient_obeys g.doc).mono ?_)
  rintro log₁ (_ | client) ⟨hsub, hclient⟩
  · exact failInteraction_obeys (hseen.mono hsub) _ _ _
  obtain ⟨clientId, hclientId, hrecord⟩ := hclient client rfl
  refine obeys_plain (resolveAccount_plain _ _ _ _) ?_
  rintro log₂ (profile | candidateUid | fault) hsub₂
  · refine Obeys.bind ((authenticateInteraction_obeys ((hseen.mono hsub).mono hsub₂) hclientId
      (hsub₂ hrecord) profile _ (.inl rfl)).mono fun log₃ step _ => ?_)
    split <;> trivial
  · refine obeys_interactionCall (.linked _ g.doc ((hseen.mono hsub).mono hsub₂)) fun linked => ?_
    cases linked with
    | error _ => trivial
    | ok _ => trivial
  · exact failInteraction_obeys ((hseen.mono hsub).mono hsub₂) _ _ _

theorem federationAnswer_obeys {g : Guarded} (hseen : Seen log g.id g.doc) (leg : FederationLeg)
    (error code : Option String) :
    Obeys (Permits q) (fun _ _ => True) log (federationAnswer g leg error code) := by
  unfold federationAnswer
  split
  · exact failInteraction_obeys hseen _ _ _
  · exact failInteraction_obeys hseen _ _ _
  · refine obeys_ask ?_
    rintro (_ | _ | upstream)
    · exact failInteraction_obeys hseen.cons _ _ _
    · exact failInteraction_obeys hseen.cons _ _ _
    · dsimp only
      split
      · exact failInteraction_obeys hseen.cons _ _ _
      refine obeys_ask fun metadata => ?_
      split
      · exact failInteraction_obeys hseen.cons.cons _ _ _
      refine obeys_ask ?_
      rintro (fault | claims)
      · exact failInteraction_obeys hseen.cons.cons.cons _ _ _
      · exact federationResolved_obeys hseen.cons.cons.cons _ _ _

theorem federationCallbackHandler_obeys (malformed : Bool) (state : Option FederationRef)
    (binding : Option BindingRef) (error code : Option String) :
    Obeys (Permits q) (fun _ _ => True) log
      (federationCallbackHandler malformed state binding error code) := by
  unfold federationCallbackHandler
  refine obeys_ask fun limited => ?_
  split
  · trivial
  refine obeys_ask ?_
  rintro (_ | settings)
  · trivial
  dsimp only
  split
  · trivial
  split
  · trivial
  split
  · trivial
  split
  · trivial
  refine obeys_ask fun now => obeys_interactionCall trivial ?_
  rintro (_ | ⟨doc, leg⟩)
  · trivial
  dsimp only
  split
  · trivial
  · refine federationAnswer_obeys ⟨_, List.mem_cons_self, ?_⟩ _ _ _
    simp [openDocument]

end TinyOidc.Interaction
