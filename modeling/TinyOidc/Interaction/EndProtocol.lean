import TinyOidc.Interaction.AuthFlow

/-! Who ends a session, and where a logout leads. `/logout` ends the session that a valid hint
names; `/complete` ends the one a person has confirmed, or that of another account. Every other
request ends none, and leaves alone what documents say of a session and of a logout. -/
namespace TinyOidc.Interaction
open TinyOidc.User TinyOidc.Util Threads
open Threads.Prog (Obeys Only)
open TinyOidc.Oidc (matchRedirectUri)

/-! ### What a log shows -/

def Request.cookie : Request → SessionCookie
  | .authorize _ cookie | .complete _ _ cookie | .logout _ cookie => cookie
  | _ => .absent

/-- The user's object answered for the session of the cookie that the request presents. -/
inductive Presented (q : Request) (log : Log) : String → String → Prop where
  | found (ref : SessionRef) (hcookie : q.cookie.opened = some ref) (now : ℤ)
      (answer : SessionSnapshot × UserProfile)
      (hentry : (⟨.user ref.uid (.getSession ref.sid ref.secretHash now),
        .session (.ok answer)⟩ : Entry Op.Answer) ∈ log) :
      Presented q log ref.uid ref.sid
  | evaluated (ref : SessionRef) (hcookie : q.cookie.opened = some ref) (client : ClientRef)
      (request : AuthorizeRequest) (settings : Settings) (now : ℤ) (secretHash : Bytes)
      (a : Authorized) (hentry : (⟨.user ref.uid (.authorizeWithSession
        (evaluationInput ref client request settings now secretHash)), .authorize (.ok a)⟩ :
          Entry Op.Answer) ∈ log) :
      Presented q log ref.uid a.session.sid

/-- The URI is where a logout request asked to go, and its client has registered it. -/
def Registered (q : Request) (log : Log) (uri : String) : Prop :=
  ∃ params cookie clientId client, q = .logout (some params) cookie ∧
    params.postLogoutRedirectUri = some uri ∧ directoryEntry clientId client ∈ log ∧
    (params.clientId = some clientId ∨ ∃ sub sid, params.hint = .valid sub sid clientId) ∧
    (matchRedirectUri params.parse client.postLogoutRedirectUris uri).isSome = true

/-- What a logout interaction starts with: nothing is decided about the session of the cookie. -/
structure AsksAbout (q : Request) (log : Log) (logout : LogoutRequest) : Prop where
  asked : ∃ params cookie, q = .logout (some params) cookie
  session : ∃ uid sid, logout.uid = some uid ∧ logout.sid = some sid ∧ Presented q log uid sid
  destination : ∀ uri, logout.postLogoutRedirectUri = some uri → Registered q log uri
  undecided : logout.decision = none

/-- The person's decision on the document that was shown, and nothing else of it. -/
def DecidesLogout (q : Request) (log : Log) (id : String) (logout : LogoutRequest) : Prop :=
  ∃ r confirm d now prior, q = .logoutDecision r (some confirm) ∧ r.id = id ∧
    ShownAt q log id d now ∧ d.logout = some prior ∧
    logout = { prior with decision := some (if confirm then .confirm else .decline) }

structure CompletesFor (q : Request) (log : Log) (id : String) (d : InteractionDocument) :
    Prop where
  behalf : ∃ binding cookie, q = .complete id binding cookie
  seen : Seen log id d
  bound : ∃ binding, q.presents = some binding ∧ d.bindingHash = encodeBase64Url binding.secretHash

inductive EndsFor (q : Request) (log : Log) (uid sid : String) : String → Prop where
  | hinted (params : LogoutParams) (cookie : SessionCookie) (hq : q = .logout (some params) cookie)
      (sub audience : String) (hint : params.hint = .valid sub (some sid) audience)
      (client : Client) (record : directoryEntry audience client ∈ log)
      (owner : uid = sub ∨ ∃ ref, cookie.opened = some ref ∧ ref.uid = uid ∧ ref.sid = sid) :
      EndsFor q log uid sid "rp_logout"
  | confirmed (id : String) (d : InteractionDocument) (completes : CompletesFor q log id d)
      (ref : SessionRef) (hcookie : q.cookie.opened = some ref) (logout : LogoutRequest)
      (hlogout : d.logout = some logout) (hconfirm : logout.decision = some .confirm)
      (hsid : logout.sid = some sid) (huid : logout.uid = some uid)
      (own : ref.uid = uid ∧ ref.sid = sid) :
      EndsFor q log uid sid "logout"
  | replaced (id : String) (d : InteractionDocument) (completes : CompletesFor q log id d)
      (auth : InteractionAuth) (hauth : d.auth = some auth) (existing : ExistingSession)
      (hexisting : d.existingSession = some existing) (huid : existing.uid = uid)
      (hsid : existing.sid = sid) (other : auth.uid ≠ uid) :
      EndsFor q log uid sid "reauth"

/-- What a call of a user's object relies on when it ends a session. -/
def EndsBy (q : Request) (log : Log) (uid : String) : Call → Prop
  | .revokeSession sid _ reason => EndsFor q log uid sid reason
  | _ => True

/-- What a request relies on when it ends a session or says something of one in a document. -/
def Ends (q : Request) (log : Log) : Op → Prop
  | .interaction _ (.create input _ _) =>
      (∀ session, input.existingSession = some session → Presented q log session.uid session.sid) ∧
      ∀ logout, input.logout = some logout → input.status ≠ .pushed ∧ AsksAbout q log logout
  | .interaction id (.apply _ _ patch _) =>
      (∀ session, patch.existingSession = some (some session) →
        Presented q log session.uid session.sid) ∧
      ∀ logout, patch.logout = some (some logout) → DecidesLogout q log id logout
  | .user uid call => EndsBy q log uid call
  | _ => True

/-- Where a completion or a logout sends the browser when no client waits for a result. -/
def Leads (q : Request) (log : Log) : Response → Prop
  | .toPostLogout (some uri) _ => Registered q log uri ∨
      ∃ id d logout, Seen log id d ∧ d.logout = some logout ∧
        logout.postLogoutRedirectUri = some uri
  | _ => True

section Grow

variable {q : Request} {log log' : Log}

theorem Presented.mono {uid sid : String} (h : Presented q log uid sid) (hsub : log ⊆ log') :
    Presented q log' uid sid := by
  cases h with
  | found ref hcookie now answer hentry => exact .found ref hcookie now answer (hsub hentry)
  | evaluated ref hcookie client request settings now secretHash a hentry =>
    exact .evaluated ref hcookie client request settings now secretHash a (hsub hentry)

theorem Registered.mono {uri : String} (h : Registered q log uri) (hsub : log ⊆ log') :
    Registered q log' uri := by
  obtain ⟨params, cookie, clientId, client, hq, huri, hrecord, hrest⟩ := h
  exact ⟨params, cookie, clientId, client, hq, huri, hsub hrecord, hrest⟩

theorem AsksAbout.mono {logout : LogoutRequest} (h : AsksAbout q log logout) (hsub : log ⊆ log') :
    AsksAbout q log' logout := by
  obtain ⟨uid, sid, huid, hsid, hpresented⟩ := h.session
  exact ⟨h.asked, ⟨uid, sid, huid, hsid, hpresented.mono hsub⟩,
    fun uri huri => (h.destination uri huri).mono hsub, h.undecided⟩

theorem CompletesFor.mono {id : String} {d : InteractionDocument} (h : CompletesFor q log id d)
    (hsub : log ⊆ log') : CompletesFor q log' id d := ⟨h.behalf, h.seen.mono hsub, h.bound⟩

theorem EndsFor.mono {uid sid reason : String} (h : EndsFor q log uid sid reason)
    (hsub : log ⊆ log') : EndsFor q log' uid sid reason := by
  cases h with
  | hinted params cookie hq sub audience hint client record owner =>
    exact .hinted params cookie hq sub audience hint client (hsub record) owner
  | confirmed id d completes ref hcookie logout hlogout hconfirm hsid huid own =>
    exact .confirmed id d (completes.mono hsub) ref hcookie logout hlogout hconfirm hsid huid own
  | replaced id d completes auth hauth existing hexisting huid hsid other =>
    exact .replaced id d (completes.mono hsub) auth hauth existing hexisting huid hsid other

end Grow

/-! ### Requests that end no session -/

/-- Operations that end no session, start no interaction, and leave alone what documents say of
a session and of a logout. -/
def KeepsSessions : Op → Prop
  | .interaction _ (.create _ _ _) => False
  | .interaction _ (.apply _ _ patch _) => patch.existingSession = none ∧ patch.logout = none
  | .user _ (.revokeSession _ _ _) => False
  | _ => True

theorem keepsSessions_of_quiet (op : Op) (h : Quiet op) : KeepsSessions op := by
  cases op with
  | ask question => trivial
  | user uid call =>
    cases call with
    | revokeSession sid now reason => cases h
    | _ => trivial
  | interaction id call =>
    obtain ⟨now, rfl⟩ := h
    trivial

theorem ends_of_keepsSessions {q : Request} (log : Log) (op : Op) (h : KeepsSessions op) :
    Ends q log op := by
  cases op with
  | ask question => trivial
  | user uid call =>
    cases call with
    | revokeSession sid now reason => exact h.elim
    | _ => trivial
  | interaction id call =>
    cases call with
    | create input now ttl => exact h.elim
    | apply operation target patch now =>
      obtain ⟨hsession, hlogout⟩ := h
      constructor
      · intro session hsome
        rw [hsession] at hsome
        cases hsome
      · intro logout hsome
        rw [hlogout] at hsome
        cases hsome
    | _ => trivial

section Rules

variable {α β : Type}

theorem keeps_quiet {p : Handler α} {f : α → Handler β} (hp : Only Quiet p)
    (h : ∀ a, Only KeepsSessions (f a)) : Only KeepsSessions (p >>= f) :=
  (hp.mono keepsSessions_of_quiet).bind h

theorem keeps_plain {p : Handler α} {f : α → Handler β} (hp : Only Plain p)
    (h : ∀ a, Only KeepsSessions (f a)) : Only KeepsSessions (p >>= f) :=
  keeps_quiet (hp.mono quiet_of_plain) h

theorem keeps_bare {p : Handler α} {f : α → Handler β} (hp : Only Bare p)
    (h : ∀ a, Only KeepsSessions (f a)) : Only KeepsSessions (p >>= f) :=
  keeps_plain (hp.mono plain_of_bare) h

theorem keeps_ask {question : Question} {f : question.Answer → Handler α}
    (h : ∀ r, Only KeepsSessions (f r)) : Only KeepsSessions (ask question >>= f) :=
  Only.perform trivial h

theorem keeps_interaction {id : String} {call : InteractionCall} {f : call.Answer → Handler α}
    (hcall : KeepsSessions (.interaction id call)) (h : ∀ r, Only KeepsSessions (f r)) :
    Only KeepsSessions (interactionCall id call >>= f) := Only.perform hcall h

end Rules

theorem guard_quiet (r : ApiRequest) (isGet : Bool) : Only Quiet (guard r isGet) := by
  unfold guard
  refine only_ask_bind trivial fun limited => only_ite trivial (only_ite trivial ?_)
  refine only_ask_bind trivial fun settings => ?_
  cases settings with
  | none => trivial
  | some settings =>
    refine only_ite trivial ?_
    cases r.binding with
    | none => trivial
    | some binding =>
      refine only_ite trivial (only_ask_bind trivial fun now => ⟨⟨now, rfl⟩, fun got => ?_⟩)
      cases got with
      | error e => trivial
      | ok doc => exact only_ite trivial (only_ite trivial (only_ite trivial trivial))

theorem countAttempt_keeps (g : Guarded) : Only KeepsSessions (countAttempt g) := by
  refine keeps_interaction trivial fun counted => ?_
  cases counted with
  | error e => trivial
  | ok d => trivial

theorem authenticateInteraction_keeps (g : Guarded) (client : Client) (profile : UserProfile)
    (method : AuthMethod) (operation : InteractionOperation) :
    Only KeepsSessions (authenticateInteraction g client profile method operation) := by
  unfold authenticateInteraction
  split
  · exact keeps_interaction ⟨rfl, rfl⟩ fun _ => trivial
  · refine keeps_bare (consentNeeded_bare _ _ _) fun needed => ?_
    refine keeps_interaction ⟨rfl, rfl⟩ fun applied => ?_
    cases applied with
    | error e => trivial
    | ok d => trivial

theorem passkeyOptionsHandler_keeps (r : ApiRequest) :
    Only KeepsSessions (passkeyOptionsHandler r) := by
  unfold passkeyOptionsHandler
  refine keeps_quiet (guard_quiet r false) fun guarded => ?_
  cases guarded with
  | error response => trivial
  | ok g =>
    refine only_ite trivial ((countAttempt_keeps g).bind fun counted => ?_)
    cases counted with
    | some refused => trivial
    | none => exact keeps_ask fun challenge => keeps_interaction trivial fun _ => trivial

theorem passkeyVerified_keeps (g : Guarded) (profile : UserProfile) (passkey : PasskeyRow) :
    Only KeepsSessions (passkeyVerified g profile passkey) := by
  unfold passkeyVerified
  refine keeps_bare (interactionClient_bare _) fun client => ?_
  cases client with
  | none => trivial
  | some client =>
    refine only_ite ?_ (authenticateInteraction_keeps _ _ _ _ _)
    split
    · trivial
    refine only_ite trivial (keeps_bare (linkIdentity_bare _ _) fun linked => ?_)
    split
    · trivial
    · trivial
    · exact authenticateInteraction_keeps _ _ _ _ _

theorem passkeyVerifyHandler_keeps (r : ApiRequest) (malformed : Bool)
    (assertion : Option Assertion) :
    Only KeepsSessions (passkeyVerifyHandler r malformed assertion) := by
  unfold passkeyVerifyHandler
  refine keeps_quiet (guard_quiet r false) fun guarded => ?_
  cases guarded with
  | error response => trivial
  | ok g =>
    refine only_ite trivial ((countAttempt_keeps g).bind fun counted => ?_)
    cases counted with
    | some refused => trivial
    | none =>
      refine only_ite trivial (keeps_interaction trivial fun _ => ?_)
      split
      · refine keeps_bare (assertionUser_bare _) fun named => ?_
        obtain ⟨uid, fromIndex⟩ := named
        cases uid with
        | none => trivial
        | some uid =>
          refine keeps_quiet (verifyAssertion_quiet _ _ _ _) fun reply => ?_
          split
          · exact passkeyVerified_keeps _ _ _
          · trivial
          · exact only_ite (keeps_ask fun _ => trivial) trivial
          · trivial
      · trivial

theorem registerOptionsHandler_keeps (r : ApiRequest) (body : Option RegisterOptionsBody) :
    Only KeepsSessions (registerOptionsHandler r body) := by
  unfold registerOptionsHandler
  refine keeps_quiet (guard_quiet r false) fun guarded => ?_
  cases guarded with
  | error response => trivial
  | ok g =>
    refine only_ite trivial ((countAttempt_keeps g).bind fun counted => ?_)
    cases counted with
    | some refused => trivial
    | none =>
      cases body with
      | none => trivial
      | some body =>
        refine keeps_bare (policy_bare g body) fun opened => ?_
        cases opened with
        | error response => trivial
        | ok invitation =>
          refine keeps_bare (registrationDraft_bare body invitation) fun drafted => ?_
          cases drafted with
          | error response => trivial
          | ok named =>
            refine keeps_bare (unverifiedInUse_bare _) fun emailInUse => ?_
            exact keeps_ask fun challenge => keeps_interaction trivial fun _ => trivial

theorem registerVerified_keeps (g : Guarded) (uid : String) (invitationId : Option String)
    (draft : RegistrationDraft) (verified : VerifiedPasskey) (name : Option String) :
    Only KeepsSessions (registerVerified g uid invitationId draft verified name) := by
  unfold registerVerified
  refine keeps_bare (takeInvitation_bare _ _ _) fun taken => ?_
  cases taken with
  | some response => trivial
  | none =>
    refine keeps_plain (registrationAccount_plain _ _ _) fun account => ?_
    cases account with
    | error response => trivial
    | ok profile =>
      refine keeps_ask fun id => keeps_bare (registerPasskey_bare _ _ _ _) fun registered => ?_
      split
      · trivial
      · trivial
      · refine keeps_bare (interactionClient_bare _) fun client => ?_
        cases client with
        | none => trivial
        | some client => exact authenticateInteraction_keeps _ _ _ _ _

theorem registerVerifyHandler_keeps (r : ApiRequest) (malformed : Bool) (name : Option String) :
    Only KeepsSessions (registerVerifyHandler r malformed name) := by
  unfold registerVerifyHandler
  refine keeps_quiet (guard_quiet r false) fun guarded => ?_
  cases guarded with
  | error response => trivial
  | ok g =>
    refine only_ite trivial ((countAttempt_keeps g).bind fun counted => ?_)
    cases counted with
    | some refused => trivial
    | none =>
      refine only_ite trivial ?_
      split
      · trivial
      refine keeps_interaction trivial fun _ => ?_
      split
      · refine keeps_ask fun verified => ?_
        split
        · trivial
        · trivial
        · refine keeps_ask fun holder => ?_
          exact only_ite trivial (registerVerified_keeps _ _ _ _ _ _)
      · trivial

theorem upstreamHandler_keeps (r : ApiRequest) (malformed : Bool) (upstreamAlias : String)
    (invitation : Option String) :
    Only KeepsSessions (upstreamHandler r malformed upstreamAlias invitation) := by
  unfold upstreamHandler
  refine keeps_quiet (guard_quiet r false) fun guarded => ?_
  cases guarded with
  | error response => trivial
  | ok g =>
    refine only_ite trivial (only_ite trivial (keeps_ask fun upstream => ?_))
    split
    · trivial
    refine only_ite trivial (keeps_bare (invitationId_bare g invitation) fun opened => ?_)
    cases opened with
    | error response => trivial
    | ok invitationId =>
      refine keeps_ask fun reachable => only_ite trivial ?_
      refine keeps_ask fun stateHash => keeps_ask fun nonce => keeps_ask fun verifier => ?_
      refine keeps_interaction trivial fun patched => ?_
      cases patched with
      | error e => trivial
      | ok d => trivial

theorem failInteraction_keeps (id : String) (now : ℤ) (error description : String) :
    Only KeepsSessions (failInteraction id now error description) :=
  keeps_interaction ⟨rfl, rfl⟩ fun _ => trivial

theorem federationResolved_keeps (g : Guarded) (upstream : Upstream) (leg : FederationLeg)
    (claims : Resolved) : Only KeepsSessions (federationResolved g upstream leg claims) := by
  unfold federationResolved
  refine keeps_bare (interactionClient_bare _) fun client => ?_
  cases client with
  | none => exact failInteraction_keeps _ _ _ _
  | some client =>
    refine keeps_plain (resolveAccount_plain _ _ _ _) fun resolution => ?_
    cases resolution with
    | fail fault => exact failInteraction_keeps _ _ _ _
    | link candidateUid =>
      refine keeps_interaction ⟨rfl, rfl⟩ fun applied => ?_
      cases applied with
      | error e => trivial
      | ok d => trivial
    | user profile =>
      refine (authenticateInteraction_keeps _ _ _ _ _).bind fun response => ?_
      split <;> trivial

theorem federationAnswer_keeps (g : Guarded) (leg : FederationLeg) (error code : Option String) :
    Only KeepsSessions (federationAnswer g leg error code) := by
  unfold federationAnswer
  split
  · exact failInteraction_keeps _ _ _ _
  · exact failInteraction_keeps _ _ _ _
  · refine keeps_ask fun upstream => ?_
    split
    · exact failInteraction_keeps _ _ _ _
    · exact failInteraction_keeps _ _ _ _
    refine only_ite (failInteraction_keeps _ _ _ _) (keeps_ask fun reachable => ?_)
    refine only_ite (failInteraction_keeps _ _ _ _) (keeps_ask fun claims => ?_)
    cases claims with
    | error fault => exact failInteraction_keeps _ _ _ _
    | ok claims => exact federationResolved_keeps _ _ _ _

theorem federationCallbackHandler_keeps (malformed : Bool) (state : Option FederationRef)
    (binding : Option BindingRef) (error code : Option String) :
    Only KeepsSessions (federationCallbackHandler malformed state binding error code) := by
  unfold federationCallbackHandler
  refine keeps_ask fun limited => only_ite trivial (keeps_ask fun settings => ?_)
  cases settings with
  | none => trivial
  | some settings =>
    refine only_ite trivial (only_ite trivial ?_)
    cases state with
    | none => trivial
    | some opened =>
      dsimp only
      split
      · trivial
      refine keeps_ask fun now => keeps_interaction trivial fun consumed => ?_
      cases consumed with
      | error e => trivial
      | ok found => exact only_ite trivial (federationAnswer_keeps _ _ _ _)

theorem getInteractionHandler_keeps (r : ApiRequest) :
    Only KeepsSessions (getInteractionHandler r) := by
  unfold getInteractionHandler
  refine keeps_quiet (guard_quiet r true) fun guarded => ?_
  cases guarded with
  | error response => trivial
  | ok g =>
    refine keeps_bare (interactionClient_bare _) fun client => ?_
    dsimp only
    split
    · refine only_ite (Only.perform trivial fun granted => ?_) trivial
      refine only_ite trivial (Only.perform trivial fun reply => ?_)
      split <;> trivial
    · trivial

theorem abortHandler_keeps (r : ApiRequest) : Only KeepsSessions (abortHandler r) := by
  unfold abortHandler
  refine keeps_quiet (guard_quiet r false) fun guarded => ?_
  cases guarded with
  | error response => trivial
  | ok g => exact keeps_interaction ⟨rfl, rfl⟩ fun _ => trivial

theorem consentHandler_keeps (r : ApiRequest) (decision : Option ConsentDecision) :
    Only KeepsSessions (consentHandler r decision) := by
  unfold consentHandler
  refine keeps_quiet (guard_quiet r false) fun guarded => ?_
  cases guarded with
  | error response => trivial
  | ok g =>
    dsimp only
    split
    · trivial
    refine only_ite trivial ?_
    split
    · trivial
    · exact keeps_interaction ⟨rfl, rfl⟩ fun _ => trivial
    refine only_ite trivial (keeps_bare (interactionClient_bare _) fun client => ?_)
    cases client with
    | none => trivial
    | some client =>
      dsimp only
      split
      · trivial
      refine Only.perform trivial fun reply => ?_
      split
      · exact keeps_interaction ⟨rfl, rfl⟩ fun _ => trivial
      · trivial
      · trivial

theorem listGrantsHandler_keeps (uid : String) : Only KeepsSessions (listGrantsHandler uid) := by
  unfold listGrantsHandler
  refine Only.perform trivial fun reply => ?_
  split
  · refine keeps_bare (resolveClients_bare _) fun refs => Only.perform trivial fun listed => ?_
    split <;> trivial
  · trivial

/-! ### Starting an interaction -/

variable {q : Request} {log : Log}

section Rules

variable {α β : Type} {post : Log → β → Prop}

theorem ends_ask {question : Question} {f : question.Answer → Handler β}
    (h : ∀ r, Obeys (Ends q) post (⟨.ask question, r⟩ :: log) (f r)) :
    Obeys (Ends q) post log (ask question >>= f) := Obeys.perform trivial h

theorem ends_user {uid : String} {call : Call} {f : Reply → Handler β}
    (hcall : EndsBy q log uid call)
    (h : ∀ r, Obeys (Ends q) post (⟨.user uid call, r⟩ :: log) (f r)) :
    Obeys (Ends q) post log (userCall uid call >>= f) := Obeys.perform hcall h

theorem ends_interaction {id : String} {call : InteractionCall} {f : call.Answer → Handler β}
    (hcall : Ends q log (.interaction id call))
    (h : ∀ r, Obeys (Ends q) post (⟨.interaction id call, r⟩ :: log) (f r)) :
    Obeys (Ends q) post log (interactionCall id call >>= f) := Obeys.perform hcall h

theorem ends_bare {p : Handler α} {f : α → Handler β} (hp : Only Bare p)
    (h : ∀ log' a, log ⊆ log' → Obeys (Ends q) post log' (f a)) :
    Obeys (Ends q) post log (p >>= f) := by
  have hkeeps : Only KeepsSessions p :=
    hp.mono fun op hop => keepsSessions_of_quiet op (quiet_of_plain op (plain_of_bare op hop))
  exact Obeys.bind ((hkeeps.obeys ends_of_keepsSessions).mono h)

/-- A transition that says nothing of a session or of a logout. -/
theorem ends_apply {id : String} {operation : InteractionOperation} {target : InteractionStatus}
    {patch : TransitionPatch} {now : ℤ} (hsession : patch.existingSession = none)
    (hlogout : patch.logout = none) :
    Ends q log (.interaction id (.apply operation target patch now)) :=
  ends_of_keepsSessions _ _ ⟨hsession, hlogout⟩

end Rules

theorem parHandler_ends (clientId : String) (hasRequestUri : Bool) (params : RequestParams) :
    Obeys (Ends q) (fun _ _ => True) log (parHandler clientId hasRequestUri params) := by
  unfold parHandler
  refine ends_ask fun limited => ?_
  split
  · trivial
  refine ends_ask fun record => ?_
  split
  · trivial
  split
  · trivial
  split
  · trivial
  split
  · trivial
  · trivial
  · refine ends_ask fun id => ends_ask fun now => ends_ask fun secretHash => ?_
    refine ends_interaction ⟨?_, ?_⟩ fun _ => trivial
    · intro session hsession
      cases hsession
    · intro logout hlogout
      cases hlogout

theorem startInteraction_ends {input : CreateInteraction}
    (hsession : ∀ session, input.existingSession = some session →
      Presented q log session.uid session.sid)
    (hlogout : ∀ logout, input.logout = some logout → input.status ≠ .pushed ∧
      AsksAbout q log logout) (now ttl : ℤ) :
    Obeys (Ends q) (fun _ _ => True) log (startInteraction input now ttl) := by
  unfold startInteraction
  refine ends_ask fun secretHash => ?_
  have hsub := List.subset_cons_self (⟨.ask .newSecret, secretHash⟩ : Entry Op.Answer) log
  refine ends_interaction ⟨?_, ?_⟩ fun created => ?_
  · exact fun session hsome => (hsession session hsome).mono hsub
  · intro logout hsome
    obtain ⟨hstatus, hasks⟩ := hlogout logout hsome
    exact ⟨hstatus, hasks.mono hsub⟩
  · cases created with
    | error e => trivial
    | ok d => trivial

/-- The session an evaluation names is the one of the cookie. -/
theorem evaluateSession_ends {cookie : SessionCookie} (hq : q.cookie = cookie) (client : ClientRef)
    (request : AuthorizeRequest) (settings : Settings) (now : ℤ) :
    Obeys (Ends q)
      (fun log' result => ∀ evaluation, result = some evaluation → ∀ session,
        evaluation.existingSession = some session → Presented q log' session.uid session.sid) log
      (evaluateSession cookie client request settings now) := by
  have hnone : ∀ {log' : Log} {outcome : EvaluationOutcome}, ∀ evaluation,
      some (⟨outcome, none, none⟩ : Evaluation) = some evaluation → ∀ session,
        evaluation.existingSession = some session → Presented q log' session.uid session.sid := by
    intro log' outcome evaluation hevaluation session hsession
    cases hevaluation
    cases hsession
  unfold evaluateSession
  split
  · exact hnone
  · next ref hopened =>
    refine ends_ask fun secretHash => ends_user trivial fun reply => ?_
    split
    · next a =>
      intro evaluation hevaluation session hsession
      cases hevaluation
      cases hsession
      exact .evaluated ref (hq ▸ hopened) client request settings now secretHash a
        List.mem_cons_self
    · exact hnone
    · exact hnone
    · intro evaluation hevaluation
      cases hevaluation

theorem authorizeFail_ends (pushed : Option String) (request : AuthorizeRequest) (now : ℤ)
    (error description : String) :
    Obeys (Ends q) (fun _ _ => True) log (authorizeFail pushed request now error description) := by
  cases pushed with
  | none => trivial
  | some id => exact ends_interaction (ends_apply rfl rfl) fun _ => trivial

theorem authorizeHit_ends (pushed : Option String) (request : AuthorizeRequest) (now : ℤ)
    (secretHash : Bytes) :
    Obeys (Ends q) (fun _ _ => True) log (authorizeHit pushed request now secretHash) := by
  cases pushed with
  | none => trivial
  | some id => exact ends_interaction (ends_apply rfl rfl) fun _ => trivial

theorem authorizeInteract_ends {existing : Option ExistingSession}
    (hsession : ∀ session, existing = some session → Presented q log session.uid session.sid)
    (pushed : Option String) (client : Client) (request : AuthorizeRequest) (settings : Settings)
    (now : ℤ) (status : InteractionStatus) :
    Obeys (Ends q) (fun _ _ => True) log
      (authorizeInteract pushed client request settings now status existing) := by
  cases pushed with
  | some id =>
    refine ends_interaction ⟨?_, ?_⟩ fun _ => trivial
    · intro session hsome
      exact hsession session (Option.some.inj hsome)
    · intro logout hlogout
      cases hlogout
  | none =>
    refine ends_ask fun id => Obeys.bind ((startInteraction_ends ?_ ?_ _ _).mono ?_)
    · exact fun session hsome => (hsession session hsome).mono (List.subset_cons_self _ _)
    · intro logout hlogout
      cases hlogout
    · intro log' started _
      cases started with
      | none => trivial
      | some id => trivial

theorem authorizeEvaluated_ends {cookie : SessionCookie} (hq : q.cookie = cookie)
    (pushed : Option String) (client : Client) (request : AuthorizeRequest) (settings : Settings)
    (now : ℤ) :
    Obeys (Ends q) (fun _ _ => True) log
      (authorizeEvaluated pushed client request settings now cookie) := by
  unfold authorizeEvaluated
  refine Obeys.bind ((evaluateSession_ends hq _ request settings now).mono ?_)
  intro log₁ evaluated hpresented
  cases evaluated with
  | none => trivial
  | some evaluation =>
    dsimp only
    split
    · exact authorizeHit_ends _ _ _ _
    · exact authorizeFail_ends _ _ _ _ _
    · split
      · exact authorizeFail_ends _ _ _ _ _
      · exact authorizeInteract_ends (hpresented evaluation rfl) _ _ _ _ _ _

theorem authorizeRequested_ends {cookie : SessionCookie} (hq : q.cookie = cookie)
    (params : AuthorizeParams) (client : Client) (settings : Settings) (now : ℤ) :
    Obeys (Ends q) (fun _ _ => True) log
      (authorizeRequested params client settings now cookie) := by
  unfold authorizeRequested
  split
  · split
    · trivial
    split
    · trivial
    · trivial
    · refine ends_ask fun secretHash => ends_interaction trivial fun claimed => ?_
      cases claimed with
      | error e => trivial
      | ok doc =>
        dsimp only
        split
        · trivial
        exact authorizeEvaluated_ends hq _ _ _ _ _
  · split
    · trivial
    split
    · trivial
    · trivial
    · exact authorizeEvaluated_ends hq _ _ _ _ _

theorem authorizeHandler_ends {cookie : SessionCookie} (hq : q.cookie = cookie)
    (params : Option AuthorizeParams) :
    Obeys (Ends q) (fun _ _ => True) log (authorizeHandler params cookie) := by
  unfold authorizeHandler
  refine ends_ask fun now => ends_ask fun settings => ?_
  cases settings with
  | none => trivial
  | some settings =>
    dsimp only
    split
    · trivial
    cases params with
    | none => trivial
    | some params =>
      dsimp only
      split
      · trivial
      refine ends_ask fun record => ?_
      cases record with
      | none => trivial
      | some record =>
        dsimp only
        split
        · trivial
        split
        · trivial
        · exact authorizeRequested_ends hq _ _ _ _

/-! ### Logout -/

/-- The guard shows a request the document its cookie is for, under the id it names. -/
theorem guard_ends {r : ApiRequest} (hq : q.presents = r.binding) (isGet : Bool) :
    Obeys (Ends q)
      (fun log' result => ∀ g, result = .ok g →
        g.id = r.id ∧ ShownAt q log' g.id g.doc g.now) log (guard r isGet) := by
  have hkeeps : Only KeepsSessions (guard r isGet) :=
    (guard_quiet r isGet).mono keepsSessions_of_quiet
  have hends : Obeys (Ends q) (fun log' _ => log ⊆ log') log (guard r isGet) :=
    hkeeps.obeys ends_of_keepsSessions
  have hall := (hends.and (guard_proves hq isGet)).and (guard_writes (q := q) r isGet)
  refine (hall.weaken fun _ _ h => h.1.1).mono ?_
  intro log' result h g hg
  exact ⟨(h.2 g hg).id, h.1.2 g hg⟩

theorem logoutDecisionHandler_ends (r : ApiRequest) (confirm : Option Bool)
    (hq : q = .logoutDecision r confirm) :
    Obeys (Ends q) (fun _ _ => True) log (logoutDecisionHandler r confirm) := by
  have hpresents : q.presents = r.binding := by
    rw [hq]
    rfl
  unfold logoutDecisionHandler
  refine Obeys.bind ((guard_ends hpresents false).mono fun log₁ guarded hguard => ?_)
  cases guarded with
  | error response => trivial
  | ok g =>
    obtain ⟨hid, hshown⟩ := hguard g rfl
    dsimp only
    split
    · trivial
    next logout hlogout =>
    split
    · trivial
    cases confirm with
    | none => trivial
    | some confirm =>
      refine ends_interaction ⟨?_, ?_⟩ fun applied => ?_
      · intro session hsession
        cases hsession
      · intro decided hdecided
        cases hdecided
        exact ⟨r, confirm, g.doc, g.now, logout, hq, hid.symm, hshown, hlogout, rfl⟩
      · cases applied with
        | error e => trivial
        | ok d => trivial

theorem endSession_ends {uid sid reason : String} (hends : EndsFor q log uid sid reason) :
    Obeys (Ends q) (fun log' _ => log ⊆ log') log (endSession uid sid reason) := by
  refine ends_ask fun now => ⟨?_, fun reply => ?_⟩
  · exact hends.mono (List.subset_cons_self _ _)
  · intro e he
    simp [he]

/-- A logout leads where its document says, if it says so. -/
theorem leads_of_seen {id : String} {d : InteractionDocument} (hseen : Seen log id d)
    {logout : LogoutRequest} (hlogout : d.logout = some logout) (state : Option String) :
    Leads q log (.toPostLogout logout.postLogoutRedirectUri state) := by
  cases huri : logout.postLogoutRedirectUri with
  | none => trivial
  | some uri => exact .inr ⟨id, d, logout, hseen, hlogout, huri⟩

section Complete

variable {id : String} {d : InteractionDocument}

theorem completeLogout_ends {cookie : SessionCookie} (hcookie : q.cookie = cookie)
    (hcompletes : CompletesFor q log id d) (now : ℤ) :
    Obeys (Ends q) (Leads q) log (completeLogout d id cookie now) := by
  unfold completeLogout
  split
  · trivial
  next logout hlogout =>
  have hcomplete : ∀ {log' : Log}, log ⊆ log' → Obeys (Ends q) (Leads q) log' (do
      let _ ← interactionCall id (.apply .complete .completed {} now)
      return .toPostLogout logout.postLogoutRedirectUri logout.state) := by
    intro log' hsub
    refine ends_interaction (ends_apply rfl rfl) fun applied => ?_
    exact leads_of_seen (hcompletes.seen.mono hsub).cons hlogout _
  split
  · next presented hopened =>
    split
    · next hown =>
      obtain ⟨-, hconfirm, hsid, huid⟩ := hown
      refine Obeys.bind ((endSession_ends ?_).mono fun log₁ ended hsub => hcomplete hsub)
      exact .confirmed id d hcompletes presented (hcookie ▸ hopened) logout hlogout hconfirm hsid
        huid ⟨rfl, rfl⟩
    · exact hcomplete (List.Subset.refl log)
  · exact hcomplete (List.Subset.refl log)

theorem finish_ends (request : AuthorizeRequest) (now : ℤ) (result : ClientResult) :
    Obeys (Ends q) (Leads q) log (finish id request now result) :=
  ends_interaction (ends_apply rfl rfl) fun _ => trivial

theorem completeOnSession_ends (request : AuthorizeRequest) (client : Client)
    (session : ExistingSession) (cookie : SessionCookie) (settings : Settings) (now : ℤ) :
    Obeys (Ends q) (Leads q) log
      (completeOnSession d id request client session cookie settings now) := by
  have hrestart : ∀ {log' : Log}, Obeys (Ends q) (Leads q) log'
      (completeOnSession.restart id now) := by
    intro log'
    refine ends_interaction ⟨?_, ?_⟩ fun _ => trivial
    · intro restarted hsession
      cases hsession
    · intro logout hlogout
      cases hlogout
  unfold completeOnSession
  refine ends_ask fun secretHash => ends_user trivial fun reply => ?_
  split
  · split
    · exact finish_ends _ _ _
    · exact hrestart
  · exact hrestart
  · trivial

theorem rotateSession_ends (auth : InteractionAuth) (code : CodeInput) (client : ClientRef)
    (secretHash : Bytes) (settings : Settings) (now : ℤ) :
    Obeys (Ends q) (fun log' _ => log ⊆ log') log
      (rotateSession d auth code client secretHash settings now) := by
  unfold rotateSession
  split
  · exact List.Subset.refl log
  split
  · exact List.Subset.refl log
  refine ends_user trivial fun reply => ?_
  split
  · exact List.subset_cons_self _ _
  · exact List.subset_cons_self _ _
  · exact List.subset_cons_self _ _
  · exact List.subset_cons_self _ _

/-- The session that ends is another account's. -/
theorem endOther_ends (hcompletes : CompletesFor q log id d) {auth : InteractionAuth}
    (hauth : d.auth = some auth) : Obeys (Ends q) (fun _ _ => True) log (endOther d auth.uid) := by
  unfold endOther
  split
  · trivial
  next existing hexisting =>
  split
  · next hother =>
    refine Obeys.bind ((endSession_ends ?_).mono fun _ _ _ => trivial)
    exact .replaced id d hcompletes auth hauth existing hexisting rfl rfl (Ne.symm hother)
  · trivial

theorem completeWithAuth_ends (hcompletes : CompletesFor q log id d) {auth : InteractionAuth}
    (hauth : d.auth = some auth) (request : AuthorizeRequest) (client : Client)
    (settings : Settings) (now : ℤ) :
    Obeys (Ends q) (Leads q) log (completeWithAuth d id request client auth settings now) := by
  unfold completeWithAuth
  refine ends_ask fun codeHash => ends_ask fun secretHash => ?_
  refine Obeys.bind ((rotateSession_ends _ _ _ _ _ _).mono fun log₁ rotated hsub₁ => ?_)
  have hcompletes₁ : CompletesFor q log₁ id d := by
    refine hcompletes.mono fun e he => hsub₁ ?_
    simp [he]
  cases rotated with
  | some result =>
    cases result with
    | ok _ => exact finish_ends _ _ _
    | error e =>
      cases e with
      | none => trivial
      | some e => exact finish_ends _ _ _
  | none =>
    refine Obeys.bind ((endOther_ends hcompletes₁ hauth).mono fun log₂ _ _ => ?_)
    refine ends_ask fun sid => ends_ask fun metadata => ends_user trivial fun reply => ?_
    split
    · exact finish_ends _ _ _
    · exact finish_ends _ _ _
    · trivial

theorem completeClaimed_ends {cookie : SessionCookie} (hcookie : q.cookie = cookie)
    (hcompletes : CompletesFor q log id d) (settings : Settings) (now : ℤ) :
    Obeys (Ends q) (Leads q) log (completeClaimed d id cookie settings now) := by
  unfold completeClaimed
  split
  · exact completeLogout_ends hcookie hcompletes now
  split
  · trivial
  split
  · exact finish_ends _ _ _
  unfold completeReady
  refine ends_bare (interactionClient_bare _) fun log₁ client hsub => ?_
  cases client with
  | none => exact finish_ends _ _ _
  | some client =>
    dsimp only
    split
    · next auth hauth => exact completeWithAuth_ends (hcompletes.mono hsub) hauth _ _ _ _
    · exact completeOnSession_ends _ _ _ _ _ _
    · exact finish_ends _ _ _

end Complete

theorem completeHandler_ends {id : String} {binding : Option BindingRef} {cookie : SessionCookie}
    (hq : q = .complete id binding cookie) :
    Obeys (Ends q) (Leads q) log (completeHandler id binding cookie) := by
  have hcookie : q.cookie = cookie := by
    rw [hq]
    rfl
  unfold completeHandler
  refine ends_ask fun settings => ?_
  cases settings with
  | none => trivial
  | some settings =>
    dsimp only
    split
    · trivial
    split
    · trivial
    split
    · trivial
    next presented hpresented =>
    refine ends_ask fun now => ends_interaction trivial fun got => ?_
    cases got with
    | error e => trivial
    | ok d =>
      dsimp only
      split
      · trivial
      next hpushed =>
      split
      · trivial
      next hbound =>
      split
      · trivial
      split
      · trivial
      refine ends_interaction trivial fun claimed => ?_
      cases claimed with
      | error e => trivial
      | ok d' =>
        refine completeClaimed_ends hcookie ⟨⟨binding, cookie, hq⟩, ?_, presented, ?_, ?_⟩ _ _
        · exact ⟨_, List.mem_cons_of_mem _ List.mem_cons_self, if_pos ⟨rfl, hpushed⟩⟩
        · rw [hq]
          exact (Option.filter_eq_some_iff.mp hpresented).1
        · exact not_not.mp hbound

/-- A destination that is kept of a logout request was registered. -/
theorem registered_of_registeredUri {params : LogoutParams} {cookie : SessionCookie}
    (hq : q = .logout (some params) cookie) {client : Option Client} {uri : String}
    (huri : registeredUri params client = some uri) {clientId : String}
    (hrecord : ∀ record, client = some record → directoryEntry clientId record ∈ log)
    (hnamed : params.clientId = some clientId ∨
      ∃ sub sid, params.hint = .valid sub sid clientId) : Registered q log uri := by
  obtain ⟨hrequested, hany⟩ := Option.filter_eq_some_iff.mp huri
  cases client with
  | none => cases hany
  | some client =>
    exact ⟨params, cookie, clientId, client, hq, hrequested, hrecord client rfl, hnamed, hany⟩

theorem leads_of_registered {uri : Option String}
    (h : ∀ requested, uri = some requested → Registered q log requested) (state : Option String) :
    Leads q log (.toPostLogout uri state) := by
  cases uri with
  | none => trivial
  | some requested => exact .inl (h requested rfl)

theorem logoutAsked_ends {params : LogoutParams} {cookie : SessionCookie}
    (hq : q = .logout (some params) cookie) {client : Option Client}
    (hregistered : ∀ uri, registeredUri params client = some uri → Registered q log uri)
    (settings : Settings) :
    Obeys (Ends q) (Leads q) log (logoutAsked params cookie settings client) := by
  have hcookie : q.cookie = cookie := by
    rw [hq]
    rfl
  unfold logoutAsked
  split
  · exact leads_of_registered hregistered _
  next ref hopened =>
  refine ends_ask fun now => ends_user trivial fun reply => ?_
  have hkept : ∀ {log' : Log}, log ⊆ log' → ∀ uri, registeredUri params client = some uri →
      Registered q log' uri := fun hsub uri huri => (hregistered uri huri).mono hsub
  split
  · next answer =>
    refine ends_ask fun now' => ends_ask fun id => ?_
    refine Obeys.bind ((startInteraction_ends ?_ ?_ _ _).mono ?_)
    · intro session hsession
      cases hsession
    · intro logout hlogout
      cases hlogout
      refine ⟨?_, ⟨params, cookie, hq⟩, ⟨ref.uid, ref.sid, rfl, rfl, ?_⟩, ?_, rfl⟩
      · intro hpushed
        cases hpushed
      · exact .found ref (hcookie ▸ hopened) now answer (by simp)
      · refine hkept fun e he => ?_
        simp [he]
    · intro log' started _
      cases started with
      | none => trivial
      | some id => trivial
  · refine leads_of_registered (hkept fun e he => ?_) _
    simp [he]
  · trivial

theorem logoutHinted_ends {params : LogoutParams} {cookie : SessionCookie}
    (hq : q = .logout (some params) cookie) {sub : String} {sid : Option String}
    {audience : String} (hhint : params.hint = .valid sub sid audience) :
    Obeys (Ends q) (Leads q) log (logoutHinted params cookie sub sid audience) := by
  unfold logoutHinted
  refine ends_ask fun record => ?_
  split
  · trivial
  next client hclient =>
  have hrecord : record = some (some client) := Option.join_eq_some_iff.mp hclient
  subst hrecord
  have hregistered : ∀ {log' : Log}, (directoryEntry audience client :: log : Log) ⊆ log' →
      ∀ uri, registeredUri params (some client) = some uri → Registered q log' uri := by
    intro log' hsub uri huri
    refine registered_of_registeredUri hq huri ?_ (.inr ⟨sub, sid, hhint⟩)
    intro found hfound
    cases hfound
    exact hsub List.mem_cons_self
  cases sid with
  | none => exact leads_of_registered (hregistered (List.Subset.refl _)) _
  | some sid =>
    refine Obeys.bind ((endSession_ends ?_).mono fun log₁ ended hsub =>
      leads_of_registered (hregistered hsub) _)
    refine .hinted params cookie hq sub audience hhint client List.mem_cons_self ?_
    cases hfilter : cookie.opened.filter (·.sid == sid) with
    | none => exact .inl rfl
    | some ref =>
      obtain ⟨hopened, hsid⟩ := Option.filter_eq_some_iff.mp hfilter
      exact .inr ⟨ref, hopened, rfl, by simpa using hsid⟩

theorem logoutHandler_ends (params : Option LogoutParams) (cookie : SessionCookie)
    (hq : q = .logout params cookie) :
    Obeys (Ends q) (Leads q) log (logoutHandler params cookie) := by
  unfold logoutHandler
  refine ends_ask fun limited => ?_
  split
  · trivial
  refine ends_ask fun settings => ?_
  cases settings with
  | none => trivial
  | some settings =>
    dsimp only
    split
    · trivial
    cases params with
    | none => trivial
    | some params =>
      dsimp only
      cases hhint : params.hint with
      | invalid => trivial
      | valid sub sid audience => exact logoutHinted_ends hq hhint
      | absent =>
        cases hclientId : params.clientId with
        | none =>
          refine logoutAsked_ends hq ?_ settings
          intro uri huri
          simp [registeredUri] at huri
        | some clientId =>
          refine ends_ask fun record => logoutAsked_ends hq ?_ settings
          intro uri huri
          refine registered_of_registeredUri hq huri ?_ (.inl hclientId)
          intro found hfound
          have hrecord : record = some (some found) := Option.join_eq_some_iff.mp hfound
          rw [hrecord]
          exact List.mem_cons_self

/-! ### All requests -/

/-- The requests that may lead to a destination after a logout. -/
def Request.signsOut : Request → Bool
  | .complete _ _ _ | .logout _ _ => true
  | _ => false

theorem obeys_of_keepsSessions {p : Handler Response} (h : Only KeepsSessions p) :
    Obeys (Ends q) (fun _ _ => True) log p :=
  (h.obeys ends_of_keepsSessions).mono fun _ _ _ => trivial

theorem leads_of_stays {p : Handler Response} (hq : q.signsOut = false)
    (h : Obeys (Ends q) (fun _ _ => True) log p) :
    Obeys (Ends q) (fun log' response => q.signsOut = true → Leads q log' response) log p := by
  refine h.mono fun log' response _ hout => ?_
  rw [hq] at hout
  cases hout

theorem deployment_leads (sha256 : String → Bytes) (q : Request) :
    Obeys (Ends q) (fun log response => q.signsOut = true → Leads q log response) []
      ((deployment sha256).start q) := by
  cases q with
  | par clientId hasRequestUri params => exact leads_of_stays rfl (parHandler_ends _ _ _)
  | authorize params cookie => exact leads_of_stays rfl (authorizeHandler_ends rfl _)
  | getInteraction r =>
    exact leads_of_stays rfl (obeys_of_keepsSessions (getInteractionHandler_keeps r))
  | abort r => exact leads_of_stays rfl (obeys_of_keepsSessions (abortHandler_keeps r))
  | consent r decision =>
    exact leads_of_stays rfl (obeys_of_keepsSessions (consentHandler_keeps r decision))
  | passkeyOptions r =>
    exact leads_of_stays rfl (obeys_of_keepsSessions (passkeyOptionsHandler_keeps r))
  | passkeyVerify r malformed assertion =>
    exact leads_of_stays rfl (obeys_of_keepsSessions (passkeyVerifyHandler_keeps r _ _))
  | registerOptions r body =>
    exact leads_of_stays rfl (obeys_of_keepsSessions (registerOptionsHandler_keeps r body))
  | registerVerify r malformed name =>
    exact leads_of_stays rfl (obeys_of_keepsSessions (registerVerifyHandler_keeps r _ _))
  | upstream r malformed upstreamAlias invitation =>
    exact leads_of_stays rfl (obeys_of_keepsSessions (upstreamHandler_keeps r _ _ _))
  | federationCallback malformed state binding error code =>
    exact leads_of_stays rfl (obeys_of_keepsSessions (federationCallbackHandler_keeps _ _ _ _ _))
  | logoutDecision r confirm => exact leads_of_stays rfl (logoutDecisionHandler_ends r confirm rfl)
  | complete id binding cookie => exact (completeHandler_ends rfl).mono fun _ _ hleads _ => hleads
  | logout params cookie =>
    exact (logoutHandler_ends params cookie rfl).mono fun _ _ hleads _ => hleads
  | listGrants uid =>
    exact leads_of_stays rfl (obeys_of_keepsSessions (listGrantsHandler_keeps uid))

/-- Every request ends sessions only for the reasons it has. -/
theorem deployment_ends (sha256 : String → Bytes) : (deployment sha256).Follows Ends :=
  fun q => (deployment_leads sha256 q).mono fun _ _ _ => trivial

end TinyOidc.Interaction
