import TinyOidc.Interaction.FlowProtocol
import TinyOidc.User.CodeRows

/-! Where the handlers take an authorization request from: its validation, a pushed request they
redeem, or a document they read. Most handlers take none: they store no request, decide on no
scopes, ask for no code and send nobody to the client. -/
namespace TinyOidc.Interaction
open TinyOidc.User Threads
open Threads.Prog (Obeys Only Yields)

/-! ### Requests and their scopes -/

def Request.params : Request → Option RequestParams
  | .par _ _ params => some params
  | .authorize (some params) _ => some params.toRequestParams
  | _ => none

/-- The parameters of `q` were validated against a record that the directory gave. -/
structure Checked (q : Request) (log : Log) (client : Client) (outcome : AuthorizeValidation) :
    Prop where
  record : ∃ clientId, directoryEntry clientId client ∈ log
  validated : ∃ params, q.params = some params ∧ params.validate client = outcome

/-- The request a handler works with, the client it is for, and the scopes of a code for it. -/
inductive Requested (q : Request) (log : Log) :
    Option String → AuthorizeRequest → List String → Prop where
  | checked (client : Client) (request : AuthorizeRequest)
      (h : Checked q log client (.ok request)) :
      Requested q log (some client.clientId) request request.scope
  | redeemed (id clientId bindingHash : String) (now ttl : ℤ) (behalf : q.behalf = some id)
      (d : InteractionDocument) (hlog : (⟨.interaction id (.claimPushed clientId bindingHash now
        ttl), .ok d⟩ : Entry Op.Answer) ∈ log) (request : AuthorizeRequest)
      (hrequest : d.request = some request) :
      Requested q log (some clientId) request request.scope
  | read (id : String) (behalf : q.behalf = some id) (d : InteractionDocument)
      (seen : Seen log id d) (request : AuthorizeRequest) (hrequest : d.request = some request) :
      Requested q log d.clientId request (d.consent.getD request.scope)

/-- The directory was asked for the client, and its record has this id. -/
def Names (log : Log) (clientId name : String) : Prop :=
  name = clientId ∨ ∃ client, directoryEntry clientId client ∈ log ∧ client.clientId = name

/-- The scopes a person consents to are some of the requested ones. -/
structure Narrows (scopes requested : List String) : Prop where
  openid : "openid" ∈ scopes
  distinct : scopes.Nodup
  within : ∀ s ∈ scopes, s = "openid" ∨ s ∈ requested

variable {q : Request} {log log' : Log}

theorem Checked.mono {client : Client} {outcome : AuthorizeValidation}
    (h : Checked q log client outcome) (hsub : log ⊆ log') : Checked q log' client outcome := by
  obtain ⟨clientId, hrecord⟩ := h.record
  exact ⟨⟨clientId, hsub hrecord⟩, h.validated⟩

theorem Requested.mono {clientId : Option String} {request : AuthorizeRequest}
    {scope : List String} (h : Requested q log clientId request scope) (hsub : log ⊆ log') :
    Requested q log' clientId request scope := by
  cases h with
  | checked client request h => exact .checked client request (h.mono hsub)
  | redeemed id clientId bindingHash now ttl behalf d hlog request hrequest =>
    exact .redeemed id clientId bindingHash now ttl behalf d (hsub hlog) request hrequest
  | read id behalf d seen request hrequest =>
    exact .read id behalf d (seen.mono hsub) request hrequest

theorem Names.mono {clientId name : String} (h : Names log clientId name) (hsub : log ⊆ log') :
    Names log' clientId name := by
  rcases h with hsame | ⟨client, hrecord, hname⟩
  · exact .inl hsame
  · exact .inr ⟨client, hsub hrecord, hname⟩

/-- What a handler does with requests: the ones it stores are valid for the client it stores, a
consent narrows the one it read, and a code repeats the one it works with, for its client. -/
def Traces (q : Request) (log : Log) : Op → Prop
  | .interaction _ (.create input _ _) => ∀ request, input.request = some request →
      ∃ client, input.clientId = some client.clientId ∧ Checked q log client (.ok request)
  | .interaction id (.apply _ _ patch _) => ∀ scopes, patch.consent = some (some scopes) →
      ∃ d request, Seen log id d ∧ d.request = some request ∧ Narrows scopes request.scope
  | .user _ call => ∀ code, requestedCode call = some code →
      ∃ clientId request scope name secretHash, Requested q log clientId request scope ∧
        (∀ asked, clientId = some asked → Names log asked name) ∧
        code = requestCode request name scope secretHash
  | _ => True

/-- Where a result may be sent: to the URI of the request, or the one that the handler's own
validation names with its error. -/
def Sends (q : Request) (log : Log) (uri : String) : Prop :=
  (∃ clientId request scope, Requested q log clientId request scope ∧
    uri = request.redirectUri) ∨
  ∃ client state error description, Checked q log client (.redirected uri state error description)

def Answers (q : Request) (log : Log) : Response → Prop
  | .toClient uri _ _ => Sends q log uri
  | _ => True

/-! ### Handlers that take no request -/

/-- Operations that store no request or consent and ask for no code. -/
def Inert : Op → Prop
  | .interaction _ (.create input _ _) => input.request = none
  | .interaction _ (.apply _ _ patch _) => ∀ scopes, patch.consent ≠ some (some scopes)
  | .user _ call => requestedCode call = none
  | _ => True

def Inside : Response → Prop
  | .toClient _ _ _ => False
  | _ => True

/-- A refusal, if it is one, stays inside. -/
def Refuses {β : Type} : Except Response β → Prop
  | .error response => Inside response
  | .ok _ => True

def Declines : Option Response → Prop
  | some response => Inside response
  | none => True

theorem traces_of_inert (log : Log) (op : Op) (h : Inert op) : Traces q log op := by
  cases op with
  | ask question => trivial
  | user uid call =>
    intro code hcode
    have hnone : requestedCode call = none := h
    rw [hnone] at hcode
    cases hcode
  | interaction id call =>
    cases call with
    | create input now ttl =>
      intro request hrequest
      have hnone : input.request = none := h
      rw [hnone] at hrequest
      cases hrequest
    | apply operation target patch now => exact fun scopes hconsent => absurd hconsent (h scopes)
    | _ => trivial

theorem requestedCode_of_quiet {call : Call} (h : quietCall call = true) :
    requestedCode call = none := by
  cases call with
  | finalizeLogin input => cases h
  | authorizeWithSession input => cases h
  | _ => rfl

theorem inert_of_quiet (op : Op) (h : Quiet op) : Inert op := by
  match op, h with
  | .ask _, _ => trivial
  | .user _ call, h => exact requestedCode_of_quiet h
  | .interaction _ _, ⟨_, rfl⟩ => trivial

theorem answers_of_inside (log : Log) (response : Response) (h : Inside response) :
    Answers q log response := by
  cases response with
  | toClient uri state result => exact h.elim
  | _ => trivial

/-- A handler that takes no request keeps to the rules. -/
theorem traces_of_yields {p : Handler Response} (h : Yields Inert Inside p) :
    Obeys (Traces q) (Answers q) log p :=
  (h.obeys traces_of_inert).mono fun log' response => answers_of_inside log' response

section Rules

variable {α β : Type} {ends : β → Prop}

theorem yields_quiet {p : Handler α} {f : α → Handler β} (hp : Only Quiet p)
    (h : ∀ a, Yields Inert ends (f a)) : Yields Inert ends (p >>= f) :=
  (hp.mono inert_of_quiet).yields.bind fun a _ => h a

theorem yields_plain {p : Handler α} {f : α → Handler β} (hp : Only Plain p)
    (h : ∀ a, Yields Inert ends (f a)) : Yields Inert ends (p >>= f) :=
  yields_quiet (hp.mono quiet_of_plain) h

theorem yields_bare {p : Handler α} {f : α → Handler β} (hp : Only Bare p)
    (h : ∀ a, Yields Inert ends (f a)) : Yields Inert ends (p >>= f) :=
  yields_plain (hp.mono plain_of_bare) h

end Rules

/-! ### The login steps -/

theorem guard_inert (r : ApiRequest) (isGet : Bool) : Yields Inert Refuses (guard r isGet) := by
  unfold guard
  refine Yields.perform trivial fun limited => ?_
  split
  · trivial
  split
  · trivial
  refine Yields.perform trivial fun settings => ?_
  cases settings with
  | none => trivial
  | some settings =>
    dsimp only
    split
    · trivial
    cases r.binding with
    | none => trivial
    | some binding =>
      dsimp only
      split
      · trivial
      refine Yields.perform trivial fun now => Yields.perform trivial fun got => ?_
      cases got with
      | error e => trivial
      | ok doc =>
        dsimp only
        split
        · trivial
        split
        · trivial
        split <;> trivial

theorem countAttempt_inert (g : Guarded) : Yields Inert Declines (countAttempt g) := by
  refine Yields.perform trivial fun counted => ?_
  cases counted with
  | error e => trivial
  | ok d => trivial

theorem authenticateInteraction_inert (g : Guarded) (client : Client) (profile : UserProfile)
    (method : AuthMethod) (operation : InteractionOperation) :
    Yields Inert Inside (authenticateInteraction g client profile method operation) := by
  unfold authenticateInteraction
  split
  · exact Yields.perform (by rintro _ ⟨⟩) fun _ => trivial
  · refine yields_bare (consentNeeded_bare _ _ _) fun needed => ?_
    refine Yields.perform (by rintro _ ⟨⟩) fun applied => ?_
    cases applied with
    | error e => trivial
    | ok d => trivial

theorem passkeyOptionsHandler_inert (r : ApiRequest) :
    Yields Inert Inside (passkeyOptionsHandler r) := by
  unfold passkeyOptionsHandler
  refine (guard_inert r false).bind fun guarded hguard => ?_
  cases guarded with
  | error response => exact hguard
  | ok g =>
    dsimp only
    split
    · trivial
    refine (countAttempt_inert g).bind fun counted hcounted => ?_
    cases counted with
    | some refused => exact hcounted
    | none => exact Yields.perform trivial fun challenge => Yields.perform trivial fun _ => trivial

theorem passkeyVerified_inert (g : Guarded) (profile : UserProfile) (passkey : PasskeyRow) :
    Yields Inert Inside (passkeyVerified g profile passkey) := by
  unfold passkeyVerified
  refine yields_bare (interactionClient_bare _) fun client => ?_
  cases client with
  | none => trivial
  | some client =>
    dsimp only
    split
    · split
      · trivial
      split
      · trivial
      refine yields_bare (linkIdentity_bare _ _) fun linked => ?_
      split
      · trivial
      · trivial
      · exact authenticateInteraction_inert _ _ _ _ _
    · exact authenticateInteraction_inert _ _ _ _ _

theorem passkeyVerifyHandler_inert (r : ApiRequest) (malformed : Bool)
    (assertion : Option Assertion) :
    Yields Inert Inside (passkeyVerifyHandler r malformed assertion) := by
  unfold passkeyVerifyHandler
  refine (guard_inert r false).bind fun guarded hguard => ?_
  cases guarded with
  | error response => exact hguard
  | ok g =>
    dsimp only
    split
    · trivial
    refine (countAttempt_inert g).bind fun counted hcounted => ?_
    cases counted with
    | some refused => exact hcounted
    | none =>
      dsimp only
      split
      · trivial
      refine Yields.perform trivial fun _ => ?_
      split
      · refine yields_bare (assertionUser_bare _) fun named => ?_
        obtain ⟨uid, fromIndex⟩ := named
        cases uid with
        | none => trivial
        | some uid =>
          refine yields_quiet (verifyAssertion_quiet _ _ _ _) fun reply => ?_
          split
          · exact passkeyVerified_inert _ _ _
          · trivial
          · split
            · exact Yields.perform trivial fun _ => trivial
            · trivial
          · trivial
      · trivial

theorem policy_inert (g : Guarded) (body : RegisterOptionsBody) :
    Yields Inert Refuses (registerOptionsHandler.policy g body) := by
  unfold registerOptionsHandler.policy
  split
  · refine Yields.perform trivial fun opened => ?_
    cases opened with
    | error fault => trivial
    | ok invitation => trivial
  · split <;> trivial

theorem emailRefusal_inert (email : Option String) (verified : Bool) :
    Yields Inert Declines (registrationDraft.emailRefusal email verified) := by
  unfold registrationDraft.emailRefusal
  split
  · trivial
  · refine Yields.perform trivial fun valid => ?_
    split
    · trivial
    split
    · refine Yields.perform trivial fun owner => ?_
      split <;> trivial
    · trivial

theorem registrationDraft_inert (body : RegisterOptionsBody) (invitation : Option InvitationRow) :
    Yields Inert Refuses (registrationDraft body invitation) := by
  unfold registrationDraft
  split
  · refine Yields.perform trivial fun target => ?_
    split
    · trivial
    · exact Yields.perform rfl fun _ => trivial
  · refine (emailRefusal_inert _ _).bind fun refusal hrefusal => ?_
    cases refusal with
    | some response => exact hrefusal
    | none => exact Yields.perform trivial fun uid => trivial

theorem registerOptionsHandler_inert (r : ApiRequest) (body : Option RegisterOptionsBody) :
    Yields Inert Inside (registerOptionsHandler r body) := by
  unfold registerOptionsHandler
  refine (guard_inert r false).bind fun guarded hguard => ?_
  cases guarded with
  | error response => exact hguard
  | ok g =>
    dsimp only
    split
    · trivial
    refine (countAttempt_inert g).bind fun counted hcounted => ?_
    cases counted with
    | some refused => exact hcounted
    | none =>
      cases body with
      | none => trivial
      | some body =>
        refine (policy_inert g body).bind fun opened hopened => ?_
        cases opened with
        | error response => exact hopened
        | ok invitation =>
          refine (registrationDraft_inert body invitation).bind fun drafted hdrafted => ?_
          cases drafted with
          | error response => exact hdrafted
          | ok named =>
            refine yields_bare (unverifiedInUse_bare _) fun emailInUse => ?_
            exact Yields.perform trivial fun challenge => Yields.perform trivial fun _ => trivial

theorem registrationAccount_inert (uid : String) (draft : RegistrationDraft) (now : ℤ) :
    Yields Inert Refuses (registrationAccount uid draft now) := by
  unfold registrationAccount
  split
  · refine yields_plain (createUser_plain _ _) fun created => ?_
    split <;> trivial
  · refine Yields.perform rfl fun reply => ?_
    split
    · exact Yields.perform rfl fun _ => trivial
    · trivial
    · trivial

theorem takeInvitation_inert (invitationId : Option String) (uid : String) (now : ℤ) :
    Yields Inert Declines (takeInvitation invitationId uid now) := by
  unfold takeInvitation
  split
  · trivial
  · refine Yields.perform trivial fun consumed => ?_
    split
    · trivial
    refine Yields.perform trivial fun row => ?_
    cases row with
    | none => trivial
    | some row => trivial

theorem registerVerified_inert (g : Guarded) (uid : String) (invitationId : Option String)
    (draft : RegistrationDraft) (verified : VerifiedPasskey) (name : Option String) :
    Yields Inert Inside (registerVerified g uid invitationId draft verified name) := by
  unfold registerVerified
  refine (takeInvitation_inert _ _ _).bind fun taken htaken => ?_
  cases taken with
  | some response => exact htaken
  | none =>
    refine (registrationAccount_inert _ _ _).bind fun account haccount => ?_
    cases account with
    | error response => exact haccount
    | ok profile =>
      refine Yields.perform trivial fun id => ?_
      refine yields_bare (registerPasskey_bare _ _ _ _) fun registered => ?_
      split
      · trivial
      · trivial
      · refine yields_bare (interactionClient_bare _) fun client => ?_
        cases client with
        | none => trivial
        | some client => exact authenticateInteraction_inert _ _ _ _ _

theorem registerVerifyHandler_inert (r : ApiRequest) (malformed : Bool) (name : Option String) :
    Yields Inert Inside (registerVerifyHandler r malformed name) := by
  unfold registerVerifyHandler
  refine (guard_inert r false).bind fun guarded hguard => ?_
  cases guarded with
  | error response => exact hguard
  | ok g =>
    dsimp only
    split
    · trivial
    refine (countAttempt_inert g).bind fun counted hcounted => ?_
    cases counted with
    | some refused => exact hcounted
    | none =>
      dsimp only
      split
      · trivial
      split
      · trivial
      refine Yields.perform trivial fun _ => ?_
      split
      · refine Yields.perform trivial fun verified => ?_
        split
        · trivial
        · trivial
        · refine Yields.perform trivial fun holder => ?_
          split
          · trivial
          · exact registerVerified_inert _ _ _ _ _ _
      · trivial

theorem invitationId_inert (g : Guarded) (invitation : Option String) :
    Yields Inert Refuses (upstreamHandler.invitationId g invitation) := by
  unfold upstreamHandler.invitationId
  split
  · trivial
  · refine Yields.perform trivial fun opened => ?_
    cases opened with
    | error fault => trivial
    | ok row =>
      dsimp only
      split <;> trivial

theorem upstreamHandler_inert (r : ApiRequest) (malformed : Bool) (upstreamAlias : String)
    (invitation : Option String) :
    Yields Inert Inside (upstreamHandler r malformed upstreamAlias invitation) := by
  unfold upstreamHandler
  refine (guard_inert r false).bind fun guarded hguard => ?_
  cases guarded with
  | error response => exact hguard
  | ok g =>
    dsimp only
    split
    · trivial
    split
    · trivial
    refine Yields.perform trivial fun upstream => ?_
    split
    · trivial
    split
    · trivial
    refine (invitationId_inert g invitation).bind fun opened hopened => ?_
    cases opened with
    | error response => exact hopened
    | ok invitationId =>
      refine Yields.perform trivial fun reachable => ?_
      split
      · trivial
      refine Yields.perform trivial fun stateHash => Yields.perform trivial fun nonce => ?_
      refine Yields.perform trivial fun verifier => Yields.perform trivial fun patched => ?_
      cases patched with
      | error e => trivial
      | ok d => trivial

theorem failInteraction_inert (id : String) (now : ℤ) (error description : String) :
    Yields Inert Inside (failInteraction id now error description) :=
  Yields.perform nofun fun _ => trivial

theorem federationResolved_inert (g : Guarded) (upstream : Upstream) (leg : FederationLeg)
    (claims : Resolved) : Yields Inert Inside (federationResolved g upstream leg claims) := by
  unfold federationResolved
  refine yields_bare (interactionClient_bare _) fun client => ?_
  cases client with
  | none => exact failInteraction_inert _ _ _ _
  | some client =>
    refine yields_plain (resolveAccount_plain _ _ _ _) fun resolution => ?_
    cases resolution with
    | fail fault => exact failInteraction_inert _ _ _ _
    | link candidateUid =>
      refine Yields.perform nofun fun applied => ?_
      cases applied with
      | error e => trivial
      | ok d => trivial
    | user profile =>
      refine (authenticateInteraction_inert _ _ _ _ _).bind fun response _ => ?_
      split <;> trivial

theorem federationAnswer_inert (g : Guarded) (leg : FederationLeg) (error code : Option String) :
    Yields Inert Inside (federationAnswer g leg error code) := by
  unfold federationAnswer
  split
  · exact failInteraction_inert _ _ _ _
  · exact failInteraction_inert _ _ _ _
  · refine Yields.perform trivial fun upstream => ?_
    split
    · exact failInteraction_inert _ _ _ _
    · exact failInteraction_inert _ _ _ _
    split
    · exact failInteraction_inert _ _ _ _
    refine Yields.perform trivial fun reachable => ?_
    split
    · exact failInteraction_inert _ _ _ _
    refine Yields.perform trivial fun claims => ?_
    cases claims with
    | error fault => exact failInteraction_inert _ _ _ _
    | ok claims => exact federationResolved_inert _ _ _ _

theorem federationCallbackHandler_inert (malformed : Bool) (state : Option FederationRef)
    (binding : Option BindingRef) (error code : Option String) :
    Yields Inert Inside (federationCallbackHandler malformed state binding error code) := by
  unfold federationCallbackHandler
  refine Yields.perform trivial fun limited => ?_
  split
  · trivial
  refine Yields.perform trivial fun settings => ?_
  split
  · trivial
  split
  · trivial
  split
  · trivial
  split
  · trivial
  split
  · trivial
  refine Yields.perform trivial fun now => Yields.perform trivial fun consumed => ?_
  cases consumed with
  | error e => trivial
  | ok found =>
    obtain ⟨doc, leg⟩ := found
    dsimp only
    split
    · trivial
    · exact federationAnswer_inert _ _ _ _

/-! ### Reading, logout and the consent pages -/

theorem getInteractionHandler_inert (r : ApiRequest) :
    Yields Inert Inside (getInteractionHandler r) := by
  unfold getInteractionHandler
  refine (guard_inert r true).bind fun guarded hguard => ?_
  cases guarded with
  | error response => exact hguard
  | ok g =>
    refine yields_bare (interactionClient_bare _) fun client => ?_
    dsimp only
    split
    · split
      · refine Yields.perform rfl fun granted => ?_
        dsimp only
        split
        · trivial
        refine Yields.perform rfl fun reply => ?_
        split <;> trivial
      · trivial
    · trivial

theorem abortHandler_inert (r : ApiRequest) : Yields Inert Inside (abortHandler r) := by
  unfold abortHandler
  refine (guard_inert r false).bind fun guarded hguard => ?_
  cases guarded with
  | error response => exact hguard
  | ok g => exact Yields.perform nofun fun _ => trivial

theorem logoutDecisionHandler_inert (r : ApiRequest) (confirm : Option Bool) :
    Yields Inert Inside (logoutDecisionHandler r confirm) := by
  unfold logoutDecisionHandler
  refine (guard_inert r false).bind fun guarded hguard => ?_
  cases guarded with
  | error response => exact hguard
  | ok g =>
    dsimp only
    split
    · trivial
    split
    · trivial
    split
    · trivial
    refine Yields.perform nofun fun applied => ?_
    cases applied with
    | error e => trivial
    | ok d => trivial

theorem endSession_inert (uid sid reason : String) :
    Yields Inert (fun _ => True) (endSession uid sid reason) :=
  Yields.perform trivial fun _ => Yields.perform rfl fun _ => trivial

theorem logoutAsked_inert (params : LogoutParams) (cookie : SessionCookie) (settings : Settings)
    (client : Option Client) : Yields Inert Inside (logoutAsked params cookie settings client) := by
  unfold logoutAsked
  split
  · trivial
  refine Yields.perform trivial fun now => Yields.perform rfl fun reply => ?_
  split
  · refine Yields.perform trivial fun now' => Yields.perform trivial fun id => ?_
    refine Yields.perform trivial fun secretHash => Yields.perform rfl fun created => ?_
    cases created with
    | error e => trivial
    | ok d => trivial
  · trivial
  · trivial

theorem logoutHandler_inert (params : Option LogoutParams) (cookie : SessionCookie) :
    Yields Inert Inside (logoutHandler params cookie) := by
  unfold logoutHandler
  refine Yields.perform trivial fun limited => ?_
  split
  · trivial
  refine Yields.perform trivial fun settings => ?_
  split
  · trivial
  split
  · trivial
  split
  · trivial
  split
  · trivial
  · unfold logoutHinted
    refine Yields.perform trivial fun record => ?_
    split
    · trivial
    split
    · trivial
    · exact (endSession_inert _ _ _).bind fun _ _ => trivial
  · exact logoutAsked_inert _ _ _ _
  · exact Yields.perform trivial fun record => logoutAsked_inert _ _ _ _

theorem listGrantsHandler_inert (uid : String) : Yields Inert Inside (listGrantsHandler uid) := by
  unfold listGrantsHandler
  refine Yields.perform rfl fun reply => ?_
  split
  · refine yields_bare (resolveClients_bare _) fun refs => Yields.perform rfl fun listed => ?_
    split <;> trivial
  · trivial

end TinyOidc.Interaction
