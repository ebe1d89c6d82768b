import TinyOidc.Interaction.StateMachine
import TinyOidc.User.Schema

/-! The object of one authorization, logout or pushed interaction (`InteractionDO`): a single
document and the alarm that deletes it. Every method is one exclusive read-check-write. -/
namespace TinyOidc.Interaction
open TinyOidc.User (Bytes)

inductive InteractionKind where
  | authorize | logout | par
  deriving DecidableEq, Repr

inductive PromptValue where
  | none | login | consent
  deriving DecidableEq, Repr

structure AuthorizeRequest where
  redirectUri : String
  scope : List String
  state : String
  nonce : Option String
  codeChallenge : Option String
  prompt : List PromptValue
  maxAge : Option ℤ
  loginHint : Option String
  uiLocales : Option String
  acrValues : List String
  deriving DecidableEq, Repr

structure ExistingSession where
  uid : String
  sid : String
  authTime : ℤ
  deriving DecidableEq, Repr

structure PasskeyChallenge where
  value : String
  expiresAt : ℤ
  pendingUid : Option String
  invitationId : Option String
  deriving DecidableEq, Repr

inductive RegistrationKind where
  | register | recover
  deriving DecidableEq, Repr

/-- What a passkey registration in progress will create or extend. -/
structure RegistrationDraft where
  kind : RegistrationKind
  email : Option String
  emailVerified : Bool
  displayName : Option String
  groups : List String
  deriving DecidableEq, Repr

structure FederationLeg where
  upstreamAlias : String
  stateHash : String
  nonce : String
  codeVerifier : String
  expiresAt : ℤ
  invitationId : Option String
  deriving DecidableEq, Repr

structure LinkCandidate where
  candidateUid : String
  upstreamAlias : String
  subject : String
  email : String
  name : Option String
  emailVerified : Bool
  deriving DecidableEq, Repr

inductive LoginMethod where
  | passkey | federated
  deriving DecidableEq, Repr

structure InteractionAuth where
  uid : String
  method : LoginMethod
  amr : List String
  acr : String
  upstream : Option String
  authTime : ℤ
  newSession : Bool
  deriving DecidableEq, Repr

inductive LogoutDecision where
  | confirm | decline
  deriving DecidableEq, Repr

structure LogoutRequest where
  sid : Option String
  uid : Option String
  postLogoutRedirectUri : Option String
  state : Option String
  decision : Option LogoutDecision
  deriving DecidableEq, Repr

structure InteractionError where
  error : String
  errorDescription : String
  deriving DecidableEq, Repr

/-- The stored document; `consent` is the scopes of the decision. -/
structure InteractionDocument where
  id : String
  kind : InteractionKind
  status : InteractionStatus
  createdAt : ℤ
  expiresAt : ℤ
  bindingHash : String
  clientId : Option String
  request : Option AuthorizeRequest
  existingSession : Option ExistingSession
  passkeyChallenge : Option PasskeyChallenge
  registration : Option RegistrationDraft
  federation : Option FederationLeg
  link : Option LinkCandidate
  auth : Option InteractionAuth
  consent : Option (List String)
  logout : Option LogoutRequest
  error : Option InteractionError
  attempts : ℕ
  parConsumed : Bool
  completing : Bool
  deriving DecidableEq, Repr

structure CreateInteraction where
  id : String
  kind : InteractionKind
  status : InteractionStatus
  bindingHash : String
  clientId : Option String
  request : Option AuthorizeRequest := none
  existingSession : Option ExistingSession := none
  logout : Option LogoutRequest := none
  deriving DecidableEq, Repr

inductive InteractionDoError where
  | interactionExists | interactionNotFound | interactionInvalidState | tooManyAttempts
  deriving DecidableEq, Repr

/-- Fields a non-transition update may change; an absent field is `none`. -/
structure InteractionPatch where
  passkeyChallenge : Option (Option PasskeyChallenge) := none
  registration : Option (Option RegistrationDraft) := none
  federation : Option (Option FederationLeg) := none
  link : Option (Option LinkCandidate) := none
  attempts : Option ℕ := none
  deriving DecidableEq, Repr

/-- What a transition may change besides the status. -/
structure TransitionPatch extends InteractionPatch where
  clientId : Option (Option String) := none
  request : Option (Option AuthorizeRequest) := none
  existingSession : Option (Option ExistingSession) := none
  auth : Option (Option InteractionAuth) := none
  consent : Option (Option (List String)) := none
  logout : Option (Option LogoutRequest) := none
  error : Option (Option InteractionError) := none
  parConsumed : Option Bool := none
  completing : Option Bool := none
  deriving DecidableEq, Repr

/-- Completed and failed interactions stay readable for a minute. -/
def terminalRetentionSeconds : ℤ := 60

/-- `{ ...doc, ...fields }`. -/
def InteractionDocument.patched (d : InteractionDocument) (p : InteractionPatch) :
    InteractionDocument :=
  { d with
    passkeyChallenge := p.passkeyChallenge.getD d.passkeyChallenge
    registration := p.registration.getD d.registration
    federation := p.federation.getD d.federation
    link := p.link.getD d.link
    attempts := p.attempts.getD d.attempts }

/-- `{ ...doc, ...patch, status: to }` with the retention of a terminal status. -/
def InteractionDocument.transition (d : InteractionDocument) (target : InteractionStatus)
    (p : TransitionPatch) (now : ℤ) : InteractionDocument :=
  { d.patched p.toInteractionPatch with
    status := target
    expiresAt := if isTerminal target then min d.expiresAt (now + terminalRetentionSeconds)
      else d.expiresAt
    clientId := p.clientId.getD d.clientId
    request := p.request.getD d.request
    existingSession := p.existingSession.getD d.existingSession
    auth := p.auth.getD d.auth
    consent := p.consent.getD d.consent
    logout := p.logout.getD d.logout
    error := p.error.getD d.error
    parConsumed := p.parConsumed.getD d.parConsumed
    completing := p.completing.getD d.completing }

/-- The storage; times are in seconds, the alarm is in milliseconds. -/
structure InteractionObject where
  doc : Option InteractionDocument
  alarmAt : Option ℤ
  deriving DecidableEq, Repr

def InteractionObject.fresh : InteractionObject := ⟨none, none⟩

def newDocument (input : CreateInteraction) (now ttlSeconds : ℤ) : InteractionDocument where
  id := input.id
  kind := input.kind
  status := input.status
  createdAt := now
  expiresAt := now + ttlSeconds
  bindingHash := input.bindingHash
  clientId := input.clientId
  request := input.request
  existingSession := input.existingSession
  passkeyChallenge := none
  registration := none
  federation := none
  link := none
  auth := none
  consent := none
  logout := input.logout
  error := none
  attempts := 0
  parConsumed := false
  completing := false

namespace InteractionObject

variable (o : InteractionObject)

def create (input : CreateInteraction) (now ttlSeconds : ℤ) :
    InteractionObject × Except InteractionDoError InteractionDocument :=
  match o.doc with
  | some _ => (o, .error .interactionExists)
  | none =>
      let doc := newDocument input now ttlSeconds
      (⟨some doc, some (doc.expiresAt * 1000)⟩, .ok doc)

/-- The current document, or not found once expired or deleted. -/
def get (now : ℤ) : Except InteractionDoError InteractionDocument :=
  match o.doc with
  | none => .error .interactionNotFound
  | some doc => if doc.expiresAt ≤ now then .error .interactionNotFound else .ok doc

/-- Runs `body` on a live document. -/
def withDoc {α : Type} (now : ℤ)
    (body : InteractionDocument → InteractionObject × Except InteractionDoError α) :
    InteractionObject × Except InteractionDoError α :=
  match o.get now with
  | .error e => (o, .error e)
  | .ok doc => body doc

/-- Takes a pushed request for `/authorize`, once. -/
def claimPushed (clientId bindingHash : String) (now ttlSeconds : ℤ) :
    InteractionObject × Except InteractionDoError InteractionDocument :=
  o.withDoc now fun current =>
    if current.status ≠ .pushed ∨ current.parConsumed = true ∨ current.clientId ≠ some clientId then
      (o, .error .interactionInvalidState)
    else
      let doc := { current with
        kind := .authorize, bindingHash := bindingHash, parConsumed := true
        expiresAt := now + ttlSeconds }
      (⟨some doc, some (doc.expiresAt * 1000)⟩, .ok doc)

/-- One transition with a partial update; an invalid one changes nothing. -/
def apply (operation : InteractionOperation) (target : InteractionStatus)
    (patch : TransitionPatch) (now : ℤ) :
    InteractionObject × Except InteractionDoError InteractionDocument :=
  o.withDoc now fun current =>
    if canTransition current.status operation target then
      let doc := current.transition target patch now
      (⟨some doc, if isTerminal target then some (doc.expiresAt * 1000) else o.alarmAt⟩, .ok doc)
    else (o, .error .interactionInvalidState)

/-- Takes a ready or failed interaction for `/complete`, once. -/
def claimCompletion (now : ℤ) : InteractionObject × Except InteractionDoError InteractionDocument :=
  o.withDoc now fun current =>
    if (current.status ≠ .ready ∧ current.status ≠ .failed) ∨ current.completing = true then
      (o, .error .interactionInvalidState)
    else
      let doc := { current with completing := true }
      (⟨some doc, o.alarmAt⟩, .ok doc)

/-- Takes the federation leg once. -/
def consumeFederation (stateHash : String) (now : ℤ) :
    InteractionObject × Except InteractionDoError (InteractionDocument × FederationLeg) :=
  o.withDoc now fun current =>
    match current.federation with
    | none => (o, .error .interactionInvalidState)
    | some leg =>
        if leg.stateHash ≠ stateHash ∨ leg.expiresAt ≤ now then (o, .error .interactionInvalidState)
        else if current.status ≠ .loginRequired then (o, .error .interactionInvalidState)
        else
          let doc := { current with federation := none }
          (⟨some doc, o.alarmAt⟩, .ok (doc, leg))

/-- Working fields without a status change. -/
def patch (fields : InteractionPatch) (now : ℤ) :
    InteractionObject × Except InteractionDoError InteractionDocument :=
  o.withDoc now fun current =>
    if isTerminal current.status then (o, .error .interactionInvalidState)
    else
      let doc := current.patched fields
      (⟨some doc, o.alarmAt⟩, .ok doc)

def attemptsExceeded (attempts : ℕ) : TransitionPatch :=
  { attempts := some attempts, error := some (some ⟨"too_many_attempts", "too many attempts"⟩) }

/-- Counts one attempt; the one that exceeds `limit` fails the interaction. -/
def attempt (now : ℤ) (limit : ℕ) :
    InteractionObject × Except InteractionDoError (InteractionDocument × ℕ) :=
  o.withDoc now fun current =>
    if isTerminal current.status then (o, .error .interactionInvalidState)
    else
      let attempts := current.attempts + 1
      if limit < attempts then
        ((o.apply .fail .failed (attemptsExceeded attempts) now).1, .error .tooManyAttempts)
      else
        let doc := { current with attempts := attempts }
        (⟨some doc, o.alarmAt⟩, .ok (doc, limit - attempts))

/-- The alarm, once it is due, deletes all storage. -/
def alarm (now : ℤ) : InteractionObject × Except InteractionDoError Unit :=
  if o.alarmAt.any (· ≤ now * 1000) then (.fresh, .ok ()) else (o, .ok ())

end InteractionObject

inductive InteractionCall where
  | create (input : CreateInteraction) (now ttlSeconds : ℤ)
  | get (now : ℤ)
  | claimPushed (clientId bindingHash : String) (now ttlSeconds : ℤ)
  | apply (operation : InteractionOperation) (target : InteractionStatus)
      (patch : TransitionPatch) (now : ℤ)
  | claimCompletion (now : ℤ)
  | consumeFederation (stateHash : String) (now : ℤ)
  | patch (fields : InteractionPatch) (now : ℤ)
  | attempt (now : ℤ) (limit : ℕ)
  | alarm (now : ℤ)
  deriving DecidableEq, Repr

@[reducible] def InteractionCall.Value : InteractionCall → Type
  | .consumeFederation _ _ => InteractionDocument × FederationLeg
  | .attempt _ _ => InteractionDocument × ℕ
  | .alarm _ => Unit
  | _ => InteractionDocument

abbrev InteractionCall.Answer (c : InteractionCall) : Type := Except InteractionDoError c.Value

def InteractionObject.call (o : InteractionObject) :
    (c : InteractionCall) → InteractionObject × c.Answer
  | .create input now ttlSeconds => o.create input now ttlSeconds
  | .get now => (o, o.get now)
  | .claimPushed clientId bindingHash now ttlSeconds =>
      o.claimPushed clientId bindingHash now ttlSeconds
  | .apply operation target patch now => o.apply operation target patch now
  | .claimCompletion now => o.claimCompletion now
  | .consumeFederation stateHash now => o.consumeFederation stateHash now
  | .patch fields now => o.patch fields now
  | .attempt now limit => o.attempt now limit
  | .alarm now => o.alarm now

/-- Everything a call can do: refuse and change nothing, or one change of the document. -/
inductive InteractionObject.Answered (o : InteractionObject) :
    (c : InteractionCall) → InteractionObject → c.Answer → Prop where
  | refused (c : InteractionCall) (e : InteractionDoError) : Answered o c o (.error e)
  | created (input : CreateInteraction) (now ttlSeconds : ℤ) (alarmAt : Option ℤ)
      (absent : o.doc = none) :
      Answered o (.create input now ttlSeconds) ⟨some (newDocument input now ttlSeconds), alarmAt⟩
        (.ok (newDocument input now ttlSeconds))
  | read (now : ℤ) (d : InteractionDocument) (stored : o.doc = some d) :
      Answered o (.get now) o (.ok d)
  | claimedPushed (clientId bindingHash : String) (now ttlSeconds : ℤ) (alarmAt : Option ℤ)
      (d : InteractionDocument) (stored : o.doc = some d) (pushed : d.status = .pushed)
      (unclaimed : d.parConsumed = false) (client : d.clientId = some clientId) :
      Answered o (.claimPushed clientId bindingHash now ttlSeconds)
        ⟨some { d with
          kind := .authorize, bindingHash := bindingHash, parConsumed := true
          expiresAt := now + ttlSeconds }, alarmAt⟩
        (.ok { d with
          kind := .authorize, bindingHash := bindingHash, parConsumed := true
          expiresAt := now + ttlSeconds })
  | applied (operation : InteractionOperation) (target : InteractionStatus)
      (patch : TransitionPatch) (now : ℤ) (alarmAt : Option ℤ) (d : InteractionDocument)
      (stored : o.doc = some d) (permitted : canTransition d.status operation target = true) :
      Answered o (.apply operation target patch now) ⟨some (d.transition target patch now), alarmAt⟩
        (.ok (d.transition target patch now))
  | claimedCompletion (now : ℤ) (alarmAt : Option ℤ) (d : InteractionDocument)
      (stored : o.doc = some d) (status : d.status = .ready ∨ d.status = .failed)
      (unclaimed : d.completing = false) :
      Answered o (.claimCompletion now) ⟨some { d with completing := true }, alarmAt⟩
        (.ok { d with completing := true })
  | consumedFederation (stateHash : String) (now : ℤ) (alarmAt : Option ℤ)
      (d : InteractionDocument) (leg : FederationLeg) (stored : o.doc = some d)
      (status : d.status = .loginRequired) (pending : d.federation = some leg) :
      Answered o (.consumeFederation stateHash now) ⟨some { d with federation := none }, alarmAt⟩
        (.ok ({ d with federation := none }, leg))
  | patched (fields : InteractionPatch) (now : ℤ) (alarmAt : Option ℤ) (d : InteractionDocument)
      (stored : o.doc = some d) (live : isTerminal d.status = false) :
      Answered o (.patch fields now) ⟨some (d.patched fields), alarmAt⟩ (.ok (d.patched fields))
  | attempted (now : ℤ) (limit : ℕ) (alarmAt : Option ℤ) (d : InteractionDocument)
      (stored : o.doc = some d) (live : isTerminal d.status = false) :
      Answered o (.attempt now limit) ⟨some { d with attempts := d.attempts + 1 }, alarmAt⟩
        (.ok ({ d with attempts := d.attempts + 1 }, limit - (d.attempts + 1)))
  | exhausted (now : ℤ) (limit : ℕ) (alarmAt : Option ℤ) (d : InteractionDocument)
      (stored : o.doc = some d) (live : isTerminal d.status = false) :
      Answered o (.attempt now limit)
        ⟨some (d.transition .failed (InteractionObject.attemptsExceeded (d.attempts + 1)) now),
          alarmAt⟩
        (.error .tooManyAttempts)
  | early (now : ℤ) : Answered o (.alarm now) o (.ok ())
  | expired (now : ℤ) : Answered o (.alarm now) .fresh (.ok ())

theorem InteractionObject.get_ok {o : InteractionObject} {now : ℤ} {d : InteractionDocument}
    (h : o.get now = .ok d) : o.doc = some d := by
  unfold InteractionObject.get at h
  split at h
  · cases h
  · next doc hdoc =>
    split at h
    · cases h
    · cases h
      exact hdoc

/-- A live document can be failed. -/
theorem canTransition_fail {status : InteractionStatus} (h : isTerminal status = false) :
    canTransition status .fail .failed = true := by
  cases status <;> first | rfl | cases h

theorem InteractionObject.call_answered (o : InteractionObject) (c : InteractionCall) :
    o.Answered c (o.call c).1 (o.call c).2 := by
  cases c with
  | create input now ttlSeconds =>
    simp only [InteractionObject.call, InteractionObject.create]
    split
    · exact .refused _ _
    · next h => exact .created input now ttlSeconds _ h
  | get now =>
    simp only [InteractionObject.call]
    cases h : o.get now with
    | error e => exact .refused _ e
    | ok d => exact .read now d (InteractionObject.get_ok h)
  | claimPushed clientId bindingHash now ttlSeconds =>
    simp only [InteractionObject.call, InteractionObject.claimPushed, InteractionObject.withDoc]
    split
    · exact .refused _ _
    · next d h =>
      split
      · exact .refused _ _
      · next hd =>
        simp only [not_or, not_not, Bool.not_eq_true] at hd
        exact .claimedPushed clientId bindingHash now ttlSeconds _ d (InteractionObject.get_ok h)
          hd.1 hd.2.1 hd.2.2
  | apply operation target patch now =>
    simp only [InteractionObject.call, InteractionObject.apply, InteractionObject.withDoc]
    split
    · exact .refused _ _
    · next d h =>
      split
      · next hd => exact .applied operation target patch now _ d (InteractionObject.get_ok h) hd
      · exact .refused _ _
  | claimCompletion now =>
    simp only [InteractionObject.call, InteractionObject.claimCompletion,
      InteractionObject.withDoc]
    split
    · exact .refused _ _
    · next d h =>
      split
      · exact .refused _ _
      · next hd =>
        have hstatus : d.status = .ready ∨ d.status = .failed := by tauto
        have hfree : d.completing = false := by simpa using (not_or.mp hd).2
        exact .claimedCompletion now _ d (InteractionObject.get_ok h) hstatus hfree
  | consumeFederation stateHash now =>
    simp only [InteractionObject.call, InteractionObject.consumeFederation,
      InteractionObject.withDoc]
    split
    · exact .refused _ _
    · next d h =>
      split
      · exact .refused _ _
      · next leg hleg =>
        split
        · exact .refused _ _
        · split
          · exact .refused _ _
          · next hstatus =>
            exact .consumedFederation stateHash now _ d leg (InteractionObject.get_ok h)
              (not_not.mp hstatus) hleg
  | patch fields now =>
    simp only [InteractionObject.call, InteractionObject.patch, InteractionObject.withDoc]
    split
    · exact .refused _ _
    · next d h =>
      split
      · exact .refused _ _
      · next hd =>
        exact .patched fields now _ d (InteractionObject.get_ok h) (Bool.not_eq_true _ ▸ hd)
  | attempt now limit =>
    simp only [InteractionObject.call, InteractionObject.attempt, InteractionObject.withDoc]
    split
    · exact .refused _ _
    · next d h =>
      split
      · exact .refused _ _
      · next hd =>
        have hlive : isTerminal d.status = false := by simpa using hd
        split
        · simp only [InteractionObject.apply, InteractionObject.withDoc, h,
            canTransition_fail hlive, if_true]
          exact .exhausted now limit _ d (InteractionObject.get_ok h) hlive
        · exact .attempted now limit _ d (InteractionObject.get_ok h) hlive
  | alarm now =>
    simp only [InteractionObject.call, InteractionObject.alarm]
    split
    · exact .expired now
    · exact .early now

end TinyOidc.Interaction
