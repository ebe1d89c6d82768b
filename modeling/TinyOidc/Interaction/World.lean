import TinyOidc.Interaction.Object
import TinyOidc.Lib.Threads
import TinyOidc.User.Calls

/-! What the request handlers call: the interaction objects, the users' objects, and everything
outside them (the clock, randomness, D1 and its caches, WebAuthn, the upstreams), whose answers
the schedule gives. Each call is one step; a handler is a program over them. -/
namespace TinyOidc.Interaction
open TinyOidc.User

/-! ### Records the handlers read -/

structure Client where
  clientId : String
  createdAt : ℤ
  redirectUris : List String
  postLogoutRedirectUris : List String
  scopesAllowed : List String
  offlineAccess : Bool
  requirePkce : Bool
  skipConsent : Bool
  allowedGroups : Option (List String)
  disabledAt : Option ℤ
  authorizationCode : Bool
  requirePar : Bool
  deriving DecidableEq, Repr

def clientRef (client : Client) : ClientRef where
  clientId := client.clientId
  createdAt := client.createdAt
  skipConsent := client.skipConsent
  allowedGroups := client.allowedGroups

inductive RegistrationMode where
  | closed | invite | openToAll
  deriving DecidableEq, Repr

inductive LinkPolicy where
  | never | reauth
  deriving DecidableEq, Repr

structure Settings where
  loginUrl : Option String
  loginOrigins : Option (List String)
  interactionTtl : ℤ
  sessionIdleTtl : ℤ
  sessionAbsoluteTtl : ℤ
  registrationMode : RegistrationMode
  autoCreate : Bool
  linkByVerifiedEmail : LinkPolicy
  maxPerUser : ℕ
  deriving DecidableEq, Repr

inductive UserStatus where
  | creating | active | disabled | deleting
  deriving DecidableEq, Repr

/-- The row of the D1 `users` table. -/
structure DirectoryUser where
  id : String
  email : Option String
  emailVerified : Bool
  displayName : Option String
  status : UserStatus
  deriving DecidableEq, Repr

structure IdentityHolder where
  userId : String
  status : Option UserStatus
  deriving DecidableEq, Repr

structure InvitationRow where
  id : String
  kind : RegistrationKind
  userId : Option String
  email : Option String
  emailVerified : Bool
  displayName : Option String
  groups : List String
  expiresAt : ℤ
  usedAt : Option ℤ
  deriving DecidableEq, Repr

inductive InvitationFault where
  | invitationInvalid | invitationExpired | invitationUsed
  deriving DecidableEq, Repr

structure Upstream where
  upstreamAlias : String
  issuer : String
  enabled : Bool
  deriving DecidableEq, Repr

structure NewUser where
  id : String
  email : Option String
  emailVerified : Bool
  displayName : Option String
  groups : List String
  identities : List NewIdentity
  deriving DecidableEq, Repr

inductive CreateUserError where
  | emailInvalid | accountExists | identityAlreadyLinked | groupUnknown | temporarilyUnavailable
  deriving DecidableEq, Repr

structure Resolved where
  sub : String
  email : Option String
  emailVerified : Bool
  name : Option String
  deriving DecidableEq, Repr

/-- Why a federated login failed: the error, its description and the audited reason. -/
structure FederationFault where
  error : String
  description : String
  reason : String
  deriving DecidableEq, Repr

/-- Why a registration ceremony was refused. -/
inductive RegistrationFault where
  | passkeyVerificationFailed | passkeyNotDiscoverable
  deriving DecidableEq, Repr

/-- What a WebAuthn registration proved. -/
structure VerifiedPasskey where
  credentialId : String
  publicKey : Bytes
  alg : ℤ
  counter : ℕ
  transports : List String
  aaguid : Option String
  backupEligible : Bool
  backedUp : Bool
  deriving DecidableEq, Repr

inductive CredentialClaim where
  | claimed | taken | failed
  deriving DecidableEq, Repr

/-! ### Calls -/

/-- A question to the outside, or an effect there; D1 statements carry what they write. -/
inductive Question where
  | now
  | limited (bucket : String)
  | settings
  | client (clientId : String)
  | clientRow (clientId : String)
  | newSecret
  | newInteractionId
  | newUuid
  | randomText
  | sessionMetadata
  | normalizeEmail (email : String)
  | isValidEmail (email : String)
  | lookupCredential (credentialId : String)
  | claimCredential (credentialId uid : String) (now : ℤ)
  | releaseCredential (credentialId : String)
  | getUser (uid : String)
  | findVerifiedUser (email : String)
  | claimUser (user : NewUser) (now : ℤ)
  | activateUser (uid : String)
  | openInvitation (token : String) (now : ℤ)
  | getInvitation (id : String)
  | consumeInvitation (id uid : String) (now : ℤ)
  | lookupIdentity (issuer subject : String)
  | insertIdentity (issuer subject uid : String) (now : ℤ)
  | releaseIdentity (issuer subject : String)
  | upstream (upstreamAlias : String)
  | upstreamMetadata (upstreamAlias : String)
  | upstreamClaims (upstreamAlias code : String) (leg : FederationLeg)
  | verifySignature (credentialId challenge : String)
  | verifyRegistration (challenge : String)
  deriving DecidableEq

/-- `client` is the cached directory, which throws when it is unavailable (`none`); `newSecret`
gives the SHA-256 of a fresh secret; `verifySignature` the counter of a valid assertion. -/
@[reducible] def Question.Answer : Question → Type
  | .now => ℤ
  | .limited _ => Bool
  | .settings => Option Settings
  | .client _ => Option (Option Client)
  | .clientRow _ => Option Client
  | .newSecret => Bytes
  | .newInteractionId | .newUuid | .randomText | .normalizeEmail _ => String
  | .sessionMetadata => SessionMetadata
  | .isValidEmail _ | .consumeInvitation _ _ _ | .insertIdentity _ _ _ _ => Bool
  | .lookupCredential _ => Option String
  | .claimCredential _ _ _ => CredentialClaim
  | .releaseCredential _ | .activateUser _ | .releaseIdentity _ _ => Unit
  | .getUser _ | .findVerifiedUser _ => Option DirectoryUser
  | .claimUser _ _ => Except CreateUserError Unit
  | .openInvitation _ _ => Except InvitationFault InvitationRow
  | .getInvitation _ => Option InvitationRow
  | .lookupIdentity _ _ => Option IdentityHolder
  | .upstream _ => Option (Option Upstream)
  | .upstreamMetadata _ => Bool
  | .upstreamClaims _ _ _ => Except FederationFault Resolved
  | .verifySignature _ _ => Option ℕ
  | .verifyRegistration _ => Except RegistrationFault VerifiedPasskey

inductive Op where
  | interaction (id : String) (call : InteractionCall)
  | user (uid : String) (call : Call)
  | ask (question : Question)
  deriving DecidableEq

@[reducible] def Op.Answer : Op → Type
  | .interaction _ call => call.Answer
  | .user _ _ => Reply
  | .ask question => question.Answer

/-- An answer to every question. -/
abbrev Oracle := (question : Question) → question.Answer

/-- The objects behind the handlers. -/
structure World where
  interactions : String → InteractionObject
  users : String → UserObject

def World.fresh : World := ⟨fun _ => .fresh, fun _ => .fresh⟩

def World.doc (w : World) (id : String) : Option InteractionDocument := (w.interactions id).doc

/-- A record the directory answers with is the one of the id it was asked for. -/
def directoryAnswer (question : Question) (answer : question.Answer) : question.Answer :=
  match question, answer with
  | .client clientId, answer => answer.map fun record =>
    record.map ({ · with clientId := clientId })
  | .clientRow clientId, answer => answer.map ({ · with clientId := clientId })
  | _, answer => answer

def World.exec (sha256 : String → Bytes) (w : World) (oracle : Oracle) :
    (op : Op) → World × op.Answer
  | .interaction id call =>
      let answered := (w.interactions id).call call
      ({ w with interactions := Function.update w.interactions id answered.1 }, answered.2)
  | .user uid call =>
      let answered := (w.users uid).call sha256 call
      ({ w with users := Function.update w.users uid answered.1 }, answered.2)
  | .ask question => (w, directoryAnswer question (oracle question))

abbrev Handler := Threads.Prog Op Op.Answer

def ask (question : Question) : Handler question.Answer := .perform (Op.ask question)

def interactionCall (id : String) (call : InteractionCall) : Handler call.Answer :=
  .perform (Op.interaction id call)

def userCall (uid : String) (call : Call) : Handler Reply := .perform (Op.user uid call)

/-! ### Requests -/

structure BindingRef where
  interactionId : String
  secretHash : Bytes
  deriving DecidableEq

structure SessionRef where
  uid : String
  sid : String
  secretHash : Bytes
  deriving DecidableEq

/-- The session cookie: absent, or opened, which fails on a handle that is not ours. -/
inductive SessionCookie where
  | absent
  | presented (opened : Option SessionRef)
  deriving DecidableEq

def SessionCookie.opened : SessionCookie → Option SessionRef
  | .absent => none
  | .presented ref => ref

/-- What the guard of the Interaction API reads of a request; `binding` is the opened cookie. -/
structure ApiRequest where
  id : String
  origin : Option String
  secFetchSite : Option String
  binding : Option BindingRef
  deriving DecidableEq

inductive AuthorizeValidation where
  | ok (request : AuthorizeRequest)
  | refused (error description : String)
  | redirected (redirectUri : String) (state : Option String) (error description : String)
  deriving DecidableEq

inductive ConsentDecision where
  | grant (scopes : List String)
  | deny
  deriving DecidableEq

/-- An assertion: its credential and the user its handle names. -/
structure Assertion where
  credentialId : String
  userHandle : Option String
  deriving DecidableEq

structure RegisterOptionsBody where
  invitation : Option String
  email : Option String
  displayName : Option String
  deriving DecidableEq

/-- The opened `tio_fs` state of a callback. -/
structure FederationRef where
  interactionId : String
  secretHash : Bytes
  deriving DecidableEq

/-! ### Responses -/

inductive ClientResult where
  | code (secretHash : Bytes)
  | error (error description : String)
  deriving DecidableEq

/-- The parts of `GET /api/v1/interactions/{id}` that depend on the interaction. -/
structure DocumentBody where
  id : String
  kind : InteractionKind
  status : InteractionStatus
  expiresAt : ℤ
  client : Option Client
  request : Option AuthorizeRequest
  sessionUser : Option (Option String × Option String)
  consent : Option (List (String × Bool))
  link : Option LinkCandidate
  logout : Option Bool
  error : Option InteractionError
  attemptsRemaining : ℕ
  deriving DecidableEq

inductive Response where
  | error (status : ℕ) (error description : String)
  | toLoginApp (error : String) (description : Option String)
  | toInteraction (id : String)
  | toComplete (id : String)
  | toClient (redirectUri : String) (state : Option String) (result : ClientResult)
  | toPostLogout (uri state : Option String)
  | step (status : InteractionStatus) (redirectToComplete : Bool)
  | document (body : DocumentBody)
  | challenge (value : String)
  | registration (challenge : String) (emailInUse : Bool)
  | requestUri (id : String)
  | toUpstream (upstreamAlias : String)
  | grants (items : List GrantRecord)
  | thrown
  deriving DecidableEq

end TinyOidc.Interaction
