import Mathlib.Data.Int.Order.Basic
import TinyOidc.Lib.Table

/-! The rows of a user's object (`src/do/schema.ts`, version 4) and the values its methods
take and return. Columns that hold a JSON array or a space-joined list are the list; times
are whole seconds. -/
namespace TinyOidc.User
open RowTable

abbrev Bytes := List UInt8

structure UserRow where
  id : String
  email : Option String
  emailNorm : Option String
  emailVerified : Bool
  displayName : Option String
  groups : List String
  disabledAt : Option ℤ
  createdAt : ℤ
  updatedAt : ℤ
  deriving DecidableEq, Repr

structure UserProfile where
  id : String
  email : Option String
  emailNorm : Option String
  emailVerified : Bool
  displayName : Option String
  groups : List String
  disabledAt : Option ℤ
  createdAt : ℤ
  updatedAt : ℤ
  deriving DecidableEq, Repr

structure InitProfile where
  id : String
  email : Option String
  emailNorm : Option String
  emailVerified : Bool
  displayName : Option String
  groups : List String
  deriving DecidableEq, Repr

inductive CreatedVia where
  | interaction | me | recovery
  deriving DecidableEq, Repr

structure PasskeyRow where
  id : String
  credentialId : String
  publicKey : Bytes
  alg : ℤ
  counter : ℕ
  transports : List String
  aaguid : Option String
  backupEligible : Bool
  backedUp : Bool
  name : Option String
  createdVia : CreatedVia
  createdAt : ℤ
  lastUsedAt : Option ℤ
  deriving DecidableEq, Repr

structure IdentityRow where
  id : String
  issuer : String
  subject : String
  email : Option String
  emailVerified : Option Bool
  name : Option String
  createdAt : ℤ
  lastLoginAt : Option ℤ
  deriving DecidableEq, Repr

structure SessionRow where
  sid : String
  secretHash : Bytes
  createdAt : ℤ
  lastSeenAt : ℤ
  idleExpiresAt : ℤ
  absoluteExpiresAt : ℤ
  authTime : ℤ
  amr : List String
  acr : String
  upstream : Option String
  ipHash : Option String
  uaFamily : Option String
  country : Option String
  revokedAt : Option ℤ
  revokeReason : Option String
  deriving DecidableEq, Repr

structure SessionClientRow where
  sid : String
  clientId : String
  firstAt : ℤ
  deriving DecidableEq, Repr

structure CodeRow where
  secretHash : Bytes
  clientId : String
  redirectUri : String
  scope : List String
  nonce : Option String
  codeChallenge : Option String
  sid : String
  authTime : ℤ
  amr : List String
  acr : String
  createdAt : ℤ
  expiresAt : ℤ
  consumedAt : Option ℤ
  deriving DecidableEq, Repr

inductive FamilyKind where
  | session | offline
  deriving DecidableEq, Repr

structure FamilyRow where
  id : String
  clientId : String
  clientCreatedAt : ℤ
  codeSecretHash : Option Bytes
  kind : FamilyKind
  sid : Option String
  scope : List String
  authTime : ℤ
  amr : List String
  acr : String
  createdAt : ℤ
  absoluteExpiresAt : ℤ
  idleExpiresAt : ℤ
  currentSerial : ℕ
  revokedAt : Option ℤ
  revokeReason : Option String
  deriving DecidableEq, Repr

/-- A refresh token; it is consumed once its family holds a later serial. -/
structure TokenRow where
  familyId : String
  secretHash : Bytes
  serial : ℕ
  createdAt : ℤ
  deriving DecidableEq, Repr

structure GrantRow where
  clientId : String
  clientCreatedAt : ℤ
  scopes : List String
  grantedAt : ℤ
  updatedAt : ℤ
  deriving DecidableEq, Repr

structure ChallengeRow where
  key : String
  value : String
  expiresAt : ℤ
  deriving DecidableEq, Repr

/-- The `passkey_attempts` entry of `meta`. -/
structure AttemptWindow where
  since : ℤ
  count : ℕ
  deriving DecidableEq, Repr

/-- Everything an object stores. `user` has at most one row, which `init` writes. -/
structure Tables where
  user : Option UserRow
  passkeyAttempts : Option AttemptWindow
  passkeys : Table PasskeyRow PasskeyRow.id
  identities : Table IdentityRow IdentityRow.id
  sessions : Table SessionRow SessionRow.sid
  sessionClients : Table SessionClientRow (fun r => (r.sid, r.clientId))
  authCodes : Table CodeRow CodeRow.secretHash
  refreshFamilies : Table FamilyRow FamilyRow.id
  refreshTokens : Table TokenRow (fun r => (r.familyId, r.secretHash))
  grants : Table GrantRow GrantRow.clientId
  challenges : Table ChallengeRow ChallengeRow.key

def Tables.empty : Tables where
  user := none
  passkeyAttempts := none
  passkeys := .empty
  identities := .empty
  sessions := .empty
  sessionClients := .empty
  authCodes := .empty
  refreshFamilies := .empty
  refreshTokens := .empty
  grants := .empty
  challenges := .empty

inductive UserDoError where
  | userNotInitialized | userDestroyed | userIdMismatch | userDisabled | userNotAllowed
  | sessionInvalid | invalidGrant | invalidScope
  | passkeyExists | passkeyLimitReached | passkeyVerificationFailed | passkeyCounterRegression
  | identityExists | lastLoginMethod | tooManyAttempts
  deriving DecidableEq, Repr

def UserDoError.text : UserDoError → String
  | .userNotInitialized => "user_not_initialized"
  | .userDestroyed => "user_destroyed"
  | .userIdMismatch => "user_id_mismatch"
  | .userDisabled => "user_disabled"
  | .userNotAllowed => "user_not_allowed"
  | .sessionInvalid => "session_invalid"
  | .invalidGrant => "invalid_grant"
  | .invalidScope => "invalid_scope"
  | .passkeyExists => "passkey_exists"
  | .passkeyLimitReached => "passkey_limit_reached"
  | .passkeyVerificationFailed => "passkey_verification_failed"
  | .passkeyCounterRegression => "passkey_counter_regression"
  | .identityExists => "identity_exists"
  | .lastLoginMethod => "last_login_method"
  | .tooManyAttempts => "too_many_attempts"

/-- What makes a statement throw, which rolls the transaction back. -/
inductive SqlError where
  | uniqueViolation | noSuchTable
  deriving DecidableEq, Repr

/-- The answer of a method: a value, a failure value, or an exception. -/
inductive Outcome (α : Type) where
  | ok (value : α)
  | fail (error : UserDoError)
  | thrown (error : SqlError)
  deriving DecidableEq, Repr

/-- The client fields the object needs; the caller resolves the record. -/
structure ClientRef where
  clientId : String
  createdAt : ℤ
  skipConsent : Bool
  allowedGroups : Option (List String)
  deriving DecidableEq, Repr

structure AuthContext where
  authTime : ℤ
  amr : List String
  acr : String
  upstream : Option String
  deriving DecidableEq, Repr

structure SessionSnapshot where
  sid : String
  authTime : ℤ
  amr : List String
  acr : String
  upstream : Option String
  createdAt : ℤ
  lastSeenAt : ℤ
  idleExpiresAt : ℤ
  absoluteExpiresAt : ℤ
  clients : List String
  country : Option String
  uaFamily : Option String
  deriving DecidableEq, Repr

structure SessionMetadata where
  ipHash : Option String
  uaFamily : Option String
  country : Option String
  deriving DecidableEq, Repr

structure NewSession where
  sid : String
  secretHash : Bytes
  auth : AuthContext
  metadata : SessionMetadata
  idleTtl : ℤ
  absoluteTtl : ℤ
  deriving DecidableEq, Repr

structure CodeInput where
  secretHash : Bytes
  clientId : String
  redirectUri : String
  scope : List String
  nonce : Option String
  codeChallenge : Option String
  deriving DecidableEq, Repr

structure GrantContext where
  sub : String
  scope : List String
  sid : Option String
  authTime : ℤ
  amr : List String
  acr : String
  profile : UserProfile
  deriving DecidableEq, Repr

structure AuthorizeWithSessionInput where
  sid : String
  secretHash : Bytes
  now : ℤ
  client : ClientRef
  scope : List String
  promptLogin : Bool
  promptConsent : Bool
  maxAge : Option ℤ
  code : Option CodeInput
  sessionIdleTtl : ℤ
  deriving DecidableEq, Repr

inductive AuthorizeResult where
  | authorized | loginRequired | consentRequired
  deriving DecidableEq, Repr

/-- The value of a successful `authorizeWithSession`. -/
structure Authorized where
  outcome : AuthorizeResult
  session : SessionSnapshot
  profile : UserProfile
  deriving DecidableEq, Repr

/-- Create a session, or rotate the one of the same user. -/
inductive LoginSession where
  | create (session : NewSession)
  | rotate (sid : String) (secretHash : Bytes) (auth : AuthContext)
  deriving DecidableEq, Repr

structure FinalizeLoginInput where
  now : ℤ
  session : LoginSession
  code : Option CodeInput
  client : Option ClientRef
  sessionIdleTtl : ℤ
  deriving DecidableEq, Repr

structure Finalized where
  sid : String
  session : SessionSnapshot
  profile : UserProfile
  deriving DecidableEq, Repr

/-- The first refresh token of a family and the family's lifetime. -/
structure RefreshInput where
  secretHash : Bytes
  familyId : String
  offlineAllowed : Bool
  idleTtl : ℤ
  absoluteTtl : ℤ
  deriving DecidableEq, Repr

structure ExchangeCodeInput where
  secretHash : Bytes
  client : ClientRef
  redirectUri : String
  codeVerifier : Option String
  now : ℤ
  refresh : Option RefreshInput
  deriving DecidableEq, Repr

inductive ExchangeOutcome where
  | ok (grant : GrantContext) (nonce : Option String) (familyId : Option String)
      (kind : Option FamilyKind)
  | fail (error : UserDoError) (replay : Bool)
  | thrown (error : SqlError)
  deriving DecidableEq, Repr

structure RotateRefreshInput where
  familyId : String
  secretHash : Bytes
  client : ClientRef
  now : ℤ
  requestedScope : Option (List String)
  newSecretHash : Bytes
  idleTtl : ℤ
  sessionIdleTtl : ℤ
  reuseWindow : ℤ
  deriving DecidableEq, Repr

inductive RotateOutcome where
  | ok (grant : GrantContext) (serial : ℕ) (kind : FamilyKind)
  | fail (error : UserDoError) (reuseDetected : Bool)
      (revokedSessionClients : Option (List String))
  | thrown (error : SqlError)
  deriving DecidableEq, Repr

structure NewPasskey where
  id : String
  credentialId : String
  publicKey : Bytes
  alg : ℤ
  counter : ℕ
  transports : List String
  aaguid : Option String
  backupEligible : Bool
  backedUp : Bool
  name : Option String
  createdVia : CreatedVia
  deriving DecidableEq, Repr

structure NewIdentity where
  id : String
  issuer : String
  subject : String
  email : Option String
  emailVerified : Option Bool
  name : Option String
  deriving DecidableEq, Repr

structure IdentityClaims where
  email : Option String
  emailVerified : Bool
  name : Option String
  deriving DecidableEq, Repr

structure GrantRecord where
  clientId : String
  clientCreatedAt : ℤ
  scopes : List String
  grantedAt : ℤ
  updatedAt : ℤ
  deriving DecidableEq, Repr

structure RevokedSession where
  sid : String
  clients : List String
  deriving DecidableEq, Repr

/-- A partial profile update; an absent field is `none`, an explicit null `some none`. -/
structure ProfilePatch where
  email : Option (Option String)
  emailNorm : Option (Option String)
  emailVerified : Option Bool
  displayName : Option (Option String)
  deriving DecidableEq, Repr

structure FamilySnapshot where
  id : String
  clientId : String
  kind : FamilyKind
  sid : Option String
  scope : List String
  authTime : ℤ
  amr : List String
  acr : String
  createdAt : ℤ
  absoluteExpiresAt : ℤ
  idleExpiresAt : ℤ
  currentSerial : ℕ
  deriving DecidableEq, Repr

/-- Who asks for a removal: the Admin API, or the user. -/
inductive RemovalActor where
  | admin | self
  deriving DecidableEq, Repr

end TinyOidc.User
