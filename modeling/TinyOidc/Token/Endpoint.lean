import TinyOidc.Account.World
import TinyOidc.Token.Claims

/-! `POST /token` (`src/oidc/token-endpoint.ts`): the three grants as programs over the users'
objects and what the endpoint asks outside them (the clock, randomness, the caches of keys,
settings and clients, rate limits, client authentication), which the schedule answers. A call of
an object may throw, before or after it took effect. -/
namespace TinyOidc.Token
open TinyOidc.User
open TinyOidc.Account (Fault)
open TinyOidc.Client (ClientRecord GrantType clientRef)
open TinyOidc.Keys (LoadedKeys)

/-! ### Requests and responses -/

structure CodeRef where
  uid : String
  secretHash : Bytes
  deriving DecidableEq, Repr

structure RefreshRef where
  uid : String
  familyId : String
  secretHash : Bytes
  deriving DecidableEq, Repr

/-- The form of a token request; `code` and `refreshToken` are the opened handles. -/
structure TokenForm where
  grantType : Option String
  scope : Option String
  redirectUri : Option String
  codeVerifier : Option String
  code : Option CodeRef
  refreshToken : Option RefreshRef
  deriving DecidableEq, Repr

structure TokenResponse where
  accessToken : AccessJwt
  expiresIn : ℤ
  idToken : Option (SignedJwt IdTokenClaims)
  refreshToken : Option RefreshRef
  scope : String
  deriving DecidableEq, Repr

inductive AdminSubject where
  | user | client
  deriving DecidableEq, Repr

structure AdminActor where
  id : String
  subject : AdminSubject
  token : AccessToken
  deriving DecidableEq, Repr

inductive Response where
  | error (status : ℕ) (error description : String)
  | tokens (body : TokenResponse)
  | admitted (actor : AdminActor)
  deriving DecidableEq, Repr

def rateLimited : Response := .error 429 "rate_limited" "too many requests"

structure TokenSettings where
  accessTtl : ℤ
  idTtl : ℤ
  refreshIdleTtl : ℤ
  refreshAbsoluteTtl : ℤ
  refreshReuseWindow : ℤ
  sessionIdleTtl : ℤ
  deriving DecidableEq, Repr

/-! ### Calls -/

inductive LimitClass where
  | clientToken | adminToken
  deriving DecidableEq, Repr

/-- A refused client authentication: the error, and the client when it is disabled. -/
structure AuthFailure where
  status : ℕ
  error : String
  description : String
  disabledClientId : Option String
  deriving DecidableEq, Repr

def AuthFailure.response (failure : AuthFailure) : Response :=
  .error failure.status failure.error failure.description

inductive Question where
  | authenticateFormClient (form : TokenForm)
  | limited (cls : LimitClass) (key : String)
  | keys
  | settings
  | now
  | newUuid
  | newSecret
  | client (clientId : String)
  deriving DecidableEq

/-- `keys`, `settings` and `client` are caches, which throw when D1 is unavailable; `newSecret`
gives the SHA-256 of a fresh secret. -/
@[reducible] def Question.Answer : Question → Type
  | .authenticateFormClient _ => Except AuthFailure ClientRecord
  | .limited _ _ => Bool
  | .keys => Option LoadedKeys
  | .settings => Option TokenSettings
  | .now => ℤ
  | .newUuid => String
  | .newSecret => Bytes
  | .client _ => Option (Option ClientRecord)

inductive Op where
  | user (uid : String) (call : Call)
  | ask (question : Question)
  deriving DecidableEq

/-- A call of an object gives no reply when it throws. -/
@[reducible] def Op.Answer : Op → Type
  | .user _ _ => Option Reply
  | .ask question => question.Answer

/-- What the schedule says of a call: whether it throws, and the answers to questions. -/
structure Outside where
  fault : Fault
  oracle : (question : Question) → question.Answer

abbrev World := String → UserObject

def World.fresh : World := fun _ => .fresh

def World.exec (sha256 : String → Bytes) (w : World) (outside : Outside) :
    (op : Op) → World × op.Answer
  | .user uid call =>
      let answered := (w uid).call sha256 call
      match outside.fault with
      | .none => (Function.update w uid answered.1, some answered.2)
      | .before => (w, none)
      | .after => (Function.update w uid answered.1, none)
  | .ask question => (w, outside.oracle question)

abbrev Handler := Threads.Prog Op Op.Answer

def ask (question : Question) : Handler question.Answer := .perform (Op.ask question)

def userCall (uid : String) (call : Call) : Handler (Option Reply) := .perform (Op.user uid call)

/-! ### The endpoint -/

section Endpoint

structure TokenConfig where
  sha256 : String → Bytes
  compact : AccessJwt → String
  issuer : String

variable (config : TokenConfig)

structure Issuance where
  keys : LoadedKeys
  settings : TokenSettings
  client : ClientRecord
  now : ℤ
  jti : String
  deriving DecidableEq, Repr

def invalidGrant (description : String) : Response := .error 400 "invalid_grant" description

def unavailable : Response := .error 503 "temporarily_unavailable" "storage unavailable"

def grantTypeText : GrantType → String
  | .authorizationCode => "authorization_code"
  | .refreshToken => "refresh_token"
  | .clientCredentials => "client_credentials"

def grantTypesSupported : List String :=
  [.authorizationCode, .refreshToken, .clientCredentials].map grantTypeText

def holdsGrant (client : ClientRecord) (grantType : String) : Bool :=
  (client.grantTypes.map grantTypeText).contains grantType

/-- Scopes that only a user can hold: everything but `admin`. -/
def userOnlyScopes : List String := scopesSupported.filter (· != "admin")

def accessTtl (issuance : Issuance) : ℤ :=
  issuance.client.accessTokenTtl.getD issuance.settings.accessTtl

def userContext (grant : GrantContext) (kind : Option FamilyKind) : UserContext where
  sub := grant.sub
  authTime := grant.authTime
  acr := grant.acr
  amr := grant.amr
  sid := if kind = some .offline then none else grant.sid

def profileClaims (profile : UserProfile) : ProfileClaims where
  name := profile.displayName
  updatedAt := profile.updatedAt
  email := profile.email
  emailVerified := profile.emailVerified
  groups := profile.groups

/-- The access token and, with `openid`, the ID token of a user grant. -/
def userTokens (issuance : Issuance) (grant : GrantContext) (kind : Option FamilyKind)
    (nonce : Option String) (refreshToken : Option RefreshRef) : TokenResponse :=
  let user := userContext grant kind
  let accessToken := signJwt issuance.keys .accessToken (accessTokenClaims
    { issuer := config.issuer
      clientId := issuance.client.clientId
      now := issuance.now
      ttl := accessTtl issuance
      jti := issuance.jti
      scopes := grant.scope
      audiences := issuance.client.audiences
      user := some user
      groups := grant.profile.groups })
  { accessToken := accessToken
    expiresIn := accessTtl issuance
    idToken :=
      if grant.scope.contains "openid" then
        some (signJwt issuance.keys .idToken (idTokenClaims config.sha256
          { issuer := config.issuer
            clientId := issuance.client.clientId
            now := issuance.now
            ttl := issuance.client.idTokenTtl.getD issuance.settings.idTtl
            user := user
            nonce := nonce
            accessToken := config.compact accessToken
            scopes := grant.scope
            profile := profileClaims grant.profile }))
      else none
    refreshToken := refreshToken
    scope := joinWords grant.scope }

/-- The refresh grant of a disabled client revokes the family it presents. -/
def disabledClientRefresh (form : TokenForm) (clientId : String) : Handler Response := do
  match form.refreshToken with
  | none => return invalidGrant "refresh_token is invalid"
  | some refresh =>
    let now ← ask .now
    match ← userCall refresh.uid
        (.revokeFamilyById refresh.familyId now "client_disabled" (some clientId)) with
    | none | some (.flag (.thrown _)) => return unavailable
    | some _ => return invalidGrant "client is disabled"

/-- A client's own token, never `openid` and friends. -/
def clientCredentials (issuance : Issuance) (form : TokenForm) : Response :=
  match parseScope form.scope with
  | none => .error 400 "invalid_scope" "scope is malformed"
  | some requested =>
      if !requested.all (fun s => !userOnlyScopes.contains s &&
          (issuance.client.scopesAllowed.map scopeText).contains s) then
        .error 400 "invalid_scope" "scope is not allowed for this client"
      else
        .tokens
          { accessToken := signJwt issuance.keys .accessToken (accessTokenClaims
              { issuer := config.issuer
                clientId := issuance.client.clientId
                now := issuance.now
                ttl := accessTtl issuance
                jti := issuance.jti
                scopes := requested
                audiences := issuance.client.audiences
                user := none
                groups := [] })
            expiresIn := accessTtl issuance
            idToken := none
            refreshToken := none
            scope := joinWords requested }

/-- The exchange of a code by its user's object, which may hash the verifier first. -/
def exchangeCode (uid : String) (input : ExchangeCodeInput) : Handler (Option Reply) := do
  match ← userCall uid (.exchangeCode input) with
  | some (.exchange (.suspended call)) => userCall uid (.resumeExchange call)
  | reply => return reply

def authorizationCode (issuance : Issuance) (form : TokenForm) : Handler Response := do
  match form.code with
  | none => return invalidGrant "code is invalid"
  | some code =>
    match form.redirectUri with
    | none => return invalidGrant "redirect_uri and a valid code_verifier are required"
    | some redirectUri =>
      if form.codeVerifier.any (fun verifier => !pkceVerifier verifier) then
        return invalidGrant "redirect_uri and a valid code_verifier are required"
      let refreshSecret ← ask .newSecret
      let familyId ← ask .newUuid
      let client := issuance.client
      match ← exchangeCode code.uid
          { secretHash := code.secretHash
            client := clientRef client
            redirectUri := redirectUri
            codeVerifier := form.codeVerifier
            now := issuance.now
            refresh :=
              if holdsGrant client "refresh_token" then
                some
                  { secretHash := refreshSecret
                    familyId := familyId
                    offlineAllowed := client.offlineAccess
                    idleTtl := client.refreshIdleTtl.getD issuance.settings.refreshIdleTtl
                    absoluteTtl :=
                      client.refreshTokenTtl.getD issuance.settings.refreshAbsoluteTtl }
              else none } with
      | some (.exchange (.done (.ok grant nonce familyId? kind))) =>
        return .tokens (userTokens config issuance grant kind nonce
          (familyId?.map fun id => ⟨code.uid, id, refreshSecret⟩))
      | some (.exchange (.done (.fail _ _))) =>
        return invalidGrant "code is invalid, expired or already used"
      | _ => return unavailable

def refreshGrant (issuance : Issuance) (form : TokenForm) : Handler Response := do
  match form.refreshToken with
  | none => return invalidGrant "refresh_token is invalid"
  | some refresh =>
    match parseScope form.scope with
    | none => return .error 400 "invalid_scope" "scope is malformed"
    | some requested =>
      let newSecret ← ask .newSecret
      match ← userCall refresh.uid (.rotateRefreshToken
          { familyId := refresh.familyId
            secretHash := refresh.secretHash
            client := clientRef issuance.client
            now := issuance.now
            requestedScope := form.scope.map fun _ => requested
            newSecretHash := newSecret
            idleTtl := issuance.client.refreshIdleTtl.getD issuance.settings.refreshIdleTtl
            sessionIdleTtl := issuance.settings.sessionIdleTtl
            reuseWindow := issuance.settings.refreshReuseWindow }) with
      | some (.rotate (.ok grant _ kind)) =>
        return .tokens (userTokens config issuance grant (some kind) none
          (some ⟨refresh.uid, refresh.familyId, newSecret⟩))
      | some (.rotate (.fail .invalidScope _ _)) =>
        return .error 400 "invalid_scope" "scope exceeds the family's scope"
      | some (.rotate (.fail _ _ _)) =>
        return invalidGrant "refresh_token is invalid, expired or revoked"
      | _ => return unavailable

/-- The grant of an authenticated client; `form` is the parsed body. -/
def grantTokens (client : ClientRecord) (form : TokenForm) : Handler Response := do
  if ← ask (.limited .clientToken client.clientId) then return rateLimited
  let grantType := form.grantType.getD ""
  if !grantTypesSupported.contains grantType then
    return .error 400 "unsupported_grant_type" "grant_type is not supported"
  if !holdsGrant client grantType then
    return .error 400 "unauthorized_client" "grant_type is not allowed for this client"
  match ← ask .keys with
  | none => return .error 503 "temporarily_unavailable" "keys or settings unavailable"
  | some keys =>
    match ← ask .settings with
    | none => return .error 503 "temporarily_unavailable" "keys or settings unavailable"
    | some settings =>
      let now ← ask .now
      let jti ← ask .newUuid
      let issuance : Issuance := ⟨keys, settings, client, now, jti⟩
      if grantType = "client_credentials" then return clientCredentials config issuance form
      if grantType = "authorization_code" then authorizationCode config issuance form
      else refreshGrant config issuance form

/-- `form` fails with the reason a body is refused for. -/
def tokenHandler (form : Except String TokenForm) : Handler Response := do
  match form with
  | .error reason => return .error 400 "invalid_request" reason
  | .ok form =>
    match ← ask (.authenticateFormClient form) with
    | .ok client => grantTokens config client form
    | .error refused =>
      match refused.disabledClientId with
      | some clientId =>
        if form.grantType = some "refresh_token" then disabledClientRefresh form clientId
        else return refused.response
      | none => return refused.response

end Endpoint
end TinyOidc.Token
