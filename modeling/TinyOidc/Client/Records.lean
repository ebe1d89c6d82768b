import TinyOidc.User.Schema

/-! Client records (`src/oidc/clients.ts`, `src/db/clients.ts`): the cross-field rules, the record
a validated input is stored as, and the statements on the `clients` table. Times are whole
seconds. -/
namespace TinyOidc.Client
open RowTable TinyOidc.User

inductive GrantType where
  | authorizationCode | refreshToken | clientCredentials
  deriving DecidableEq, Repr

inductive TokenEndpointAuthMethod where
  | none | clientSecretBasic | clientSecretPost | privateKeyJwt
  deriving DecidableEq, Repr

inductive Scope where
  | openid | profile | email | groups | offlineAccess | account | admin
  deriving DecidableEq, Repr

inductive KeyType where
  | ec | rsa | okp
  deriving DecidableEq, Repr

structure PublicJwk where
  kty : KeyType
  kid : String
  alg : Option String
  use : Option String
  crv : Option String
  x : Option String
  y : Option String
  n : Option String
  e : Option String
  deriving DecidableEq, Repr

/-- The Admin API body after the schema has parsed it. -/
structure ClientInput where
  clientId : Option String
  clientName : String
  clientUri : Option String
  logoUri : Option String
  redirectUris : List String
  postLogoutRedirectUris : List String
  backchannelLogoutUri : Option String
  grantTypes : List GrantType
  tokenEndpointAuthMethod : TokenEndpointAuthMethod
  jwks : Option (List PublicJwk)
  jwksUri : Option String
  scopesAllowed : List Scope
  audiences : List String
  allowedGroups : Option (List String)
  skipConsent : Bool
  requirePar : Bool
  requirePkce : Bool
  offlineAccess : Bool
  accessTokenTtl : Option ℤ
  idTokenTtl : Option ℤ
  refreshTokenTtl : Option ℤ
  refreshIdleTtl : Option ℤ
  deriving DecidableEq, Repr

structure ClientRecord where
  clientId : String
  clientName : String
  clientUri : Option String
  logoUri : Option String
  redirectUris : List String
  postLogoutRedirectUris : List String
  backchannelLogoutUri : Option String
  grantTypes : List GrantType
  tokenEndpointAuthMethod : TokenEndpointAuthMethod
  clientSecretHash : Option Bytes
  jwks : Option (List PublicJwk)
  jwksUri : Option String
  scopesAllowed : List Scope
  audiences : List String
  allowedGroups : Option (List String)
  skipConsent : Bool
  requirePar : Bool
  requirePkce : Bool
  offlineAccess : Bool
  accessTokenTtl : Option ℤ
  idTokenTtl : Option ℤ
  refreshTokenTtl : Option ℤ
  refreshIdleTtl : Option ℤ
  disabledAt : Option ℤ
  createdAt : ℤ
  updatedAt : ℤ
  deriving DecidableEq, Repr

def clientRef (client : ClientRecord) : ClientRef where
  clientId := client.clientId
  createdAt := client.createdAt
  skipConsent := client.skipConsent
  allowedGroups := client.allowedGroups

/-! ### Validation -/

structure ValidationContext where
  issuer : String
  actorHasAdmin : Bool
  existingGroups : List String
  deriving DecidableEq, Repr

/-- What the rules ask of a URL: `isRegistrableRedirectUri`, `isAudience` and the schema of an
`https` URL. -/
structure UrlRules where
  registrableRedirectUri : String → Bool
  audience : String → Bool
  httpsUrl : String → Bool

def hasDuplicates {α : Type} [DecidableEq α] (values : List α) : Bool := !decide values.Nodup

def violationIf (broken : Bool) (text : String) : List String := if broken then [text] else []

/-- The cross-field rules; each violation names its field. -/
def validateClientInput (urls : UrlRules) (input : ClientInput) (context : ValidationContext) :
    List String :=
  let code := input.grantTypes.contains .authorizationCode
  let method := input.tokenEndpointAuthMethod
  violationIf (hasDuplicates input.grantTypes) "grant_types: duplicates" ++
  violationIf (input.grantTypes.contains .refreshToken && !code)
    "grant_types: refresh_token requires authorization_code" ++
  violationIf (code && input.redirectUris.isEmpty)
    "redirect_uris: required for authorization_code" ++
  violationIf (!code && !input.redirectUris.isEmpty)
    "redirect_uris: must be empty without authorization_code" ++
  violationIf (hasDuplicates input.redirectUris) "redirect_uris: duplicates" ++
  input.redirectUris.flatMap (fun uri => violationIf (!urls.registrableRedirectUri uri)
    ("redirect_uris: \"" ++ uri ++ "\" is not registrable")) ++
  violationIf (hasDuplicates input.postLogoutRedirectUris)
    "post_logout_redirect_uris: duplicates" ++
  input.postLogoutRedirectUris.flatMap (fun uri => violationIf (!urls.registrableRedirectUri uri)
    ("post_logout_redirect_uris: \"" ++ uri ++ "\" is not registrable")) ++
  violationIf (input.backchannelLogoutUri.any
      (fun uri => !(urls.httpsUrl uri && !uri.toList.contains '#')))
    "backchannel_logout_uri: must be an https URL without a fragment" ++
  violationIf (method = .none && (!code || input.grantTypes.contains .clientCredentials))
    ("token_endpoint_auth_method: none requires grant_types of authorization_code with optional " ++
      "refresh_token") ++
  violationIf (input.grantTypes.contains .clientCredentials && method = .none)
    "grant_types: client_credentials requires a confidential authentication method" ++
  violationIf (method = .none && !input.requirePkce)
    "require_pkce: a public client cannot clear it" ++
  (if method = .privateKeyJwt then
    violationIf (input.jwks.isNone == input.jwksUri.isNone)
      "jwks: private_key_jwt requires exactly one of jwks or jwks_uri"
  else
    violationIf (input.jwks.isSome || input.jwksUri.isSome)
      "jwks: only private_key_jwt clients register keys") ++
  violationIf (hasDuplicates input.scopesAllowed) "scopes_allowed: duplicates" ++
  violationIf (input.scopesAllowed.contains .admin && !context.actorHasAdmin)
    "scopes_allowed: admin may only be granted by an administrator" ++
  violationIf (hasDuplicates input.audiences) "audiences: duplicates" ++
  input.audiences.flatMap (fun audience =>
    if urls.audience audience then
      violationIf (audience == context.issuer)
        "audiences: the issuer is added by scope, never configured"
    else ["audiences: \"" ++ audience ++ "\" is not an https URI or URN"]) ++
  (match input.allowedGroups with
  | none => []
  | some groups =>
      violationIf (hasDuplicates groups) "allowed_groups: duplicates" ++
      groups.flatMap (fun group => violationIf (!context.existingGroups.contains group)
        ("allowed_groups: group \"" ++ group ++ "\" does not exist")))

def usesSecret : TokenEndpointAuthMethod → Bool
  | .clientSecretBasic | .clientSecretPost => true
  | .none | .privateKeyJwt => false

def clientFromInput (input : ClientInput) (clientId : String) (secretHash : Option Bytes)
    (now : ℤ) : ClientRecord where
  clientId := clientId
  clientName := input.clientName
  clientUri := input.clientUri
  logoUri := input.logoUri
  redirectUris := input.redirectUris
  postLogoutRedirectUris := input.postLogoutRedirectUris
  backchannelLogoutUri := input.backchannelLogoutUri
  grantTypes := input.grantTypes
  tokenEndpointAuthMethod := input.tokenEndpointAuthMethod
  clientSecretHash := secretHash
  jwks := input.jwks
  jwksUri := input.jwksUri
  scopesAllowed := input.scopesAllowed
  audiences := input.audiences
  allowedGroups := input.allowedGroups
  skipConsent := input.skipConsent
  requirePar := input.requirePar
  requirePkce := input.requirePkce
  offlineAccess := input.offlineAccess
  accessTokenTtl := input.accessTokenTtl
  idTokenTtl := input.idTokenTtl
  refreshTokenTtl := input.refreshTokenTtl
  refreshIdleTtl := input.refreshIdleTtl
  disabledAt := none
  createdAt := now
  updatedAt := now

/-- The stored record turned back into an input, for laying a patch over it. -/
def inputOf (client : ClientRecord) : ClientInput where
  clientId := some client.clientId
  clientName := client.clientName
  clientUri := client.clientUri
  logoUri := client.logoUri
  redirectUris := client.redirectUris
  postLogoutRedirectUris := client.postLogoutRedirectUris
  backchannelLogoutUri := client.backchannelLogoutUri
  grantTypes := client.grantTypes
  tokenEndpointAuthMethod := client.tokenEndpointAuthMethod
  jwks := client.jwks
  jwksUri := client.jwksUri
  scopesAllowed := client.scopesAllowed
  audiences := client.audiences
  allowedGroups := client.allowedGroups
  skipConsent := client.skipConsent
  requirePar := client.requirePar
  requirePkce := client.requirePkce
  offlineAccess := client.offlineAccess
  accessTokenTtl := client.accessTokenTtl
  idTokenTtl := client.idTokenTtl
  refreshTokenTtl := client.refreshTokenTtl
  refreshIdleTtl := client.refreshIdleTtl

/-! ### The `clients` table -/

abbrev ClientTable := Table ClientRecord ClientRecord.clientId

def getClient (t : ClientTable) (clientId : String) : Option ClientRecord := t.find clientId

inductive InsertClientResult where
  | created | clientExists
  deriving DecidableEq, Repr

/-- `ON CONFLICT(client_id) DO NOTHING`. -/
def insertClient (t : ClientTable) (client : ClientRecord) : ClientTable × InsertClientResult :=
  match t.insert client with
  | some inserted => (inserted, .created)
  | none => (t, .clientExists)

/-- An `UPDATE` of one client; the answer is whether the client exists. -/
def updateOne (t : ClientTable) (clientId : String) (f : ClientRecord → ClientRecord)
    (hf : ∀ r, (f r).clientId = r.clientId) : ClientTable × Bool :=
  (t.updateWhere (·.clientId == clientId) f hf, (t.find clientId).isSome)

def setClientDisabled (t : ClientTable) (clientId : String) (disabledAt : Option ℤ) (now : ℤ) :
    ClientTable × Bool :=
  updateOne t clientId (fun r => { r with disabledAt := disabledAt, updatedAt := now })
    (fun _ => rfl)

def updateClientSecretHash (t : ClientTable) (clientId : String) (hash : Bytes) (now : ℤ) :
    ClientTable × Bool :=
  updateOne t clientId (fun r => { r with clientSecretHash := some hash, updatedAt := now })
    (fun _ => rfl)

def deleteClient (t : ClientTable) (clientId : String) : ClientTable × Bool :=
  (t.deleteWhere (·.clientId == clientId), (t.find clientId).isSome)

/-- Rewrites every mutable column, the secret hash among them. -/
def updateClient (t : ClientTable) (client : ClientRecord) (now : ℤ) : ClientTable × Bool :=
  updateOne t client.clientId
    (fun r => { client with
      clientId := r.clientId, disabledAt := r.disabledAt, createdAt := r.createdAt
      updatedAt := now })
    (fun _ => rfl)

/-- A client that uses a secret. -/
def Sample.input : ClientInput where
  clientId := some "app"
  clientName := "App"
  clientUri := none
  logoUri := none
  redirectUris := ["https://app.test/cb"]
  postLogoutRedirectUris := []
  backchannelLogoutUri := none
  grantTypes := [.authorizationCode, .refreshToken]
  tokenEndpointAuthMethod := .clientSecretBasic
  jwks := none
  jwksUri := none
  scopesAllowed := [.openid, .offlineAccess]
  audiences := []
  allowedGroups := none
  skipConsent := false
  requirePar := false
  requirePkce := false
  offlineAccess := true
  accessTokenTtl := none
  idTokenTtl := none
  refreshTokenTtl := none
  refreshIdleTtl := none

end TinyOidc.Client
