import TinyOidc.Token.Endpoint

/-! Authorization of the Admin API (`src/admin/auth.ts`), and the requests that mint tokens and
present them. -/
namespace TinyOidc.Admin
open TinyOidc.User TinyOidc.Token
open Threads (System)

def adminScope : String := "admin"

def adminsGroup : String := "admins"

def invalidToken : Response := .error 401 "invalid_token" "invalid token"

def insufficient (description : String) : Response := .error 403 "insufficient_scope" description

/-- A service client: the current record decides. -/
def admitClient (token : AccessToken) : Handler Response := do
  match ← ask (.client token.clientId) with
  | none => return .error 503 "temporarily_unavailable" "client directory unavailable"
  | some none => return invalidToken
  | some (some client) =>
    if client.disabledAt.isSome then return invalidToken
    if !client.scopesAllowed.contains .admin then
      return insufficient "the client may no longer use the admin scope"
    return .admitted ⟨token.sub, .client, token⟩

/-- A user: membership of `admins` is read from the object, not the token. -/
def admitUser (token : AccessToken) : Handler Response := do
  match ← userCall token.sub .getProfile with
  | some (.profile (.ok profile)) =>
    if profile.disabledAt.isSome then return invalidToken
    if !profile.groups.contains adminsGroup then
      return insufficient "the user is no longer an administrator"
    return .admitted ⟨token.sub, .user, token⟩
  | some (.profile (.fail _)) => return invalidToken
  | _ => return .error 503 "temporarily_unavailable" "user storage unavailable"

/-- `presented` is the token of `Authorization: Bearer`. -/
def requireAdmin (issuer : String) (presented : Option BearerToken) : Handler Response := do
  match presented with
  | none => return .error 401 "invalid_token" "bearer token required"
  | some bearer =>
    match ← ask .keys with
    | none => return .error 503 "temporarily_unavailable" "keys unavailable"
    | some keys =>
      let now ← ask .now
      match verifyAccessToken keys bearer issuer now false with
      | none => return invalidToken
      | some token =>
        if !token.scopes.contains adminScope then
          return insufficient "the admin scope is required"
        if ← ask (.limited .adminToken token.payload.jti) then return rateLimited
        if token.sub = token.clientId then admitClient token else admitUser token

inductive Request where
  | token (form : Except String TokenForm)
  | admin (presented : Option BearerToken)
  deriving DecidableEq

def handle (config : TokenConfig) : Request → Handler Response
  | .token form => tokenHandler config form
  | .admin presented => requireAdmin config.issuer presented

/-- The calls other handlers make: any call of an object, which is initialized for its own user. -/
def outsideOp : Op → Bool
  | .user uid (.init p _ _) => p.id == uid
  | .user _ _ => true
  | .ask _ => false

/-- The deployment: requests to mint and to administrate, beside everything else that calls the
users' objects. -/
def deployment (config : TokenConfig) :
    System Request Outside World Op.Answer Response where
  start := handle config
  exec := World.exec config.sha256
  isOutside := outsideOp

end TinyOidc.Admin
