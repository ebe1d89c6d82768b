import TinyOidc.Client.Handlers
import TinyOidc.Keys.Keystore

/-! The tokens the provider signs (`src/oidc/tokens.ts`, `src/crypto/jwt.ts`,
`src/oidc/bearer.ts`) and the ids they name. A signed token is its header
and claims; the serialization, which `at_hash` reads, is a parameter. -/
namespace TinyOidc.Token
open TinyOidc.User TinyOidc.Util
open TinyOidc.Client (Scope isClientId isClientIdChar)
open TinyOidc.Keys (LoadedKeys)

/-! ### Scopes -/

def scopeText : Scope → String
  | .openid => "openid"
  | .profile => "profile"
  | .email => "email"
  | .groups => "groups"
  | .offlineAccess => "offline_access"
  | .account => "account"
  | .admin => "admin"

def scopesSupported : List String :=
  [.openid, .profile, .email, .groups, .offlineAccess, .account, .admin].map scopeText

def isScope (text : String) : Bool := scopesSupported.contains text

/-- `words.join(" ")`. -/
def joinWords (words : List String) : String :=
  String.ofList ([' '].intercalate (words.map String.toList))

/-- A space-delimited scope value as known scopes; none when malformed. Absent is empty. -/
def parseScope (value : Option String) : Option (List String) :=
  match value with
  | none | some "" => some []
  | some text =>
      let tokens := splitSpaces text
      if !tokens.all (fun t => 0 < t.length && isScope t) then none
      else if !decide tokens.Nodup then none
      else some tokens

/-! ### Claims -/

/-- The claims an ID token may carry, gated by scope. -/
structure ProfileClaims where
  name : Option String
  updatedAt : ℤ
  email : Option String
  emailVerified : Bool
  groups : List String
  deriving DecidableEq, Repr

/-- What the scopes let through; an absent claim is not emitted. -/
structure ScopedClaims where
  name : Option String
  updatedAt : Option ℤ
  email : Option String
  emailVerified : Option Bool
  groups : Option (List String)
  deriving DecidableEq, Repr

def scopedClaims (scopes : List String) (p : ProfileClaims) : ScopedClaims where
  name := if scopes.contains "profile" then p.name else none
  updatedAt := if scopes.contains "profile" then some p.updatedAt else none
  email := if scopes.contains "email" then p.email else none
  emailVerified :=
    if scopes.contains "email" && p.email.isSome then some p.emailVerified else none
  groups := if scopes.contains "groups" then some (sortTexts p.groups) else none

structure UserContext where
  sub : String
  authTime : ℤ
  acr : String
  amr : List String
  sid : Option String
  deriving DecidableEq, Repr

/-- `aud`: a string when single. -/
inductive Audience where
  | one (value : String)
  | many (values : List String)
  deriving DecidableEq, Repr

def Audience.values : Audience → List String
  | .one value => [value]
  | .many values => values

/-- The client's audiences or its id, and the issuer for the provider's own APIs. -/
def accessTokenAudience (issuer clientId : String) (audiences scopes : List String) : Audience :=
  let named := if 0 < audiences.length then audiences else [clientId]
  let aud :=
    if (scopes.contains "account" || scopes.contains "admin") && !named.contains issuer then
      named ++ [issuer]
    else named
  match aud with
  | [value] => .one value
  | values => .many values

structure AccessTokenClaims where
  iss : String
  sub : String
  aud : Audience
  exp : ℤ
  iat : ℤ
  jti : String
  clientId : String
  scope : String
  sid : Option String
  authTime : Option ℤ
  acr : Option String
  amr : Option (List String)
  groups : Option (List String)
  deriving DecidableEq, Repr

structure AccessTokenInput where
  issuer : String
  clientId : String
  now : ℤ
  ttl : ℤ
  jti : String
  scopes : List String
  audiences : List String
  user : Option UserContext
  groups : List String
  deriving DecidableEq, Repr

def accessTokenClaims (input : AccessTokenInput) : AccessTokenClaims where
  iss := input.issuer
  sub := (input.user.map (·.sub)).getD input.clientId
  aud := accessTokenAudience input.issuer input.clientId input.audiences input.scopes
  exp := input.now + input.ttl
  iat := input.now
  jti := input.jti
  clientId := input.clientId
  scope := joinWords input.scopes
  sid := input.user.bind (·.sid)
  authTime := input.user.map (·.authTime)
  acr := input.user.map (·.acr)
  amr := input.user.map (·.amr)
  groups :=
    if input.user.isSome && input.scopes.contains "groups" then some (sortTexts input.groups)
    else none

structure IdTokenClaims where
  iss : String
  sub : String
  aud : String
  exp : ℤ
  iat : ℤ
  authTime : ℤ
  acr : String
  amr : List String
  atHash : String
  fromScopes : ScopedClaims
  sid : Option String
  nonce : Option String
  deriving DecidableEq, Repr

structure IdTokenInput where
  issuer : String
  clientId : String
  now : ℤ
  ttl : ℤ
  user : UserContext
  nonce : Option String
  accessToken : String
  scopes : List String
  profile : ProfileClaims
  deriving DecidableEq, Repr

/-- The left half of the hash of the access token. -/
def atHash (sha256 : String → Bytes) (accessToken : String) : String :=
  encodeBase64Url ((sha256 accessToken).take 16)

def idTokenClaims (sha256 : String → Bytes) (input : IdTokenInput) : IdTokenClaims where
  iss := input.issuer
  sub := input.user.sub
  aud := input.clientId
  exp := input.now + input.ttl
  iat := input.now
  authTime := input.user.authTime
  acr := input.user.acr
  amr := input.user.amr
  atHash := atHash sha256 input.accessToken
  fromScopes := scopedClaims input.scopes input.profile
  sid := input.user.sid
  nonce := input.nonce

/-! ### Signing and verifying -/

inductive TokenTyp where
  | idToken | accessToken | logoutToken
  deriving DecidableEq, Repr

/-- A token signed under the key `kid`. -/
structure SignedJwt (γ : Type) where
  typ : TokenTyp
  kid : String
  claims : γ
  deriving DecidableEq, Repr

def signJwt {γ : Type} (keys : LoadedKeys) (typ : TokenTyp) (claims : γ) : SignedJwt γ where
  typ := typ
  kid := keys.signing
  claims := claims

abbrev AccessJwt := SignedJwt AccessTokenClaims

/-- A bearer token: one the provider signed, or any other text. -/
inductive BearerToken where
  | signed (jwt : AccessJwt)
  | other
  deriving DecidableEq, Repr

/-- `verifyOwnJwt` for an access token: its type, an unretired key, the issuer, and the expiry
without leeway. -/
def verifyOwnJwt (keys : LoadedKeys) (token : BearerToken) (issuer : String) (now : ℤ) :
    Option AccessTokenClaims :=
  match token with
  | .other => none
  | .signed jwt =>
      if jwt.typ = .accessToken ∧ jwt.kid ∈ keys.jwks ∧ jwt.claims.iss = issuer ∧
          now < jwt.claims.exp then
        some jwt.claims
      else none

structure AccessToken where
  payload : AccessTokenClaims
  sub : String
  clientId : String
  scopes : List String
  authTime : Option ℤ
  sid : Option String
  deriving DecidableEq, Repr

/-- Verifies an access token for a resource: its `aud` names the issuer or, with `acceptClient`,
its own client. -/
def verifyAccessToken (keys : LoadedKeys) (token : BearerToken) (issuer : String) (now : ℤ)
    (acceptClient : Bool) : Option AccessToken :=
  match verifyOwnJwt keys token issuer now with
  | none => none
  | some payload =>
      let accepted := if acceptClient then [issuer, payload.clientId] else [issuer]
      if !payload.aud.values.any (fun a => accepted.contains a) then none
      else
        some
          { payload := payload
            sub := payload.sub
            clientId := payload.clientId
            scopes := (splitSpaces payload.scope).filter (fun s => 0 < s.length)
            authTime := payload.authTime
            sid := payload.sid }

/-- A verified token is one the provider signed, with the claims it signed. -/
theorem verifyAccessToken_some {keys : LoadedKeys} {token : BearerToken} {issuer : String}
    {now : ℤ} {acceptClient : Bool} {verified : AccessToken}
    (h : verifyAccessToken keys token issuer now acceptClient = some verified) :
    ∃ jwt, token = .signed jwt ∧ verified.payload = jwt.claims ∧
      verified.sub = jwt.claims.sub ∧ verified.clientId = jwt.claims.clientId := by
  unfold verifyAccessToken verifyOwnJwt at h
  cases token with
  | other => cases h
  | signed jwt =>
    dsimp only at h
    split at h
    · cases h
    · next payload hpayload =>
      obtain ⟨-, heq⟩ := Option.ite_none_right_eq_some.mp hpayload
      cases heq
      obtain ⟨-, heq⟩ := Option.ite_none_left_eq_some.mp h
      cases heq
      exact ⟨jwt, rfl, rfl, rfl, rfl⟩

/-! ### Ids -/

theorem isHexDigit_clientId {c : Char} (h : isHexDigit c = true) : isClientIdChar c = true := by
  unfold isHexDigit at h
  unfold isClientIdChar
  rcases Bool.or_eq_true_iff.mp h with hdigit | hletter
  · simp [hdigit]
  · have hletter : 'a' ≤ c ∧ c ≤ 'f' := by simpa using hletter
    have hlower : c.isLower = true := by
      have hrange : 97 ≤ c.toNat ∧ c.toNat ≤ 102 := hletter
      have hbounds : 97 ≤ c.toNat ∧ c.toNat ≤ 122 := ⟨hrange.1, by omega⟩
      exact Bool.and_eq_true_iff.mpr
        ⟨decide_eq_true (UInt32.le_iff_toNat_le.mpr hbounds.1),
          decide_eq_true (UInt32.le_iff_toNat_le.mpr hbounds.2)⟩
    simp [hlower]

/-- Every user id is one a client may be registered under. -/
theorem isUuid_isClientId {value : String} (h : isUuid value = true) : isClientId value = true := by
  unfold isUuid at h
  split at h
  · next a b c d e hsplit =>
    obtain ⟨hlengths, hhex⟩ := Bool.and_eq_true_iff.mp h
    have hlengths : a.length = 8 ∧ b.length = 4 ∧ c.length = 4 ∧ d.length = 4 ∧ e.length = 12 := by
      simpa using hlengths
    have hchars : ∀ group ∈ [a, b, c, d, e], ∀ x ∈ group, isClientIdChar x = true := by
      intro group hgroup x hx
      exact isHexDigit_clientId (List.all_eq_true.mp (List.all_eq_true.mp hhex group hgroup) x hx)
    cases a with
    | nil => simp at hlengths
    | cons first rest =>
      have hjoin : value.toList = first :: (rest ++ '-' :: (b ++ '-' :: (c ++ '-' :: (d ++
          '-' :: e)))) := by
        have hparts : ['-'].intercalate (value.toList.splitOn '-') = value.toList :=
          List.intercalate_splitOn '-'
        rw [← hparts, hsplit]
        simp [List.intercalate, List.intersperse]
      unfold isClientId
      rw [hjoin]
      simp only [List.mem_cons, List.not_mem_nil, or_false, forall_eq_or_imp, forall_eq] at hchars
      simp only [List.length_append, List.length_cons, List.all_append, List.all_cons,
        Bool.and_eq_true, decide_eq_true_eq, List.all_eq_true]
      obtain ⟨⟨hfirst, hrest⟩, hb, hc, hd, he⟩ := hchars
      simp_all
  · cases h

end TinyOidc.Token
