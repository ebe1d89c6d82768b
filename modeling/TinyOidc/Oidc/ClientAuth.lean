import TinyOidc.Oidc.RedirectUris
import TinyOidc.Util.Base64Url
import Mathlib.Data.Rat.Defs

/-! Client authentication at the token, PAR and revocation endpoints (`src/oidc/client-auth.ts`):
who a request claims to be, and whether it carries the credential of the registered method and no
other. What `jose` reads and verifies is a parameter; its checks of claims are spelled out. -/
namespace TinyOidc.Oidc
open TinyOidc.User (Bytes)
open TinyOidc.Util UriText
open TinyOidc.Client (ClientRecord TokenEndpointAuthMethod PublicJwk isClientId)

/-! ### The `Authorization` header -/

/-- The characters of a component, with the bytes of its escapes. -/
def escapes : List Char → Option (List (Char ⊕ UInt8))
  | [] => some []
  | '%' :: a :: b :: rest => do
    let high ← ByteText.hexValue a
    let low ← ByteText.hexValue b
    return .inr (UInt8.ofNat (16 * high + low)) :: (← escapes rest)
  | '%' :: _ => none
  | c :: rest => do return .inl c :: (← escapes rest)

def utf8Text (bytes : List UInt8) : Option (List Char) :=
  (String.fromUTF8? ⟨bytes.toArray⟩).map String.toList

/-- Each run of escaped bytes is UTF-8. -/
def unescape : List UInt8 → List (Char ⊕ UInt8) → Option (List Char)
  | run, [] => utf8Text run
  | run, .inr b :: rest => unescape (run ++ [b]) rest
  | run, .inl c :: rest => do
    let before ← utf8Text run
    return before ++ c :: (← unescape [] rest)

/-- `none` when it throws. -/
def decodeURIComponent (text : List Char) : Option (List Char) :=
  (escapes text).bind (unescape [])

structure BasicCredentials where
  id : String
  secret : String
  deriving DecidableEq

def isBase64Char (c : Char) : Bool := c.isAlphanum || c == '+' || c == '/' || c == '='

/-- `Basic BASE64(urlencode(id) ":" urlencode(secret))`. -/
def parseBasic (header : String) : Option BasicCredentials :=
  let text := (trim header).toList
  let encoded := (text.drop 5).dropWhile isSpace
  if (text.take 5).map Char.toLower = "basic".toList ∧ encoded.length < (text.drop 5).length ∧
      encoded ≠ [] ∧ encoded.all isBase64Char = true then
    match atob encoded with
    | .error _ => none
    | .ok bytes =>
      match cut ':' (bytes.map fun b => Char.ofNat b.toNat) with
      | (_, none) => none
      | (id, some secret) => do
        let id ← decodeURIComponent id
        let secret ← decodeURIComponent secret
        return ⟨String.ofList id, String.ofList secret⟩
  else none

/-! ### Assertions -/

/-- A claim of a payload: of an array, the texts in it. -/
inductive JwtClaim where
  | text (value : String)
  | texts (values : List String)
  | number (value : ℚ)
  | other
  deriving DecidableEq

abbrev JwtPayload := String → Option JwtClaim

inductive KeySource where
  | registered (keys : List PublicJwk)
  | remote (uri : String)
  deriving DecidableEq

/-- What `jose` reads of a token, and whether its signature verifies. -/
structure Jose where
  decodeJwt : String → Option JwtPayload
  headerAlg : String → Option (Option String)
  verifies : KeySource → List String → String → Bool
  failure : String → String

structure VerifyOptions where
  algorithms : List String
  issuer : String
  subject : String
  audience : List String
  requiredClaims : List String
  now : ℤ

structure VerifiedClaims where
  iat : ℚ
  exp : ℚ
  jti : Option JwtClaim

def audienceAccepted (audience : List String) : Option JwtClaim → Bool
  | some (.text value) => audience.contains value
  | some (.texts values) => audience.any values.contains
  | _ => false

def notBeforeReached (now : ℤ) : Option JwtClaim → Bool
  | none => true
  | some (.number nbf) => nbf ≤ now
  | some _ => false

/-- The claims that `jwtVerify` checks, without leeway; `none` when it throws. -/
def validateClaimsSet (payload : JwtPayload) (options : VerifyOptions) : Option VerifiedClaims :=
  if !(options.requiredClaims.all fun claim => (payload claim).isSome) then none
  else if payload "iss" ≠ some (.text options.issuer) then none
  else if payload "sub" ≠ some (.text options.subject) then none
  else if !audienceAccepted options.audience (payload "aud") then none
  else
    match payload "iat", payload "exp" with
    | some (.number iat), some (.number exp) =>
      if notBeforeReached options.now (payload "nbf") && options.now < exp then
        some ⟨iat, exp, payload "jti"⟩
      else none
    | _, _ => none

def jwtVerify (jose : Jose) (keys : KeySource) (assertion : String) (options : VerifyOptions) :
    Option VerifiedClaims :=
  if jose.verifies keys options.algorithms assertion then
    (jose.decodeJwt assertion).bind (validateClaimsSet · options)
  else none

def clientAssertionType : String := "urn:ietf:params:oauth:client-assertion-type:jwt-bearer"

def assertionAlgorithms : List String := ["ES256", "ES384", "EdDSA", "PS256", "RS256"]

def assertionWindowSeconds : ℤ := 60

def assertionJtiMaxLength : ℕ := 255

/-- The client record by id, or that the directory is unreachable. -/
inductive Lookup where
  | found (client : Option ClientRecord)
  | unavailable
  | threw

structure ClientAuthContext where
  lookup : String → Lookup
  issuer : String
  tokenEndpoint : String
  now : ℤ
  jose : Jose
  sha256 : Bytes → Bytes

/-- The `iss` of an unverified assertion. -/
def issuerOf (jose : Jose) (assertion : String) : Option String :=
  match (jose.decodeJwt assertion).bind (· "iss") with
  | some (.text iss) => if iss = "" then none else some iss
  | _ => none

def keySource (client : ClientRecord) : Option KeySource :=
  match client.jwks, client.jwksUri with
  | some keys, _ => some (.registered keys)
  | none, some uri => some (.remote uri)
  | none, none => none

def isJti : Option JwtClaim → Bool
  | some (.text jti) => jti ≠ "" && utf16Length jti ≤ assertionJtiMaxLength
  | _ => false

/-- The failing condition, or `none` when the assertion is acceptable. -/
def verifyAssertion (context : ClientAuthContext) (client : ClientRecord) (assertion : String) :
    Option String :=
  match context.jose.headerAlg assertion with
  | none => some "malformed client_assertion"
  | some alg =>
    if !assertionAlgorithms.contains (alg.getD "") then some "unsupported assertion alg"
    else
      match keySource client with
      | none => some "client has no keys"
      | some keys =>
        match jwtVerify context.jose keys assertion
            { algorithms := assertionAlgorithms
              issuer := client.clientId
              subject := client.clientId
              audience := [context.issuer, context.tokenEndpoint]
              requiredClaims := ["iat", "exp", "jti"]
              now := context.now } with
        | none => some ("assertion rejected: " ++ context.jose.failure assertion)
        | some payload =>
          if payload.iat < context.now - assertionWindowSeconds then
            some "assertion iat too old"
          else if payload.iat > context.now + assertionWindowSeconds then
            some "assertion iat in the future"
          else if payload.exp > context.now + assertionWindowSeconds then
            some "assertion exp too far ahead"
          else if !isJti payload.jti then some "assertion jti missing or too long"
          else none

/-! ### Authentication -/

/-- What the request carried; the form's duplicates have already been rejected. -/
structure PresentedCredentials where
  params : Params
  authorization : Option String

inductive ClientAuthResult where
  | ok (client : ClientRecord)
  | invalidClient (reason : String) (clientId : Option String) (basicChallenge : Bool)
  | temporarilyUnavailable (reason : String)
  | threw

/-- The id that a refusal names has the shape of a client id. -/
def rejected (reason : String) (clientId : Option String) (basic : Bool) : ClientAuthResult :=
  .invalidClient reason (clientId.filter isClientId) basic

def secretMatches (sha256 : Bytes → Bytes) (client : ClientRecord) (secret : String) : Bool :=
  client.clientSecretHash.any (· == sha256 secret.toUTF8.toList)

/-- Who the request claims to be, by the header; why and for whom it is refused. -/
def basicOf (presented : PresentedCredentials) :
    Except (String × Option String) (Option BasicCredentials) :=
  match presented.authorization with
  | none => .ok none
  | some header =>
    match parseBasic header with
    | none => .error ("malformed Authorization header", presented.params "client_id")
    | some basic =>
      if (presented.params "client_id").any (· ≠ basic.id) then
        .error ("client_id differs between header and body", presented.params "client_id")
      else .ok (some basic)

def assertionIssuerOf (jose : Jose) (presented : PresentedCredentials) :
    Except (String × Option String) (Option String) :=
  match presented.params "client_assertion" with
  | none => .ok none
  | some assertion =>
    match issuerOf jose assertion with
    | none => .error ("malformed client_assertion", presented.params "client_id")
    | some iss =>
      if (presented.params "client_id").any (· ≠ iss) then
        .error ("client_id differs between assertion and body", presented.params "client_id")
      else .ok (some iss)

def methodText : TokenEndpointAuthMethod → String
  | .none => "none"
  | .clientSecretBasic => "client_secret_basic"
  | .clientSecretPost => "client_secret_post"
  | .privateKeyJwt => "private_key_jwt"

def extraCredentials (method : TokenEndpointAuthMethod) (presented : PresentedCredentials)
    (basic : Option BasicCredentials) : List String :=
  (if basic.isSome ∧ method ≠ .clientSecretBasic then ["Authorization header"] else []) ++
  (if (presented.params "client_secret").isSome ∧ method ≠ .clientSecretPost then
    ["client_secret"] else []) ++
  (if ((presented.params "client_assertion").isSome ∨
      (presented.params "client_assertion_type").isSome) ∧ method ≠ .privateKeyJwt then
    ["client_assertion"] else [])

/-- Exactly the registered method, nothing else. -/
def checkMethod (context : ClientAuthContext) (presented : PresentedCredentials)
    (basic : Option BasicCredentials) (clientId : String) (client : ClientRecord) :
    ClientAuthResult :=
  let usedBasic := presented.authorization.isSome
  let method := client.tokenEndpointAuthMethod
  let extra := extraCredentials method presented basic
  let reject (reason : String) (challenge : Bool) : ClientAuthResult :=
    rejected reason (some clientId) challenge
  if extra ≠ [] then
    reject (methodText method ++ " client presented " ++ ", ".intercalate extra)
      (usedBasic || method == .clientSecretBasic)
  else
    match method with
    | .none => .ok client
    | .clientSecretBasic =>
      match basic with
      | none => reject "missing Authorization header" true
      | some basic =>
        if secretMatches context.sha256 client basic.secret then .ok client
        else reject "wrong client secret" true
    | .clientSecretPost =>
      match presented.params "client_id", presented.params "client_secret" with
      | some _, some secret =>
        if secretMatches context.sha256 client secret then .ok client
        else reject "wrong client secret" usedBasic
      | _, _ => reject "missing client_id or client_secret in the body" usedBasic
    | .privateKeyJwt =>
      if presented.params "client_assertion_type" ≠ some clientAssertionType then
        reject "missing or unsupported client_assertion_type" usedBasic
      else
        match presented.params "client_assertion" with
        | none => reject "missing client_assertion" usedBasic
        | some assertion =>
          match verifyAssertion context client assertion with
          | some failure => reject failure usedBasic
          | none => .ok client

def authenticateClient (context : ClientAuthContext) (presented : PresentedCredentials) :
    ClientAuthResult :=
  let usedBasic := presented.authorization.isSome
  match basicOf presented with
  | .error (reason, named) => rejected reason named usedBasic
  | .ok basic =>
    match assertionIssuerOf context.jose presented with
    | .error (reason, named) => rejected reason named usedBasic
    | .ok assertionIssuer =>
      match (basic.map (·.id)).or (assertionIssuer.or (presented.params "client_id")) with
      | none => rejected "no client identification" none usedBasic
      | some clientId =>
        if !isClientId clientId then rejected "malformed client_id" none usedBasic
        else
          match context.lookup clientId with
          | .unavailable => .temporarilyUnavailable "clients unavailable"
          | .threw => .threw
          | .found none => rejected "unknown client" (some clientId) usedBasic
          | .found (some client) =>
            if client.disabledAt.isSome then rejected "client disabled" (some clientId) usedBasic
            else checkMethod context presented basic clientId client

/-! ### What authenticates a client -/

/-- The directory gives the record of an id, and registered ids have their shape. -/
structure Directory (lookup : String → Lookup) : Prop where
  id_eq : ∀ id client, lookup id = .found (some client) → client.clientId = id
  shaped : ∀ id client, lookup id = .found (some client) → isClientId id = true

structure PresentsOnly (jose : Jose) (presented : PresentedCredentials) (id : String) : Prop where
  basic : ∀ header basic, presented.authorization = some header →
    parseBasic header = some basic → basic.id = id
  assertion : ∀ assertion iss, presented.params "client_assertion" = some assertion →
    issuerOf jose assertion = some iss → iss = id
  body : ∀ bodyId, presented.params "client_id" = some bodyId → bodyId = id

/-- The claims of an assertion that the client may use now. -/
structure AcceptableClaims (context : ClientAuthContext) (client : ClientRecord)
    (payload : JwtPayload) (issued expires : ℚ) (id : String) : Prop where
  iss : payload "iss" = some (.text client.clientId)
  sub : payload "sub" = some (.text client.clientId)
  aud : audienceAccepted [context.issuer, context.tokenEndpoint] (payload "aud") = true
  iat : payload "iat" = some (.number issued)
  window : (context.now : ℚ) - 60 ≤ issued ∧ issued ≤ (context.now : ℚ) + 60
  exp : payload "exp" = some (.number expires)
  unexpired : (context.now : ℚ) < expires ∧ expires ≤ (context.now : ℚ) + 60
  jti : payload "jti" = some (.text id)
  length : 1 ≤ utf16Length id ∧ utf16Length id ≤ 255
  nbf : notBeforeReached context.now (payload "nbf") = true

/-- An assertion of the client: an alg that is supported, signed with the stored keys. -/
structure AcceptableAssertion (context : ClientAuthContext) (client : ClientRecord)
    (assertion : String) : Prop where
  alg : ∃ alg ∈ assertionAlgorithms, context.jose.headerAlg assertion = some (some alg)
  signed : ∃ keys, keySource client = some keys ∧
    context.jose.verifies keys assertionAlgorithms assertion = true
  claims : ∃ payload issued expires id, context.jose.decodeJwt assertion = some payload ∧
    AcceptableClaims context client payload issued expires id

/-- The request carries the credential of the registered method, and it verifies. -/
def CarriesCredential (context : ClientAuthContext) (presented : PresentedCredentials)
    (client : ClientRecord) : Prop :=
  match client.tokenEndpointAuthMethod with
  | .none => presented.params "client_id" = some client.clientId
  | .clientSecretBasic => ∃ header basic, presented.authorization = some header ∧
      parseBasic header = some basic ∧
      secretMatches context.sha256 client basic.secret = true
  | .clientSecretPost => presented.params "client_id" = some client.clientId ∧
      ∃ secret, presented.params "client_secret" = some secret ∧
        secretMatches context.sha256 client secret = true
  | .privateKeyJwt => presented.params "client_assertion_type" = some clientAssertionType ∧
      ∃ assertion, presented.params "client_assertion" = some assertion ∧
        AcceptableAssertion context client assertion

/-- And no credential of any other method. -/
structure CarriesNoOther (presented : PresentedCredentials) (method : TokenEndpointAuthMethod) :
    Prop where
  header : method ≠ .clientSecretBasic → presented.authorization = none
  secret : method ≠ .clientSecretPost → presented.params "client_secret" = none
  assertion : method ≠ .privateKeyJwt → presented.params "client_assertion" = none ∧
    presented.params "client_assertion_type" = none

structure Authenticates (context : ClientAuthContext) (presented : PresentedCredentials)
    (client : ClientRecord) : Prop where
  known : context.lookup client.clientId = .found (some client)
  enabled : client.disabledAt = none
  ids : PresentsOnly context.jose presented client.clientId
  credential : CarriesCredential context presented client
  noOther : CarriesNoOther presented client.tokenEndpointAuthMethod

section Authentication
variable {context : ClientAuthContext} {presented : PresentedCredentials} {client : ClientRecord}

theorem utf16Length_pos {text : String} : 1 ≤ utf16Length text ↔ text ≠ "" := by
  have hunits : ∀ c : Char, 1 ≤ (charUnits c).length := by
    intro c
    unfold charUnits
    split <;> simp
  constructor
  · rintro h rfl
    exact absurd h (by decide)
  · intro h
    unfold utf16Length units
    cases hchars : text.toList with
    | nil => exact absurd (String.toList_eq_nil_iff.mp hchars) h
    | cons c rest =>
      have hc := hunits c
      rw [List.flatMap_cons, List.length_append]
      omega

theorem isJti_iff {claim : Option JwtClaim} : isJti claim = true ↔
    ∃ jti, claim = some (.text jti) ∧ 1 ≤ utf16Length jti ∧ utf16Length jti ≤ 255 := by
  unfold isJti
  split
  · next jti =>
    simp only [Bool.and_eq_true, decide_eq_true_eq, Option.some.injEq, JwtClaim.text.injEq,
      exists_eq_left', utf16Length_pos]
    rfl
  · next hother =>
    constructor
    · intro h
      cases h
    · rintro ⟨jti, rfl, -⟩
      exact absurd rfl (hother jti)

structure AcceptedSet (payload : JwtPayload) (options : VerifyOptions)
    (verified : VerifiedClaims) : Prop where
  present : ∀ claim ∈ options.requiredClaims, (payload claim).isSome = true
  iss : payload "iss" = some (.text options.issuer)
  sub : payload "sub" = some (.text options.subject)
  aud : audienceAccepted options.audience (payload "aud") = true
  iat : payload "iat" = some (.number verified.iat)
  exp : payload "exp" = some (.number verified.exp)
  jti : payload "jti" = verified.jti
  nbf : notBeforeReached options.now (payload "nbf") = true
  unexpired : (options.now : ℚ) < verified.exp

theorem validateClaimsSet_eq_some {payload : JwtPayload} {options : VerifyOptions}
    {verified : VerifiedClaims} :
    validateClaimsSet payload options = some verified ↔
      AcceptedSet payload options verified := by
  unfold validateClaimsSet
  constructor
  · intro h
    split at h
    · cases h
    next hpresent =>
    split at h
    · cases h
    next hiss =>
    split at h
    · cases h
    next hsub =>
    split at h
    · cases h
    next haud =>
    split at h
    · next iat exp hiat hexp =>
      split at h
      · next htimes =>
        simp only [Option.some.injEq] at h
        subst h
        simp only [Bool.and_eq_true, decide_eq_true_eq] at htimes
        simp only [Bool.not_eq_true', Bool.not_eq_false, List.all_eq_true] at hpresent
        exact ⟨hpresent, not_not.mp hiss, not_not.mp hsub, by simpa using haud, hiat, hexp, rfl,
          htimes.1, htimes.2⟩
      · cases h
    · cases h
  · intro h
    have hpresent : (options.requiredClaims.all fun claim => (payload claim).isSome) = true :=
      List.all_eq_true.mpr h.present
    rw [h.iat, h.exp, h.jti]
    simp [hpresent, h.iss, h.sub, h.aud, h.nbf, h.unexpired]

theorem jwtVerify_eq_some {jose : Jose} {keys : KeySource} {assertion : String}
    {options : VerifyOptions} {verified : VerifiedClaims} :
    jwtVerify jose keys assertion options = some verified ↔
      jose.verifies keys options.algorithms assertion = true ∧
      ∃ payload, jose.decodeJwt assertion = some payload ∧
        AcceptedSet payload options verified := by
  unfold jwtVerify
  split
  · next hsigned =>
    simp only [Option.bind_eq_some_iff, validateClaimsSet_eq_some, hsigned, true_and]
  · next hsigned => simp [hsigned]

/-- An absent `alg` reads as the empty text, which is no algorithm. -/
theorem supportedAlg_iff {alg : Option String} :
    assertionAlgorithms.contains (alg.getD "") = true ↔
      ∃ name ∈ assertionAlgorithms, alg = some name := by
  cases alg with
  | none => decide
  | some name => simp

/-- The checks of `verifyAssertion` after `jwtVerify`. -/
theorem window_checks {payload : VerifiedClaims} :
    (if payload.iat < context.now - assertionWindowSeconds then some "assertion iat too old"
      else if payload.iat > context.now + assertionWindowSeconds then
        some "assertion iat in the future"
      else if payload.exp > context.now + assertionWindowSeconds then
        some "assertion exp too far ahead"
      else if !isJti payload.jti then some "assertion jti missing or too long"
      else none) = none ↔
      ((context.now : ℚ) - 60 ≤ payload.iat ∧ payload.iat ≤ (context.now : ℚ) + 60) ∧
        payload.exp ≤ (context.now : ℚ) + 60 ∧ isJti payload.jti = true := by
  have hwindow : ((assertionWindowSeconds : ℤ) : ℚ) = 60 := rfl
  rw [hwindow]
  constructor
  · intro h
    split_ifs at h with hold hfuture hfar hjti
    exact ⟨⟨Rat.not_lt.mp hold, Rat.not_lt.mp hfuture⟩, Rat.not_lt.mp hfar, by simpa using hjti⟩
  · intro h
    rw [if_neg (Rat.not_lt.mpr h.1.1), if_neg (Rat.not_lt.mpr h.1.2),
      if_neg (Rat.not_lt.mpr h.2.1), h.2.2]
    rfl

theorem acceptedSet_window {payload : JwtPayload} :
    (∃ verified, AcceptedSet payload
        { algorithms := assertionAlgorithms
          issuer := client.clientId
          subject := client.clientId
          audience := [context.issuer, context.tokenEndpoint]
          requiredClaims := ["iat", "exp", "jti"]
          now := context.now } verified ∧
      ((context.now : ℚ) - 60 ≤ verified.iat ∧ verified.iat ≤ (context.now : ℚ) + 60) ∧
        verified.exp ≤ (context.now : ℚ) + 60 ∧ isJti verified.jti = true) ↔
      ∃ issued expires id, AcceptableClaims context client payload issued expires id := by
  constructor
  · rintro ⟨verified, hset, hwindow, hfar, hjti⟩
    obtain ⟨id, hid, hlength⟩ := isJti_iff.mp hjti
    exact ⟨verified.iat, verified.exp, id, hset.iss, hset.sub, hset.aud, hset.iat, hwindow,
      hset.exp, ⟨hset.unexpired, hfar⟩, hset.jti.trans hid, hlength, hset.nbf⟩
  · rintro ⟨issued, expires, id, h⟩
    have hpresent : ∀ claim ∈ ["iat", "exp", "jti"], (payload claim).isSome = true := by
      simp [h.iat, h.exp, h.jti]
    exact ⟨⟨issued, expires, payload "jti"⟩,
      ⟨hpresent, h.iss, h.sub, h.aud, h.iat, h.exp, rfl, h.nbf, h.unexpired.1⟩, h.window,
      h.unexpired.2, isJti_iff.mpr ⟨id, h.jti, h.length⟩⟩

theorem verifyAssertion_eq_none {assertion : String} :
    verifyAssertion context client assertion = none ↔
      AcceptableAssertion context client assertion := by
  constructor
  · intro h
    unfold verifyAssertion at h
    split at h
    · cases h
    next alg halg =>
    split at h
    · cases h
    next hsupported =>
    split at h
    · cases h
    next keys hkeys =>
    split at h
    · cases h
    next verified hverified =>
    obtain ⟨name, hname, rfl⟩ := supportedAlg_iff.mp (by simpa using hsupported)
    obtain ⟨hsigned, payload, hpayload, hset⟩ := jwtVerify_eq_some.mp hverified
    obtain ⟨issued, expires, id, hclaims⟩ :=
      acceptedSet_window.mp ⟨verified, hset, window_checks.mp h⟩
    exact ⟨⟨name, hname, halg⟩, ⟨keys, hkeys, hsigned⟩,
      ⟨payload, issued, expires, id, hpayload, hclaims⟩⟩
  · intro h
    obtain ⟨name, hname, halg⟩ := h.alg
    obtain ⟨keys, hkeys, hsigned⟩ := h.signed
    obtain ⟨payload, issued, expires, id, hpayload, hclaims⟩ := h.claims
    obtain ⟨verified, hset, hwindow⟩ := acceptedSet_window.mpr ⟨issued, expires, id, hclaims⟩
    have hverified := jwtVerify_eq_some.mpr ⟨hsigned, payload, hpayload, hset⟩
    have hsupported := supportedAlg_iff.mpr ⟨name, hname, rfl⟩
    unfold verifyAssertion
    rw [halg]
    dsimp only
    rw [hsupported, hkeys]
    dsimp only
    rw [hverified]
    exact window_checks.mpr hwindow

theorem extraCredentials_eq_nil {method : TokenEndpointAuthMethod}
    {basic : Option BasicCredentials} :
    extraCredentials method presented basic = [] ↔
      (method ≠ .clientSecretBasic → basic = none) ∧
      (method ≠ .clientSecretPost → presented.params "client_secret" = none) ∧
      (method ≠ .privateKeyJwt → presented.params "client_assertion" = none ∧
        presented.params "client_assertion_type" = none) := by
  have hempty : ∀ {p : Prop} [Decidable p] {text : String},
      (if p then [text] else []) = [] ↔ ¬ p := by
    intro p _ text
    by_cases hp : p <;> simp [hp]
  unfold extraCredentials
  simp only [List.append_eq_nil_iff, hempty, Option.isSome_iff_ne_none]
  tauto

/-- What the registered method asks for, once nothing else was presented. -/
def MethodCredential (context : ClientAuthContext) (presented : PresentedCredentials)
    (basic : Option BasicCredentials) (client : ClientRecord) : Prop :=
  match client.tokenEndpointAuthMethod with
  | .none => True
  | .clientSecretBasic => ∃ credentials, basic = some credentials ∧
      secretMatches context.sha256 client credentials.secret = true
  | .clientSecretPost => (presented.params "client_id").isSome = true ∧
      ∃ secret, presented.params "client_secret" = some secret ∧
        secretMatches context.sha256 client secret = true
  | .privateKeyJwt => presented.params "client_assertion_type" = some clientAssertionType ∧
      ∃ assertion, presented.params "client_assertion" = some assertion ∧
        AcceptableAssertion context client assertion

theorem checkMethod_ok {basic : Option BasicCredentials} {id : String} {c : ClientRecord} :
    checkMethod context presented basic id client = .ok c ↔
      client = c ∧ extraCredentials client.tokenEndpointAuthMethod presented basic = [] ∧
        MethodCredential context presented basic client := by
  unfold checkMethod MethodCredential rejected
  by_cases hextra : extraCredentials client.tokenEndpointAuthMethod presented basic = []
  · simp only [hextra, ne_eq, not_true_eq_false, if_false, true_and]
    cases hmethod : client.tokenEndpointAuthMethod with
    | none => simp
    | clientSecretBasic =>
      cases basic with
      | none => simp
      | some credentials =>
        by_cases hsecret : secretMatches context.sha256 client credentials.secret = true
        · simp [hsecret]
        · simp [hsecret]
    | clientSecretPost =>
      cases hid : presented.params "client_id" with
      | none => simp
      | some bodyId =>
        cases hpresented : presented.params "client_secret" with
        | none => simp
        | some secret =>
          by_cases hsecret : secretMatches context.sha256 client secret = true
          · simp [hsecret]
          · simp [hsecret]
    | privateKeyJwt =>
      by_cases htype : presented.params "client_assertion_type" = some clientAssertionType
      · cases hassertion : presented.params "client_assertion" with
        | none => simp [htype]
        | some assertion =>
          simp only [htype, not_true_eq_false, if_false, true_and, Option.some.injEq,
            exists_eq_left', ← verifyAssertion_eq_none]
          cases hverify : verifyAssertion context client assertion with
          | none => simp
          | some failure => simp
      · simp [htype]
  · simp [hextra]

theorem any_ne_eq_false {presentedId : Option String} {id : String} :
    presentedId.any (· ≠ id) = false ↔ ∀ bodyId, presentedId = some bodyId → bodyId = id := by
  cases presentedId with
  | none => simp
  | some bodyId => simp

theorem basicOf_eq_ok {basic : Option BasicCredentials} :
    basicOf presented = .ok basic ↔
      (presented.authorization = none ∧ none = basic) ∨
      ∃ header credentials, presented.authorization = some header ∧
        parseBasic header = some credentials ∧ some credentials = basic ∧
        ∀ bodyId, presented.params "client_id" = some bodyId → bodyId = credentials.id := by
  unfold basicOf
  cases hheader : presented.authorization with
  | none => simp
  | some header =>
    cases hparse : parseBasic header with
    | none => simp [hparse]
    | some credentials =>
      simp only [Option.some.injEq, exists_eq_left', exists_and_left, hparse, reduceCtorEq,
        false_and, false_or, ← any_ne_eq_false]
      cases hbody : (presented.params "client_id").any (· ≠ credentials.id) with
      | false => simp
      | true => simp

theorem assertionIssuerOf_eq_ok {issuer : Option String} :
    assertionIssuerOf context.jose presented = .ok issuer ↔
      (presented.params "client_assertion" = none ∧ none = issuer) ∨
      ∃ assertion iss, presented.params "client_assertion" = some assertion ∧
        issuerOf context.jose assertion = some iss ∧ some iss = issuer ∧
        ∀ bodyId, presented.params "client_id" = some bodyId → bodyId = iss := by
  unfold assertionIssuerOf
  cases hassertion : presented.params "client_assertion" with
  | none => simp
  | some assertion =>
    cases hissuer : issuerOf context.jose assertion with
    | none => simp [hissuer]
    | some iss =>
      simp only [Option.some.injEq, exists_eq_left', exists_and_left, hissuer, reduceCtorEq,
        false_and, false_or, ← any_ne_eq_false]
      cases hbody : (presented.params "client_id").any (· ≠ iss) with
      | false => simp
      | true => simp

theorem basicOf_none (h : presented.authorization = none) : basicOf presented = .ok none :=
  basicOf_eq_ok.mpr (.inl ⟨h, rfl⟩)

theorem assertionIssuerOf_none (h : presented.params "client_assertion" = none) :
    assertionIssuerOf context.jose presented = .ok none :=
  assertionIssuerOf_eq_ok.mpr (.inl ⟨h, rfl⟩)

structure Stages (context : ClientAuthContext) (presented : PresentedCredentials)
    (basic : Option BasicCredentials) (issuer : Option String) (id : String)
    (client : ClientRecord) : Prop where
  header : basicOf presented = .ok basic
  assertion : assertionIssuerOf context.jose presented = .ok issuer
  identified : (basic.map (·.id)).or (issuer.or (presented.params "client_id")) = some id
  shaped : isClientId id = true
  known : context.lookup id = .found (some client)
  enabled : client.disabledAt = none
  method : checkMethod context presented basic id client = .ok client

theorem authenticateClient_stages :
    authenticateClient context presented = .ok client ↔
      ∃ basic issuer id, Stages context presented basic issuer id client := by
  constructor
  · intro h
    unfold authenticateClient at h
    split at h
    · cases h
    next basic hbasic =>
    split at h
    · cases h
    next issuer hissuer =>
    split at h
    · cases h
    next id hid =>
    split at h
    · cases h
    next hshaped =>
    split at h
    · cases h
    · cases h
    · cases h
    next found hfound =>
    split at h
    · cases h
    next henabled =>
    obtain ⟨rfl, -⟩ := checkMethod_ok.mp h
    exact ⟨basic, issuer, id, hbasic, hissuer, hid, by simpa using hshaped, hfound,
      by simpa using henabled, h⟩
  · rintro ⟨basic, issuer, id, h⟩
    unfold authenticateClient
    rw [h.header]
    dsimp only
    rw [h.assertion]
    dsimp only
    rw [h.identified]
    dsimp only
    rw [h.shaped, h.known]
    dsimp only
    rw [h.enabled]
    exact h.method

namespace Stages
variable {basic : Option BasicCredentials} {issuer : Option String} {id : String}

theorem carriesNoOther (h : Stages context presented basic issuer id client) :
    CarriesNoOther presented client.tokenEndpointAuthMethod := by
  obtain ⟨-, hextra, -⟩ := checkMethod_ok.mp h.method
  obtain ⟨hbasic, hsecret, hassertion⟩ := extraCredentials_eq_nil.mp hextra
  refine ⟨?_, hsecret, hassertion⟩
  intro hmethod
  rcases basicOf_eq_ok.mp h.header with ⟨hnone, -⟩ | ⟨header, credentials, -, -, hsome, -⟩
  · exact hnone
  · have hnone := hbasic hmethod
    rw [← hsome] at hnone
    cases hnone

/-- A header and an assertion never come together, so one of the three sources names the id
and the others agree with it. -/
theorem presentsOnly (h : Stages context presented basic issuer id client) :
    PresentsOnly context.jose presented id := by
  have hother := h.carriesNoOther
  have hidentified := h.identified
  rcases basicOf_eq_ok.mp h.header with
    ⟨hnone, rfl⟩ | ⟨header, credentials, hheader, hparse, rfl, hbody⟩
  · rcases assertionIssuerOf_eq_ok.mp h.assertion with
      ⟨habsent, rfl⟩ | ⟨assertion, iss, hassertion, hissuer, rfl, hbody⟩
    · have hid : presented.params "client_id" = some id := by simpa using hidentified
      constructor
      · intro header _ hheader
        simp [hnone] at hheader
      · intro assertion _ hassertion
        simp [habsent] at hassertion
      · intro bodyId hbodyId
        rw [hid, Option.some.injEq] at hbodyId
        exact hbodyId.symm
    · have hid : iss = id := by simpa using hidentified
      subst hid
      constructor
      · intro header _ hheader
        simp [hnone] at hheader
      · intro assertion' iss' hassertion' hissuer'
        rw [hassertion, Option.some.injEq] at hassertion'
        rw [← hassertion', hissuer, Option.some.injEq] at hissuer'
        exact hissuer'.symm
      · exact hbody
  · have hid : credentials.id = id := by simpa using hidentified
    have hmethod : client.tokenEndpointAuthMethod = .clientSecretBasic := by
      by_contra hmethod
      have hnone := hother.header hmethod
      simp [hheader] at hnone
    have habsent := (hother.assertion (by rw [hmethod]; simp)).1
    constructor
    · intro header' credentials' hheader' hparse'
      rw [hheader, Option.some.injEq] at hheader'
      rw [← hheader', hparse, Option.some.injEq] at hparse'
      rw [← hparse', hid]
    · intro assertion _ hassertion
      simp [habsent] at hassertion
    · intro bodyId hbodyId
      rw [hbody bodyId hbodyId, hid]

theorem carriesCredential (h : Stages context presented basic issuer client.clientId client) :
    CarriesCredential context presented client := by
  obtain ⟨-, -, hcredential⟩ := checkMethod_ok.mp h.method
  have hother := h.carriesNoOther
  have hids := h.presentsOnly
  unfold MethodCredential at hcredential
  unfold CarriesCredential
  cases hmethod : client.tokenEndpointAuthMethod with
  | none =>
    -- nothing else was presented, so the id came from the body
    have hheader := hother.header (by rw [hmethod]; simp)
    have habsent := (hother.assertion (by rw [hmethod]; simp)).1
    have hidentified := h.identified
    rcases basicOf_eq_ok.mp h.header with ⟨-, rfl⟩ | ⟨header, -, hsome, -⟩
    · rcases assertionIssuerOf_eq_ok.mp h.assertion with ⟨-, rfl⟩ | ⟨assertion, -, hsome, -⟩
      · simpa using hidentified
      · simp [habsent] at hsome
    · simp [hheader] at hsome
  | clientSecretBasic =>
    rw [hmethod] at hcredential
    obtain ⟨credentials, hbasic, hsecret⟩ := hcredential
    rcases basicOf_eq_ok.mp h.header with ⟨-, hnone⟩ | ⟨header, found, hheader, hparse, hsome, -⟩
    · simp [← hnone] at hbasic
    · rw [← hsome, Option.some.injEq] at hbasic
      exact ⟨header, credentials, hheader, by rw [hparse, hbasic], hsecret⟩
  | clientSecretPost =>
    rw [hmethod] at hcredential
    obtain ⟨hbody, hsecret⟩ := hcredential
    obtain ⟨bodyId, hbodyId⟩ := Option.isSome_iff_exists.mp hbody
    exact ⟨by rw [hbodyId, hids.body bodyId hbodyId], hsecret⟩
  | privateKeyJwt =>
    rw [hmethod] at hcredential
    exact hcredential

end Stages

namespace Authenticates

theorem issuerOf_eq {assertion : String} (hshaped : isClientId client.clientId = true)
    (h : AcceptableAssertion context client assertion) :
    issuerOf context.jose assertion = some client.clientId := by
  obtain ⟨payload, _, _, _, hpayload, hclaims⟩ := h.claims
  have hne : client.clientId ≠ "" := by
    intro hempty
    rw [hempty] at hshaped
    exact absurd hshaped (by decide)
  unfold issuerOf
  rw [hpayload, Option.bind_some, hclaims.iss]
  exact if_neg hne

theorem methodOk (h : Authenticates context presented client) {basic : Option BasicCredentials}
    (hbasic : client.tokenEndpointAuthMethod ≠ .clientSecretBasic → basic = none)
    (hcredential : MethodCredential context presented basic client) :
    checkMethod context presented basic client.clientId client = .ok client :=
  checkMethod_ok.mpr ⟨rfl,
    extraCredentials_eq_nil.mpr ⟨hbasic, h.noOther.secret, h.noOther.assertion⟩, hcredential⟩

theorem stages (h : Authenticates context presented client)
    (hshaped : isClientId client.clientId = true) :
    ∃ basic issuer, Stages context presented basic issuer client.clientId client := by
  have hcredential := h.credential
  unfold CarriesCredential at hcredential
  cases hmethod : client.tokenEndpointAuthMethod with
  | none =>
    rw [hmethod] at hcredential
    have hheader := basicOf_none (h.noOther.header (by simp [hmethod]))
    have habsent := (h.noOther.assertion (by simp [hmethod])).1
    have hassertion := @assertionIssuerOf_none context presented habsent
    have hmethodOk := h.methodOk (fun _ => rfl) (by simp [MethodCredential, hmethod])
    exact ⟨none, none, hheader, hassertion, by simpa using hcredential, hshaped, h.known,
      h.enabled, hmethodOk⟩
  | clientSecretBasic =>
    rw [hmethod] at hcredential
    obtain ⟨header, credentials, hpresented, hparse, hsecret⟩ := hcredential
    have hid := h.ids.basic header credentials hpresented hparse
    have hheader := basicOf_eq_ok.mpr (.inr ⟨header, credentials, hpresented, hparse, rfl,
      by rw [hid]; exact h.ids.body⟩)
    have habsent := (h.noOther.assertion (by simp [hmethod])).1
    have hassertion := @assertionIssuerOf_none context presented habsent
    have hmethodOk := @methodOk context presented client h (some credentials)
      (fun hne => absurd hmethod hne) (by simpa [MethodCredential, hmethod] using hsecret)
    exact ⟨some credentials, none, hheader, hassertion, by simp [hid], hshaped, h.known,
      h.enabled, hmethodOk⟩
  | clientSecretPost =>
    rw [hmethod] at hcredential
    obtain ⟨hbody, hsecret⟩ := hcredential
    have hheader := basicOf_none (h.noOther.header (by simp [hmethod]))
    have habsent := (h.noOther.assertion (by simp [hmethod])).1
    have hassertion := @assertionIssuerOf_none context presented habsent
    have hmethodOk := h.methodOk (fun _ => rfl)
      (by simpa [MethodCredential, hmethod, hbody] using hsecret)
    exact ⟨none, none, hheader, hassertion, by simpa using hbody, hshaped, h.known, h.enabled,
      hmethodOk⟩
  | privateKeyJwt =>
    rw [hmethod] at hcredential
    obtain ⟨htype, assertion, hpresented, hacceptable⟩ := hcredential
    have hheader := basicOf_none (h.noOther.header (by simp [hmethod]))
    have hassertion := assertionIssuerOf_eq_ok.mpr (.inr ⟨assertion, client.clientId, hpresented,
      issuerOf_eq hshaped hacceptable, rfl, h.ids.body⟩)
    have hmethodOk := h.methodOk (fun _ => rfl)
      (by simpa [MethodCredential, hmethod, htype, hpresented] using hacceptable)
    exact ⟨none, some client.clientId, hheader, hassertion, by simp, hshaped, h.known, h.enabled,
      hmethodOk⟩

end Authenticates

/-! ### A well-formed header -/

/-- The header of credentials of unreserved characters, which percent-encoding leaves as they
are. -/
def basicHeader (id secret : String) : String :=
  String.ofList ("Basic ".toList ++
    btoa ((id.toList ++ ':' :: secret.toList).map fun c => UInt8.ofNat c.toNat))

theorem unreserved_ascii {c : Char} (h : isUnreserved c = true) : c.toNat < 128 := by
  unfold isUnreserved at h
  simp only [Bool.or_eq_true, beq_iff_eq] at h
  rcases h with (((h | rfl) | rfl) | rfl) | rfl
  · exact urlChar_ascii (by simp [isUrlChar, h])
  · decide
  · decide
  · decide
  · decide

theorem unreserved_spec {c : Char} (h : isUnreserved c = true) : c ≠ '%' ∧ c ≠ ':' := by
  constructor
  · rintro rfl
    exact absurd h (by decide)
  · rintro rfl
    exact absurd h (by decide)

theorem escapes_of_not_mem {text : List Char} (h : '%' ∉ text) :
    escapes text = some (text.map .inl) := by
  induction text with
  | nil => rfl
  | cons c rest ih =>
    have hc : c ≠ '%' := fun heq => h (by simp [heq])
    have hrest := ih fun hmem => h (by simp [hmem])
    rw [escapes.eq_4 c rest (by simp [hc]) (by simp [hc]), hrest]
    rfl

theorem unescape_inl (text : List Char) : unescape [] (text.map .inl) = some text := by
  induction text with
  | nil => decide
  | cons c rest ih =>
    have hnil : utf8Text [] = some [] := by decide
    simp only [List.map_cons, unescape, hnil, ih]
    rfl

theorem decodeURIComponent_of_not_mem {text : List Char} (h : '%' ∉ text) :
    decodeURIComponent text = some text := by
  unfold decodeURIComponent
  rw [escapes_of_not_mem h]
  exact unescape_inl text

theorem base64Char_class {n : ℕ} (h : n < 64) :
    isBase64Char (base64Char n) = true ∧ isSpace (base64Char n) = false := by
  have hall : ∀ m : Fin 64, isBase64Char (base64Char m) = true ∧
      isSpace (base64Char m) = false := by
    decide +kernel
  exact hall ⟨n, h⟩

theorem btoa_chars {bytes : List UInt8} {c : Char} (h : c ∈ btoa bytes) :
    isBase64Char c = true ∧ isSpace c = false := by
  rw [btoa_padded, List.mem_append] at h
  rcases h with h | h
  · obtain ⟨n, hn, rfl⟩ := List.mem_map.mp h
    exact base64Char_class (ByteText.sextet_lt hn)
  · rw [List.eq_of_mem_replicate h]
    decide

theorem btoa_ne_nil {bytes : List UInt8} (h : bytes ≠ []) : btoa bytes ≠ [] := by
  intro hnil
  have hback := atob_btoa bytes
  rw [hnil] at hback
  have hempty : atob [] = .ok [] := by decide
  rw [hempty] at hback
  cases hback
  exact h rfl

/-- A header without space at its ends is not trimmed. -/
theorem trim_basicHeader (id secret : String) :
    trim (basicHeader id secret) = basicHeader id secret := by
  have hbytes : ((id.toList ++ ':' :: secret.toList).map fun c => UInt8.ofNat c.toNat) ≠ [] := by
    simp
  unfold basicHeader
  generalize ((id.toList ++ ':' :: secret.toList).map fun c => UInt8.ofNat c.toNat) = bytes
    at hbytes
  have hencoded := btoa_ne_nil hbytes
  have hfront : ("Basic ".toList ++ btoa bytes).dropWhile isSpace =
      "Basic ".toList ++ btoa bytes := rfl
  unfold trim
  rw [String.toList_ofList, hfront, List.rdropWhile_eq_self_iff.mpr]
  intro hne
  rw [List.getLast_append_of_ne_nil hne hencoded, (btoa_chars (List.getLast_mem hencoded)).2]
  simp

theorem chars_of_bytes {text : List Char} (h : ∀ c ∈ text, c.toNat < 128) :
    ((text.map fun c => UInt8.ofNat c.toNat).map fun b => Char.ofNat b.toNat) = text := by
  rw [List.map_map]
  have hback : ∀ c ∈ text,
      ((fun b : UInt8 => Char.ofNat b.toNat) ∘ fun c : Char => UInt8.ofNat c.toNat) c = id c := by
    intro c hc
    have hlt := h c hc
    have hbyte : (UInt8.ofNat c.toNat).toNat = c.toNat := by
      rw [UInt8.toNat_ofNat']
      omega
    simp only [Function.comp_apply, hbyte, Char.ofNat_toNat, id_eq]
  rw [List.map_congr_left hback, List.map_id]

theorem parseBasic_basicHeader {id secret : String} (hid : id.toList.all isUnreserved = true)
    (hsecret : secret.toList.all isUnreserved = true) :
    parseBasic (basicHeader id secret) = some ⟨id, secret⟩ := by
  rw [List.all_eq_true] at hid hsecret
  have hcolon : ':' ∉ id.toList := fun hmem => (unreserved_spec (hid ':' hmem)).2 rfl
  have hidPlain : '%' ∉ id.toList := fun hmem => (unreserved_spec (hid '%' hmem)).1 rfl
  have hsecretPlain : '%' ∉ secret.toList :=
    fun hmem => (unreserved_spec (hsecret '%' hmem)).1 rfl
  have hascii : ∀ c ∈ id.toList ++ ':' :: secret.toList, c.toNat < 128 := by
    intro c hc
    rcases List.mem_append.mp hc with hc | hc
    · exact unreserved_ascii (hid c hc)
    · rcases List.mem_cons.mp hc with rfl | hc
      · decide
      · exact unreserved_ascii (hsecret c hc)
  have hchars := chars_of_bytes hascii
  have hbytes : ((id.toList ++ ':' :: secret.toList).map fun c => UInt8.ofNat c.toNat) ≠ [] := by
    simp
  unfold parseBasic
  rw [trim_basicHeader]
  unfold basicHeader
  generalize ((id.toList ++ ':' :: secret.toList).map fun c => UInt8.ofNat c.toNat) = bytes
    at hbytes hchars
  have hfive : ("Basic ".toList ++ btoa bytes).take 5 = "Basic".toList := rfl
  have hrest : ("Basic ".toList ++ btoa bytes).drop 5 = ' ' :: btoa bytes := rfl
  have hencoded : (' ' :: btoa bytes).dropWhile isSpace = btoa bytes := by
    have hspace : isSpace ' ' = true := by decide
    rw [List.dropWhile_cons_of_pos hspace]
    apply List.dropWhile_eq_self_iff.mpr
    intro hlength
    rw [(btoa_chars (List.getElem_mem hlength)).2]
    simp
  have hall : (btoa bytes).all isBase64Char = true :=
    List.all_eq_true.mpr fun c hc => (btoa_chars hc).1
  rw [String.toList_ofList]
  dsimp only
  rw [hfive, hrest, hencoded]
  rw [if_pos ⟨by decide, by simp, btoa_ne_nil hbytes, hall⟩, atob_btoa]
  dsimp only
  rw [hchars, cut_append hcolon]
  dsimp only
  rw [decodeURIComponent_of_not_mem hidPlain, decodeURIComponent_of_not_mem hsecretPlain]
  simp

theorem clientId_unreserved {id : String} (h : isClientId id = true) :
    id.toList.all isUnreserved = true := by
  have hletter : ∀ {c : Char}, Client.isClientIdChar c = true → isUnreserved c = true := by
    intro c hc
    unfold Client.isClientIdChar at hc
    have halnum : c.isAlphanum = true := by
      rcases Bool.or_eq_true_iff.mp hc with hc | hc
      · exact Bool.or_eq_true_iff.mpr (.inl (Bool.or_eq_true_iff.mpr (.inr hc)))
      · exact Bool.or_eq_true_iff.mpr (.inr hc)
    simp [isUnreserved, halnum]
  unfold isClientId at h
  split at h
  · cases h
  next first rest hchars =>
  simp only [Bool.and_eq_true, List.all_eq_true, Bool.or_eq_true, beq_iff_eq] at h
  rw [hchars, List.all_eq_true]
  intro c hc
  rcases List.mem_cons.mp hc with rfl | hc
  · exact hletter h.1.1.1
  · rcases h.2 c hc with ((hc | rfl) | rfl) | rfl
    · exact hletter hc
    · decide
    · decide
    · decide

/-- A request is accepted for a client exactly when every id that it presents is the client's,
the client is enabled, and it carries the credential of the registered method alone; the header
of a registered id and a secret of unreserved characters presents the two. -/
theorem authenticateClient_strict (context : ClientAuthContext)
    (presented : PresentedCredentials) (client : ClientRecord)
    (directory : Directory context.lookup) :
    (authenticateClient context presented = .ok client ↔
      Authenticates context presented client) ∧
    ∀ secret : String, isClientId client.clientId = true →
      secret.toList.all isUnreserved = true →
      parseBasic (basicHeader client.clientId secret) = some ⟨client.clientId, secret⟩ := by
  refine ⟨?_, fun secret hid hsecret =>
    parseBasic_basicHeader (clientId_unreserved hid) hsecret⟩
  rw [authenticateClient_stages]
  constructor
  · rintro ⟨basic, issuer, id, h⟩
    have hid := directory.id_eq id client h.known
    subst hid
    exact ⟨h.known, h.enabled, h.presentsOnly, h.carriesCredential, h.carriesNoOther⟩
  · intro h
    obtain ⟨basic, issuer, hstages⟩ := h.stages (directory.shaped _ client h.known)
    exact ⟨basic, issuer, client.clientId, hstages⟩

namespace Sample

/-- The digest of `c2VjcmV0`. -/
def digest : Bytes :=
  [28, 17, 133, 224, 47, 243, 226, 59, 62, 90, 28, 91, 200, 108, 241, 93, 65, 38, 202, 163, 220,
    222, 15, 219, 110, 147, 173, 196, 222, 236, 17, 158]

def basicClient : ClientRecord :=
  Client.clientFromInput
    { Client.Sample.input with tokenEndpointAuthMethod := .clientSecretBasic } "app"
    (some digest) 5

/-- One registered client, and a request without an assertion. -/
def authContext : ClientAuthContext where
  lookup id := .found (if id = "app" then some basicClient else none)
  issuer := "https://op.test"
  tokenEndpoint := "https://op.test/token"
  now := 100
  jose := ⟨fun _ => none, fun _ => none, fun _ _ _ => false, fun _ => ""⟩
  sha256 bytes := if bytes = "c2VjcmV0".toUTF8.toList then digest else []

def basicRequest : PresentedCredentials :=
  ⟨fun _ => none, some (basicHeader "app" "c2VjcmV0")⟩

theorem directory : Directory authContext.lookup := by
  have hfound : ∀ {id client}, authContext.lookup id = .found (some client) →
      id = "app" ∧ basicClient = client := by
    intro id client h
    simp only [authContext, Lookup.found.injEq] at h
    by_cases hid : id = "app"
    · simpa [hid] using h
    · simp [hid] at h
  constructor
  · intro id client h
    obtain ⟨rfl, rfl⟩ := hfound h
    rfl
  · intro id client h
    obtain ⟨rfl, -⟩ := hfound h
    decide

theorem parsed : parseBasic (basicHeader "app" "c2VjcmV0") = some ⟨"app", "c2VjcmV0"⟩ :=
  parseBasic_basicHeader (by decide) (by decide)

theorem basicRequest_authenticates : Authenticates authContext basicRequest basicClient where
  known := rfl
  enabled := rfl
  ids := by
    constructor
    · intro header basic hheader hbasic
      simp only [basicRequest, Option.some.injEq] at hheader
      rw [← hheader, parsed, Option.some.injEq] at hbasic
      rw [← hbasic]
      rfl
    · intro assertion iss hassertion
      cases hassertion
    · intro bodyId hbody
      cases hbody
  credential := ⟨_, _, rfl, parsed, by decide +kernel⟩
  noOther := ⟨fun h => absurd rfl h, fun _ => rfl, fun _ => ⟨rfl, rfl⟩⟩

end Sample

theorem authenticateClient_strict_sample :
    authenticateClient Sample.authContext Sample.basicRequest = .ok Sample.basicClient :=
  (authenticateClient_strict Sample.authContext Sample.basicRequest Sample.basicClient
    Sample.directory).1.mpr Sample.basicRequest_authenticates

end Authentication

end TinyOidc.Oidc
