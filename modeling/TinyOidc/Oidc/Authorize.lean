import TinyOidc.Interaction.World
import TinyOidc.Lib.Batches
import TinyOidc.Token.Claims

/-! Validation of an authorization request (`src/oidc/authorize.ts`, `src/oidc/redirect-uri.ts`),
shared by `/authorize` and `/par`. The URL parser is a parameter. -/
namespace TinyOidc.Oidc
open TinyOidc.Interaction TinyOidc.Util
open TinyOidc.Token (isScope)

/-! ### Redirect URIs -/

/-- `new URL(text)`; `none` when it throws. -/
abbrev UrlParser := String → Option Url

section Redirects
variable (parse : UrlParser)

def loopbackHosts : List String := ["127.0.0.1", "[::1]"]

def isLoopbackRedirectUri (registered : String) : Bool :=
  (parse registered).any fun url => url.protocol == "http:" && loopbackHosts.contains url.hostname

def sameExceptPort (registered requested : String) : Bool :=
  match parse registered, parse requested with
  | some a, some b =>
    b.href == requested && a.protocol == b.protocol && a.hostname == b.hostname &&
      a.username == b.username && a.password == b.password && a.pathname == b.pathname &&
      a.search == b.search && a.hash == b.hash
  | _, _ => false

/-- The registered entry that matches: byte for byte, but for the port of a loopback URI. -/
def matchRedirectUri (registered : List String) (requested : String) : Option String :=
  registered.find? fun candidate => candidate == requested ||
    isLoopbackRedirectUri parse candidate && sameExceptPort parse candidate requested

end Redirects

/-! ### Parameters -/

abbrev Params := String → Option String

abbrev Refusal := String × String

def utf16Length (text : String) : ℕ := (units text).length

def isPrintableState (state : String) : Bool :=
  utf16Length state ≤ 2048 && state.toList ≠ [] &&
    state.toList.all fun c => 0x20 ≤ c.toNat && c.toNat ≤ 0x7E

def isUnreserved (c : Char) : Bool :=
  c.isAlphanum || c == '.' || c == '_' || c == '~' || c == '-'

/-- `/^[A-Za-z0-9._~-]{43,128}$/`. -/
def isCodeChallenge (text : String) : Bool :=
  43 ≤ text.toList.length && text.toList.length ≤ 128 && text.toList.all isUnreserved

/-- `/^(0|[1-9][0-9]*)$/`. -/
def isNonNegativeInteger (text : String) : Bool :=
  match text.toList with
  | ['0'] => true
  | c :: rest => c.isDigit && c != '0' && rest.all Char.isDigit
  | [] => false

def decimal (text : String) : ℕ :=
  text.toList.foldl (fun n c => 10 * n + (c.toNat - '0'.toNat)) 0

/-- A space-delimited list, invalid with an empty token. -/
def spaceList (text : String) : Option (List String) :=
  if (splitSpaces text).all (· != "") then some (splitSpaces text) else none

section Steps
variable (params : Params) (client : Client)

/-- The `state` that an error echoes. -/
def echoedState : Option String := (params "state").filter isPrintableState

/-- Request objects by value are not read, only refused. -/
def requestParam : Except Refusal Unit :=
  if (params "request").isSome then
    .error ("request_not_supported", "request objects are not supported")
  else .ok ()

/-- Step 6. -/
def responseTypeParam : Except Refusal Unit :=
  if params "response_type" = some "code" then .ok ()
  else .error ("unsupported_response_type", "response_type must be code")

/-- Step 7. -/
def stateParam : Except Refusal String :=
  match echoedState params with
  | none => .error ("invalid_request", "state is required: 1-2048 printable ASCII characters")
  | some state => .ok state

/-- Step 8: both parameters may be absent when the client is registered without PKCE. -/
def codeChallengeParam : Except Refusal (Option String) :=
  if client.requirePkce || (params "code_challenge").isSome ||
      (params "code_challenge_method").isSome then
    match (params "code_challenge").filter isCodeChallenge with
    | none => .error
        ("invalid_request", "code_challenge is required: 43-128 characters of [A-Za-z0-9._~-]")
    | some challenge =>
      if params "code_challenge_method" = some "S256" then .ok (some challenge)
      else .error ("invalid_request", "code_challenge_method must be S256")
  else .ok none

/-- Step 9. -/
def scopeParam : Except Refusal (List String) :=
  match (params "scope").bind spaceList with
  | none => .error ("invalid_scope", "scope is required")
  | some scope =>
    if !scope.all isScope then .error ("invalid_scope", "scope contains an unknown value")
    else if !scope.contains "openid" then .error ("invalid_scope", "scope must include openid")
    else if (uniqueTexts scope).length ≠ scope.length then
      .error ("invalid_scope", "scope contains duplicates")
    else if !scope.all client.scopesAllowed.contains then
      .error ("invalid_scope", "scope is not allowed for this client")
    else if scope.contains "offline_access" && !client.offlineAccess then
      .error ("invalid_scope", "offline_access is not enabled for this client")
    else .ok scope

/-- Step 10: a parameter passed on to the login app, unless it is refused. -/
def textParam (name : String) (admitted : ℕ → Bool) (description : String) :
    Except Refusal (Option String) :=
  match params name with
  | none => .ok none
  | some text =>
    if admitted (utf16Length text) then .ok (some text)
    else .error ("invalid_request", description)

def promptValue : String → Option PromptValue
  | "none" => some .none
  | "login" | "select_account" => some .login
  | "consent" => some .consent
  | _ => none

/-- Step 11. -/
def promptParam : Except Refusal (List PromptValue) :=
  match params "prompt" with
  | none => .ok []
  | some text =>
    match spaceList text with
    | none => .error ("invalid_request", "prompt contains an unknown value")
    | some values =>
      if !values.all (promptValue · |>.isSome) then
        .error ("invalid_request", "prompt contains an unknown value")
      else if (uniqueTexts values).length ≠ values.length then
        .error ("invalid_request", "prompt contains duplicates")
      else if values.contains "none" && 1 < values.length then
        .error ("invalid_request", "prompt=none cannot be combined with other values")
      else .ok (values.filterMap promptValue).eraseDups

/-- Step 12. -/
def maxAgeParam : Except Refusal (Option ℤ) :=
  match params "max_age" with
  | none => .ok none
  | some text =>
    if isNonNegativeInteger text && utf16Length text ≤ 10 then .ok (some (decimal text))
    else .error ("invalid_request", "max_age must be a non-negative integer")

def requestParams (redirectUri : String) : Except Refusal AuthorizeRequest := do
  requestParam params
  responseTypeParam params
  let state ← stateParam params
  let codeChallenge ← codeChallengeParam params client
  let scope ← scopeParam params client
  let nonce ← textParam params "nonce" (fun n => 0 < n && n ≤ 512) "nonce must be 1-512 characters"
  let loginHint ← textParam params "login_hint" (· ≤ 256) "login_hint exceeds 256 characters"
  let uiLocales ← textParam params "ui_locales" (· ≤ 64) "ui_locales exceeds 64 characters"
  let acrValues ← textParam params "acr_values" (· ≤ 256) "acr_values exceeds 256 characters"
  let prompt ← promptParam params
  let maxAge ← maxAgeParam params
  return {
    redirectUri := redirectUri
    scope := scope
    state := state
    nonce := nonce
    codeChallenge := codeChallenge
    prompt := prompt
    maxAge := maxAge
    loginHint := loginHint
    uiLocales := uiLocales
    acrValues := (acrValues.map fun text => (splitSpaces text).filter (· != "")).getD [] }

/-- The redirect URI is not trusted with an error before it matches. -/
def validateAuthorizeRequest (parse : UrlParser) : AuthorizeValidation :=
  match params "redirect_uri" with
  | none => .refused "invalid_request" "redirect_uri is required"
  | some requested =>
    if (matchRedirectUri parse client.redirectUris requested).isNone then
      .refused "invalid_request" "redirect_uri is not registered"
    else
      match requestParams params client requested with
      | .ok request => .ok request
      | .error (error, description) =>
          .redirected requested (echoedState params) error description

end Steps

/-! ### What a validated request has -/

/-- A redirect URI, scopes and a challenge that a client's registration allows. -/
structure Respects (parse : UrlParser) (client : Client) (redirectUri : String)
    (scope : List String) (codeChallenge : Option String) : Prop where
  redirect : (matchRedirectUri parse client.redirectUris redirectUri).isSome = true
  openid : "openid" ∈ scope
  distinct : scope.Nodup
  allowed : ∀ s ∈ scope, s ∈ client.scopesAllowed
  offline : "offline_access" ∈ scope → client.offlineAccess = true
  pkce : client.requirePkce = true → ∃ challenge, codeChallenge = some challenge ∧
    43 ≤ challenge.length ∧ challenge.length ≤ 128 ∧ ∀ c ∈ challenge.toList, isUnreserved c = true

section Sound
variable {params : Params} {client : Client}

theorem codeChallengeParam_ok {result : Option String}
    (h : codeChallengeParam params client = .ok result) :
    client.requirePkce = true → ∃ challenge, result = some challenge ∧ 43 ≤ challenge.length ∧
      challenge.length ≤ 128 ∧ ∀ c ∈ challenge.toList, isUnreserved c = true := by
  intro hpkce
  simp only [codeChallengeParam, hpkce, Bool.true_or, if_true] at h
  split at h
  · cases h
  · next challenge hchallenge =>
    have hvalid := (Option.filter_eq_some_iff.mp hchallenge).2
    simp only [isCodeChallenge, Bool.and_eq_true, decide_eq_true_eq, List.all_eq_true,
      String.length_toList] at hvalid
    split at h
    · cases h
      exact ⟨challenge, rfl, hvalid.1.1, hvalid.1.2, hvalid.2⟩
    · cases h

theorem scopeParam_ok {scope : List String} (h : scopeParam params client = .ok scope) :
    "openid" ∈ scope ∧ scope.Nodup ∧ (∀ s ∈ scope, s ∈ client.scopesAllowed) ∧
      ("offline_access" ∈ scope → client.offlineAccess = true) := by
  unfold scopeParam at h
  split at h
  · cases h
  · split at h
    · cases h
    · split at h
      · cases h
      · next hopenid =>
        split at h
        · cases h
        · next hdistinct =>
          split at h
          · cases h
          · next hallowed =>
            split at h
            · cases h
            · next hoffline =>
              cases h
              refine ⟨by simpa using hopenid, nodup_of_length_uniqueTexts (not_not.mp hdistinct),
                by simpa using hallowed, by simpa using hoffline⟩

theorem requestParams_ok {redirectUri : String} {request : AuthorizeRequest}
    (h : requestParams params client redirectUri = .ok request) :
    request.redirectUri = redirectUri ∧ scopeParam params client = .ok request.scope ∧
      codeChallengeParam params client = .ok request.codeChallenge := by
  obtain ⟨-, -, h⟩ := Batches.bind_eq_ok h
  obtain ⟨-, -, h⟩ := Batches.bind_eq_ok h
  obtain ⟨state, hstate, h⟩ := Batches.bind_eq_ok h
  obtain ⟨challenge, hchallenge, h⟩ := Batches.bind_eq_ok h
  obtain ⟨scope, hscope, h⟩ := Batches.bind_eq_ok h
  obtain ⟨nonce, hnonce, h⟩ := Batches.bind_eq_ok h
  obtain ⟨loginHint, hloginHint, h⟩ := Batches.bind_eq_ok h
  obtain ⟨uiLocales, huiLocales, h⟩ := Batches.bind_eq_ok h
  obtain ⟨acrValues, hacrValues, h⟩ := Batches.bind_eq_ok h
  obtain ⟨prompt, hprompt, h⟩ := Batches.bind_eq_ok h
  obtain ⟨maxAge, hmaxAge, h⟩ := Batches.bind_eq_ok h
  cases h
  exact ⟨rfl, hscope, hchallenge⟩

variable {parse : UrlParser}

theorem validateAuthorizeRequest_ok {request : AuthorizeRequest}
    (h : validateAuthorizeRequest params client parse = .ok request) :
    Respects parse client request.redirectUri request.scope request.codeChallenge := by
  unfold validateAuthorizeRequest at h
  split at h
  · cases h
  · next requested hrequested =>
    split at h
    · cases h
    · next hmatched =>
      split at h
      · next request' hparams =>
        cases h
        obtain ⟨hredirect, hscope, hchallenge⟩ := requestParams_ok hparams
        obtain ⟨hopenid, hdistinct, hallowed, hoffline⟩ := scopeParam_ok hscope
        refine ⟨?_, hopenid, hdistinct, hallowed, hoffline, codeChallengeParam_ok hchallenge⟩
        rw [hredirect]
        simpa [Option.isSome_iff_ne_none] using hmatched
      · cases h

theorem validateAuthorizeRequest_redirected {redirectUri : String} {state : Option String}
    {error description : String}
    (h : validateAuthorizeRequest params client parse =
      .redirected redirectUri state error description) :
    (matchRedirectUri parse client.redirectUris redirectUri).isSome = true := by
  unfold validateAuthorizeRequest at h
  split at h
  · cases h
  · split at h
    · cases h
    · next hmatched =>
      split at h
      · cases h
      · cases h
        simpa [Option.isSome_iff_ne_none] using hmatched

end Sound

end TinyOidc.Oidc
