import TinyOidc.Interaction.Login
import TinyOidc.Oidc.Authorize

/-! The course of an interaction: `/par` and `/authorize`, which start one, what the login app
reads and decides, `/complete`, logout, and the consent pages of an account. With the login
steps they are the programs of one system, whose steps are single calls. -/
namespace TinyOidc.Interaction
open TinyOidc.User TinyOidc.Util
open TinyOidc.Oidc (Params UrlParser matchRedirectUri validateAuthorizeRequest)

def requestUriTtlSeconds : ℤ := 60

/-! ### Starting an interaction -/

/-- The parameters of an authorization request, and the parser that reads their URIs. -/
structure RequestParams where
  params : Params
  parse : UrlParser

def RequestParams.validate (given : RequestParams) (client : Client) : AuthorizeValidation :=
  validateAuthorizeRequest given.params client given.parse

structure AuthorizeParams extends RequestParams where
  clientId : Option String
  requestUri : Option String
  otherParams : Bool

/-- Creates the interaction with a fresh binding; the object refuses to overwrite one. -/
def startInteraction (input : CreateInteraction) (now ttl : ℤ) : Handler (Option String) := do
  let secretHash ← ask .newSecret
  match ← interactionCall input.id
      (.create { input with bindingHash := encodeBase64Url secretHash } now ttl) with
  | .error _ => return none
  | .ok _ => return some input.id

/-- `POST /par` of an authenticated client. -/
def parHandler (clientId : String) (hasRequestUri : Bool) (params : RequestParams) :
    Handler Response := do
  if ← ask (.limited "ip_navigation") then return rateLimited
  match (← ask (.client clientId)).join with
  | none => return .error 401 "invalid_client" "client authentication failed"
  | some client =>
    if hasRequestUri then return .error 400 "invalid_request" "request_uri cannot be pushed"
    if !client.authorizationCode then
      return .error 400 "unauthorized_client" "client cannot use the authorization code grant"
    match params.validate client with
    | .refused error description => return .error 400 error description
    | .redirected _ _ error description => return .error 400 error description
    | .ok request =>
      let id ← ask .newInteractionId
      let now ← ask .now
      let secretHash ← ask .newSecret
      let _ ← interactionCall id (.create
        { id := id, kind := .par, status := .pushed, bindingHash := encodeBase64Url secretHash
          clientId := some client.clientId, request := some request } now requestUriTtlSeconds)
      return .requestUri id

inductive EvaluationOutcome where
  | none | authorized | loginRequired | consentRequired | notAllowed
  deriving DecidableEq

/-- What the session cookie of `/authorize` amounted to. -/
structure Evaluation where
  outcome : EvaluationOutcome
  existingSession : Option ExistingSession
  code : Option Bytes

def evaluationOutcome : AuthorizeResult → EvaluationOutcome
  | .authorized => .authorized
  | .loginRequired => .loginRequired
  | .consentRequired => .consentRequired

def requestCode (request : AuthorizeRequest) (clientId : String) (scope : List String)
    (secretHash : Bytes) : CodeInput where
  secretHash := secretHash
  clientId := clientId
  redirectUri := request.redirectUri
  scope := scope
  nonce := request.nonce
  codeChallenge := request.codeChallenge

def evaluationInput (ref : SessionRef) (client : ClientRef) (request : AuthorizeRequest)
    (settings : Settings) (now : ℤ) (secretHash : Bytes) : AuthorizeWithSessionInput where
  sid := ref.sid
  secretHash := ref.secretHash
  now := now
  client := client
  scope := request.scope
  promptLogin := request.prompt.contains .login
  promptConsent := request.prompt.contains .consent
  maxAge := request.maxAge
  code := some (requestCode request client.clientId request.scope secretHash)
  sessionIdleTtl := settings.sessionIdleTtl

/-- The session cookie against `authorizeWithSession`, which issues the code when the session
and consent are satisfied; `none` when the call throws. -/
def evaluateSession (cookie : SessionCookie) (client : ClientRef) (request : AuthorizeRequest)
    (settings : Settings) (now : ℤ) : Handler (Option Evaluation) := do
  match cookie.opened with
  | none => return some ⟨.none, none, none⟩
  | some ref =>
    let secretHash ← ask .newSecret
    match ← userCall ref.uid (.authorizeWithSession
        (evaluationInput ref client request settings now secretHash)) with
    | .authorize (.ok a) =>
      return some ⟨evaluationOutcome a.outcome, some ⟨ref.uid, a.session.sid, a.session.authTime⟩,
        if a.outcome = .authorized then some secretHash else none⟩
    | .authorize (.fail .userNotAllowed) => return some ⟨.notAllowed, none, none⟩
    | .authorize (.fail _) => return some ⟨.none, none, none⟩
    | _ => return none

/-- A refusal goes back to the client, and fails a pushed interaction. -/
def authorizeFail (pushed : Option String) (request : AuthorizeRequest) (now : ℤ)
    (error description : String) : Handler Response := do
  match pushed with
  | none => return .toClient request.redirectUri (some request.state) (.error error description)
  | some id =>
    let _ ← interactionCall id (.apply .fail .failed (errorPatch error description) now)
    return .toClient request.redirectUri (some request.state) (.error error description)

def authorizeHit (pushed : Option String) (request : AuthorizeRequest) (now : ℤ)
    (secretHash : Bytes) : Handler Response := do
  match pushed with
  | none => return .toClient request.redirectUri (some request.state) (.code secretHash)
  | some id =>
    let _ ← interactionCall id (.apply .consumePar .completed {} now)
    return .toClient request.redirectUri (some request.state) (.code secretHash)

/-- The interaction that has to come first: the pushed one, or a new one. -/
def authorizeInteract (pushed : Option String) (client : Client) (request : AuthorizeRequest)
    (settings : Settings) (now : ℤ) (status : InteractionStatus)
    (existing : Option ExistingSession) : Handler Response := do
  match pushed with
  | some id =>
    let _ ← interactionCall id
      (.apply .consumePar status { existingSession := some existing } now)
    return .toInteraction id
  | none =>
    let id ← ask .newInteractionId
    match ← startInteraction
        { id := id, kind := .authorize, status := status, bindingHash := ""
          clientId := some client.clientId, request := some request, existingSession := existing }
        now settings.interactionTtl with
    | none => return .thrown
    | some id => return .toInteraction id

def statusText : InteractionStatus → String
  | .consentRequired => "consent_required"
  | _ => "login_required"

/-- The status word in a description: its first underscore is a blank. -/
def statusWords : InteractionStatus → String
  | .consentRequired => "consent required"
  | _ => "login required"

/-- Step 14 of `/authorize`: the session evaluation and what follows from it. -/
def authorizeEvaluated (pushed : Option String) (client : Client) (request : AuthorizeRequest)
    (settings : Settings) (now : ℤ) (cookie : SessionCookie) : Handler Response := do
  match ← evaluateSession cookie (clientRef client) request settings now with
  | none => return .thrown
  | some evaluation =>
    match evaluation.outcome with
    | .authorized => authorizeHit pushed request now (evaluation.code.getD [])
    | .notAllowed => authorizeFail pushed request now "access_denied" "user_not_allowed"
    | outcome =>
      let status : InteractionStatus :=
        if outcome = .consentRequired then .consentRequired else .loginRequired
      if request.prompt.contains .none then
        authorizeFail pushed request now (statusText status)
          ("prompt=none and " ++ statusWords status)
      else authorizeInteract pushed client request settings now status evaluation.existingSession

/-- What a `request_uri` names: not a pushed request, a malformed one, or an interaction. -/
inductive RequestUri where
  | unsupported | malformed | pushed (id : String)
  deriving DecidableEq

def requestUriPrefix : String := "urn:ietf:params:oauth:request_uri:"

def parseRequestUri (value : String) : RequestUri :=
  if requestUriPrefix.toList.isPrefixOf value.toList then
    let id := String.ofList (value.toList.drop requestUriPrefix.length)
    if interactionIdPattern id then .pushed id else .malformed
  else .unsupported

/-- Steps 3 and 4 of `/authorize`: a pushed request, or the parameters. -/
def authorizeRequested (params : AuthorizeParams) (client : Client) (settings : Settings)
    (now : ℤ) (cookie : SessionCookie) : Handler Response := do
  match params.requestUri with
  | some uri =>
    if params.otherParams then
      return .toLoginApp "invalid_request"
        (some "request_uri allows no other parameter than client_id")
    match parseRequestUri uri with
    | .malformed => return .toLoginApp "invalid_request" (some "request_uri is malformed")
    | .unsupported =>
      return .toLoginApp "request_uri_not_supported"
        (some "request_uri values other than pushed authorization requests are not supported")
    | .pushed id =>
      let secretHash ← ask .newSecret
      match ← interactionCall id (.claimPushed client.clientId (encodeBase64Url secretHash) now
          settings.interactionTtl) with
      | .error _ =>
        return .toLoginApp "invalid_request"
          (some "request_uri is unknown, expired or already used")
      | .ok doc =>
        match doc.request with
        | none => return .thrown
        | some request => authorizeEvaluated (some id) client request settings now cookie
  | none =>
    if client.requirePar then
      return .toLoginApp "invalid_request"
        (some "this client must use pushed authorization requests")
    match params.validate client with
    | .refused error description => return .toLoginApp error (some description)
    | .redirected redirectUri state error description =>
      return .toClient redirectUri state (.error error description)
    | .ok request => authorizeEvaluated none client request settings now cookie

def authorizeHandler (params : Option AuthorizeParams) (cookie : SessionCookie) :
    Handler Response := do
  let now ← ask .now
  match ← ask .settings with
  | none => return settingsUnavailable
  | some settings =>
    if settings.loginUrl.isNone || settings.loginOrigins.isNone then return notConfigured
    match params with
    | none => return .toLoginApp "invalid_request" (some "invalid parameters")
    | some params =>
      match params.clientId with
      | none => return .toLoginApp "invalid_request" (some "client_id is required")
      | some clientId =>
        match ← ask (.client clientId) with
        | none => return .toLoginApp "temporarily_unavailable" (some "client directory unavailable")
        | some record =>
          match record.filter (·.disabledAt.isNone) with
          | none => return .toLoginApp "invalid_request" (some "unknown client")
          | some client =>
            if !client.authorizationCode then
              return .toLoginApp "unauthorized_client"
                (some "client cannot use the authorization code grant")
            authorizeRequested params client settings now cookie

/-! ### What the login app reads and decides -/

/-- The consent section: which requested scopes the user has already granted. -/
def consentSection (doc : InteractionDocument) (client : Client) (uid : String)
    (body : DocumentBody) (request : AuthorizeRequest) : Handler Response := do
  let granted := grantedScopes (← userCall uid (.listGrants [clientRef client]))
  let body := { body with consent := some (request.scope.map fun s => (s, granted.contains s)) }
  if doc.existingSession.isNone then return .document body
  match ← userCall uid .getProfile with
  | .profile (.ok profile) =>
    return .document { body with sessionUser := some (profile.displayName, profile.email) }
  | _ => return .document body

def documentBody (doc : InteractionDocument) (client : Option Client) : DocumentBody where
  id := doc.id
  kind := doc.kind
  status := doc.status
  expiresAt := doc.expiresAt
  client := client
  request := doc.request
  sessionUser := none
  consent := none
  link := doc.link
  logout := if doc.kind = .logout then doc.logout.map (·.postLogoutRedirectUri.isSome) else none
  error := doc.error
  attemptsRemaining := attemptLimit - doc.attempts

/-- `GET /api/v1/interactions/{id}`. -/
def getInteractionHandler (r : ApiRequest) : Handler Response := do
  match ← guard r true with
  | .error response => return response
  | .ok g =>
    let client ← interactionClient g.doc
    let body := documentBody g.doc client
    match client, g.doc.request, interactionUid g.doc with
    | some client, some request, some uid =>
      if g.doc.status = .consentRequired then consentSection g.doc client uid body request
      else return .document body
    | _, _, _ => return .document body

/-- `POST …/abort`. -/
def abortHandler (r : ApiRequest) : Handler Response := do
  match ← guard r false with
  | .error response => return response
  | .ok g =>
    let _ ← interactionCall g.id
      (.apply .abort .failed (errorPatch "access_denied" "aborted by the user") g.now)
    return .step .failed true

/-- `POST …/consent`: grant a subset of the request, or deny. -/
def consentHandler (r : ApiRequest) (decision : Option ConsentDecision) : Handler Response := do
  match ← guard r false with
  | .error response => return response
  | .ok g =>
    match g.doc.request with
    | none => return invalidState
    | some request =>
      if g.doc.status ≠ .consentRequired || g.doc.clientId.isNone then return invalidState
      match decision with
      | none => return .error 400 "invalid_request" "invalid body"
      | some .deny =>
        let _ ← interactionCall g.id
          (.apply .consent .failed (errorPatch "access_denied" "consent denied") g.now)
        return .step .failed true
      | some (.grant decided) =>
        if !decided.all request.scope.contains then
          return .error 400 "invalid_request" "scopes must be a subset of the request"
        let scopes := uniqueTexts ("openid" :: decided)
        match ← interactionClient g.doc with
        | none => return clientUnavailable
        | some client =>
          match interactionUid g.doc with
          | none => return .thrown
          | some uid =>
            match ← userCall uid (.grantConsent (clientRef client) scopes g.now) with
            | .grant (.ok _) =>
              let _ ← interactionCall g.id
                (.apply .consent .ready { consent := some (some scopes) } g.now)
              return .step .ready true
            | .grant (.fail e) => return .error 403 "access_denied" e.text
            | _ => return .thrown

/-- `POST …/logout`: the person confirms or declines. -/
def logoutDecisionHandler (r : ApiRequest) (confirm : Option Bool) : Handler Response := do
  match ← guard r false with
  | .error response => return response
  | .ok g =>
    match g.doc.logout with
    | none => return invalidState
    | some logout =>
      if g.doc.kind ≠ .logout || g.doc.status ≠ .loginRequired then return invalidState
      match confirm with
      | none => return .error 400 "invalid_request" "invalid body"
      | some confirm =>
        let decided := { logout with decision := some (if confirm then .confirm else .decline) }
        match ← interactionCall g.id
            (.apply .logoutDecision .ready { logout := some (some decided) } g.now) with
        | .error _ => return invalidState
        | .ok _ => return .toComplete g.id

/-! ### Completion -/

/-- Ends a session on its user's object; notifying the session's clients touches no object. -/
def endSession (uid sid reason : String) : Handler Reply := do
  let now ← ask .now
  userCall uid (.revokeSession sid now reason)

/-- The end of `/complete`: the interaction is done, and the client is told how. -/
def finish (id : String) (request : AuthorizeRequest) (now : ℤ) (result : ClientResult) :
    Handler Response := do
  let _ ← interactionCall id (.apply .complete .completed {} now)
  return .toClient request.redirectUri (some request.state) result

/-- What a client is told when the user cannot be signed in. -/
def accessDenied : UserDoError → ClientResult
  | .userNotAllowed => .error "access_denied" "user_not_allowed"
  | _ => .error "access_denied" "the user cannot sign in"

/-- The completion of a logout: the session ends on a confirmation, while the browser still
presents the cookie the interaction was created from. -/
def completeLogout (doc : InteractionDocument) (id : String) (cookie : SessionCookie) (now : ℤ) :
    Handler Response := do
  match doc.logout with
  | none => return .thrown
  | some logout =>
    match cookie.opened with
    | some presented =>
      if doc.status = .ready ∧ logout.decision = some .confirm ∧
          logout.sid = some presented.sid ∧ logout.uid = some presented.uid then
        let _ ← endSession presented.uid presented.sid "logout"
      let _ ← interactionCall id (.apply .complete .completed {} now)
      return .toPostLogout logout.postLogoutRedirectUri logout.state
    | none =>
      let _ ← interactionCall id (.apply .complete .completed {} now)
      return .toPostLogout logout.postLogoutRedirectUri logout.state

def interactionCode (doc : InteractionDocument) (request : AuthorizeRequest) (client : Client)
    (secretHash : Bytes) : CodeInput :=
  requestCode request client.clientId (doc.consent.getD request.scope) secretHash

def sessionInput (session : ExistingSession) (cookie : SessionCookie) (client : ClientRef)
    (code : CodeInput) (settings : Settings) (now : ℤ) : AuthorizeWithSessionInput where
  sid := session.sid
  secretHash :=
    match cookie.opened with
    | some opened => if opened.sid = session.sid then opened.secretHash else List.replicate 32 0
    | none => List.replicate 32 0
  now := now
  client := client
  scope := code.scope
  promptLogin := false
  promptConsent := false
  maxAge := none
  code := some code
  sessionIdleTtl := settings.sessionIdleTtl

/-- Clears what the lost session stood for, so that the login app starts over. -/
def restartPatch : TransitionPatch :=
  { existingSession := some none, consent := some none, completing := some false }

/-- Consent was given on the session that started the interaction: the code is issued on it,
and when it is gone the login app starts over. -/
def completeOnSession (doc : InteractionDocument) (id : String) (request : AuthorizeRequest)
    (client : Client) (session : ExistingSession) (cookie : SessionCookie) (settings : Settings)
    (now : ℤ) : Handler Response := do
  let secretHash ← ask .newSecret
  let code := interactionCode doc request client secretHash
  match ← userCall session.uid (.authorizeWithSession
      (sessionInput session cookie (clientRef client) code settings now)) with
  | .authorize (.ok a) =>
    if a.outcome = .authorized then finish id request now (.code secretHash)
    else restart
  | .authorize (.fail _) => restart
  | _ => return .thrown
where
  restart : Handler Response := do
    let _ ← interactionCall id (.apply .restart .loginRequired restartPatch now)
    return .toInteraction id

def authContext (auth : InteractionAuth) : AuthContext where
  authTime := auth.authTime
  amr := auth.amr
  acr := auth.acr
  upstream := auth.upstream

/-- Rotates the session of the same user; `none` when it is gone. -/
def rotateSession (doc : InteractionDocument) (auth : InteractionAuth) (code : CodeInput)
    (client : ClientRef) (secretHash : Bytes) (settings : Settings) (now : ℤ) :
    Handler (Option (Except (Option UserDoError) Unit)) := do
  match doc.existingSession with
  | none => return none
  | some existing =>
    if auth.newSession then return none
    match ← userCall auth.uid (.finalizeLogin
        ⟨now, .rotate existing.sid secretHash (authContext auth), some code, some client,
          settings.sessionIdleTtl⟩) with
    | .login (.ok _) => return some (.ok ())
    | .login (.fail .sessionInvalid) => return none
    | .login (.fail e) => return some (.error (some e))
    | _ => return some (.error none)

def endOther (doc : InteractionDocument) (uid : String) : Handler Unit := do
  match doc.existingSession with
  | none => return ()
  | some existing =>
    if existing.uid ≠ uid then
      let _ ← endSession existing.uid existing.sid "reauth"
    return ()

/-- The user authenticated in the interaction: the code, on a session that is rotated or created. -/
def completeWithAuth (doc : InteractionDocument) (id : String) (request : AuthorizeRequest)
    (client : Client) (auth : InteractionAuth) (settings : Settings) (now : ℤ) :
    Handler Response := do
  let codeHash ← ask .newSecret
  let code := interactionCode doc request client codeHash
  let secretHash ← ask .newSecret
  match ← rotateSession doc auth code (clientRef client) secretHash settings now with
  | some (.ok _) => finish id request now (.code codeHash)
  | some (.error (some e)) => finish id request now (accessDenied e)
  | some (.error none) => return .thrown
  | none =>
    endOther doc auth.uid
    let sid ← ask .newUuid
    let metadata ← ask .sessionMetadata
    match ← userCall auth.uid (.finalizeLogin
        ⟨now, .create ⟨sid, secretHash, authContext auth, metadata,
          settings.sessionIdleTtl, settings.sessionAbsoluteTtl⟩, some code,
          some (clientRef client), settings.sessionIdleTtl⟩) with
    | .login (.ok _) => finish id request now (.code codeHash)
    | .login (.fail e) => finish id request now (accessDenied e)
    | _ => return .thrown

def completeReady (doc : InteractionDocument) (id : String) (request : AuthorizeRequest)
    (cookie : SessionCookie) (settings : Settings) (now : ℤ) : Handler Response := do
  match ← interactionClient doc with
  | none => finish id request now (.error "server_error" "client unavailable")
  | some client =>
    match doc.auth, doc.existingSession with
    | some auth, _ => completeWithAuth doc id request client auth settings now
    | none, some session => completeOnSession doc id request client session cookie settings now
    | none, none => finish id request now (.error "server_error" "no user")

/-- A claimed interaction, by the document read before the claim. -/
def completeClaimed (doc : InteractionDocument) (id : String) (cookie : SessionCookie)
    (settings : Settings) (now : ℤ) : Handler Response := do
  if doc.kind = .logout then completeLogout doc id cookie now
  else
    match doc.request with
    | none => return .thrown
    | some request =>
      if doc.status = .failed then
        let error := doc.error.getD ⟨"server_error", "interaction failed"⟩
        finish id request now (.error error.error error.errorDescription)
      else completeReady doc id request cookie settings now

/-- `GET /interactions/{id}/complete`. -/
def completeHandler (id : String) (binding : Option BindingRef) (cookie : SessionCookie) :
    Handler Response := do
  match ← ask .settings with
  | none => return settingsUnavailable
  | some settings =>
    if settings.loginUrl.isNone then return notConfigured
    if !interactionIdPattern id then return .toLoginApp "interaction_not_found" none
    match binding.filter (fun b => b.interactionId == id) with
    | none => return .toLoginApp "interaction_binding_failed" none
    | some binding =>
      let now ← ask .now
      match ← interactionCall id (.get now) with
      | .error _ => return .toLoginApp "interaction_not_found" none
      | .ok doc =>
        if doc.status = .pushed then return .toLoginApp "interaction_not_found" none
        if doc.bindingHash ≠ encodeBase64Url binding.secretHash then
          return .toLoginApp "interaction_binding_failed" none
        if doc.status = .completed then return .toLoginApp "interaction_already_completed" none
        if doc.status ≠ .ready ∧ doc.status ≠ .failed then return .toInteraction id
        match ← interactionCall id (.claimCompletion now) with
        | .error _ => return .toLoginApp "interaction_already_completed" none
        | .ok _ => completeClaimed doc id cookie settings now

/-! ### Logout and the consent pages -/

/-- The `id_token_hint` of a logout: absent, not ours, or the session it names. -/
inductive LogoutHint where
  | absent
  | invalid
  | valid (sub : String) (sid : Option String) (audience : String)
  deriving DecidableEq

structure LogoutParams where
  hint : LogoutHint
  clientId : Option String
  postLogoutRedirectUri : Option String
  parse : UrlParser
  state : Option String

def registeredUri (params : LogoutParams) (client : Option Client) : Option String :=
  params.postLogoutRedirectUri.filter fun uri => client.any fun client =>
    (matchRedirectUri params.parse client.postLogoutRedirectUris uri).isSome

/-- A logout with a valid hint ends the hinted session at once. -/
def logoutHinted (params : LogoutParams) (cookie : SessionCookie) (sub : String)
    (sid : Option String) (audience : String) : Handler Response := do
  match (← ask (.client audience)).join with
  | none => return .toLoginApp "invalid_request" none
  | some client =>
    match sid with
    | none => return .toPostLogout (registeredUri params (some client)) params.state
    | some sid =>
      let uid := ((cookie.opened.filter (·.sid == sid)).map (·.uid)).getD sub
      let _ ← endSession uid sid "rp_logout"
      return .toPostLogout (registeredUri params (some client)) params.state

/-- Without a hint, a live session is asked to confirm. -/
def logoutAsked (params : LogoutParams) (cookie : SessionCookie) (settings : Settings)
    (client : Option Client) : Handler Response := do
  match cookie.opened with
  | none => return .toPostLogout (registeredUri params client) params.state
  | some ref =>
    let now ← ask .now
    match ← userCall ref.uid (.getSession ref.sid ref.secretHash now) with
    | .session (.ok _) =>
      let now ← ask .now
      let id ← ask .newInteractionId
      match ← startInteraction
          { id := id, kind := .logout, status := .loginRequired, bindingHash := ""
            clientId := client.map (·.clientId)
            logout := some ⟨some ref.sid, some ref.uid, registeredUri params client, params.state,
              none⟩ }
          now settings.interactionTtl with
      | none => return .thrown
      | some id => return .toInteraction id
    | .session (.fail _) => return .toPostLogout (registeredUri params client) params.state
    | _ => return .thrown

def logoutHandler (params : Option LogoutParams) (cookie : SessionCookie) : Handler Response := do
  if ← ask (.limited "ip_navigation") then return rateLimited
  match ← ask .settings with
  | none => return settingsUnavailable
  | some settings =>
    if settings.loginUrl.isNone then return notConfigured
    match params with
    | none => return .toLoginApp "invalid_request" none
    | some params =>
      match params.hint, params.clientId with
      | .invalid, _ => return .toLoginApp "invalid_request" none
      | .valid sub sid audience, _ => logoutHinted params cookie sub sid audience
      | .absent, none => logoutAsked params cookie settings none
      | .absent, some clientId =>
        let client := (← ask (.client clientId)).join
        logoutAsked params cookie settings client

/-- The current records of the clients a user has granted, read from D1. -/
def resolveClients : List String → Handler (List ClientRef)
  | [] => return []
  | clientId :: rest => do
    let client ← ask (.clientRow clientId)
    let refs ← resolveClients rest
    return (client.map clientRef).toList ++ refs

/-- The grants of a user, for the account pages and the Admin API. -/
def listGrantsHandler (uid : String) : Handler Response := do
  match ← userCall uid .grantClientIds with
  | .clientIds (.ok clientIds) =>
    let refs ← resolveClients clientIds
    match ← userCall uid (.listGrants refs) with
    | .grants (.ok grants) => return .grants grants
    | _ => return .error 503 "temporarily_unavailable" "storage unavailable"
  | _ => return .error 503 "temporarily_unavailable" "storage unavailable"

/-! ### The system -/

inductive Request where
  | par (clientId : String) (hasRequestUri : Bool) (params : RequestParams)
  | authorize (params : Option AuthorizeParams) (cookie : SessionCookie)
  | getInteraction (r : ApiRequest)
  | abort (r : ApiRequest)
  | consent (r : ApiRequest) (decision : Option ConsentDecision)
  | passkeyOptions (r : ApiRequest)
  | passkeyVerify (r : ApiRequest) (malformed : Bool) (assertion : Option Assertion)
  | registerOptions (r : ApiRequest) (body : Option RegisterOptionsBody)
  | registerVerify (r : ApiRequest) (malformed : Bool) (name : Option String)
  | upstream (r : ApiRequest) (malformed : Bool) (upstreamAlias : String)
      (invitation : Option String)
  | federationCallback (malformed : Bool) (state : Option FederationRef)
      (binding : Option BindingRef) (error code : Option String)
  | logoutDecision (r : ApiRequest) (confirm : Option Bool)
  | complete (id : String) (binding : Option BindingRef) (cookie : SessionCookie)
  | logout (params : Option LogoutParams) (cookie : SessionCookie)
  | listGrants (uid : String)

def Request.handler : Request → Handler Response
  | .par clientId hasRequestUri params => parHandler clientId hasRequestUri params
  | .authorize params cookie => authorizeHandler params cookie
  | .getInteraction r => getInteractionHandler r
  | .abort r => abortHandler r
  | .consent r decision => consentHandler r decision
  | .passkeyOptions r => passkeyOptionsHandler r
  | .passkeyVerify r malformed assertion => passkeyVerifyHandler r malformed assertion
  | .registerOptions r body => registerOptionsHandler r body
  | .registerVerify r malformed name => registerVerifyHandler r malformed name
  | .upstream r malformed upstreamAlias invitation =>
      upstreamHandler r malformed upstreamAlias invitation
  | .federationCallback malformed state binding error code =>
      federationCallbackHandler malformed state binding error code
  | .logoutDecision r confirm => logoutDecisionHandler r confirm
  | .complete id binding cookie => completeHandler id binding cookie
  | .logout params cookie => logoutHandler params cookie
  | .listGrants uid => listGrantsHandler uid

/-- The calls that endpoints outside this system make: only `/authorize`, `/complete`, the
interaction's consent and the grant listings make the others. -/
def otherEndpointCall : Call → Bool
  | .authorizeWithSession _ | .finalizeLogin _ | .grantConsent _ _ _ | .listGrants _ => false
  | _ => true

/-- What happens beside the requests: an alarm fires, another endpoint calls a user's object. -/
def outsideOp : Op → Bool
  | .interaction _ (.alarm _) => true
  | .user _ call => otherEndpointCall call
  | _ => false

abbrev Deployment := Threads.System Request Oracle World Op.Answer Response

def deployment (sha256 : String → Bytes) : Deployment where
  start := Request.handler
  exec := World.exec sha256
  isOutside := outsideOp

abbrev Step := Threads.Label Request Op Oracle

end TinyOidc.Interaction
