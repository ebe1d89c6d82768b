import TinyOidc.Interaction.World

/-! The login steps of an interaction: the guard of the Interaction API (`src/interaction/api.ts`),
the passkey and registration endpoints, and the federation callback. Each is a program whose
calls interleave freely with those of other requests. Audit, log and metrics are left out. -/
namespace TinyOidc.Interaction
open TinyOidc.User TinyOidc.Util

def attemptLimit : ℕ := 10

def challengeTtlSeconds : ℤ := 300

def federationLegTtlSeconds : ℤ := 300

def interactionIdPattern (id : String) : Bool :=
  id.length == 43 && id.toList.all fun c => c.isAlphanum || c == '_' || c == '-'

def rateLimited : Response := .error 429 "rate_limited" "too many requests"

def noSuchInteraction : Response := .error 404 "interaction_not_found" "no such interaction"

def bindingFailed : Response := .error 403 "interaction_binding_failed" "interaction binding failed"

def invalidState : Response := .error 409 "interaction_invalid_state" "not allowed in this state"

def clientUnavailable : Response := .error 503 "temporarily_unavailable" "client unavailable"

def settingsUnavailable : Response := .error 503 "temporarily_unavailable" "settings unavailable"

def notConfigured : Response :=
  .error 503 "not_configured" "login_url and login_origins are not set"

structure Guarded where
  id : String
  doc : InteractionDocument
  settings : Settings
  now : ℤ

/-- A login origin, or a same-site `GET` without one. -/
def originAllowed (settings : Settings) (r : ApiRequest) (isGet : Bool) : Bool :=
  match r.origin with
  | some origin => settings.loginOrigins.any (·.contains origin)
  | none => isGet && (r.secFetchSite == some "same-origin" || r.secFetchSite == some "same-site")

/-- Id, origin, binding cookie, then the document; terminal ones are served to `GET` only. -/
def guard (r : ApiRequest) (isGet : Bool) : Handler (Except Response Guarded) := do
  if ← ask (.limited "ip_interactions") then return .error rateLimited
  if !interactionIdPattern r.id then return .error noSuchInteraction
  match ← ask .settings with
  | none => return .error settingsUnavailable
  | some settings =>
    if !originAllowed settings r isGet then
      return .error (.error 403 "origin_not_allowed" "origin not allowed")
    match r.binding with
    | none => return .error bindingFailed
    | some binding =>
      if binding.interactionId ≠ r.id then return .error bindingFailed
      let now ← ask .now
      match ← interactionCall r.id (.get now) with
      | .error _ => return .error noSuchInteraction
      | .ok doc =>
        if doc.status = .pushed then return .error noSuchInteraction
        if doc.bindingHash ≠ encodeBase64Url binding.secretHash then return .error bindingFailed
        if !isGet && isTerminal doc.status then return .error noSuchInteraction
        return .ok ⟨r.id, doc, settings, now⟩

/-- The client record of an interaction, or none when it has none or it is gone. -/
def interactionClient (doc : InteractionDocument) : Handler (Option Client) := do
  match doc.clientId with
  | none => return none
  | some clientId => return (← ask (.client clientId)).join

/-- The scopes of the first grant in a `listGrants` result; none when the user is gone. -/
def grantedScopes : Reply → List String
  | .grants (.ok grants) => (grants.head?.map (·.scopes)).getD []
  | _ => []

/-- The user an interaction is about: authenticated in it, or holding its first session. -/
def interactionUid (doc : InteractionDocument) : Option String :=
  (doc.auth.map (·.uid)).or (doc.existingSession.map (·.uid))

def errorPatch (error description : String) : TransitionPatch :=
  { error := some (some ⟨error, description⟩) }

/-! ### Authentication and consent -/

structure AuthMethod where
  amr : List String
  acr : String
  upstream : Option String

def passkeyAuthMethod (passkey : PasskeyRow) : AuthMethod where
  amr := if passkey.backupEligible then ["swk", "user"] else ["hwk", "user"]
  acr := "urn:tinyoidc:acr:passkey"
  upstream := none

/-- `skip_consent`, or a grant covering every requested scope and no `prompt=consent`. -/
def consentNeeded (doc : InteractionDocument) (client : Client) (uid : String) : Handler Bool := do
  match doc.request with
  | none => return false
  | some request =>
    if client.skipConsent then return false
    if request.prompt.contains .consent then return true
    let granted := grantedScopes (← userCall uid (.listGrants [clientRef client]))
    return !request.scope.all granted.contains

def loginRefusal (doc : InteractionDocument) (client : Client) (profile : UserProfile) :
    Option String :=
  if profile.disabledAt.isSome then some "the user cannot sign in"
  else if client.allowedGroups.any (fun groups => !groups.any profile.groups.contains) then
    some "user_not_allowed"
  else if doc.request.any (·.scope.contains "admin") && !profile.groups.contains "admins" then
    some "user_not_allowed"
  else none

/-- What an authentication stores; the same user again keeps the session. -/
def interactionAuth (doc : InteractionDocument) (profile : UserProfile) (method : AuthMethod)
    (now : ℤ) : InteractionAuth where
  uid := profile.id
  method := if method.upstream.isNone then .passkey else .federated
  amr := method.amr
  acr := method.acr
  upstream := method.upstream
  authTime := now
  newSession := doc.existingSession.map (·.uid) != some profile.id

/-- What follows a successful authentication: refused, ready, or consent required. -/
def authenticateInteraction (g : Guarded) (client : Client) (profile : UserProfile)
    (method : AuthMethod) (operation : InteractionOperation) : Handler Response := do
  match loginRefusal g.doc client profile with
  | some description =>
    let _ ← interactionCall g.id
      (.apply operation .failed (errorPatch "access_denied" description) g.now)
    return .step .failed true
  | none =>
    let auth := interactionAuth g.doc profile method g.now
    let needed ← consentNeeded g.doc client profile.id
    let status : InteractionStatus := if needed then .consentRequired else .ready
    match ← interactionCall g.id (.apply operation status { auth := some (some auth) } g.now) with
    | .error _ => return .step .failed true
    | .ok _ => return .step status (status == .ready)

/-! ### Passkeys -/

def countAttempt (g : Guarded) : Handler (Option Response) := do
  match ← interactionCall g.id (.attempt g.now attemptLimit) with
  | .ok _ => return none
  | .error _ => return some (.error 403 "too_many_attempts" "too many attempts")

def passkeyStatus : InteractionStatus → Bool
  | .loginRequired | .linkRequired => true
  | _ => false

def passkeyOptionsHandler (r : ApiRequest) : Handler Response := do
  match ← guard r false with
  | .error response => return response
  | .ok g =>
    if g.doc.kind ≠ .authorize || !passkeyStatus g.doc.status then return invalidState
    match ← countAttempt g with
    | some refused => return refused
    | none =>
      let challenge ← ask .randomText
      let _ ← interactionCall g.id (.patch
        { passkeyChallenge := some (some ⟨challenge, g.now + challengeTtlSeconds, none, none⟩) }
        g.now)
      return .challenge challenge

/-- Links the upstream identity to the candidate: the D1 claim first, then the object; `none`
when a read throws. -/
def linkIdentity (uid : String) (link : LinkCandidate) : Handler (Option Bool) := do
  let now ← ask .now
  match ← ask (.upstream link.upstreamAlias) with
  | none => return none
  | some none => return some false
  | some (some upstream) =>
    if !(← ask (.insertIdentity upstream.issuer link.subject uid now)) then return some false
    let id ← ask .newUuid
    match ← userCall uid (.addIdentity
        ⟨id, upstream.issuer, link.subject, some link.email, some link.emailVerified, link.name⟩
        now) with
    | .identity (.ok _) => return some true
    | .identity (.fail _) =>
      let _ ← ask (.releaseIdentity upstream.issuer link.subject)
      return some false
    | _ => return none

def verificationFailed : Response :=
  .error 401 "passkey_verification_failed" "passkey verification failed"

/-- `UserDO.verifyAssertion`, suspended at the signature check. -/
def verifyAssertion (uid credentialId challenge : String) (now : ℤ) : Handler Reply := do
  match ← userCall uid (.verifyAssertion credentialId now) with
  | .assertion (.suspended call) =>
    let verified ← ask (.verifySignature credentialId challenge)
    userCall uid (.resumeAssertion call verified)
  | reply => return reply

def assertionUser (assertion : Assertion) : Handler (Option String × Bool) := do
  match assertion.userHandle with
  | some uid => return (some uid, false)
  | none => return (← ask (.lookupCredential assertion.credentialId), true)

/-- What follows a verified assertion; in `link_required` it must be the candidate's. -/
def passkeyVerified (g : Guarded) (profile : UserProfile) (passkey : PasskeyRow) :
    Handler Response := do
  match ← interactionClient g.doc with
  | none => return clientUnavailable
  | some client =>
    if g.doc.status = .linkRequired then
      match g.doc.link with
      | none => return .thrown
      | some link =>
        if profile.id ≠ link.candidateUid then
          return .error 403 "link_wrong_user" "the assertion is not the candidate's"
        match ← linkIdentity profile.id link with
        | none => return .thrown
        | some false => return .error 503 "temporarily_unavailable" "linking failed"
        | some true =>
          authenticateInteraction g client profile (passkeyAuthMethod passkey) .link
    else authenticateInteraction g client profile (passkeyAuthMethod passkey) .authenticate

def passkeyVerifyHandler (r : ApiRequest) (malformed : Bool) (assertion : Option Assertion) :
    Handler Response := do
  match ← guard r false with
  | .error response => return response
  | .ok g =>
    if g.doc.kind ≠ .authorize || !passkeyStatus g.doc.status then return invalidState
    match ← countAttempt g with
    | some refused => return refused
    | none =>
      if malformed then return .error 400 "invalid_request" "invalid body"
      -- The challenge is consumed before anything is verified.
      let _ ← interactionCall g.id (.patch { passkeyChallenge := some none } g.now)
      match g.doc.passkeyChallenge.filter (fun c => g.now < c.expiresAt), assertion with
      | some challenge, some assertion =>
        let (uid, fromIndex) ← assertionUser assertion
        match uid with
        | none => return verificationFailed
        | some uid =>
          match ← verifyAssertion uid assertion.credentialId challenge.value g.now with
          | .assertion (.done (.ok profile passkey)) => passkeyVerified g profile passkey
          | .assertion (.done (.regression _ _ _)) =>
            return .error 401 "passkey_counter_regression" "passkey counter regression"
          | .assertion (.done (.fail error)) =>
            if fromIndex && (error == .userNotInitialized || error == .userDestroyed) then
              let _ ← ask (.releaseCredential assertion.credentialId)
              return verificationFailed
            else return verificationFailed
          | _ => return .thrown
      | _, _ => return verificationFailed

/-! ### Registration -/

def InvitationFault.text : InvitationFault → String
  | .invitationInvalid => "invitation_invalid"
  | .invitationExpired => "invitation_expired"
  | .invitationUsed => "invitation_used"

def CreateUserError.text : CreateUserError → String
  | .emailInvalid => "email_invalid"
  | .accountExists => "account_exists"
  | .identityAlreadyLinked => "identity_already_linked"
  | .groupUnknown => "group_unknown"
  | .temporarilyUnavailable => "temporarily_unavailable"

def invitationRefused (fault : InvitationFault) : Response :=
  .error 400 fault.text "invitation not accepted"

/-- Step 2 of a creation: the object, with one repetition of a call that throws. -/
def initializeUser (p : InitProfile) (now : ℤ) (identities : List NewIdentity) :
    Handler (Except CreateUserError UserProfile) := do
  match ← userCall p.id (.init p now identities) with
  | .profile (.ok profile) => return .ok profile
  | .profile (.fail _) => return .error .temporarilyUnavailable
  | _ =>
    match ← userCall p.id (.init p now identities) with
    | .profile (.ok profile) => return .ok profile
    | _ => return .error .temporarilyUnavailable

def normalizedEmail : Option String → Handler (Option String)
  | none => return none
  | some email => return some (← ask (.normalizeEmail email))

/-- Claim the D1 rows, initialize the object, activate the row. -/
def createUser (user : NewUser) (now : ℤ) : Handler (Except CreateUserError UserProfile) := do
  let email := user.email.map trim
  let emailNorm ← normalizedEmail email
  match ← ask (.claimUser user now) with
  | .error e => return .error e
  | .ok _ =>
    match ← initializeUser
        ⟨user.id, email, emailNorm, user.emailVerified, user.displayName, sortTexts user.groups⟩
        now user.identities with
    | .error e => return .error e
    | .ok profile =>
      let _ ← ask (.activateUser user.id)
      return .ok profile

inductive RegisterPasskeyError where
  | passkeyExists | passkeyLimitReached | userNotAvailable | temporarilyUnavailable
  deriving DecidableEq

def RegisterPasskeyError.text : RegisterPasskeyError → String
  | .passkeyExists => "passkey_exists"
  | .passkeyLimitReached => "passkey_limit_reached"
  | .userNotAvailable => "user_not_available"
  | .temporarilyUnavailable => "temporarily_unavailable"

/-- Claims the credential in the index, retrying a failed call once. -/
def claimCredential (credentialId uid : String) (now : ℤ) : Handler CredentialClaim := do
  match ← ask (.claimCredential credentialId uid now) with
  | .failed => ask (.claimCredential credentialId uid now)
  | outcome => return outcome

/-- The object first, then the index; a passkey the index cannot take is removed again. -/
def registerPasskey (uid : String) (passkey : NewPasskey) (now : ℤ) (maxPerUser : ℕ) :
    Handler (Except RegisterPasskeyError PasskeyRow) := do
  if (← ask (.lookupCredential passkey.credentialId)).isSome then return .error .passkeyExists
  match ← userCall uid (.addPasskey passkey now maxPerUser) with
  | .passkey (.ok added) =>
    match ← claimCredential passkey.credentialId uid now with
    | .claimed => return .ok added
    | outcome =>
      let _ ← userCall uid (.removePasskey passkey.id .admin)
      return .error (if outcome = .taken then .passkeyExists else .temporarilyUnavailable)
  | .passkey (.fail .passkeyExists) => return .error .passkeyExists
  | .passkey (.fail .passkeyLimitReached) => return .error .passkeyLimitReached
  | _ => return .error .userNotAvailable

/-- What a registration will create: from a recover invitation, or from the request and at most
a register invitation. -/
def registrationDraft (body : RegisterOptionsBody) (invitation : Option InvitationRow) :
    Handler (Except Response (String × RegistrationDraft)) := do
  match invitation.filter (fun i => i.kind == .recover) with
  | some recover =>
    match (← ask (.getUser (recover.userId.getD ""))).filter (fun u => u.status == .active) with
    | none => return .error (invitationRefused .invitationInvalid)
    | some target =>
      let _ ← userCall target.id .listPasskeys
      return .ok (target.id,
        ⟨.recover, target.email, target.emailVerified, target.displayName, []⟩)
  | none =>
    let email := (invitation.bind (·.email)).or body.email
    let verified := invitation.any (fun i => i.email.isSome && i.emailVerified)
    let refusal ← emailRefusal email verified
    match refusal with
    | some response => return .error response
    | none =>
      let uid ← ask .newUuid
      return .ok (uid,
        ⟨.register, email.map trim, verified,
          body.displayName.or (invitation.bind (·.displayName)),
          (invitation.map (·.groups)).getD []⟩)
where
  /-- An invalid email, or a verified one that another account holds. -/
  emailRefusal (email : Option String) (verified : Bool) : Handler (Option Response) := do
    match email with
    | none => return none
    | some email =>
      if !(← ask (.isValidEmail email)) then
        return some (.error 400 "email_invalid" "email is not valid")
      if verified then
        if (← ask (.findVerifiedUser email)).isSome then
          return some (.error 409 "account_exists" "an account with this email exists")
        else return none
      else return none

def registerOptionsHandler (r : ApiRequest) (body : Option RegisterOptionsBody) :
    Handler Response := do
  match ← guard r false with
  | .error response => return response
  | .ok g =>
    if g.doc.kind ≠ .authorize || g.doc.status ≠ .loginRequired then return invalidState
    match ← countAttempt g with
    | some refused => return refused
    | none =>
      match body with
      | none => return .error 400 "invalid_request" "invalid body"
      | some body =>
        match ← policy g body with
        | .error response => return response
        | .ok invitation =>
          match ← registrationDraft body invitation with
          | .error response => return response
          | .ok (uid, draft) =>
            let emailInUse ← unverifiedInUse draft
            let challenge ← ask .randomText
            let _ ← interactionCall g.id (.patch
              { passkeyChallenge := some (some ⟨challenge, g.now + challengeTtlSeconds, some uid,
                  invitation.map (·.id)⟩)
                registration := some (some draft) } g.now)
            return .registration challenge emailInUse
where
  /-- Whether a verified account holds the unverified email of a registration. -/
  unverifiedInUse (draft : RegistrationDraft) : Handler Bool := do
    match draft.email.filter (fun _ => draft.kind == .register && !draft.emailVerified) with
    | none => return false
    | some email => return (← ask (.findVerifiedUser email)).isSome
  /-- An invitation, or open registration. -/
  policy (g : Guarded) (body : RegisterOptionsBody) :
      Handler (Except Response (Option InvitationRow)) := do
    match body.invitation with
    | some token =>
      match ← ask (.openInvitation token g.now) with
      | .error fault => return .error (invitationRefused fault)
      | .ok invitation => return .ok (some invitation)
    | none =>
      if g.settings.registrationMode ≠ .openToAll then
        return .error (.error 403 "registration_closed" "registration is closed")
      else return .ok none

/-- The account a finished ceremony registers to: created, or recovered with every session and
family of it ended. -/
def registrationAccount (uid : String) (draft : RegistrationDraft) (now : ℤ) :
    Handler (Except Response UserProfile) := do
  match draft.kind with
  | .register =>
    match ← createUser
        ⟨uid, draft.email, draft.emailVerified, draft.displayName, draft.groups, []⟩ now with
    | .ok profile => return .ok profile
    | .error .accountExists =>
      return .error (.error 409 "account_exists" "an account with this email exists")
    | .error e => return .error (.error 503 "temporarily_unavailable" e.text)
  | .recover =>
    match ← userCall uid .getProfile with
    | .profile (.ok profile) =>
      let _ ← userCall uid (.revokeAll now "recover")
      return .ok profile
    | .profile (.fail _) => return .error (invitationRefused .invitationInvalid)
    | _ => return .error .thrown

def takeInvitation (invitationId : Option String) (uid : String) (now : ℤ) :
    Handler (Option Response) := do
  match invitationId with
  | none => return none
  | some id =>
    if ← ask (.consumeInvitation id uid now) then return none
    match ← ask (.getInvitation id) with
    | none => return some (invitationRefused .invitationInvalid)
    | some row =>
      return some (invitationRefused
        (if row.usedAt.isSome then .invitationUsed else .invitationExpired))

def newPasskey (id : String) (verified : VerifiedPasskey) (name : Option String)
    (createdVia : CreatedVia) : NewPasskey where
  id := id
  credentialId := verified.credentialId
  publicKey := verified.publicKey
  alg := verified.alg
  counter := verified.counter
  transports := verified.transports
  aaguid := verified.aaguid
  backupEligible := verified.backupEligible
  backedUp := verified.backedUp
  name := name
  createdVia := createdVia

/-- Invitation, account, passkey, then the interaction. -/
def registerVerified (g : Guarded) (uid : String) (invitationId : Option String)
    (draft : RegistrationDraft) (verified : VerifiedPasskey) (name : Option String) :
    Handler Response := do
  match ← takeInvitation invitationId uid g.now with
  | some response => return response
  | none =>
    match ← registrationAccount uid draft g.now with
    | .error response => return response
    | .ok profile =>
      let id ← ask .newUuid
      let via : CreatedVia := if draft.kind = .recover then .recovery else .interaction
      match ← registerPasskey uid (newPasskey id verified name via) g.now g.settings.maxPerUser with
      | .error .passkeyLimitReached =>
        return .error 403 "passkey_limit_reached" "too many passkeys"
      | .error e => return .error 503 "temporarily_unavailable" e.text
      | .ok passkey =>
        match ← interactionClient g.doc with
        | none => return clientUnavailable
        | some client =>
          authenticateInteraction g client profile (passkeyAuthMethod passkey) .authenticate

/-- The name a new passkey gets: none given, or a trimmed one of 1 to 64 characters. -/
def passkeyName : Option String → Except Unit (Option String)
  | none => .ok none
  | some raw =>
      let trimmed := trim raw
      if trimmed.isEmpty || 64 < trimmed.length then .error () else .ok (some trimmed)

def registerVerifyHandler (r : ApiRequest) (malformed : Bool) (name : Option String) :
    Handler Response := do
  match ← guard r false with
  | .error response => return response
  | .ok g =>
    if g.doc.kind ≠ .authorize || g.doc.status ≠ .loginRequired then return invalidState
    match ← countAttempt g with
    | some refused => return refused
    | none =>
      if malformed then return .error 400 "invalid_request" "invalid body"
      match passkeyName name with
      | .error _ => return .error 400 "invalid_request" "name must be 1-64 characters"
      | .ok name =>
        let _ ← interactionCall g.id
          (.patch { passkeyChallenge := some none, registration := some none } g.now)
        match g.doc.passkeyChallenge.filter (fun c => g.now < c.expiresAt), g.doc.registration with
        | some ⟨value, _, some uid, invitationId⟩, some draft =>
          match ← ask (.verifyRegistration value) with
          | .error .passkeyNotDiscoverable =>
            return .error 400 "passkey_not_discoverable" "passkey registration failed"
          | .error .passkeyVerificationFailed =>
            return .error 401 "passkey_verification_failed" "passkey registration failed"
          | .ok verified =>
            if (← ask (.lookupCredential verified.credentialId)).isSome then
              return .error 401 "passkey_verification_failed" "passkey registration failed"
            registerVerified g uid invitationId draft verified name
        | _, _ => return verificationFailed

/-! ### Federation -/

/-- Starts a federation leg on the interaction, replacing any previous one. -/
def upstreamHandler (r : ApiRequest) (malformed : Bool) (upstreamAlias : String)
    (invitation : Option String) : Handler Response := do
  match ← guard r false with
  | .error response => return response
  | .ok g =>
    if g.doc.kind ≠ .authorize || g.doc.status ≠ .loginRequired then return invalidState
    if malformed then return .error 400 "invalid_request" "invalid body"
    match ← ask (.upstream upstreamAlias) with
    | none => return .error 503 "temporarily_unavailable" "upstream directory unavailable"
    | some record =>
      if !record.any (·.enabled) then return .error 404 "upstream_not_found" "no such upstream"
      match ← invitationId g invitation with
      | .error response => return response
      | .ok invitationId =>
        if !(← ask (.upstreamMetadata upstreamAlias)) then
          return .error 503 "upstream_unavailable" "the upstream cannot be reached"
        let stateHash ← ask .newSecret
        let nonce ← ask .randomText
        let verifier ← ask .randomText
        match ← interactionCall g.id (.patch
            { federation := some (some ⟨upstreamAlias, encodeBase64Url stateHash, nonce, verifier,
                g.now + federationLegTtlSeconds, invitationId⟩) } g.now) with
        | .error _ => return invalidState
        | .ok _ => return .toUpstream upstreamAlias
where
  /-- A register invitation presented with the request. -/
  invitationId (g : Guarded) (invitation : Option String) :
      Handler (Except Response (Option String)) := do
    match invitation with
    | none => return .ok none
    | some token =>
      match ← ask (.openInvitation token g.now) with
      | .error fault => return .error (invitationRefused fault)
      | .ok row =>
        if row.kind ≠ .register then return .error (invitationRefused .invitationInvalid)
        else return .ok (some row.id)

def upstreamErrorCodes : List String :=
  ["access_denied", "login_required", "interaction_required", "consent_required",
    "invalid_request", "unauthorized_client", "unsupported_response_type", "invalid_scope",
    "server_error", "temporarily_unavailable"]

inductive Resolution where
  | user (profile : UserProfile)
  | link (candidateUid : String)
  | fail (fault : FederationFault)

/-- A linked identity whose object confirms it. -/
def resolveHolder (issuer subject : String) (claims : Resolved) (now : ℤ)
    (holder : IdentityHolder) : Handler (Option Resolution) := do
  if holder.status = some .creating then
    return some (.fail ⟨"identity_already_linked", "the account could not be created",
      "identity_already_linked"⟩)
  match ← userCall holder.userId (.touchIdentity issuer subject
      ⟨claims.email, claims.emailVerified, claims.name⟩ now) with
  | .flag (.ok true) =>
    match ← userCall holder.userId .getProfile with
    | .profile (.ok profile) => return some (.user profile)
    | _ =>
      let _ ← ask (.releaseIdentity issuer subject)
      return none
  | _ =>
    let _ ← ask (.releaseIdentity issuer subject)
    return none

/-- The owner of a verified email, by the linking policy. -/
def resolveOwner (claims : Resolved) (settings : Settings) : Handler (Option Resolution) := do
  match claims.email.filter (fun _ => claims.emailVerified) with
  | none => return none
  | some email =>
    match ← ask (.findVerifiedUser email) with
    | none => return none
    | some owner =>
      if settings.linkByVerifiedEmail = .never then
        return some (.fail
          ⟨"account_exists", "an account with this email exists", "account_exists"⟩)
      else return some (.link owner.id)

def legInvitation (leg : FederationLeg) (now : ℤ) :
    Handler (Except FederationFault (Option InvitationRow)) := do
  match leg.invitationId with
  | none => return .ok none
  | some id =>
    match (← ask (.getInvitation id)).filter
        (fun i => i.usedAt.isNone && !decide (i.expiresAt ≤ now)) with
    | none =>
      return .error ⟨"invitation_invalid", "invitation not accepted", "invitation_invalid"⟩
    | some invitation => return .ok (some invitation)

/-- A first login: the policy or an invitation allows an account, registration is not closed. -/
def resolveCreation (upstream : Upstream) (leg : FederationLeg) (claims : Resolved)
    (settings : Settings) (now : ℤ) : Handler Resolution := do
  match ← legInvitation leg now with
  | .error fault => return .fail fault
  | .ok invitation =>
    if !(settings.autoCreate || invitation.isSome) || settings.registrationMode = .closed then
      return .fail ⟨"registration_closed", "registration is closed", "registration_closed"⟩
    let id ← ask .newUuid
    let taken ← takeLegInvitation invitation id
    if !taken then
      return .fail ⟨"invitation_used", "invitation not accepted", "invitation_used"⟩
    let identityId ← ask .newUuid
    let named := invitation.filter (·.email.isSome)
    match ← createUser
        { id := id
          email := (named.map (·.email)).getD claims.email
          emailVerified := (named.map (·.emailVerified)).getD claims.emailVerified
          displayName := (invitation.bind (·.displayName)).or claims.name
          groups := (invitation.map (·.groups)).getD []
          identities := [⟨identityId, upstream.issuer, claims.sub, claims.email,
            some claims.emailVerified, claims.name⟩] } now with
    | .error e => return .fail ⟨e.text, "the account could not be created", e.text⟩
    | .ok profile => return .user profile
where
  takeLegInvitation (invitation : Option InvitationRow) (uid : String) : Handler Bool := do
    match invitation with
    | none => return true
    | some row => ask (.consumeInvitation row.id uid now)

def resolveAccount (upstream : Upstream) (leg : FederationLeg) (claims : Resolved)
    (settings : Settings) : Handler Resolution := do
  let now ← ask .now
  let held ← linked now
  match held with
  | some resolution => return resolution
  | none =>
    match ← resolveOwner claims settings with
    | some resolution => return resolution
    | none => resolveCreation upstream leg claims settings now
where
  linked (now : ℤ) : Handler (Option Resolution) := do
    match ← ask (.lookupIdentity upstream.issuer claims.sub) with
    | none => return none
    | some holder => resolveHolder upstream.issuer claims.sub claims now holder

/-- Fails the interaction and sends the browser to the login app. -/
def failInteraction (id : String) (now : ℤ) (error description : String) : Handler Response := do
  let _ ← interactionCall id (.apply .fail .failed (errorPatch error description) now)
  return .toInteraction id

def federatedAuthMethod (upstream : Upstream) : AuthMethod where
  amr := ["fed"]
  acr := "urn:tinyoidc:acr:federated"
  upstream := some upstream.upstreamAlias

/-- The account decides: link it, fail, or authenticate. -/
def federationResolved (g : Guarded) (upstream : Upstream) (leg : FederationLeg)
    (claims : Resolved) : Handler Response := do
  match ← interactionClient g.doc with
  | none => failInteraction g.id g.now "temporarily_unavailable" "client unavailable"
  | some client =>
    match ← resolveAccount upstream leg claims g.settings with
    | .fail fault => failInteraction g.id g.now fault.error fault.description
    | .link candidateUid =>
      match ← interactionCall g.id (.apply .authenticate .linkRequired
          { link := some (some ⟨candidateUid, upstream.upstreamAlias, claims.sub,
              claims.email.getD "", claims.name, claims.emailVerified⟩) } g.now) with
      | .error _ => return .toLoginApp "interaction_invalid_state" none
      | .ok _ => return .toInteraction g.id
    | .user profile =>
      match ← authenticateInteraction g client profile (federatedAuthMethod upstream)
          .authenticate with
      | .step .ready _ => return .toComplete g.id
      | _ => return .toInteraction g.id

/-- The upstream's answer: its error, or a code exchanged for validated claims. -/
def federationAnswer (g : Guarded) (leg : FederationLeg) (error code : Option String) :
    Handler Response := do
  match error, code.filter (fun c => 0 < c.length) with
  | some e, _ =>
    failInteraction g.id g.now "upstream_error"
      (if upstreamErrorCodes.contains e then e else "upstream_error")
  | none, none => failInteraction g.id g.now "upstream_error" "invalid_request"
  | none, some code =>
    match ← ask (.upstream leg.upstreamAlias) with
    | none => failInteraction g.id g.now "upstream_error" "temporarily_unavailable"
    | some none => failInteraction g.id g.now "upstream_error" "upstream_not_found"
    | some (some upstream) =>
      if !upstream.enabled then
        failInteraction g.id g.now "upstream_error" "upstream_not_found"
      else if !(← ask (.upstreamMetadata leg.upstreamAlias)) then
        failInteraction g.id g.now "upstream_error" "temporarily_unavailable"
      else
        match ← ask (.upstreamClaims leg.upstreamAlias code leg) with
        | .error fault => failInteraction g.id g.now fault.error fault.description
        | .ok claims => federationResolved g upstream leg claims

def federationCallbackHandler (malformed : Bool) (state : Option FederationRef)
    (binding : Option BindingRef) (error code : Option String) : Handler Response := do
  if ← ask (.limited "ip_navigation") then return rateLimited
  match ← ask .settings with
  | none => return settingsUnavailable
  | some settings =>
    if settings.loginUrl.isNone then return notConfigured
    if malformed then return .error 400 "invalid_request" "invalid parameters"
    match state with
    | none => return .toLoginApp "invalid_state" none
    | some opened =>
      match binding.filter (fun b => b.interactionId == opened.interactionId) with
      | none => return .toLoginApp "interaction_binding_failed" none
      | some binding =>
        let now ← ask .now
        match ← interactionCall opened.interactionId
            (.consumeFederation (encodeBase64Url opened.secretHash) now) with
        | .error _ => return .toLoginApp "invalid_state" none
        | .ok (doc, leg) =>
          if doc.bindingHash ≠ encodeBase64Url binding.secretHash then
            return .toLoginApp "interaction_binding_failed" none
          federationAnswer ⟨opened.interactionId, doc, settings, now⟩ leg error code

end TinyOidc.Interaction
