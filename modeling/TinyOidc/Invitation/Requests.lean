import TinyOidc.Account.Profiles
import TinyOidc.Admin.Auth
import TinyOidc.Client.Records
import TinyOidc.Env.SettingsPatch

/-! Invitations (`src/db/invitations.ts`, `src/users/invitations.ts`, `src/admin/invitations.ts`)
and the bootstrap that makes the first one (`src/admin/bootstrap.ts`), as programs over the
statements on the `invitations` and `settings` tables. What the requests read elsewhere is asked:
a schedule gives the answers. -/
namespace TinyOidc.Invitation
open RowTable
open TinyOidc.Account (isValidEmail)
open TinyOidc.Util (trim)
open TinyOidc.Admin (adminsGroup)
open TinyOidc.Client (ClientInput ClientRecord InsertClientResult clientFromInput)
open TinyOidc.Env (SettingsTable Record Json knownSettings writeSettings)
open TinyOidc.Interaction (RegistrationKind)
open TinyOidc.User (Bytes)
open TinyOidc.Util (sortTexts uniqueTexts)
open Threads (Prog Delivery System)

/-! ### The tables -/

structure InvitationRow where
  id : String
  tokenHash : Bytes
  kind : RegistrationKind
  userId : Option String
  email : Option String
  emailVerified : Bool
  displayName : Option String
  groups : List String
  expiresAt : ℤ
  usedAt : Option ℤ
  usedByUserId : Option String
  createdBy : String
  createdAt : ℤ
  deriving DecidableEq

/-- What `consumeInvitation` asks of a row. -/
def InvitationRow.consumable (id : String) (now : ℤ) (row : InvitationRow) : Bool :=
  row.id == id && row.usedAt.isNone && decide (now < row.expiresAt)

structure InvitationStore where
  settings : SettingsTable
  invitations : Table InvitationRow InvitationRow.id
  tokenHashes : (invitations.rows.map InvitationRow.tokenHash).Nodup

def InvitationStore.empty : InvitationStore := ⟨.empty, .empty, List.nodup_nil⟩

namespace InvitationStore
variable (s : InvitationStore)

/-- `INSERT INTO invitations`: refused when the id or the token hash is taken. -/
def insertInvitation (row : InvitationRow) : Option InvitationStore :=
  match s.invitations.insert row with
  | none => none
  | some invitations =>
    if h : (invitations.rows.map InvitationRow.tokenHash).Nodup then
      some ⟨s.settings, invitations, h⟩
    else none

def getInvitation (id : String) : Option InvitationRow := s.invitations.find id

/-- `UPDATE invitations SET used_at … WHERE id = ? AND used_at IS NULL AND expires_at > ?`. -/
def consumeInvitation (id usedBy : String) (now : ℤ) : InvitationStore × Bool :=
  (⟨s.settings, s.invitations.updateWhere (InvitationRow.consumable id now)
      ({ · with usedAt := some now, usedByUserId := some usedBy }) fun _ => rfl, by
    have hmap : ∀ rows : List InvitationRow, (rows.map fun row =>
        if InvitationRow.consumable id now row then
          { row with usedAt := some now, usedByUserId := some usedBy } else row).map
        InvitationRow.tokenHash = rows.map InvitationRow.tokenHash := by
      intro rows
      rw [List.map_map]
      refine List.map_congr_left fun row _ => ?_
      simp only [Function.comp]
      split <;> rfl
    exact (hmap s.invitations.rows).symm ▸ s.tokenHashes⟩,
    s.invitations.rows.any (InvitationRow.consumable id now))

def keepInvitations (gone : InvitationRow → Bool) : InvitationStore :=
  ⟨s.settings, s.invitations.deleteWhere gone,
    s.tokenHashes.sublist (List.filter_sublist.map _)⟩

def deleteInvitation (id : String) : InvitationStore × Bool :=
  (s.keepInvitations (·.id == id), (s.invitations.find id).isSome)

/-- `DELETE … WHERE expires_at < ? OR used_at < ?`. -/
def deleteSpentInvitations (cutoff : ℤ) : InvitationStore :=
  s.keepInvitations fun row => row.expiresAt < cutoff || row.usedAt.any (· < cutoff)

/-- `INSERT INTO settings … ON CONFLICT(key) DO NOTHING`. -/
def claimSetting (key : String) (value : Json) (actor : String) (now : ℤ) :
    InvitationStore × Bool :=
  match s.settings.insert ⟨key, some value, now, actor⟩ with
  | none => (s, false)
  | some settings => ({ s with settings := settings }, true)

end InvitationStore

/-! ### Statements and questions -/

structure BootstrapSettings where
  bootstrappedAt : Option ℤ
  loginUrl : Option String
  deriving DecidableEq

inductive InvitationOp where
  | limited (bucket : String)
  | settings
  | now
  | newUuid
  | newSecret
  | getGroupByName (name : String)
  | insertGroup (id name : String) (system : Bool)
  | countMembers (groupId : String)
  | groupIdsByName
  | insertClient (client : ClientRecord)
  | cachedClient (clientId : String)
  | insertInvitation (row : InvitationRow)
  | getInvitation (id : String)
  | consumeInvitation (id usedBy : String) (now : ℤ)
  | deleteInvitation (id : String)
  | deleteSpentInvitations (cutoff : ℤ)
  | claimSetting (key : String) (value : Json) (actor : String) (now : ℤ)
  | writeSettings (entries : Record) (actor : String) (now : ℤ)
  deriving DecidableEq

/-- A statement that throws gives `none`; `newSecret` is the SHA-256 of a fresh secret. -/
@[reducible] def InvitationOp.Answer : InvitationOp → Type
  | .limited _ => Bool
  | .settings => Option BootstrapSettings
  | .now => ℤ
  | .newUuid => String
  | .newSecret => Bytes
  | .getGroupByName _ => Option (Option String)
  | .insertGroup _ _ _ => Option Unit
  | .countMembers _ => Option ℕ
  | .groupIdsByName => Option (List String)
  | .insertClient _ => Option InsertClientResult
  | .cachedClient _ => Option (Option ClientRecord)
  | .insertInvitation _ => Option Unit
  | .getInvitation _ => Option (Option InvitationRow)
  | .consumeInvitation _ _ _ => Option Bool
  | .deleteInvitation _ => Option Bool
  | .deleteSpentInvitations _ => Option Unit
  | .claimSetting _ _ _ _ => Option Bool
  | .writeSettings _ _ _ => Option Unit

structure InvitationOutside where
  limited : Bool
  settings : Option BootstrapSettings
  clock : ℤ
  uuid : String
  secret : Bytes
  group : Option (Option String)
  groupInserted : Option Unit
  members : Option ℕ
  groups : Option (List String)
  inserted : Option InsertClientResult
  client : Option (Option ClientRecord)
  delivery : Delivery

def execInvitation (s : InvitationStore) (outside : InvitationOutside) :
    (op : InvitationOp) → InvitationStore × op.Answer
  | .limited _ => (s, outside.limited)
  | .settings => (s, outside.settings)
  | .now => (s, outside.clock)
  | .newUuid => (s, outside.uuid)
  | .newSecret => (s, outside.secret)
  | .getGroupByName _ => (s, outside.group)
  | .insertGroup _ _ _ => (s, outside.groupInserted)
  | .countMembers _ => (s, outside.members)
  | .groupIdsByName => (s, outside.groups)
  | .insertClient _ => (s, outside.inserted)
  | .cachedClient _ => (s, outside.client)
  | .insertInvitation row =>
      match s.insertInvitation row with
      | none => (s, none)
      | some s' => outside.delivery.deliver s (s', ())
  | .getInvitation id => outside.delivery.deliver s (s, s.getInvitation id)
  | .consumeInvitation id usedBy now =>
      outside.delivery.deliver s (s.consumeInvitation id usedBy now)
  | .deleteInvitation id => outside.delivery.deliver s (s.deleteInvitation id)
  | .deleteSpentInvitations cutoff =>
      outside.delivery.deliver s (s.deleteSpentInvitations cutoff, ())
  | .claimSetting key value actor now =>
      outside.delivery.deliver s (s.claimSetting key value actor now)
  | .writeSettings entries actor now =>
      outside.delivery.deliver s
        ({ s with settings := Env.writeSettings s.settings entries actor now }, ())

abbrev InvitationProg := Prog InvitationOp InvitationOp.Answer

def onStore (op : InvitationOp) : InvitationProg op.Answer := .perform op

/-! ### Minting and opening -/

def invitationDefaultTtl : ℤ := 7 * 86400

def invitationMinTtl : ℤ := 3600

def invitationMaxTtl : ℤ := 90 * 86400

structure NewInvitation where
  kind : RegistrationKind
  userId : Option String
  email : Option String
  emailVerified : Bool
  displayName : Option String
  groups : List String
  expiresIn : Option ℤ
  createdBy : String

/-- What a `tio_iv` handle seals: the invitation, and the hash of the secret it carries. -/
structure InvitationRef where
  invitationId : String
  secretHash : Bytes
  deriving DecidableEq

inductive CreateInvitationResult where
  | ok (invitation : InvitationRow) (token : InvitationRef)
  | emailInvalid | expiresInOutOfBounds | userRequired
  /-- The statement threw. -/
  | thrown
  deriving DecidableEq

def invitationRow (input : NewInvitation) (id : String) (tokenHash : Bytes) (now : ℤ) :
    InvitationRow where
  id := id
  tokenHash := tokenHash
  kind := input.kind
  userId := if input.kind = .recover then input.userId else none
  email := input.email.map trim
  emailVerified := input.emailVerified
  displayName := input.displayName
  groups := sortTexts (uniqueTexts input.groups)
  expiresAt := now + input.expiresIn.getD invitationDefaultTtl
  usedAt := none
  usedByUserId := none
  createdBy := input.createdBy
  createdAt := now

def createInvitation (input : NewInvitation) : InvitationProg CreateInvitationResult := do
  let ttl := input.expiresIn.getD invitationDefaultTtl
  if (input.email.map trim).any (!isValidEmail ·) then return .emailInvalid
  else if ttl < invitationMinTtl || invitationMaxTtl < ttl then return .expiresInOutOfBounds
  else if input.kind = .recover && input.userId.isNone then return .userRequired
  else
    let now ← onStore .now
    let id ← onStore .newUuid
    let tokenHash ← onStore .newSecret
    match ← onStore (.insertInvitation (invitationRow input id tokenHash now)) with
    | none => return .thrown
    | some _ => return .ok (invitationRow input id tokenHash now) ⟨id, tokenHash⟩

inductive OpenInvitationResult where
  | ok (invitation : InvitationRow)
  | invitationInvalid | invitationExpired | invitationUsed
  | thrown
  deriving DecidableEq

/-- The live invitation behind a token, which may not be a handle of ours. -/
def openInvitation (token : Option InvitationRef) (now : ℤ) :
    InvitationProg OpenInvitationResult := do
  match token with
  | none => return .invitationInvalid
  | some ref =>
    match ← onStore (.getInvitation ref.invitationId) with
    | none => return .thrown
    | some none => return .invitationInvalid
    | some (some invitation) =>
      if invitation.tokenHash ≠ ref.secretHash then return .invitationInvalid
      else if invitation.usedAt.isSome then return .invitationUsed
      else if invitation.expiresAt ≤ now then return .invitationExpired
      else return .ok invitation

/-! ### Requests -/

inductive InvitationResponse where
  | error (status : ℕ) (code description : String)
  | bootstrapped (token : InvitationRef) (loginUrl : Option String) (expiresAt : ℤ)
      (client : ClientRecord)
  | created (invitation : InvitationRow) (token : InvitationRef)
  | opened (result : OpenInvitationResult)
  | noContent
  | thrown

/-- Makes sure the `admins` system group exists; `none` when a statement throws. -/
def ensureAdminsGroup : InvitationProg (Option String) := do
  match ← onStore (.getGroupByName adminsGroup) with
  | none => return none
  | some (some id) => return some id
  | some none =>
    let id ← onStore .newUuid
    match ← onStore (.insertGroup id adminsGroup true) with
    | none => return none
    | some _ => return (← onStore (.getGroupByName adminsGroup)).join

def adminCliClientId : String := "admin-cli"

/-- The public loopback client that may request every scope. -/
def adminCliInput : ClientInput where
  clientId := some adminCliClientId
  clientName := "Tiny OIDC admin CLI"
  clientUri := none
  logoUri := none
  redirectUris := ["http://127.0.0.1:0/callback"]
  postLogoutRedirectUris := ["http://127.0.0.1:0/loggedout"]
  backchannelLogoutUri := none
  grantTypes := [.authorizationCode, .refreshToken]
  tokenEndpointAuthMethod := .none
  jwks := none
  jwksUri := none
  scopesAllowed := [.openid, .profile, .email, .groups, .offlineAccess, .account, .admin]
  audiences := []
  allowedGroups := none
  skipConsent := true
  requirePar := false
  requirePkce := true
  offlineAccess := false
  accessTokenTtl := none
  idTokenTtl := none
  refreshTokenTtl := none
  refreshIdleTtl := none

/-- The input breaks no rule, so that its creation can only find the client there. -/
theorem adminCliInput_valid (urls : TinyOidc.Client.UrlRules) (issuer : String)
    (h : ∀ uri ∈ adminCliInput.redirectUris ++ adminCliInput.postLogoutRedirectUris,
      urls.registrableRedirectUri uri = true) :
    TinyOidc.Client.validateClientInput urls adminCliInput ⟨issuer, true, [adminsGroup]⟩ = [] := by
  have hcallback := h "http://127.0.0.1:0/callback" (by decide)
  have hloggedout := h "http://127.0.0.1:0/loggedout" (by decide)
  simp [TinyOidc.Client.validateClientInput, adminCliInput, TinyOidc.Client.violationIf,
    TinyOidc.Client.hasDuplicates, hcallback, hloggedout]

structure BootstrapBody where
  email : String
  displayName : Option String

structure BootstrapRequest where
  /-- The bearer token presented is the bootstrap secret. -/
  accepted : Bool
  body : Except String BootstrapBody
  doJurisdiction : String

def bootstrapCompleted : InvitationResponse :=
  .error 410 "bootstrap_completed" "bootstrap already completed"

def bootstrapInvitation (body : BootstrapBody) : NewInvitation where
  kind := .register
  userId := none
  email := some body.email
  emailVerified := true
  displayName := body.displayName
  groups := [adminsGroup]
  expiresIn := none
  createdBy := "bootstrap"

/-- The client of the administrators: inserted, or the one an earlier attempt left. -/
def adminCliClient (now : ℤ) : InvitationProg (Except InvitationResponse ClientRecord) := do
  let client := clientFromInput adminCliInput adminCliClientId none now
  match ← onStore (.insertClient client) with
  | none => return .error .thrown
  | some .created => return .ok client
  | some .clientExists =>
    match ← onStore (.cachedClient adminCliClientId) with
    | none => return .error .thrown
    | some none => return .error (.error 503 "temporarily_unavailable" "client unavailable")
    | some (some client) => return .ok client

/-- The claim decides between concurrent attempts: the loser withdraws its invitation. -/
def claimBootstrap (q : BootstrapRequest) (settings : BootstrapSettings) (client : ClientRecord)
    (invitation : InvitationRow) (token : InvitationRef) (now : ℤ) :
    InvitationProg InvitationResponse := do
  match ← onStore (.claimSetting "do_jurisdiction" (.string q.doJurisdiction) "bootstrap" now) with
  | none => return .thrown
  | some _ =>
    match ← onStore (.claimSetting "bootstrapped_at" (.int now) "bootstrap" now) with
    | none => return .thrown
    | some false =>
      match ← onStore (.deleteInvitation invitation.id) with
      | none => return .thrown
      | some _ => return bootstrapCompleted
    | some true =>
      return .bootstrapped token settings.loginUrl invitation.expiresAt client

def bootstrapHandler (q : BootstrapRequest) : InvitationProg InvitationResponse := do
  if !q.accepted then
    if ← onStore (.limited "ip_bootstrap") then
      return .error 429 "rate_limited" "too many requests"
    else return .error 401 "unauthorized" "bootstrap token not accepted"
  else
    match ← onStore .settings with
    | none => return .error 503 "temporarily_unavailable" "settings unavailable"
    | some settings =>
      if settings.bootstrappedAt.isSome then return bootstrapCompleted
      else
        match ← ensureAdminsGroup with
        | none => return .thrown
        | some admins =>
          match ← onStore (.countMembers admins) with
          | none => return .thrown
          | some members =>
            if 0 < members then return bootstrapCompleted
            else
              match q.body with
              | .error description => return .error 400 "invalid_request" description
              | .ok body =>
                let now ← onStore .now
                match ← adminCliClient now with
                | .error response => return response
                | .ok client =>
                  match ← createInvitation (bootstrapInvitation body) with
                  | .ok invitation token =>
                    claimBootstrap q settings client invitation token now
                  | .thrown => return .thrown
                  | _ => return .error 400 "email_invalid" "email is not valid"

/-- What the Admin API makes of the body of a new invitation. -/
structure InvitationBody where
  email : Option String
  emailVerified : Bool
  displayName : Option String
  groups : List String
  expiresIn : Option ℤ

def storageUnavailable : InvitationResponse :=
  .error 503 "temporarily_unavailable" "invitation storage unavailable"

/-- `created` of an Admin API handler. -/
def createdResponse : CreateInvitationResult → InvitationResponse
  | .ok invitation token => .created invitation token
  | .emailInvalid => .error 400 "email_invalid" "email is not valid"
  | .expiresInOutOfBounds | .userRequired =>
      .error 400 "expires_in_out_of_bounds" "expires_in is out of bounds"
  | .thrown => storageUnavailable

def adminInvitation (body : InvitationBody) (actor : String) : NewInvitation where
  kind := .register
  userId := none
  email := body.email
  emailVerified := body.emailVerified
  displayName := body.displayName
  groups := uniqueTexts body.groups
  expiresIn := body.expiresIn
  createdBy := actor

def createInvitationHandler (body : InvitationBody) (actor : String) :
    InvitationProg InvitationResponse := do
  match ← onStore .settings with
  | none => return storageUnavailable
  | some _ =>
    if body.groups.isEmpty then
      return createdResponse (← createInvitation (adminInvitation body actor))
    else
      match ← onStore .groupIdsByName with
      | none => return storageUnavailable
      | some known =>
        if body.groups.any (!known.contains ·) then
          return .error 400 "group_unknown" "a group does not exist"
        else return createdResponse (← createInvitation (adminInvitation body actor))

/-- The invitation that lets an active user recover the account. -/
def recoverInvitation (userId : String) (expiresIn : Option ℤ) (actor : String) :
    NewInvitation where
  kind := .recover
  userId := some userId
  email := none
  emailVerified := false
  displayName := none
  groups := []
  expiresIn := expiresIn
  createdBy := actor

/-- `POST …/users/{id}/recover` once the user is found to be active, and a line of an import. -/
def createRecoverInvitation (userId : String) (expiresIn : Option ℤ) (actor : String) :
    InvitationProg InvitationResponse := do
  return createdResponse (← createInvitation (recoverInvitation userId expiresIn actor))

def invitationNotFound : InvitationResponse :=
  .error 404 "invitation_not_found" "invitation not found"

def deleteInvitationHandler (id : String) : InvitationProg InvitationResponse := do
  match ← onStore (.getInvitation id) with
  | none => return storageUnavailable
  | some none => return invitationNotFound
  | some (some row) =>
    match ← onStore (.deleteInvitation row.id) with
    | none => return storageUnavailable
    | some false => return invitationNotFound
    | some true => return .noContent

inductive InvitationRequest where
  | bootstrap (q : BootstrapRequest)
  | create (body : InvitationBody) (actor : String)
  | recover (userId : String) (expiresIn : Option ℤ) (actor : String)
  | delete (id : String)
  /-- The check of a presented token by `register/options` and the upstream leg. -/
  | open (token : Option InvitationRef) (now : ℤ)

def InvitationRequest.run : InvitationRequest → InvitationProg InvitationResponse
  | .bootstrap q => bootstrapHandler q
  | .create body actor => createInvitationHandler body actor
  | .recover userId expiresIn actor => createRecoverInvitation userId expiresIn actor
  | .delete id => deleteInvitationHandler id
  | .open token now => do return .opened (← openInvitation token now)

/-- Beside the requests, registrations consume invitations, the cron purges spent ones, and the
Admin API writes the settings that are not read-only. -/
def invitations : System InvitationRequest InvitationOutside InvitationStore InvitationOp.Answer
    InvitationResponse where
  start := InvitationRequest.run
  exec := execInvitation
  isOutside op :=
    match op with
    | .consumeInvitation _ _ _ | .deleteSpentInvitations _ => true
    | .writeSettings entries _ _ => entries.all fun e => !Env.readOnlySettings.contains e.1
    | _ => false

end TinyOidc.Invitation
