import TinyOidc.Account.Profiles
import TinyOidc.Admin.Pagination
import TinyOidc.Audit.Events
import TinyOidc.Client.Records
import TinyOidc.Federation.Upstreams
import Mathlib.Data.String.Basic

/-! The keyset listings of the Admin API: users, clients and upstreams oldest first, the hot audit
table newest first (`src/admin/users.ts`, `clients.ts`, `upstreams.ts`, `audit-log.ts`, and the
queries of `src/db/`). Queries start where their schemas have parsed them. -/
namespace TinyOidc.Admin
open RowTable Paging
open TinyOidc.User (Bytes)
open TinyOidc.Account (Directory RegistryUser MemberRow normalizeEmail)
open TinyOidc.Interaction (UserStatus)
open TinyOidc.Client (ClientRecord GrantType Scope PublicJwk TokenEndpointAuthMethod)
open TinyOidc.Audit (Outcome AuditEvent)
open TinyOidc.Federation (Upstream UpstreamAuthMethod Discovery PublicUpstream publicUpstream)

/-- The order of `(created_at, id)`. -/
def ascending (keyset : Keyset) : ℤ ×ₗ String := toLex (keyset.createdAt, keyset.id)

/-- `/^\d{1,12}$/`. -/
def isTimestamp (text : String) : Bool :=
  1 ≤ text.toList.length && text.toList.length ≤ 12 && text.toList.all Char.isDigit

def timestampOf (text : String) : ℤ := Nat.ofDigitChars 10 text.toList 0

/-- A bound of a query: absent, a timestamp, or what is refused. -/
def bound : Option String → Except Unit (Option ℤ)
  | none => .ok none
  | some raw => if isTimestamp raw then .ok (some (timestampOf raw)) else .error ()

/-! ### Users -/

structure UserListQuery where
  limit : Option String
  cursor : Option String
  email : Option String
  status : Option UserStatus
  group : Option String
  createdAfter : Option String
  createdBefore : Option String
  deriving DecidableEq, Repr

structure UserFilters where
  emailNorm : Option String
  status : Option UserStatus
  groupId : Option String
  createdAfter : Option ℤ
  createdBefore : Option ℤ
  deriving DecidableEq, Repr

/-- The conditions on the columns of `users`. -/
def UserFilters.admits (filters : UserFilters) (u : RegistryUser) : Bool :=
  filters.emailNorm.all (fun email => u.emailNorm == some email && u.emailVerified) &&
  (match filters.status with
    | some status => u.status == status
    | none => u.status != .creating) &&
  filters.createdAfter.all (fun time => time ≤ u.createdAt) &&
  filters.createdBefore.all (fun time => u.createdAt ≤ time)

/-- The rows under the filters; with a group, of the join with its members. -/
def filteredUsers (d : Directory) (filters : UserFilters) : List RegistryUser :=
  match filters.groupId with
  | none => d.users.rows.filter filters.admits
  | some groupId => d.users.rows.flatMap fun u =>
      (d.members.rows.filter fun m =>
        m.userId = u.id && (m.groupId = groupId && filters.admits u)).map fun _ => u

def userKeyset (u : RegistryUser) : Keyset := ⟨u.createdAt, u.id⟩

def listUsers (d : Directory) (filters : UserFilters) (after : Option Keyset) (limit : ℕ) :
    List RegistryUser :=
  fetch (ascending ∘ userKeyset) (filteredUsers d filters) (after.map ascending) limit

/-- The registry row as the API shows it (no normalized email). -/
structure PublicUser where
  id : String
  email : Option String
  emailVerified : Bool
  displayName : Option String
  status : UserStatus
  createdAt : ℤ
  updatedAt : ℤ
  deriving DecidableEq, Repr

def publicUser (u : RegistryUser) : PublicUser where
  id := u.id
  email := u.email
  emailVerified := u.emailVerified
  displayName := u.displayName
  status := u.status
  createdAt := u.createdAt
  updatedAt := u.updatedAt

def usersListing : String := "users"

/-- `GET /admin/users`; without a directory the database throws. -/
def listUsersHandler (runtime : Runtime) (keys : CursorKeys) (now : ℤ)
    (directory : Option Directory) (query : UserListQuery) : ListResponse PublicUser :=
  paging runtime keys usersListing query.limit query.cursor now fun limit after =>
    match bound query.createdAfter with
    | .error () => badRequest "created_after must be a timestamp"
    | .ok createdAfter =>
      match bound query.createdBefore with
      | .error () => badRequest "created_before must be a timestamp"
      | .ok createdBefore =>
        match directory with
        | none => unavailable "user directory unavailable"
        | some d =>
          let filters (groupId : Option String) : UserFilters :=
            ⟨query.email.map normalizeEmail, query.status, groupId, createdAfter, createdBefore⟩
          let listed (groupId : Option String) : ListResponse PublicUser :=
            .listed (page ((listUsers d (filters groupId) after (limit + 1)).map publicUser) limit
              (fun row => ⟨row.createdAt, row.id⟩)
              fun keyset => sealCursor runtime keys usersListing keyset now)
          match query.group with
          | none => listed none
          | some name =>
            -- an unknown group has no members
            match d.groups.rows.find? (·.name.text == name) with
            | none => .listed ⟨[], none⟩
            | some group => listed (some group.id)

/-! ### Clients -/

/-- `parseJson` with the schemas of the columns that hold JSON. -/
structure ColumnSchemas where
  strings : String → Option (List String)
  grants : String → Option (List GrantType)
  scopes : String → Option (List Scope)
  jwks : String → Option (List PublicJwk)
  discovery : String → Option Discovery
  claimsMap : String → Bool
  scalars : String → Bool
  stringMap : String → Bool

structure RawClientRow where
  clientId : String
  clientName : String
  clientUri : Option String
  logoUri : Option String
  redirectUris : String
  postLogoutRedirectUris : String
  backchannelLogoutUri : Option String
  grantTypes : String
  tokenEndpointAuthMethod : TokenEndpointAuthMethod
  clientSecretHash : Option Bytes
  jwks : Option String
  jwksUri : Option String
  scopesAllowed : String
  audiences : String
  allowedGroups : Option String
  skipConsent : ℤ
  requirePar : ℤ
  requirePkce : ℤ
  offlineAccess : ℤ
  accessTokenTtl : Option ℤ
  idTokenTtl : Option ℤ
  refreshTokenTtl : Option ℤ
  refreshIdleTtl : Option ℤ
  disabledAt : Option ℤ
  createdAt : ℤ
  updatedAt : ℤ
  deriving DecidableEq, Repr

def nullable {α : Type} (parse : String → Option α) : Option String → Option (Option α)
  | none => some none
  | some text => (parse text).map some

/-- `none` when a JSON column is corrupt, which is treated as absent. -/
def decodeClientRow (schemas : ColumnSchemas) (raw : RawClientRow) : Option ClientRecord := do
  let redirectUris ← schemas.strings raw.redirectUris
  let postLogoutRedirectUris ← schemas.strings raw.postLogoutRedirectUris
  let grantTypes ← schemas.grants raw.grantTypes
  let scopesAllowed ← schemas.scopes raw.scopesAllowed
  let audiences ← schemas.strings raw.audiences
  let allowedGroups ← nullable schemas.strings raw.allowedGroups
  let jwks ← nullable schemas.jwks raw.jwks
  return {
    clientId := raw.clientId
    clientName := raw.clientName
    clientUri := raw.clientUri
    logoUri := raw.logoUri
    redirectUris := redirectUris
    postLogoutRedirectUris := postLogoutRedirectUris
    backchannelLogoutUri := raw.backchannelLogoutUri
    grantTypes := grantTypes
    tokenEndpointAuthMethod := raw.tokenEndpointAuthMethod
    clientSecretHash := raw.clientSecretHash
    jwks := jwks
    jwksUri := raw.jwksUri
    scopesAllowed := scopesAllowed
    audiences := audiences
    allowedGroups := allowedGroups
    skipConsent := raw.skipConsent == 1
    requirePar := raw.requirePar == 1
    requirePkce := raw.requirePkce == 1
    offlineAccess := raw.offlineAccess == 1
    accessTokenTtl := raw.accessTokenTtl
    idTokenTtl := raw.idTokenTtl
    refreshTokenTtl := raw.refreshTokenTtl
    refreshIdleTtl := raw.refreshIdleTtl
    disabledAt := raw.disabledAt
    createdAt := raw.createdAt
    updatedAt := raw.updatedAt }

/-- A row that no longer decodes still counts for paging. -/
structure Listed (α : Type) where
  keyset : Keyset
  record : Option α

abbrev ClientRows := Table RawClientRow RawClientRow.clientId

def clientKeyset (raw : RawClientRow) : Keyset := ⟨raw.createdAt, raw.clientId⟩

def listClientsPage (schemas : ColumnSchemas) (t : ClientRows) (after : Option Keyset)
    (limit : ℕ) : List (Listed ClientRecord) :=
  (fetch (ascending ∘ clientKeyset) t.rows (after.map ascending) limit).map fun raw =>
    ⟨clientKeyset raw, decodeClientRow schemas raw⟩

def publicClient (client : ClientRecord) : ClientRecord := { client with clientSecretHash := none }

structure ListQuery where
  limit : Option String
  cursor : Option String
  deriving DecidableEq, Repr

/-- The items of a page whose rows decode, and its cursor. -/
def shownPage {α β : Type} (shown : α → β) (listed : Page (Listed α) String) : ListResponse β :=
  .listed ⟨listed.items.flatMap fun row => (row.record.map shown).toList, listed.next⟩

def clientsListing : String := "clients"

/-- `GET /admin/clients`. -/
def listClientsHandler (runtime : Runtime) (keys : CursorKeys) (now : ℤ)
    (schemas : ColumnSchemas) (stored : Option ClientRows) (query : ListQuery) :
    ListResponse ClientRecord :=
  paging runtime keys clientsListing query.limit query.cursor now fun limit after =>
    match stored with
    | none => unavailable "client directory unavailable"
    | some t => shownPage publicClient
        (page (listClientsPage schemas t after (limit + 1)) limit Listed.keyset fun keyset =>
          sealCursor runtime keys clientsListing keyset now)

/-! ### Upstreams -/

structure RawUpstreamRow where
  recordAlias : String
  issuer : String
  displayName : String
  clientId : String
  tokenEndpointAuthMethod : UpstreamAuthMethod
  clientSecretEnc : Option Bytes
  clientJwkEnc : Option Bytes
  scopes : String
  discovery : String
  useUserinfo : ℤ
  claimsMap : String
  requiredClaims : String
  extraAuthorizeParams : String
  enabled : ℤ
  createdAt : ℤ
  updatedAt : ℤ
  deriving DecidableEq, Repr

def decodeUpstreamRow (schemas : ColumnSchemas) (raw : RawUpstreamRow) : Option Upstream := do
  let discovery ← schemas.discovery raw.discovery
  if !schemas.claimsMap raw.claimsMap || !schemas.scalars raw.requiredClaims ||
      !schemas.stringMap raw.extraAuthorizeParams then none
  else return {
    recordAlias := raw.recordAlias
    issuer := raw.issuer
    displayName := raw.displayName
    clientId := raw.clientId
    tokenEndpointAuthMethod := raw.tokenEndpointAuthMethod
    clientSecretEnc := raw.clientSecretEnc
    clientJwkEnc := raw.clientJwkEnc
    scopes := raw.scopes
    discovery := discovery
    useUserinfo := raw.useUserinfo == 1
    enabled := raw.enabled == 1
    createdAt := raw.createdAt
    updatedAt := raw.updatedAt }

abbrev UpstreamRows := Table RawUpstreamRow RawUpstreamRow.recordAlias

def upstreamKeyset (raw : RawUpstreamRow) : Keyset := ⟨raw.createdAt, raw.recordAlias⟩

def listUpstreamsPage (schemas : ColumnSchemas) (t : UpstreamRows) (after : Option Keyset)
    (limit : ℕ) : List (Listed Upstream) :=
  (fetch (ascending ∘ upstreamKeyset) t.rows (after.map ascending) limit).map fun raw =>
    ⟨upstreamKeyset raw, decodeUpstreamRow schemas raw⟩

def upstreamsListing : String := "upstreams"

/-- `GET /admin/upstreams`. -/
def listUpstreamsHandler (runtime : Runtime) (keys : CursorKeys) (now : ℤ) (issuerUrl : String)
    (schemas : ColumnSchemas) (stored : Option UpstreamRows) (query : ListQuery) :
    ListResponse PublicUpstream :=
  paging runtime keys upstreamsListing query.limit query.cursor now fun limit after =>
    match stored with
    | none => unavailable "upstream directory unavailable"
    | some t => shownPage (publicUpstream · issuerUrl)
        (page (listUpstreamsPage schemas t after (limit + 1)) limit Listed.keyset fun keyset =>
          sealCursor runtime keys upstreamsListing keyset now)

/-! ### The hot audit table -/

structure AuditRow where
  id : String
  ts : ℤ
  type : String
  outcome : Outcome
  actorKind : String
  actorId : Option String
  userId : Option String
  clientId : Option String
  upstream : Option String
  ipHash : Option String
  data : String
  sid : Option String
  interactionId : Option String
  country : Option String
  uaFamily : Option String
  requestId : String
  reason : Option String
  deriving DecidableEq, Repr

/-- A row back as the event; what of `data` is unreadable becomes an empty object. -/
def rowToEvent {δ : Type} (dataOf : String → δ) (row : AuditRow) : AuditEvent δ where
  id := row.id
  type := row.type
  ts := row.ts
  outcome := row.outcome
  actorKind := row.actorKind
  actorId := row.actorId
  userId := row.userId
  clientId := row.clientId
  upstream := row.upstream
  sid := row.sid
  interactionId := row.interactionId
  ipHash := row.ipHash
  country := row.country
  uaFamily := row.uaFamily
  requestId := row.requestId
  reason := row.reason
  data := dataOf row.data

structure AuditFilters where
  type : Option String
  userId : Option String
  clientId : Option String
  actorId : Option String
  outcome : Option Outcome
  since : Option ℤ
  until_ : Option ℤ
  deriving DecidableEq, Repr

def AuditFilters.admits (filters : AuditFilters) (row : AuditRow) : Bool :=
  filters.type.all (fun type => row.type == type) &&
  filters.userId.all (fun id => row.userId == some id) &&
  filters.clientId.all (fun id => row.clientId == some id) &&
  filters.actorId.all (fun id => row.actorId == some id) &&
  filters.outcome.all (fun outcome => row.outcome == outcome) &&
  filters.since.all (fun time => time ≤ row.ts) &&
  filters.until_.all (fun time => row.ts ≤ time)

/-- `ts < ? OR (ts = ? AND id < ?)`. -/
def earlier (row : AuditRow) (after : Keyset) : Bool :=
  row.ts < after.createdAt || (row.ts == after.createdAt && row.id < after.id)

/-- `ORDER BY ts DESC, id DESC`. -/
def notEarlier (a b : AuditRow) : Bool := b.ts < a.ts || (b.ts == a.ts && b.id ≤ a.id)

abbrev AuditRows := Table AuditRow AuditRow.id

/-- The rows of `auditPageQuery`. -/
def auditPage (t : AuditRows) (filters : AuditFilters) (after : Option Keyset) (limit : ℕ) :
    List AuditRow :=
  ((t.rows.filter fun row => filters.admits row && after.all (earlier row)).insertionSort
    fun a b => notEarlier a b = true).take limit

structure AuditQuery where
  limit : Option String
  cursor : Option String
  type : Option String
  userId : Option String
  clientId : Option String
  actorId : Option String
  outcome : Option Outcome
  since : Option String
  until_ : Option String
  deriving DecidableEq, Repr

def auditListing : String := "audit"

/-- `GET /admin/audit`: the hot table under filters, newest first. -/
def listAuditHandler {δ : Type} (runtime : Runtime) (keys : CursorKeys) (now : ℤ)
    (dataOf : String → δ) (stored : Option AuditRows) (query : AuditQuery) :
    ListResponse (AuditEvent δ) :=
  paging runtime keys auditListing query.limit query.cursor now fun limit after =>
    match bound query.since with
    | .error () => badRequest "since must be a timestamp"
    | .ok since =>
      match bound query.until_ with
      | .error () => badRequest "until must be a timestamp"
      | .ok until_ =>
        match stored with
        | none => unavailable "audit storage unavailable"
        | some t =>
          let filters : AuditFilters := ⟨query.type, query.userId, query.clientId, query.actorId,
            query.outcome, since, until_⟩
          .listed (page ((auditPage t filters after (limit + 1)).map (rowToEvent dataOf)) limit
            (fun event => ⟨event.ts, event.id⟩)
            fun keyset => sealCursor runtime keys auditListing keyset now)

end TinyOidc.Admin
