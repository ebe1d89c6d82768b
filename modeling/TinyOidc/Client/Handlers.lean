import TinyOidc.Client.Records
import TinyOidc.Lib.Threads

/-! The Admin API of clients (`src/admin/clients.ts`, `createClient` and `updateClientRecord` of
`src/oidc/clients.ts`) as programs over the statements on the `clients` table. Requests
interleave one statement at a time; the schema and the URL rules are parameters. -/
namespace TinyOidc.Client
open RowTable TinyOidc.User Threads

structure GeneratedSecret where
  secret : String
  hash : Bytes
  deriving DecidableEq, Repr

inductive ClientOp where
  | getClient (clientId : String)
  | groupNames
  | now
  | generateClientId
  | generateClientSecret
  | insertClient (client : ClientRecord)
  | setClientDisabled (clientId : String) (disabledAt : Option ℤ) (now : ℤ)
  | updateClientSecretHash (clientId : String) (hash : Bytes) (now : ℤ)
  | deleteClient (clientId : String)
  | updateClient (client : ClientRecord) (now : ℤ)
  deriving DecidableEq

abbrev ClientOp.Answer : ClientOp → Type
  | .getClient _ => Option (Option ClientRecord)
  | .groupNames => Option (List String)
  | .now => ℤ
  | .generateClientId => String
  | .generateClientSecret => GeneratedSecret
  | .insertClient _ => Option InsertClientResult
  | .setClientDisabled _ _ _ => Option Bool
  | .updateClientSecretHash _ _ _ => Option Bool
  | .deleteClient _ => Option Bool
  | .updateClient _ _ => Option Bool

/-- A statement that throws may have been applied. -/
inductive Storage where
  | answers
  | throws (applied : Bool)
  deriving DecidableEq

structure Outside where
  groups : List String
  clock : ℤ
  clientId : String
  secret : GeneratedSecret
  storage : Storage

def stored {α : Type} (t : ClientTable) (storage : Storage) (result : ClientTable × α) :
    ClientTable × Option α :=
  match storage with
  | .answers => (result.1, some result.2)
  | .throws applied => (if applied then result.1 else t, none)

def execClientOp (t : ClientTable) (outside : Outside) :
    (op : ClientOp) → ClientTable × op.Answer
  | .getClient clientId => stored t outside.storage (t, getClient t clientId)
  | .groupNames => stored t outside.storage (t, outside.groups)
  | .now => (t, outside.clock)
  | .generateClientId => (t, outside.clientId)
  | .generateClientSecret => (t, outside.secret)
  | .insertClient client => stored t outside.storage (insertClient t client)
  | .setClientDisabled clientId disabledAt now =>
      stored t outside.storage (setClientDisabled t clientId disabledAt now)
  | .updateClientSecretHash clientId hash now =>
      stored t outside.storage (updateClientSecretHash t clientId hash now)
  | .deleteClient clientId => stored t outside.storage (deleteClient t clientId)
  | .updateClient client now => stored t outside.storage (updateClient t client now)

abbrev ClientProg := Prog ClientOp ClientOp.Answer

def perform (op : ClientOp) : ClientProg op.Answer := Prog.perform op

inductive ClientResponse where
  | error (status : ℕ) (code description : String)
  | client (status : ℕ) (record : ClientRecord) (secret : Option String)
  | rotated (clientId secret : String) (rotatedAt : ℤ)
  | noContent
  deriving DecidableEq

def notFound : ClientResponse := .error 404 "client_not_found" "client not found"

def unavailable : ClientResponse :=
  .error 503 "temporarily_unavailable" "client directory unavailable"

def isClientIdChar (c : Char) : Bool := c.isLower || c.isDigit

/-- `CLIENT_ID_PATTERN`. -/
def isClientId (id : String) : Bool :=
  match id.toList with
  | [] => false
  | first :: rest =>
      isClientIdChar first && 2 ≤ rest.length && rest.length ≤ 63 &&
        rest.all (fun c => isClientIdChar c || c == '.' || c == '_' || c == '-')

/-- What a body is checked with: the schema, alone or over a stored input, and the URL rules. -/
structure BodyRules (β : Type) where
  isObject : β → Bool
  namesClientId : β → Bool
  parse : Option ClientInput → β → Except (List String) ClientInput
  urls : UrlRules

structure Actor where
  issuer : String
  hasAdmin : Bool

section Handlers
variable {β : Type} (rules : BodyRules β)

def validationContext (actor : Actor) : ClientProg (Option ValidationContext) := do
  match ← perform .groupNames with
  | none => return none
  | some groups => return some ⟨actor.issuer, actor.hasAdmin, groups⟩

def loadClient (id : String) : ClientProg (Except ClientResponse ClientRecord) := do
  if isClientId id then
    match ← perform (.getClient id) with
    | none => return .error unavailable
    | some none => return .error notFound
    | some (some client) => return .ok client
  else return .error notFound

inductive CreateClientResult where
  | ok (client : ClientRecord) (secret : Option String)
  | invalidClient (violations : List String)
  | clientExists
  | threw

def insertRecord (input : ClientInput) (clientId : String) (generated : Option GeneratedSecret)
    (now : ℤ) : ClientProg CreateClientResult := do
  let client := clientFromInput input clientId (generated.map (·.hash)) now
  match ← perform (.insertClient client) with
  | none => return .threw
  | some .clientExists => return .clientExists
  | some .created => return .ok client (generated.map (·.secret))

/-- A secret is drawn for a method that uses one, right before the insertion. -/
def createClient (raw : β) (context : ValidationContext) (now : ℤ) :
    ClientProg CreateClientResult := do
  match rules.parse none raw with
  | .error issues => return .invalidClient issues
  | .ok input =>
      let violations := validateClientInput rules.urls input context
      if violations.isEmpty then
        let clientId ← match input.clientId with
          | some clientId => pure clientId
          | none => perform .generateClientId
        if usesSecret input.tokenEndpointAuthMethod then
          let generated ← perform .generateClientSecret
          insertRecord input clientId (some generated) now
        else insertRecord input clientId none now
      else return .invalidClient violations

inductive UpdateClientResult where
  | ok (client : ClientRecord) (secret : Option String)
  | invalidClient (violations : List String)
  | clientNotFound
  | threw

def updatedRecord (current : ClientRecord) (merged : ClientInput) (secretHash : Option Bytes)
    (now : ℤ) : ClientRecord :=
  { clientFromInput merged current.clientId secretHash current.createdAt with
    disabledAt := current.disabledAt, updatedAt := now }

def writeRecord (client : ClientRecord) (secret : Option String) (now : ℤ) :
    ClientProg UpdateClientResult := do
  match ← perform (.updateClient client now) with
  | none => return .threw
  | some false => return .clientNotFound
  | some true => return .ok client secret

/-- The secret hash of a patched record: the loaded one, none, or that of a drawn secret. -/
def updateClientRecord (current : ClientRecord) (raw : β) (context : ValidationContext) (now : ℤ) :
    ClientProg UpdateClientResult := do
  if !rules.isObject raw then return .invalidClient ["$: expected an object"]
  else if rules.namesClientId raw then return .invalidClient ["client_id: cannot be changed"]
  else
    match rules.parse (some (inputOf current)) raw with
    | .error issues => return .invalidClient issues
    | .ok merged =>
        let violations := validateClientInput rules.urls merged context
        if violations.isEmpty then
          if usesSecret merged.tokenEndpointAuthMethod then
            match current.clientSecretHash with
            | some hash => writeRecord (updatedRecord current merged (some hash) now) none now
            | none =>
                let generated ← perform .generateClientSecret
                writeRecord (updatedRecord current merged (some generated.hash) now)
                  (some generated.secret) now
          else writeRecord (updatedRecord current merged none now) none now
        else return .invalidClient violations

def invalidClient (violations : List String) : ClientResponse :=
  .error 400 "invalid_client" (String.intercalate "; " violations)

def createClientHandler (actor : Actor) (body : Except String β) : ClientProg ClientResponse := do
  match body with
  | .error text => return .error 400 "invalid_request" text
  | .ok raw =>
      match ← validationContext actor with
      | none => return unavailable
      | some context =>
          let now ← perform .now
          match ← createClient rules raw context now with
          | .threw => return unavailable
          | .clientExists => return .error 409 "client_exists" "a client with this id exists"
          | .invalidClient violations => return invalidClient violations
          | .ok client secret => return .client 201 client secret

def getClientHandler (id : String) : ClientProg ClientResponse := do
  match ← loadClient id with
  | .error response => return response
  | .ok client => return .client 200 client none

/-- The record is loaded first; the body and the groups are read before it is written back. -/
def patchClientHandler (actor : Actor) (id : String) (body : Except String β) :
    ClientProg ClientResponse := do
  match ← loadClient id with
  | .error response => return response
  | .ok client =>
      match body with
      | .error text => return .error 400 "invalid_request" text
      | .ok raw =>
          match ← validationContext actor with
          | none => return unavailable
          | some context =>
              let now ← perform .now
              match ← updateClientRecord rules client raw context now with
              | .threw => return unavailable
              | .clientNotFound => return notFound
              | .invalidClient violations => return invalidClient violations
              | .ok updated secret => return .client 200 updated secret

def deleteClientHandler (id : String) : ClientProg ClientResponse := do
  match ← loadClient id with
  | .error response => return response
  | .ok client =>
      match ← perform (.deleteClient client.clientId) with
      | none => return unavailable
      | some false => return notFound
      | some true => return .noContent

def rotateSecretHandler (id : String) : ClientProg ClientResponse := do
  match ← loadClient id with
  | .error response => return response
  | .ok client =>
      if usesSecret client.tokenEndpointAuthMethod then
        let now ← perform .now
        let generated ← perform .generateClientSecret
        match ← perform (.updateClientSecretHash client.clientId generated.hash now) with
        | none => return unavailable
        | some false => return notFound
        | some true => return .rotated client.clientId generated.secret now
      else return .error 409 "no_secret" "the client's method uses no shared secret"

def setClientDisabledHandler (id : String) (disabled : Bool) : ClientProg ClientResponse := do
  match ← loadClient id with
  | .error response => return response
  | .ok client =>
      let now ← perform .now
      let disabledAt := if disabled then some now else none
      match ← perform (.setClientDisabled client.clientId disabledAt now) with
      | none => return unavailable
      | some false => return notFound
      | some true =>
        return .client 200 { client with disabledAt := disabledAt, updatedAt := now } none

end Handlers

/-! ### The system -/

inductive ClientRequest (β : Type) where
  | create (actor : Actor) (body : Except String β)
  | get (id : String)
  | patch (actor : Actor) (id : String) (body : Except String β)
  | delete (id : String)
  | rotateSecret (id : String)
  | setDisabled (id : String) (disabled : Bool)

def ClientRequest.handler {β : Type} (rules : BodyRules β) :
    ClientRequest β → ClientProg ClientResponse
  | .create actor body => createClientHandler rules actor body
  | .get id => getClientHandler id
  | .patch actor id body => patchClientHandler rules actor id body
  | .delete id => deleteClientHandler id
  | .rotateSecret id => rotateSecretHandler id
  | .setDisabled id disabled => setClientDisabledHandler id disabled

/-- Clients are written by these requests only. -/
def adminClients {β : Type} (rules : BodyRules β) :
    System (ClientRequest β) Outside ClientTable ClientOp.Answer ClientResponse where
  start := ClientRequest.handler rules
  exec := execClientOp
  isOutside := fun _ => false

end TinyOidc.Client
