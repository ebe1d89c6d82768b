import TinyOidc.Crypto.SecretBox
import TinyOidc.Lib.Table
import TinyOidc.Lib.Threads
import TinyOidc.Util.Text

/-! Upstream providers (`src/federation/upstreams.ts`, `src/db/upstreams.ts`,
`src/admin/upstreams.ts`, `rekeyUpstreams` of `src/maintenance/run.ts`): the records with their
sealed material, the rules of an input, and the requests that change records, one D1 statement at
a time. The schema of a body and the discovery documents are answered from outside. -/
namespace TinyOidc.Federation
open RowTable TinyOidc.Crypto TinyOidc.Util
open TinyOidc.User (Bytes)
open Threads (Prog Delivery)

/-! ### Records -/

inductive UpstreamAuthMethod where
  | clientSecretBasic | clientSecretPost | privateKeyJwt
  deriving DecidableEq, Repr

structure UpstreamMetadata where
  authorizationEndpoint : String
  tokenEndpoint : String
  jwksUri : String
  userinfoEndpoint : Option String
  deriving DecidableEq, Repr

inductive Discovery where
  | auto
  | manual (endpoints : UpstreamMetadata)
  deriving DecidableEq, Repr

/-- A body once the schema has taken it. The two secrets are write-only. -/
structure UpstreamInput where
  recordAlias : String
  issuer : String
  displayName : String
  clientId : String
  tokenEndpointAuthMethod : UpstreamAuthMethod
  clientSecret : Option Bytes
  clientJwk : Option Bytes
  scopes : String
  discovery : Discovery
  useUserinfo : Bool
  enabled : Bool
  deriving DecidableEq

structure Upstream where
  recordAlias : String
  issuer : String
  displayName : String
  clientId : String
  tokenEndpointAuthMethod : UpstreamAuthMethod
  clientSecretEnc : Option Bytes
  clientJwkEnc : Option Bytes
  scopes : String
  discovery : Discovery
  useUserinfo : Bool
  enabled : Bool
  createdAt : ℤ
  updatedAt : ℤ
  deriving DecidableEq

abbrev UpstreamTable := Table Upstream (·.recordAlias)

inductive SealedColumn where
  | clientSecret | clientJwk
  deriving DecidableEq, Repr

def Upstream.material (u : Upstream) : SealedColumn → Option Bytes
  | .clientSecret => u.clientSecretEnc
  | .clientJwk => u.clientJwkEnc

def UpstreamInput.given (input : UpstreamInput) : SealedColumn → Option Bytes
  | .clientSecret => input.clientSecret
  | .clientJwk => input.clientJwk

/-- A record turned back into an input, without its secrets. -/
def inputOf (u : Upstream) : UpstreamInput where
  recordAlias := u.recordAlias
  issuer := u.issuer
  displayName := u.displayName
  clientId := u.clientId
  tokenEndpointAuthMethod := u.tokenEndpointAuthMethod
  clientSecret := none
  clientJwk := none
  scopes := u.scopes
  discovery := u.discovery
  useUserinfo := u.useUserinfo
  enabled := u.enabled

/-- `scopes.split(/\s+/)` without the empty parts. -/
def scopesOf (scopes : String) : List String :=
  ((scopes.toList.splitOnP isSpace).filter (!·.isEmpty)).map String.ofList

def isSecretMethod (input : UpstreamInput) : Bool :=
  input.tokenEndpointAuthMethod != .privateKeyJwt

def validateUpstreamInput (input : UpstreamInput) (hasSecret hasJwk : Bool) : List String :=
  let scopes := scopesOf input.scopes
  let secretMethod := isSecretMethod input
  (if scopes.contains "openid" then [] else ["scopes: must contain openid"]) ++
    (if (uniqueTexts scopes).length = scopes.length then [] else ["scopes: duplicate values"]) ++
    (if input.issuer.toList.contains '#' || input.issuer.toList.contains '?' then
      ["issuer: must not carry a query or fragment"] else []) ++
    (if secretMethod && !hasSecret then ["client_secret: required for this method"] else []) ++
    (if !secretMethod && !hasJwk then ["client_jwk: required for private_key_jwt"] else []) ++
    (if secretMethod && input.clientJwk.isSome then ["client_jwk: only for private_key_jwt"]
      else []) ++
    (if !secretMethod && input.clientSecret.isSome then
      ["client_secret: only for secret methods"] else []) ++
    match input.useUserinfo, input.discovery with
    | true, .manual endpoints =>
      if endpoints.userinfoEndpoint.isSome then []
      else ["discovery.userinfo_endpoint: required when use_userinfo is set"]
    | _, _ => []

/-! ### Statements -/

inductive InsertUpstreamResult where
  | created | upstreamExists
  deriving DecidableEq, Repr

inductive UpdateUpstreamResult where
  | changed | notFound | upstreamExists
  deriving DecidableEq, Repr

def issuerTaken (t : UpstreamTable) (u : Upstream) : Bool :=
  t.rows.any fun r => r.recordAlias != u.recordAlias && r.issuer == u.issuer

/-- The alias and the issuer are both unique. -/
def insertUpstream (t : UpstreamTable) (u : Upstream) : UpstreamTable × InsertUpstreamResult :=
  if issuerTaken t u then (t, .upstreamExists)
  else
    match t.insert u with
    | some t' => (t', .created)
    | none => (t, .upstreamExists)

/-- A row with the mutable columns of the record; the alias and `created_at` stay. -/
def rewritten (u : Upstream) (now : ℤ) (r : Upstream) : Upstream :=
  { u with recordAlias := r.recordAlias, createdAt := r.createdAt, updatedAt := now }

def updateUpstream (t : UpstreamTable) (u : Upstream) (now : ℤ) :
    UpstreamTable × UpdateUpstreamResult :=
  match t.find u.recordAlias with
  | none => (t, .notFound)
  | some _ =>
    if issuerTaken t u then (t, .upstreamExists)
    else (t.updateWhere (·.recordAlias == u.recordAlias) (rewritten u now) fun _ => rfl, .changed)

def deleteUpstream (t : UpstreamTable) (recordAlias : String) : UpstreamTable × Bool :=
  (t.deleteWhere (·.recordAlias == recordAlias), (t.find recordAlias).isSome)

/-- The records with sealed material, in the order of their aliases. -/
def listSealedUpstreams (t : UpstreamTable) : List Upstream :=
  (t.rows.filter fun u => u.clientSecretEnc.isSome || u.clientJwkEnc.isSome).insertionSort
    fun u v => textLe u.recordAlias v.recordAlias

def withMaterial (secret jwk : Option Bytes) (u : Upstream) : Upstream :=
  { u with clientSecretEnc := secret, clientJwkEnc := jwk }

/-- Rewrites both sealed columns, whatever they hold. -/
def updateUpstreamSecrets (t : UpstreamTable) (recordAlias : String) (secret jwk : Option Bytes) :
    UpstreamTable :=
  t.updateWhere (·.recordAlias == recordAlias) (withMaterial secret jwk) fun _ => rfl

inductive UpstreamOp where
  | getUpstream (recordAlias : String)
  | now
  | sealSecret (plaintext : Bytes)
  | fetchDiscovery (issuer : String)
  | insertUpstream (u : Upstream)
  | updateUpstream (u : Upstream) (now : ℤ)
  | deleteUpstream (recordAlias : String)
  | listSealedUpstreams
  | updateUpstreamSecrets (recordAlias : String) (secret jwk : Option Bytes)
  deriving DecidableEq

/-- A statement answers, or throws. A discovery gives the document, or a reason and its detail. -/
@[reducible] def UpstreamOp.Answer : UpstreamOp → Type
  | .getUpstream _ => Option (Option Upstream)
  | .now => ℤ
  | .sealSecret _ => Bytes
  | .fetchDiscovery _ => Except (String × String) UpstreamMetadata
  | .insertUpstream _ => Option InsertUpstreamResult
  | .updateUpstream _ _ => Option UpdateUpstreamResult
  | .deleteUpstream _ => Option Bool
  | .listSealedUpstreams => Option (List Upstream)
  | .updateUpstreamSecrets _ _ _ => Option Unit

structure UpstreamOutside where
  clock : ℤ
  nonce : Nonce
  discovery : Except (String × String) UpstreamMetadata
  delivery : Delivery

section Programs
variable (cipher : Cipher) (keys : DerivedKeys)

def execUpstream (t : UpstreamTable) (outside : UpstreamOutside) :
    (op : UpstreamOp) → UpstreamTable × op.Answer
  | .getUpstream recordAlias => outside.delivery.deliver t (t, t.find recordAlias)
  | .now => (t, outside.clock)
  | .sealSecret plaintext => (t, Crypto.sealSecret cipher keys outside.nonce plaintext)
  | .fetchDiscovery _ => (t, outside.discovery)
  | .insertUpstream u => outside.delivery.deliver t (Federation.insertUpstream t u)
  | .updateUpstream u now => outside.delivery.deliver t (Federation.updateUpstream t u now)
  | .deleteUpstream recordAlias =>
      outside.delivery.deliver t (Federation.deleteUpstream t recordAlias)
  | .listSealedUpstreams => outside.delivery.deliver t (t, Federation.listSealedUpstreams t)
  | .updateUpstreamSecrets recordAlias secret jwk =>
      outside.delivery.deliver t (Federation.updateUpstreamSecrets t recordAlias secret jwk, ())

abbrev UpstreamProgram := Prog UpstreamOp UpstreamOp.Answer

def perform (op : UpstreamOp) : UpstreamProgram op.Answer := .perform op

/-! ### The Admin API -/

structure PublicUpstream where
  input : UpstreamInput
  createdAt : ℤ
  updatedAt : ℤ
  hasClientSecret : Bool
  hasClientJwk : Bool
  redirectUri : String
  deriving DecidableEq

def publicUpstream (u : Upstream) (issuerUrl : String) : PublicUpstream where
  input := inputOf u
  createdAt := u.createdAt
  updatedAt := u.updatedAt
  hasClientSecret := u.clientSecretEnc.isSome
  hasClientJwk := u.clientJwkEnc.isSome
  redirectUri := issuerUrl ++ "/federation/callback"

inductive UpstreamResponse where
  | error (status : ℕ) (code description : String)
  | upstream (status : ℕ) (view : PublicUpstream)
  | noContent
  | rekeyed (rekeyed unrecoverable remaining : ℕ)
  deriving DecidableEq

def notFound : UpstreamResponse := .error 404 "upstream_not_found" "upstream not found"

def unavailable : UpstreamResponse :=
  .error 503 "temporarily_unavailable" "upstream directory unavailable"

def isAliasChar (c : Char) : Bool := ('a' ≤ c && c ≤ 'z') || ('0' ≤ c && c ≤ '9')

/-- `ALIAS_PATTERN`. -/
def isAlias (recordAlias : String) : Bool :=
  match recordAlias.toList with
  | [] => false
  | first :: rest => isAliasChar first && rest.length ≤ 31 &&
      rest.all fun c => isAliasChar c || c == '_' || c == '-'

/-- What a body is checked with: the schema, alone or over a record turned back into an input. -/
structure BodyRules (β : Type) where
  namesAlias : β → Bool
  parse : Option UpstreamInput → β → Except String UpstreamInput

def loadUpstream (recordAlias : String) : UpstreamProgram (Except UpstreamResponse Upstream) := do
  if isAlias recordAlias then
    match ← perform (.getUpstream recordAlias) with
    | none => return .error unavailable
    | some none => return .error notFound
    | some (some u) => return .ok u
  else return .error notFound

/-- A given secret is sealed; without one the stored material stays, if the method uses it. -/
def preparedMaterial (given stored : Option Bytes) : UpstreamProgram (Option Bytes) := do
  match given with
  | some plaintext => return some (← perform (.sealSecret plaintext))
  | none => return stored

def recordOf (input : UpstreamInput) (secret jwk : Option Bytes) (createdAt now : ℤ) :
    Upstream where
  recordAlias := input.recordAlias
  issuer := input.issuer
  displayName := input.displayName
  clientId := input.clientId
  tokenEndpointAuthMethod := input.tokenEndpointAuthMethod
  clientSecretEnc := secret
  clientJwkEnc := jwk
  scopes := input.scopes
  discovery := input.discovery
  useUserinfo := input.useUserinfo
  enabled := input.enabled
  createdAt := createdAt
  updatedAt := now

/-- What the record has stored for a method that uses it. -/
def keptMaterial (current : Option Upstream) (uses : Bool) (column : SealedColumn) :
    Option Bytes :=
  if uses then current.bind (·.material column) else none

/-- Validates an input, seals the given secrets, and fetches an `auto` discovery. -/
def prepare (input : UpstreamInput) (current : Option Upstream) (now : ℤ) :
    UpstreamProgram (Except UpstreamResponse Upstream) := do
  let secretMethod := isSecretMethod input
  let secret ← preparedMaterial input.clientSecret
    (keptMaterial current secretMethod .clientSecret)
  let jwk ← preparedMaterial input.clientJwk (keptMaterial current (!secretMethod) .clientJwk)
  let violations := validateUpstreamInput input secret.isSome jwk.isSome
  let record := recordOf input secret jwk ((current.map (·.createdAt)).getD now) now
  if violations.isEmpty then
    match input.discovery with
    | .manual _ => return .ok record
    | .auto =>
      match ← perform (.fetchDiscovery input.issuer) with
      | .error (reason, detail) =>
        return .error (.error 400 "upstream_discovery_failed" (reason ++ ": " ++ detail))
      | .ok _ => return .ok record
  else return .error (.error 400 "invalid_upstream" (String.intercalate "; " violations))

section Handlers
variable {β : Type} (rules : BodyRules β) (issuerUrl : String)

def createUpstreamHandler (body : Except String β) : UpstreamProgram UpstreamResponse := do
  match body with
  | .error description => return .error 400 "invalid_request" description
  | .ok raw =>
    let now ← perform .now
    match rules.parse none raw with
    | .error detail => return .error 400 "invalid_upstream" detail
    | .ok input =>
      match ← prepare input none now with
      | .error response => return response
      | .ok u =>
        match ← perform (.insertUpstream u) with
        | none => return unavailable
        | some .upstreamExists =>
          return .error 409 "upstream_exists" "an upstream with this alias or issuer exists"
        | some .created => return .upstream 201 (publicUpstream u issuerUrl)

def patchUpstreamHandler (recordAlias : String) (body : Except String β) :
    UpstreamProgram UpstreamResponse := do
  match ← loadUpstream recordAlias with
  | .error response => return response
  | .ok current =>
    match body with
    | .error description => return .error 400 "invalid_request" description
    | .ok raw =>
      if rules.namesAlias raw then
        return .error 400 "invalid_upstream" "alias: cannot be changed"
      else
        let now ← perform .now
        match rules.parse (some (inputOf current)) raw with
        | .error detail => return .error 400 "invalid_upstream" detail
        | .ok input =>
          match ← prepare { input with recordAlias := current.recordAlias } (some current) now with
          | .error response => return response
          | .ok u =>
            let updatedAt ← perform .now
            match ← perform (.updateUpstream u updatedAt) with
            | none => return unavailable
            | some .notFound => return notFound
            | some .upstreamExists =>
              return .error 409 "upstream_exists" "another upstream has this issuer"
            | some .changed => return .upstream 200 (publicUpstream u issuerUrl)

def deleteUpstreamHandler (recordAlias : String) : UpstreamProgram UpstreamResponse := do
  match ← loadUpstream recordAlias with
  | .error response => return response
  | .ok current =>
    match ← perform (.deleteUpstream current.recordAlias) with
    | none => return unavailable
    | some false => return notFound
    | some true => return .noContent

end Handlers

/-! ### Rekeying -/

/-- Sealed under a version that is not the active one. -/
def isStaleBlob (blob : Option Bytes) : Bool :=
  blob.any fun b => sealedUnderVersion b != some keys.active

/-- A blob under the active version stays; another is opened and sealed again, or lost. -/
def reseal (blob : Option Bytes) : UpstreamProgram (Option Bytes) := do
  match blob with
  | none => return none
  | some b =>
    if isStaleBlob keys (some b) then
      match openSecret cipher keys b with
      | none => return none
      | some plaintext => return some (← perform (.sealSecret plaintext))
    else return some b

structure RekeyReport where
  rekeyed : ℕ
  unrecoverable : ℕ
  deriving DecidableEq

def rekeyEach (report : RekeyReport) : List Upstream → UpstreamProgram (Option RekeyReport)
  | [] => return some report
  | u :: rest => do
    let secret ← reseal cipher keys u.clientSecretEnc
    let jwk ← reseal cipher keys u.clientJwkEnc
    if (u.clientSecretEnc.isSome && secret.isNone) || (u.clientJwkEnc.isSome && jwk.isNone) then
      rekeyEach { report with unrecoverable := report.unrecoverable + 1 } rest
    else
      match ← perform (.updateUpstreamSecrets u.recordAlias secret jwk) with
      | none => return none
      | some _ => rekeyEach { report with rekeyed := report.rekeyed + 1 } rest

/-- Lists once, and then rewrites one record after the other. -/
def rekeyUpstreams (limit : ℕ) : UpstreamProgram UpstreamResponse := do
  match ← perform .listSealedUpstreams with
  | none => return unavailable
  | some listed =>
    let stale := listed.filter fun u =>
      isStaleBlob keys u.clientSecretEnc || isStaleBlob keys u.clientJwkEnc
    match ← rekeyEach cipher keys ⟨0, 0⟩ (stale.take limit) with
    | none => return unavailable
    | some report =>
      return .rekeyed report.rekeyed report.unrecoverable (stale.length - limit)

end Programs

end TinyOidc.Federation
