import TinyOidc.Lib.Table
import TinyOidc.User.Schema
import TinyOidc.Util.Text

/-! Signing keys (`src/crypto/keystore.ts`, `src/db/keys.ts`): the rows, whose roles follow from
the clock, rotation, the cron maintenance, and the cache of the loaded keys that each isolate
signs with. Key material is opaque; the limits of the settings are those of `resolveSettings`. -/
namespace TinyOidc.Keys
open RowTable
open TinyOidc.User (Bytes)

structure SigningKeyRow where
  kid : String
  publicJwk : String
  privateJwkEnc : Option Bytes
  createdAt : ℤ
  activatesAt : ℤ
  retiredAt : Option ℤ
  deriving DecidableEq, Repr

abbrev KeyTable := Table SigningKeyRow SigningKeyRow.kid

/-- What the key generation gives: the thumbprint and the two JWKs, the private one sealed. -/
structure GeneratedKey where
  kid : String
  publicJwk : String
  privateJwkEnc : Bytes
  deriving DecidableEq, Repr

def retiredKeyRetentionSeconds : ℤ := 90 * 86400

def keysTtlSeconds : ℤ := 60

def keysStaleSeconds : ℤ := 3600

/-! ### Settings -/

/-- The settings that key rotation and token lifetimes read. -/
structure KeySettings where
  accessTtl : ℤ
  idTtl : ℤ
  rotationDays : ℤ
  prepublishSeconds : ℤ
  retireAfterSeconds : ℤ
  deriving DecidableEq, Repr

def logoutTokenTtl : ℤ := 120

def KeySettings.longestToken (s : KeySettings) : ℤ := max (max s.accessTtl s.idTtl) logoutTokenTtl

def KeySettings.inBounds (s : KeySettings) : Bool :=
  (60 ≤ s.accessTtl && s.accessTtl ≤ 3600) && (60 ≤ s.idTtl && s.idTtl ≤ 3600) &&
    (0 ≤ s.rotationDays && s.rotationDays ≤ 365) &&
    (0 ≤ s.prepublishSeconds && s.prepublishSeconds ≤ 2592000) &&
    (3600 ≤ s.retireAfterSeconds && s.retireAfterSeconds ≤ 7776000)

/-- The cross-field rule on retirement. -/
def KeySettings.violations (s : KeySettings) : List String :=
  if s.retireAfterSeconds ≤ s.longestToken + 3600 then
    ["keys.retire_after_seconds: must exceed the longest token lifetime plus 3600 seconds"]
  else []

/-- Settings that `resolveSettings` accepts. -/
structure ResolvedSettings extends KeySettings where
  bounds : toKeySettings.inBounds = true
  valid : toKeySettings.violations = []

/-- A client's own lifetime of a token, within the bounds of the Admin API. -/
structure TtlOverride where
  seconds : ℤ
  bounds : 60 ≤ seconds ∧ seconds ≤ 3600
  deriving DecidableEq

structure ClientTtls where
  accessTokenTtl : Option TtlOverride
  idTokenTtl : Option TtlOverride
  deriving DecidableEq

def accessTtl (s : KeySettings) (client : ClientTtls) : ℤ :=
  (client.accessTokenTtl.map (·.seconds)).getD s.accessTtl

def idTtl (s : KeySettings) (client : ClientTtls) : ℤ :=
  (client.idTokenTtl.map (·.seconds)).getD s.idTtl

/-! ### Roles -/

inductive KeyRole where
  | signing | next | verifying | retired
  deriving DecidableEq, Repr

def roleOf (row : SigningKeyRow) (now : ℤ) (signingActivatesAt : Option ℤ) : KeyRole :=
  if row.retiredAt.isSome then .retired
  else if now < row.activatesAt then .next
  else if signingActivatesAt.any (row.activatesAt < ·) then .verifying
  else .signing

/-- The later activation, then the newer row, then the greater kid. -/
def supersedes (r best : SigningKeyRow) : Bool :=
  best.activatesAt < r.activatesAt ||
    (r.activatesAt == best.activatesAt && (best.createdAt < r.createdAt ||
      (r.createdAt == best.createdAt && !decide (Util.textLe r.kid best.kid))))

def signingRow (active : List SigningKeyRow) : Option SigningKeyRow :=
  active.foldl (fun best r =>
    match best with
    | none => some r
    | some b => if supersedes r b then some r else some b) none

def isActive (now : ℤ) (r : SigningKeyRow) : Bool := r.retiredAt.isNone && r.activatesAt ≤ now

structure KeyRoles where
  signing : Option SigningKeyRow
  next : List SigningKeyRow
  verifying : List SigningKeyRow
  retired : List SigningKeyRow

def deriveRoles (rows : List SigningKeyRow) (now : ℤ) : KeyRoles :=
  let signing := signingRow (rows.filter (isActive now))
  let role := fun row => roleOf row now (signing.map (·.activatesAt))
  { signing
    next := rows.filter (role · == .next)
    verifying := rows.filter (role · == .verifying)
    retired := rows.filter (role · == .retired) }

/-! ### The table -/

/-- `ORDER BY activates_at ASC, kid ASC`. -/
def rowLe (a b : SigningKeyRow) : Prop :=
  a.activatesAt < b.activatesAt ∨ a.activatesAt = b.activatesAt ∧ Util.textLe a.kid b.kid

instance : DecidableRel rowLe := fun _ _ => inferInstanceAs (Decidable (_ ∨ _ ∧ _))

def listSigningKeys (t : KeyTable) : List SigningKeyRow := t.rows.insertionSort rowLe

def newRow (key : GeneratedKey) (activatesAt now : ℤ) : SigningKeyRow where
  kid := key.kid
  publicJwk := key.publicJwk
  privateJwkEnc := some key.privateJwkEnc
  createdAt := now
  activatesAt := activatesAt
  retiredAt := none

/-- One statement: inserts while no unretired key exists; a taken kid throws. -/
def insertFirstSigningKey (t : KeyTable) (row : SigningKeyRow) : Option KeyTable :=
  if t.rows.any (·.retiredAt.isNone) then some t else t.insert row

/-- Sets `retired_at` and deletes the private material. -/
def retireSigningKey (t : KeyTable) (kid : String) (now : ℤ) : KeyTable :=
  t.updateWhere (fun r => r.kid == kid && r.retiredAt.isNone)
    (fun r => { r with retiredAt := some now, privateJwkEnc := none }) fun _ => rfl

def isDeletable (cutoff : ℤ) (r : SigningKeyRow) : Bool := r.retiredAt.any (· < cutoff)

def deleteRetiredSigningKeys (t : KeyTable) (cutoff : ℤ) : KeyTable × List String :=
  (t.deleteWhere (isDeletable cutoff), (t.rows.filter (isDeletable cutoff)).map (·.kid))

/-! ### Rotation and maintenance -/

/-- Rotation only creates: a key that activates after the prepublication, or at once. -/
def rotateSigningKey (t : KeyTable) (key : GeneratedKey) (now prepublishSeconds : ℤ)
    (immediate : Bool) : Option KeyTable :=
  t.insert (newRow key (if immediate then now else now + prepublishSeconds) now)

structure MaintenanceResult where
  created : Option String
  retired : List String
  deletedKids : List String
  deriving DecidableEq, Repr

/-- Whether the cron creates the next key. -/
def rotationDue (roles : KeyRoles) (now rotationDays : ℤ) : Bool :=
  roles.signing.any fun signing =>
    0 < rotationDays * 86400 && rotationDays * 86400 ≤ now - signing.activatesAt &&
      roles.next.isEmpty

/-- The keys the cron retires: those older than the signing key, once it has signed for long
enough. -/
def retirable (roles : KeyRoles) (now retireAfterSeconds : ℤ) : List SigningKeyRow :=
  if roles.signing.any fun signing => retireAfterSeconds ≤ now - signing.activatesAt then
    roles.verifying
  else []

/-- The cron steps: create the next key, retire the superseded ones, delete old rows; `none` in
the result when a statement throws. -/
def maintainSigningKeys (t : KeyTable) (key : GeneratedKey) (now : ℤ) (s : KeySettings) :
    KeyTable × Option MaintenanceResult :=
  let roles := deriveRoles (listSigningKeys t) now
  let due := rotationDue roles now s.rotationDays
  match if due then rotateSigningKey t key now s.prepublishSeconds false else some t with
  | none => (t, none)
  | some t =>
      let retired := (retirable roles now s.retireAfterSeconds).map (·.kid)
      let t := retired.foldl (fun t kid => retireSigningKey t kid now) t
      let deleted := deleteRetiredSigningKeys t (now - retiredKeyRetentionSeconds)
      (deleted.1, some ⟨if due then some key.kid else none, retired, deleted.2⟩)

/-! ### The cache of an isolate -/

/-- Which stored material is usable: the private JWK opens under the master keys and parses, the
public one parses. -/
structure KeyMaterial where
  opens : Bytes → Bool
  parses : String → Bool

/-- The kid an isolate signs with, and the kids it publishes and verifies with. -/
structure LoadedKeys where
  signing : String
  jwks : List String
  deriving DecidableEq, Repr

structure CachedKeys where
  loaded : LoadedKeys
  loadedAt : ℤ
  deriving DecidableEq, Repr

inductive KeyError where
  | noSigningKey | keysUnavailable
  deriving DecidableEq, Repr

/-- Never a `next` key: fails when no key has activated. -/
def load (m : KeyMaterial) (rows : List SigningKeyRow) (now : ℤ) : Except KeyError LoadedKeys :=
  match (deriveRoles rows now).signing with
  | none => .error .noSigningKey
  | some signing =>
      match signing.privateJwkEnc with
      | none => .error .noSigningKey
      | some sealed =>
          if m.opens sealed then
            .ok ⟨signing.kid,
              (rows.filter fun r => r.retiredAt.isNone && m.parses r.publicJwk).map (·.kid)⟩
          else .error .keysUnavailable

/-- How a read of D1 goes; a read that throws may have inserted the first key. -/
inductive D1Read where
  | answers
  | throws (inserted : Bool)
  deriving DecidableEq, Repr

/-- The unretired rows, with the first key created on an empty store. -/
def withFirstKey (t : KeyTable) (key : GeneratedKey) (now : ℤ) : KeyTable :=
  (insertFirstSigningKey t (newRow key now now)).getD t

def readRows (t : KeyTable) (key : GeneratedKey) (now : ℤ) :
    D1Read → KeyTable × Option (List SigningKeyRow)
  | .answers => (withFirstKey t key now, some (listSigningKeys (withFirstKey t key now)))
  | .throws true => (withFirstKey t key now, none)
  | .throws false => (t, none)

structure Fetched where
  table : KeyTable
  cached : Option CachedKeys
  keys : Except KeyError CachedKeys

/-- `loadNow`, or the early refresh: reads the rows and caches what they load to. -/
def refresh (m : KeyMaterial) (t : KeyTable) (cached : Option CachedKeys) (key : GeneratedKey)
    (now : ℤ) (read : D1Read) : Fetched :=
  match readRows t key now read with
  | (t, none) => ⟨t, cached, .error .keysUnavailable⟩
  | (t, some rows) =>
      match load m rows now with
      | .error e => ⟨t, cached, .error e⟩
      | .ok loaded => ⟨t, some ⟨loaded, now⟩, .ok ⟨loaded, now⟩⟩

/-- `KeyStore.get`: the cache under its TTL, else a load, else the stale cache when D1 throws. -/
def get (m : KeyMaterial) (t : KeyTable) (cached : Option CachedKeys) (key : GeneratedKey)
    (now : ℤ) (read : D1Read) : Fetched :=
  match cached with
  | none => refresh m t cached key now read
  | some c =>
      if now - c.loadedAt < keysTtlSeconds then ⟨t, cached, .ok c⟩
      else
        match read with
        | .answers => refresh m t cached key now read
        | .throws _ =>
            let fetched := refresh m t cached key now read
            if now - c.loadedAt < keysStaleSeconds then { fetched with keys := .ok c } else fetched

end TinyOidc.Keys
