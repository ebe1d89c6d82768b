import TinyOidc.Cache.Records
import TinyOidc.Cache.Slots
import TinyOidc.Env.SettingsPatch
import TinyOidc.Keys.KeyCalls

/-! The isolate caches of settings, signing keys and directory records, and what is seen after an
invalidation. A load that has its answers from before a write writes the cache, or is shared,
after the invalidation that followed the write. -/
namespace TinyOidc.Cache
open Threads (Prog Delivery)
open TinyOidc.Env (Record SettingsTable Settings Platform)
open TinyOidc.Keys (SigningKeyRow KeyTable KeyStatement GeneratedKey deriveRoles)
open TinyOidc.User (Bytes)

/-! ### The settings -/

inductive SettingsError where
  | d1
  | invalid (message : String)
  | unavailable (cause : SettingsError)
  deriving DecidableEq

/-- `SettingsLoader.refresh`: the one statement, and the settings it gives. -/
def refreshSettings (platform : Platform) (config : Env.Config) :
    Prog Unit (fun _ => Record) (Except SettingsError Settings) := do
  let stored ← Prog.perform ()
  match Env.resolveSettings platform config stored with
  | .error violations =>
    return .error (.invalid ("stored settings invalid: " ++ String.intercalate "; " violations))
  | .ok settings => return .ok settings

def settingsTtlSeconds : ℤ := 60

def settingsStaleSeconds : ℤ := 3600

def SettingsLoader (platform : Platform) (config : Env.Config) :
    SlotClass Unit SettingsTable (fun _ : Unit => Record) SettingsError Settings where
  exec t _ := (t, Env.readAllSettings t)
  thrown := .d1
  load _ _ := refreshSettings platform config
  ttl := settingsTtlSeconds
  stale := settingsStaleSeconds
  passesOn _ := false
  unavailable := .unavailable

/-! ### The keys -/

inductive KeyError where
  | d1
  | importFailed
  | cannotDecrypt
  | noSigningKey
  | keysUnavailable (cause : KeyError)
  deriving DecidableEq

/-- What opens and parses the sealed private key, what imports it, and the public JWK as
published under its kid. -/
structure KeyMaterial (P K J : Type) where
  openPrivate : Bytes → Option P
  importKey : P → Option K
  published : String → String → Option J

structure LoadedKeys (K J : Type) where
  kid : String
  privateKey : K
  jwks : List J
  rows : List SigningKeyRow

section KeyStore
variable {P K J : Type} (material : KeyMaterial P K J)

/-- `KeyStore.load`: never signs with a key that has not activated. -/
def loadKeys (rows : List SigningKeyRow) (now : ℤ) : Except KeyError (LoadedKeys K J) :=
  match (deriveRoles rows now).signing with
  | none => .error .noSigningKey
  | some signing =>
    match signing.privateJwkEnc with
    | none => .error .noSigningKey
    | some sealedKey =>
      match material.openPrivate sealedKey with
      | none => .error (.keysUnavailable .cannotDecrypt)
      | some parsed =>
        match material.importKey parsed with
        | none => .error .importFailed
        | some privateKey =>
          .ok ⟨signing.kid, privateKey, (rows.filter (·.retiredAt.isNone)).filterMap
            fun row => material.published row.kid row.publicJwk, rows⟩

/-- The material as far as the kids go. -/
def KeyMaterial.usable (parses : String → Bool) : Keys.KeyMaterial where
  opens sealedKey := ((material.openPrivate sealedKey).bind material.importKey).isSome
  parses := parses

/-- A load signs with and publishes the kids that `Keys.load` gives. -/
theorem loadKeys_kids {parses : String → Bool} {kidOf : J → String}
    (hparses : ∀ kid jwk, (material.published kid jwk).isSome = parses jwk)
    (hkid : ∀ kid jwk j, material.published kid jwk = some j → kidOf j = kid)
    (rows : List SigningKeyRow) (now : ℤ) :
    (loadKeys material rows now).toOption.map
        (fun keys => (⟨keys.kid, keys.jwks.map kidOf⟩ : Keys.LoadedKeys)) =
      (Keys.load (material.usable parses) rows now).toOption := by
  have hrow : ∀ row : SigningKeyRow, (material.published row.kid row.publicJwk).map kidOf =
      if parses row.publicJwk then some row.kid else none := by
    intro row
    rw [← hparses row.kid]
    cases hj : material.published row.kid row.publicJwk with
    | none => rfl
    | some j => simp [hkid _ _ _ hj]
  have hjwks : ((rows.filter (·.retiredAt.isNone)).filterMap
      fun row => material.published row.kid row.publicJwk).map kidOf =
      (rows.filter fun r => r.retiredAt.isNone && parses r.publicJwk).map (·.kid) := by
    rw [List.map_filterMap]
    induction rows with
    | nil => rfl
    | cons row rows ih =>
      cases hunretired : row.retiredAt.isNone with
      | false => simpa [hunretired] using ih
      | true =>
        cases hparsed : parses row.publicJwk with
        | false => simpa [hunretired, hparsed, hrow] using ih
        | true => simpa [hunretired, hparsed, hrow] using ih
  unfold loadKeys Keys.load
  cases (deriveRoles rows now).signing with
  | none => rfl
  | some signing =>
    cases hsealed : signing.privateJwkEnc with
    | none => simp [hsealed, Except.toOption]
    | some sealedKey =>
      simp only [hsealed, KeyMaterial.usable]
      obtain hopened | ⟨parsed, hopened⟩ :=
        Option.eq_none_or_eq_some (material.openPrivate sealedKey)
      · simp [hopened, Except.toOption]
      · obtain himported | ⟨privateKey, himported⟩ :=
          Option.eq_none_or_eq_some (material.importKey parsed)
        · simp [hopened, himported, Except.toOption]
        · simp [hopened, himported, Except.toOption, hjwks]

/-- `KeyStore.loadNow` and `KeyStore.refresh`; the key is drawn for an empty store. -/
def loadNow (key : GeneratedKey) (now : ℤ) :
    Prog KeyStatement KeyStatement.Answer (Except KeyError (LoadedKeys K J)) := do
  match ← Keys.loadRows key now with
  | none => return .error .d1
  | some rows => return loadKeys material rows now

/-- `NoSigningKeyError` and `KeysUnavailableError` are thrown on as they are. -/
def KeyError.passesOn : KeyError → Bool
  | noSigningKey | keysUnavailable _ => true
  | d1 | importFailed | cannotDecrypt => false

def KeyStore : SlotClass GeneratedKey KeyTable KeyStatement.Answer KeyError (LoadedKeys K J) where
  exec := Keys.perform
  thrown := .d1
  load := loadNow material
  ttl := Keys.keysTtlSeconds
  stale := Keys.keysStaleSeconds
  passesOn := KeyError.passesOn
  unavailable := .keysUnavailable

end KeyStore

/-! ### The records -/

inductive RecordError where
  | d1
  | unavailable (cause : RecordError)
  deriving DecidableEq

def clientCacheTtlSeconds : ℤ := 60

def clientCacheStaleSeconds : ℤ := 3600

def clientCacheCapacity : ℕ := 1000

/-- `RecordCache`: the records of one type, `none` cached for an id that has none. -/
def RecordCache {ι δ T : Type} (select : δ → ι → Option T) :
    RecordClass ι δ (fun _ : ι => Option T) RecordError (Option T) where
  exec d id := (d, select d id)
  thrown := .d1
  load id := do return .ok (← Prog.perform id)
  ttl := clientCacheTtlSeconds
  stale := clientCacheStaleSeconds
  capacity := clientCacheCapacity
  unavailable := .unavailable

/-! ### Invalidations -/

/-- After a write and an invalidation, the calls that start see D1 from after the write, when no
load is in flight at the invalidation with its answers from before the write. -/
theorem invalidation_seen_of_quiet (platform : Platform) (config : Env.Config) :
    (∀ (t written : SettingsTable) (later mid earlier : List (SlotLabel Unit SettingsTable)),
      (Slot.after (SettingsLoader platform config) t (mid ++ .write written :: earlier)).Quiet
        (Slot.after (SettingsLoader platform config) t
          (.write written :: earlier)).store.statements →
      Slot.SeesSince
        (Slot.after (SettingsLoader platform config) t
          (.write written :: earlier)).store.statements
        (Slot.after (SettingsLoader platform config) t
          (mid ++ .write written :: earlier)).gets.length
        (Slot.after (SettingsLoader platform config) t
          (later ++ .invalidate :: (mid ++ .write written :: earlier))).gets) ∧
    (∀ (P K J : Type) (material : KeyMaterial P K J) (t written : KeyTable)
      (later mid earlier : List (SlotLabel GeneratedKey KeyTable)),
      (Slot.after (KeyStore material) t (mid ++ .write written :: earlier)).Quiet
        (Slot.after (KeyStore material) t (.write written :: earlier)).store.statements →
      Slot.SeesSince
        (Slot.after (KeyStore material) t (.write written :: earlier)).store.statements
        (Slot.after (KeyStore material) t (mid ++ .write written :: earlier)).gets.length
        (Slot.after (KeyStore material) t
          (later ++ .invalidate :: (mid ++ .write written :: earlier))).gets) ∧
    ∀ (ι δ T : Type) [DecidableEq ι] (select : δ → ι → Option T) (d written : δ)
      (dropped : Option ι) (id : ι), Records.drops dropped id = true →
      ∀ later mid earlier : List (RecordLabel ι δ),
      (Records.after (RecordCache select) d (mid ++ .write written :: earlier)).Quiet
        (Records.after (RecordCache select) d (.write written :: earlier)).store.statements id →
      Records.SeesSince
        (Records.after (RecordCache select) d (.write written :: earlier)).store.statements id
        (Records.after (RecordCache select) d (mid ++ .write written :: earlier)).gets.length
        (Records.after (RecordCache select) d
          (later ++ .invalidate dropped :: (mid ++ .write written :: earlier))).gets := by
  refine ⟨?_, ?_, ?_⟩
  · intro t written later mid earlier hquiet
    exact Slot.sees_after_invalidate (SettingsLoader platform config) t written later mid earlier
      hquiet
  · intro P K J material t written later mid earlier hquiet
    exact Slot.sees_after_invalidate (KeyStore material) t written later mid earlier hquiet
  · intro ι δ T _ select d written dropped id hdrops later mid earlier hquiet
    exact Records.sees_after_invalidate (RecordCache select) d written dropped id hdrops later mid
      earlier hquiet

/-! ### Loads that outlive an invalidation -/

def Get.readAt {E V : Type} : Get E V → Option ℕ
  | .value _ n => some n
  | _ => none

theorem Get.exists_value {E V : Type} (get : Option (Get E V)) {n : ℕ}
    (h : get.bind Get.readAt = some n) : ∃ v, get = some (.value v n) := by
  obtain ⟨g, rfl, hread⟩ := Option.bind_eq_some_iff.mp h
  cases g with
  | value v m =>
    cases hread
    exact ⟨v, rfl⟩
  | waiting | threw => cases hread

namespace Sample

def idleSet : SettingsTable := Env.writeSettings .empty [("session.idle_ttl", .int 1000)] "admin" 0

def key (kid : String) : GeneratedKey := ⟨kid, "jwk", []⟩

def material : KeyMaterial Unit Unit Unit := ⟨fun _ => some (), some, fun _ _ => some ()⟩

def keyTable (kid : String) : KeyTable := ⟨[⟨kid, "jwk", some [], 0, 0, none⟩], by simp⟩

/-- One record, known until it is deleted. -/
def select (known : Bool) (_ : String) : Option Unit := if known then some () else none

section Slots
variable {F δ : Type} (drawn : F)

/-- A call that loads, from its start to its end, newest label first. -/
def called (call now : ℕ) : List (SlotLabel F δ) :=
  [.resume call, .settle call, .finish call, .statement call .answers, .get now drawn]

/-- Loads that end before the write, and a call after the invalidation. -/
def inTurn (written : δ) : List (SlotLabel F δ) :=
  called drawn 1 1 ++ .invalidate :: ([] ++ .write written :: called drawn 0 0)

end Slots

def recordCalled (call now : ℕ) : List (RecordLabel String Bool) :=
  [.resume call, .finish call, .statement call .answers, .get "app" now]

end Sample

theorem invalidation_seen_sample :
    Slot.SeesSince 2 1 (Slot.after (SettingsLoader Env.Sample.platform Env.Sample.config) .empty
        (Sample.inTurn () Sample.idleSet)).gets ∧
      Slot.SeesSince 2 1 (Slot.after (KeyStore Sample.material) (Sample.keyTable "k1")
        (Sample.inTurn (Sample.key "k3") (Sample.keyTable "k2"))).gets ∧
      Records.SeesSince 2 "app" 1 (Records.after (RecordCache Sample.select) true
        (Sample.recordCalled 1 1 ++ .invalidate (some "app") ::
          ([] ++ .write false :: Sample.recordCalled 0 0))).gets := by
  have hseen := invalidation_seen_of_quiet Env.Sample.platform Env.Sample.config
  refine ⟨?_, ?_, ?_⟩
  · have hsees :=
      hseen.1 .empty Sample.idleSet (Sample.called () 1 1) [] (Sample.called () 0 0) (by decide)
    exact fun g v n hg hget => (show 2 ≤ _ by decide).trans
      (hsees g v n ((show _ ≤ 1 by decide).trans hg) hget)
  · have hsees := hseen.2.1 Unit Unit Unit Sample.material
      (Sample.keyTable "k1") (Sample.keyTable "k2") (Sample.called (Sample.key "k3") 1 1) []
      (Sample.called (Sample.key "k3") 0 0) (by decide)
    exact fun g v n hg hget => (show 2 ≤ _ by decide).trans
      (hsees g v n ((show _ ≤ 1 by decide).trans hg) hget)
  · have hsees := hseen.2.2 String Bool Unit Sample.select true false
      (some "app") "app" (by decide) (Sample.recordCalled 1 1) [] (Sample.recordCalled 0 0)
      (by decide)
    exact fun g v n hg hget => (show 2 ≤ _ by decide).trans
      (hsees g v n ((show _ ≤ 1 by decide).trans hg) hget)

/-- The settings: a later call shares the load. The keys: a refresh writes the cache. The records:
a load inserts its entry again. -/
theorem invalidation_missed :
    (¬ ∀ (platform : Platform) (config : Env.Config) (t written : SettingsTable)
      (later mid earlier : List (SlotLabel Unit SettingsTable)),
      Slot.SeesSince
        (Slot.after (SettingsLoader platform config) t
          (.write written :: earlier)).store.statements
        (Slot.after (SettingsLoader platform config) t
          (mid ++ .write written :: earlier)).gets.length
        (Slot.after (SettingsLoader platform config) t
          (later ++ .invalidate :: (mid ++ .write written :: earlier))).gets) ∧
    (¬ ∀ (P K J : Type) (material : KeyMaterial P K J) (t written : KeyTable)
      (later mid earlier : List (SlotLabel GeneratedKey KeyTable)),
      Slot.SeesSince
        (Slot.after (KeyStore material) t (.write written :: earlier)).store.statements
        (Slot.after (KeyStore material) t (mid ++ .write written :: earlier)).gets.length
        (Slot.after (KeyStore material) t
          (later ++ .invalidate :: (mid ++ .write written :: earlier))).gets) ∧
    ¬ ∀ (ι δ T : Type) [DecidableEq ι] (select : δ → ι → Option T) (d written : δ)
      (dropped : Option ι) (id : ι), Records.drops dropped id = true →
      ∀ later mid earlier : List (RecordLabel ι δ),
      Records.SeesSince
        (Records.after (RecordCache select) d (.write written :: earlier)).store.statements id
        (Records.after (RecordCache select) d (mid ++ .write written :: earlier)).gets.length
        (Records.after (RecordCache select) d
          (later ++ .invalidate dropped :: (mid ++ .write written :: earlier))).gets := by
  refine ⟨?_, ?_, ?_⟩
  · intro hall
    have hsees := hall Env.Sample.platform Env.Sample.config .empty Sample.idleSet
      [.resume 1, .settle 0, .finish 0, .get 1 ()] [] [.statement 0 .answers, .get 0 ()]
    obtain ⟨v, hvalue⟩ := Get.exists_value (n := 0) ((Slot.after
      (SettingsLoader Env.Sample.platform Env.Sample.config) .empty
      ([.resume 1, .settle 0, .finish 0, .get 1 ()] ++ .invalidate ::
        ([] ++ .write Sample.idleSet :: [.statement 0 .answers, .get 0 ()]))).gets[1]?)
      (by decide)
    exact absurd (hsees 1 v 0 (by decide) hvalue) (by decide)
  · intro hall
    have hsees := hall Unit Unit Unit Sample.material (Sample.keyTable "k1") (Sample.keyTable "k2")
      [.get 51 (Sample.key "k3"), .finish 1] []
      ([.statement 1 .answers, .get 50 (Sample.key "k3")] ++
        Sample.called (Sample.key "k3") 0 0)
    obtain ⟨v, hvalue⟩ := Get.exists_value (n := 1) ((Slot.after
      (KeyStore Sample.material) (Sample.keyTable "k1")
      ([.get 51 (Sample.key "k3"), .finish 1] ++ .invalidate ::
        ([] ++ .write (Sample.keyTable "k2") ::
          ([.statement 1 .answers, .get 50 (Sample.key "k3")] ++
            Sample.called (Sample.key "k3") 0 0)))).gets[2]?) (by decide +kernel)
    exact absurd (hsees 2 v 1 (by decide) hvalue) (by decide)
  · intro hall
    have hsees := hall String Bool Unit Sample.select true false (some "app") "app" (by decide)
      [.get "app" 1, .finish 0] [] [.statement 0 .answers, .get "app" 0] 1 (some ()) 0
      (by decide) (by decide)
    exact absurd hsees (by decide)

end TinyOidc.Cache
