import TinyOidc.Env.Settings
import TinyOidc.Lib.Table
import TinyOidc.Lib.Threads

/-! The settings table (`src/db/settings.ts`) and the requests that patch it
(`patchSettingsHandler` of `src/admin/system.ts`). A request validates the settings it has read,
and others may write in between. -/
namespace TinyOidc.Env
open RowTable
open Threads (Prog Entry Label System Delivery)
open Threads.Prog (Obeys)

/-! ### The table -/

/-- A stored setting; no value when the text is not JSON. -/
structure SettingsRow where
  key : String
  value : Option Json
  updatedAt : ℤ
  updatedBy : String
  deriving DecidableEq

abbrev SettingsTable := Table SettingsRow (·.key)

def readAllSettings (t : SettingsTable) : Record :=
  t.rows.filterMap fun r => r.value.map (r.key, ·)

/-- A `null` deletes the row. -/
def writeSetting (actor : String) (now : ℤ) (t : SettingsTable) (entry : String × Json) :
    SettingsTable :=
  if entry.2 = .null then t.deleteWhere (·.key == entry.1)
  else t.upsert ⟨entry.1, some entry.2, now, actor⟩

/-- The entries in one batch. -/
def writeSettings (t : SettingsTable) (entries : Record) (actor : String) (now : ℤ) :
    SettingsTable :=
  entries.foldl (writeSetting actor now) t

/-- A record with one entry set, or taken out by a `null`. -/
def patchEntry (record : Record) (entry : String × Json) : Record :=
  let others := record.filter fun e => e.1 != entry.1
  if entry.2 = .null then others else entry :: others

/-- `merged` of the handler. -/
def mergeSettings (stored patch : Record) : Record := patch.foldl patchEntry stored

/-- What a patch leaves under a key that held `held`. -/
def patchedValue (key : String) (held : Option Json) (patch : Record) : Option Json :=
  patch.foldl (fun held entry => if entry.1 = key then
    (if entry.2 = .null then none else some entry.2) else held) held

def names (patch : Record) (key : String) : Bool := patch.any fun entry => entry.1 == key

theorem patchedValue_of_not_names {key : String} {patch : Record} (h : names patch key = false)
    (held : Option Json) : patchedValue key held patch = held := by
  induction patch with
  | nil => rfl
  | cons entry patch ih =>
    simp only [names, List.any_cons, Bool.or_eq_false_iff, beq_eq_false_iff_ne, ne_eq] at h
    simp only [patchedValue, List.foldl_cons, if_neg h.1]
    exact ih h.2

/-- What a patch names does not depend on what was there. -/
theorem patchedValue_of_names {key : String} {patch : Record} (h : names patch key = true)
    (held held' : Option Json) : patchedValue key held patch = patchedValue key held' patch := by
  induction patch generalizing held held' with
  | nil => cases h
  | cons entry patch ih =>
    simp only [patchedValue, List.foldl_cons]
    by_cases hkey : entry.1 = key
    · rw [if_pos hkey, if_pos hkey]
    · rw [if_neg hkey, if_neg hkey]
      apply ih
      simpa [names, hkey] using h

theorem lookup_filter_ne (record : Record) (taken key : String) :
    (record.filter fun e => e.1 != taken).lookup key =
      if taken = key then none else record.lookup key := by
  induction record with
  | nil => simp
  | cons e record ih =>
    by_cases htaken : e.1 = taken
    · have hout : (e.1 != taken) = false := by simp [htaken]
      rw [List.filter_cons_of_neg (by simp [htaken]), ih]
      by_cases hkey : taken = key
      · simp [hkey]
      · have hne : (key == e.1) = false := by simpa [htaken] using fun h => hkey h.symm
        rw [if_neg hkey, if_neg hkey, List.lookup_cons, hne]
    · rw [List.filter_cons_of_pos (by simpa using htaken), List.lookup_cons, List.lookup_cons, ih]
      by_cases hkey : key = e.1
      · have hne : taken ≠ key := fun h => htaken (h.trans hkey).symm
        simp [hkey ▸ hne, hkey]
      · have hne : (key == e.1) = false := by simpa using hkey
        simp [hne]

theorem lookup_patchEntry (record : Record) (entry : String × Json) (key : String) :
    (patchEntry record entry).lookup key = if entry.1 = key then
      (if entry.2 = .null then none else some entry.2) else record.lookup key := by
  unfold patchEntry
  by_cases hnull : entry.2 = .null
  · simp only [hnull, if_true]
    exact lookup_filter_ne record entry.1 key
  · simp only [hnull, if_false]
    rw [List.lookup_cons, lookup_filter_ne]
    by_cases hkey : entry.1 = key
    · simp [hkey]
    · have hne : (key == entry.1) = false := by simpa using fun h => hkey h.symm
      simp [hkey, hne]

theorem lookup_mergeSettings (stored patch : Record) (key : String) :
    (mergeSettings stored patch).lookup key = patchedValue key (stored.lookup key) patch := by
  induction patch generalizing stored with
  | nil => rfl
  | cons entry patch ih =>
    simp only [mergeSettings, patchedValue, List.foldl_cons]
    rw [← lookup_patchEntry stored entry key]
    exact ih (patchEntry stored entry)

theorem lookup_of_find {rows : List SettingsRow} (hnodup : (rows.map (·.key)).Nodup)
    (key : String) : (rows.filterMap fun r => r.value.map (r.key, ·)).lookup key =
      (rows.find? (·.key = key)).bind (·.value) := by
  induction rows with
  | nil => rfl
  | cons r rows ih =>
    obtain ⟨hout, hnodup⟩ := List.nodup_cons.mp hnodup
    have hrest := ih hnodup
    by_cases hkey : r.key = key
    · subst hkey
      have hnone : rows.find? (·.key = r.key) = none := by
        rw [List.find?_eq_none]
        intro s hs hsame
        exact hout (List.mem_map.mpr ⟨s, hs, by simpa using hsame⟩)
      cases hvalue : r.value with
      | none => simp [hvalue, hrest, hnone]
      | some v => simp [hvalue]
    · have hne : (key == r.key) = false := by simpa using fun h => hkey h.symm
      cases hvalue : r.value with
      | none => simp [hvalue, hrest, hkey]
      | some v => simp [hvalue, hrest, hkey, List.lookup_cons, hne]

theorem lookup_readAllSettings (t : SettingsTable) (key : String) :
    (readAllSettings t).lookup key = (t.find key).bind (·.value) :=
  lookup_of_find t.nodup key

theorem find_writeSetting (actor : String) (now : ℤ) (t : SettingsTable) (entry : String × Json)
    (key : String) : ((writeSetting actor now t entry).find key).bind (·.value) =
      if entry.1 = key then (if entry.2 = .null then none else some entry.2)
      else (t.find key).bind (·.value) := by
  unfold writeSetting
  by_cases hnull : entry.2 = .null
  · rw [if_pos hnull, Table.find_deleteWhere_key]
    by_cases hkey : entry.1 = key
    · simp [hkey, hnull]
    · simp [hkey, Ne.symm hkey]
  · rw [if_neg hnull, Table.find_upsert]
    by_cases hkey : entry.1 = key
    · simp [hkey, hnull]
    · rw [if_neg (Ne.symm hkey), if_neg hkey]

/-- Key by key, the batch does to the table what the merge does to a record. -/
theorem lookup_writeSettings (t : SettingsTable) (entries : Record) (actor : String) (now : ℤ)
    (key : String) : (readAllSettings (writeSettings t entries actor now)).lookup key =
      patchedValue key ((readAllSettings t).lookup key) entries := by
  rw [lookup_readAllSettings, lookup_readAllSettings]
  induction entries generalizing t with
  | nil => rfl
  | cons entry entries ih =>
    simp only [writeSettings, patchedValue, List.foldl_cons]
    rw [← find_writeSetting actor now t entry key]
    exact ih (writeSetting actor now t entry)

/-! ### The handler -/

inductive SettingsStatement where
  | readAllSettings
  | now
  | writeSettings (entries : Record) (actor : String) (now : ℤ)
  deriving DecidableEq

@[reducible] def SettingsStatement.Answer : SettingsStatement → Type
  | .readAllSettings => Option Record
  | .now => ℤ
  | .writeSettings _ _ _ => Option Unit

abbrev SettingsProgram := Prog SettingsStatement SettingsStatement.Answer

def onSettings (op : SettingsStatement) : SettingsProgram op.Answer := .perform op

structure SettingsOutside where
  clock : ℤ
  delivery : Delivery

def execSettings (t : SettingsTable) (outside : SettingsOutside) :
    (op : SettingsStatement) → SettingsTable × op.Answer
  | .readAllSettings => outside.delivery.deliver t (t, Env.readAllSettings t)
  | .now => (t, outside.clock)
  | .writeSettings entries actor now =>
      outside.delivery.deliver t (Env.writeSettings t entries actor now, ())

inductive SettingsResponse where
  | error (status : ℕ) (code description : String)
  | settings (items : List (String × Json × Source))
  deriving DecidableEq

def settingsUnavailable : SettingsResponse :=
  .error 503 "temporarily_unavailable" "storage unavailable"

def textJson : Option String → Json
  | some s => .string s
  | none => .null

def Settings.value (s : Settings) (key : String) : Json :=
  if key = "login_url" then textJson s.loginUrl
  else if key = "login_origins" then (s.loginOrigins.map Json.strings).getD .null
  else if key = "webauthn_origins" then .strings s.webauthnOrigins
  else if key = "logout_landing_url" then textJson s.logoutLandingUrl
  else s.stored key

def effective (s : Settings) : List (String × Json × Source) :=
  s.sources.map fun source => (source.1, s.value source.1, source.2)

def readOnlySettings : List String := ["bootstrapped_at", "do_jurisdiction"]

def knownSettings : List String :=
  (SettingsSchema.map (·.key)).filter (!readOnlySettings.contains ·)

structure SettingsRequest where
  /-- The body, or why it cannot be read. -/
  body : Except String Record
  actor : String

section Handler
variable (platform : Platform) (config : Config)

/-- The settings of the whole are validated before anything is written. -/
def patchSettingsHandler (q : SettingsRequest) : SettingsProgram SettingsResponse := do
  match q.body with
  | .error description => return .error 400 "invalid_request" description
  | .ok patch =>
    let unknown := (patch.map (·.1)).filter (!knownSettings.contains ·)
    if !unknown.isEmpty then
      return .error 400 "invalid_request"
        ("unknown settings: " ++ String.intercalate ", " unknown)
    else if patch.isEmpty then return .error 400 "invalid_request" "nothing to update"
    else
      match ← onSettings .readAllSettings with
      | none => return settingsUnavailable
      | some stored =>
        match resolveSettings platform config (mergeSettings stored patch) with
        | .error violations =>
          return .error 400 "invalid_settings" (String.intercalate "; " violations)
        | .ok resolved =>
          let now ← onSettings .now
          match ← onSettings (.writeSettings patch q.actor now) with
          | none => return settingsUnavailable
          | some _ => return .settings (effective resolved)

/-! ### Requests that interleave -/

def settingsCalls : System SettingsRequest SettingsOutside SettingsTable SettingsStatement.Answer
    SettingsResponse where
  start := patchSettingsHandler platform config
  exec := execSettings
  isOutside _ := false

abbrev SettingsLog := List (Entry SettingsStatement.Answer)

def readBy : SettingsLog → Record
  | [] => []
  | ⟨.readAllSettings, some stored⟩ :: _ => stored
  | _ :: log => readBy log

/-- What is written makes a whole that validates, over the settings read. -/
def SettingsPermits (_q : SettingsRequest) (log : SettingsLog) : SettingsStatement → Prop
  | .writeSettings entries _ _ => Accepted platform config (mergeSettings (readBy log) entries)
  | _ => True

theorem patchSettingsHandler_obeys (q : SettingsRequest) :
    Obeys (SettingsPermits platform config q) (fun _ _ => True) []
      (patchSettingsHandler platform config q) := by
  unfold patchSettingsHandler
  cases q.body with
  | error description => trivial
  | ok patch =>
    dsimp only
    split
    · trivial
    · split
      · trivial
      · refine Obeys.perform trivial fun stored => ?_
        cases stored with
        | none => trivial
        | some stored =>
          dsimp only
          cases hresolved : resolveSettings platform config (mergeSettings stored patch) with
          | error violations => trivial
          | ok resolved =>
            refine Obeys.perform trivial fun now => Obeys.perform ?_ fun written => ?_
            · show Accepted platform config (mergeSettings stored patch)
              rw [Accepted, hresolved]
              rfl
            · cases written <;> trivial

theorem settingsCalls_follow :
    (settingsCalls platform config).Follows (SettingsPermits platform config) :=
  patchSettingsHandler_obeys platform config

abbrev SettingsConfig :=
  Threads.Config SettingsRequest SettingsTable SettingsStatement.Answer SettingsResponse

abbrev SettingsLabel := Label SettingsRequest SettingsStatement SettingsOutside

/-- The patch leaves the rule's keys alone, or the others of them are as its request has read. -/
def tiedAsRead (rule : Rule) (patch read current : Record) : Bool :=
  rule.reads.all (!names patch ·) ||
    rule.reads.all fun key => names patch key || current.lookup key == read.lookup key

/-- When the next step writes settings, the keys tied to a written one are as its request read
them. -/
def writesAsRead (c : SettingsConfig) : SettingsLabel → Bool
  | .step i outside =>
      match c.threads[i]? with
      | none => true
      | some t =>
        match t.prog.head with
        | some (.writeSettings patch _ _) => !outside.delivery.isApplied ||
            (rules platform config).all fun rule =>
              tiedAsRead rule patch (readBy t.log) (readAllSettings c.shared)
        | _ => true
  | _ => true

def WritesAsRead (t : SettingsTable) : List SettingsLabel → Prop
  | [] => True
  | l :: labels =>
      writesAsRead platform config ((settingsCalls platform config).after t labels) l = true ∧
        WritesAsRead t labels

instance decidableWritesAsRead (t : SettingsTable) :
    (labels : List SettingsLabel) → Decidable (WritesAsRead platform config t labels)
  | [] => isTrue trivial
  | _ :: labels =>
      have := decidableWritesAsRead t labels
      inferInstanceAs (Decidable (_ ∧ _))

end Handler

section Runs
variable {platform : Platform} {config : Config}

/-- Over settings tied as read, a write leaves an accepted whole. -/
theorem accepted_writeSettings {t : SettingsTable} {patch read : Record} (actor : String) (now : ℤ)
    (hstored : Accepted platform config (readAllSettings t))
    (hmerged : Accepted platform config (mergeSettings read patch))
    (htied : ∀ rule ∈ rules platform config,
      tiedAsRead rule patch read (readAllSettings t) = true) :
    Accepted platform config (readAllSettings (writeSettings t patch actor now)) := by
  have hkept : ∀ key, names patch key = false →
      (readAllSettings (writeSettings t patch actor now)).lookup key =
        (readAllSettings t).lookup key := by
    intro key hkey
    rw [lookup_writeSettings, patchedValue_of_not_names hkey]
  have hnamed : ∀ key, names patch key = true →
      (readAllSettings (writeSettings t patch actor now)).lookup key =
        (mergeSettings read patch).lookup key := by
    intro key hkey
    rw [lookup_writeSettings, lookup_mergeSettings]
    exact patchedValue_of_names hkey _ _
  apply accepted_of_agreeOn hstored hmerged
  · intro key
    cases hkey : names patch key with
    | false => exact .inl (hkept key hkey)
    | true => exact .inr (hnamed key hkey)
  · intro rule hrule
    rcases Bool.or_eq_true_iff.mp (htied rule hrule) with halone | hread
    · refine .inl fun key hkey => hkept key ?_
      simpa using List.all_eq_true.mp halone key hkey
    · refine .inr fun key hkey => ?_
      cases hname : names patch key with
      | true => exact hnamed key hname
      | false =>
        have hsame := List.all_eq_true.mp hread key hkey
        rw [hname, Bool.false_or, beq_iff_eq] at hsame
        rw [hkept key hname, hsame, lookup_mergeSettings, patchedValue_of_not_names hname]

/-- In every run whose writes find the keys tied to theirs as read, the stored settings stay
accepted. -/
theorem settings_resolve_of_writes_as_read (platform : Platform) (config : Config)
    (t : SettingsTable) (labels : List SettingsLabel)
    (hstart : Accepted platform config (readAllSettings t))
    (hwrites : WritesAsRead platform config t labels) :
    Accepted platform config
      (readAllSettings ((settingsCalls platform config).after t labels).shared) := by
  refine System.run_invariant (settingsCalls_follow platform config)
    (C := WritesAsRead platform config t) (fun _ _ h => h.2)
    (J := fun c _ => Accepted platform config (readAllSettings c.shared)) hstart
    (fun _ _ h => h) ?_ (fun _ _ _ _ h => by cases h) labels hwrites
  intro labels i th op outside prog hwrites _ hstored hi hhead hperm
  have hstep := hwrites.1
  simp only [writesAsRead, hi, hhead] at hstep
  cases op with
  | readAllSettings =>
    show Accepted platform config (readAllSettings (outside.delivery.deliver _ _).1)
    rw [Delivery.deliver_state, ite_self]
    exact hstored
  | now => exact hstored
  | writeSettings patch actor now =>
    show Accepted platform config (readAllSettings (outside.delivery.deliver _ _).1)
    rw [Delivery.deliver_state]
    cases happlied : outside.delivery.isApplied with
    | false => exact hstored
    | true =>
      simp only [happlied, Bool.not_true, Bool.false_or, List.all_eq_true] at hstep
      exact accepted_writeSettings actor now hstored hperm hstep

end Runs

/-! ### Two patches that overlap -/

namespace Sample

def platform : Platform := ⟨fun _ => none, fun _ _ => []⟩

def config : Config :=
  ⟨⟨"https://op.test/", "https://op.test", "https:", "op.test", "", "", "/", "", ""⟩,
    "https://op.test", false, ""⟩

def patch (key : String) (seconds : ℤ) : SettingsLabel :=
  .spawn ⟨.ok [(key, .int seconds)], "admin"⟩

def answered (thread count : ℕ) : List SettingsLabel :=
  List.replicate count (.step thread ⟨0, .answers⟩)

/-- A session may idle for a week and last two days. -/
def patches : List SettingsLabel :=
  [patch "session.absolute_ttl" 172800, patch "session.idle_ttl" 604800]

def oneByOne : List SettingsLabel := answered 1 3 ++ answered 0 3 ++ patches

/-- Both read the settings, and then both write their key. -/
def overlapping : List SettingsLabel := answered 1 2 ++ answered 0 2 ++ answered 1 1 ++
  answered 0 1 ++ patches

end Sample

theorem settings_resolve_sample : Accepted Sample.platform Sample.config (readAllSettings
    ((settingsCalls Sample.platform Sample.config).after .empty Sample.oneByOne).shared) :=
  settings_resolve_of_writes_as_read Sample.platform Sample.config .empty Sample.oneByOne
    (by decide) (by decide +kernel)

/-- The idle timeout ends up above the absolute lifetime, which neither request has seen. -/
theorem settings_stop_resolving :
    ¬ ∀ (platform : Platform) (config : Config) (t : SettingsTable)
      (labels : List SettingsLabel), Accepted platform config (readAllSettings t) →
      Accepted platform config
        (readAllSettings ((settingsCalls platform config).after t labels).shared) := by
  intro hall
  have haccepted := hall Sample.platform Sample.config .empty Sample.overlapping
    (by decide)
  exact absurd haccepted (by decide)

end TinyOidc.Env
