import TinyOidc.Audit.Redact

/-! What the scrubber leaves: of a text, one that no pattern matches, but for a masked address; of a
value, the same keys and values with the secrets replaced, where no object has the key
`__proto__`. -/
namespace TinyOidc.Audit
open JsonValues
open JsonValues.Json (Holds)
open Patterns (Regex)
open Patterns.Regex (letter anywhere)

/-! ### One text -/

/-- One character, `***`, and a domain. -/
def IsMasked (value : Text) : Prop :=
  ∃ first domain, value = first :: ascii "***" ++ atSign :: domain

/-- No pattern matches, but for a masked address. -/
structure Clean (value : Text) : Prop where
  handle : isHandle value = false
  jwt : isJwt value = false
  userAgent : isUserAgent value = false
  opaqueSecret : isOpaqueSecret value = false
  ipv4 : isIpv4 value = false
  ipv6 : isIpv6 value = false
  email : isEmail value = true → IsMasked value

def asterisk : UInt16 := 0x2A

section Masking
variable {value : Text}

/-- An address has one `@`, behind a first character. -/
theorem isEmail_split (h : isEmail value = true) : ∃ first name domain,
    value = first :: name ++ atSign :: domain ∧ atSign ∉ first :: name ∧ atSign ∉ domain := by
  have hname : ((letter isAddress).atLeast 1).avoids atSign = true := by decide
  have hdomain : (Regex.sequence [(letter isAddress).atLeast 1, unit '.',
      (letter isAddress).atLeast 1]).avoids atSign = true := by decide
  obtain ⟨name, rest, hlocal, hrest, rfl⟩ := Regex.accepts_seq.mp h
  obtain ⟨sign, domain, hsign, hafter, rfl⟩ := Regex.accepts_seq.mp hrest
  obtain ⟨u, hu, rfl⟩ := Regex.accepts_iff.mp hsign
  have hunit : u.toNat = 64 := by simpa [isUnit] using hu
  have hat : u = atSign := UInt16.toNat.inj hunit
  cases name with
  | nil => exact absurd hlocal (by decide)
  | cons first name =>
    exact ⟨first, name, domain, by simp [hat], Regex.not_mem_of_avoids hname hlocal,
      Regex.not_mem_of_avoids hdomain hafter⟩

theorem lastIndexOf_of_not_mem {u : UInt16} (h : u ∉ value) : lastIndexOf u value = none := by
  induction value with
  | nil => rfl
  | cons v rest ih =>
    rw [List.mem_cons, not_or] at h
    simp [lastIndexOf, ih h.2, Ne.symm h.1]

theorem lastIndexOf_append {u : UInt16} (name : Text) {domain : Text} (h : u ∉ domain) :
    lastIndexOf u (name ++ u :: domain) = some name.length := by
  induction name with
  | nil => simp [lastIndexOf, lastIndexOf_of_not_mem h]
  | cons v name ih => simp [lastIndexOf, ih]

theorem maskEmail_append (first : UInt16) (name : Text) {domain : Text} (h : atSign ∉ domain) :
    maskEmail (first :: name ++ atSign :: domain) =
      first :: ascii "***" ++ atSign :: domain := by
  unfold maskEmail
  rw [lastIndexOf_append (first :: name) h]
  simp

theorem clean_redacted : Clean redacted where
  handle := by decide
  jwt := by decide
  userAgent := by decide
  opaqueSecret := by decide
  ipv4 := by decide
  ipv6 := by decide
  email h := absurd h (by decide)

theorem not_accepts_of_asterisk {r : Pattern} (h : r.avoids asterisk = true)
    (hvalue : asterisk ∈ value) : r.accepts value = false := by
  rw [Bool.eq_false_iff]
  exact fun haccepts => Regex.not_mem_of_avoids h haccepts hvalue

/-- A search that finds nothing in an address finds nothing in the masked one. -/
theorem not_found_masked {r : Pattern} (hat : r.avoids atSign = true)
    (hasterisk : r.avoids asterisk = true) {first : UInt16} {name domain : Text}
    (h : r.anywhere.accepts (first :: name ++ atSign :: domain) = false) :
    r.anywhere.accepts (first :: ascii "***" ++ atSign :: domain) = false := by
  have hempty : r.anywhere.accepts [] = false := by
    rw [Bool.eq_false_iff] at h ⊢
    exact fun hfound => h (Regex.accepts_anywhere_mono List.nil_infix hfound)
  rw [Regex.accepts_anywhere_append hat, Bool.or_eq_false_iff] at h ⊢
  have hfirst : r.anywhere.accepts [first] = false := by
    rw [Bool.eq_false_iff] at h ⊢
    exact fun hfound => h.1 (Regex.accepts_anywhere_mono
      (List.prefix_append [first] name).isInfix hfound)
  have hstars : first :: ascii "***" =
      [first] ++ asterisk :: ([] ++ asterisk :: ([] ++ asterisk :: [])) := by
    congr 1
  rw [hstars, Regex.accepts_anywhere_append hasterisk, Regex.accepts_anywhere_append hasterisk,
    Regex.accepts_anywhere_append hasterisk, hfirst, hempty]
  exact ⟨rfl, h.2⟩

theorem clean_masked (hemail : isEmail value = true) (hhandle : isHandle value = false)
    (huserAgent : isUserAgent value = false) : Clean (maskEmail value) := by
  obtain ⟨first, name, domain, rfl, -, hdomain⟩ := isEmail_split hemail
  rw [maskEmail_append first name hdomain]
  have hmem : asterisk ∈ first :: ascii "***" ++ atSign :: domain :=
    List.mem_append_left _ (List.mem_cons_of_mem _ (by decide))
  exact
    { handle := not_found_masked (by decide) (by decide) hhandle
      jwt := not_accepts_of_asterisk (by decide) hmem
      userAgent := not_found_masked (by decide) (by decide) huserAgent
      opaqueSecret := by
        have hopaque : opaqueText.accepts (first :: ascii "***" ++ atSign :: domain) = false :=
          not_accepts_of_asterisk (by decide) hmem
        rw [isOpaqueSecret, hopaque, Bool.and_false]
      ipv4 := not_accepts_of_asterisk (by decide) hmem
      ipv6 := by
        have hbody : ipv6Body.accepts (first :: ascii "***" ++ atSign :: domain) = false :=
          not_accepts_of_asterisk (by decide) hmem
        rw [isIpv6, hbody, Bool.and_false]
      email := fun _ => ⟨first, domain, rfl⟩ }

/-- A masked address is its own masked form. -/
theorem maskEmail_of_masked (hemail : isEmail value = true) (hmasked : IsMasked value) :
    maskEmail value = value := by
  obtain ⟨first, domain, rfl⟩ := hmasked
  obtain ⟨first', name, domain', heq, hname, hdomain'⟩ := isEmail_split hemail
  have hdomain : atSign ∉ domain := by
    have hcount := congrArg (List.count atSign) heq
    simp only [List.count_append, List.count_cons_self, List.count_eq_zero_of_not_mem hname,
      List.count_eq_zero_of_not_mem hdomain'] at hcount
    exact List.count_eq_zero.mp (by omega)
  exact maskEmail_append first _ hdomain

theorem scrubString_clean (value : Text) : Clean (scrubString value) := by
  unfold scrubString
  split_ifs with hshaped hopaque hip hemail
  · exact clean_redacted
  · exact clean_redacted
  · exact clean_redacted
  · simp only [Bool.or_eq_true, not_or, Bool.not_eq_true] at hshaped
    exact clean_masked hemail hshaped.1.1 hshaped.2
  · simp only [Bool.or_eq_true, not_or, Bool.not_eq_true] at hshaped hopaque hip
    exact ⟨hshaped.1.1, hshaped.1.2, hshaped.2, hopaque, hip.1, hip.2,
      fun h => absurd h hemail⟩

theorem scrubString_of_clean (h : Clean value) : scrubString value = value := by
  unfold scrubString
  rw [h.handle, h.jwt, h.userAgent, h.opaqueSecret, h.ipv4, h.ipv6]
  by_cases hemail : isEmail value = true
  · simp [hemail, maskEmail_of_masked hemail (h.email hemail)]
  · simp [hemail]

end Masking

/-! ### One value -/

/-- What becomes of an entry that is assigned. -/
def scrubEntry (entry : Entry) : Entry :=
  (entry.1, if isSecretKey entry.1 then .string redacted else scrub entry.2)

theorem keys_map_scrubEntry (entries : List Entry) :
    keys (entries.map scrubEntry) = keys entries := by
  rw [keys, List.map_map]
  rfl

theorem scrub_array (items : List Json) : scrub (.array items) = .array (items.map scrub) := by
  have hitems : scrubItems items = items.map scrub := by
    induction items with
    | nil => rfl
    | cons item items ih => simp only [scrubItems, ih, List.map_cons]
  rw [scrub, hitems]

theorem scrubEntries_eq (out entries : List Entry) : scrubEntries out entries =
    (entries.map scrubEntry).foldl (fun out entry => assign out entry.1 entry.2) out := by
  induction entries generalizing out with
  | nil => rfl
  | cons entry entries ih =>
    obtain ⟨key, value⟩ := entry
    rw [scrubEntries, ih]
    rfl

/-- The properties of a scrubbed object, with their keys distinct before. -/
def scrubbedEntries (entries : List Entry) : List Entry :=
  (entries.filter fun entry => entry.1 != protoKey).map scrubEntry

theorem scrub_object {entries : List Entry} (h : (keys entries).Nodup) :
    scrub (.object entries) = .object (scrubbedEntries entries) := by
  have hnodup : (keys (entries.map scrubEntry)).Nodup := by rwa [keys_map_scrubEntry]
  rw [scrub, scrubEntries_eq, foldl_assign hnodup (by simp [keys]), List.nil_append,
    List.filter_map]
  rfl

theorem mem_scrubbedEntries {entries : List Entry} {entry : Entry} :
    entry ∈ scrubbedEntries entries ↔
      ∃ old ∈ entries, old.1 ≠ protoKey ∧ scrubEntry old = entry := by
  simp [scrubbedEntries, and_assoc]

theorem keys_scrubbedEntries (entries : List Entry) :
    (keys (scrubbedEntries entries)).Sublist (keys entries) := by
  rw [scrubbedEntries, keys_map_scrubEntry]
  exact List.filter_sublist.map _

theorem entries_of_scrub {u : Json} (h : u.isDistinct = true) {entries : List Entry}
    (heq : scrub u = .object entries) :
    ∃ olds, (keys olds).Nodup ∧ entries = scrubbedEntries olds := by
  cases u with
  | object olds =>
    obtain ⟨hnodup, -⟩ := Json.isDistinct_object.mp h
    rw [scrub_object hnodup] at heq
    cases heq
    exact ⟨olds, hnodup, rfl⟩
  | null | bool | number | string | array =>
    rw [scrub] at heq
    cases heq

/-- What a scrubbed value holds is the marker or is scrubbed itself. -/
theorem held_scrub {v w : Json} (h : v.isDistinct = true)
    (hheld : Holds (fun _ => true) w (scrub v)) :
    w = .string redacted ∨ ∃ u : Json, u.isDistinct = true ∧ scrub u = w := by
  induction v using Json.induct with
  | null | bool | number | string =>
    rw [scrub] at hheld
    cases hheld
    exact .inr ⟨_, h, by rw [scrub]⟩
  | array items ih =>
    have hitems := Json.isDistinct_array.mp h
    rw [scrub_array, Json.holds_array, ← scrub_array] at hheld
    rcases hheld with rfl | ⟨item, hitem, hheld⟩
    · exact .inr ⟨_, h, rfl⟩
    · obtain ⟨old, hold, rfl⟩ := List.mem_map.mp hitem
      exact ih old hold (hitems old hold) hheld
  | object entries ih =>
    obtain ⟨hnodup, hvalues⟩ := Json.isDistinct_object.mp h
    rw [scrub_object hnodup, Json.holds_object, ← scrub_object hnodup] at hheld
    rcases hheld with rfl | ⟨entry, hentry, -, hheld⟩
    · exact .inr ⟨_, h, rfl⟩
    · obtain ⟨old, hold, -, rfl⟩ := mem_scrubbedEntries.mp hentry
      by_cases hsecret : isSecretKey old.1 = true
      · simp only [scrubEntry, hsecret, if_true, Json.holds_string] at hheld
        exact .inl hheld
      · simp only [scrubEntry, hsecret] at hheld
        exact ih old hold (hvalues old hold) hheld

section Held
variable {v : Json} (h : v.isDistinct = true)
include h

/-- Scrubbing keeps the keys of every object distinct. -/
theorem scrub_distinct : (scrub v).isDistinct = true := by
  refine Json.everyObject_iff.mpr fun entries hheld => ?_
  rcases held_scrub h hheld with heq | ⟨u, hu, heq⟩
  · cases heq
  · obtain ⟨olds, hnodup, rfl⟩ := entries_of_scrub hu heq
    exact decide_eq_true (hnodup.sublist (keys_scrubbedEntries olds))

/-- The values of secret keys are the marker. -/
theorem secrets_scrub {entries : List Entry}
    (hheld : Holds (fun _ => true) (.object entries) (scrub v)) :
    ∀ entry ∈ entries, isSecretKey entry.1 = true → entry.2 = .string redacted := by
  rcases held_scrub h hheld with heq | ⟨u, hu, heq⟩
  · cases heq
  · obtain ⟨olds, -, rfl⟩ := entries_of_scrub hu heq
    intro entry hentry hsecret
    obtain ⟨old, -, -, rfl⟩ := mem_scrubbedEntries.mp hentry
    exact if_pos hsecret

/-- No text that is left looks like a secret. -/
theorem strings_scrub {text : Text} (hheld : Holds (fun _ => true) (.string text) (scrub v)) :
    Clean text := by
  rcases held_scrub h hheld with heq | ⟨u, -, heq⟩
  · cases heq
    exact clean_redacted
  · cases u with
    | string old =>
      rw [scrub] at heq
      cases heq
      exact scrubString_clean old
    | null | bool | number | array | object =>
      rw [scrub] at heq
      cases heq

end Held

theorem scrubEntry_scrubEntry {entry : Entry}
    (h : scrub (scrub entry.2) = scrub entry.2) :
    scrubEntry (scrubEntry entry) = scrubEntry entry := by
  by_cases hsecret : isSecretKey entry.1 = true <;> simp [scrubEntry, hsecret, h]

/-- Scrubbing twice is scrubbing once. -/
theorem scrub_scrub {v : Json} (h : v.isDistinct = true) : scrub (scrub v) = scrub v := by
  induction v using Json.induct with
  | null | bool | number => simp only [scrub]
  | string text => simp only [scrub, scrubString_of_clean (scrubString_clean text)]
  | array items ih =>
    rw [Json.isDistinct_array] at h
    rw [scrub_array, scrub_array, List.map_map]
    congr 1
    exact List.map_congr_left fun item hitem => ih item hitem (h item hitem)
  | object entries ih =>
    obtain ⟨hnodup, hvalues⟩ := Json.isDistinct_object.mp h
    have hkept : (scrubbedEntries entries).filter (fun entry => entry.1 != protoKey) =
        scrubbedEntries entries := by
      rw [List.filter_eq_self]
      intro entry hentry
      obtain ⟨old, -, hproto, rfl⟩ := mem_scrubbedEntries.mp hentry
      exact bne_iff_ne.mpr hproto
    have hsame : ∀ entry ∈ scrubbedEntries entries, scrubEntry entry = id entry := by
      intro entry hentry
      obtain ⟨old, hold, -, rfl⟩ := mem_scrubbedEntries.mp hentry
      exact scrubEntry_scrubEntry (ih old hold (hvalues old hold))
    rw [scrub_object hnodup, scrub_object (hnodup.sublist (keys_scrubbedEntries entries))]
    congr 1
    rw [scrubbedEntries, hkept, List.map_congr_left hsame, List.map_id]

/-- The `data` of an event with every suspicious value replaced. -/
def redactData (data : JsonValue) : JsonValue := ⟨scrub data.json, scrub_distinct data.distinct⟩

/-! ### What keeps its place -/

def isSuspicious (value : Text) : Bool :=
  isHandle value || isJwt value || isUserAgent value || isOpaqueSecret value || isIpv4 value ||
    isIpv6 value || isEmail value

mutual

/-- The second value is the first one, but for what stands under a secret key and for texts that a
pattern matches, in whose place another text stands. -/
def keepsPlace : Json → Json → Bool
  | .null, .null => true
  | .bool a, .bool b => a == b
  | .number a, .number b => a == b
  | .string a, .string b => isSuspicious a || a == b
  | .array a, .array b => keepsItems a b
  | .object a, .object b => keepsEntries a b
  | _, _ => false

def keepsItems : List Json → List Json → Bool
  | [], [] => true
  | a :: as, b :: bs => keepsPlace a b && keepsItems as bs
  | _, _ => false

def keepsEntries : List Entry → List Entry → Bool
  | [], [] => true
  | (k, a) :: as, (l, b) :: bs =>
      k == l && (isSecretKey k || keepsPlace a b) && keepsEntries as bs
  | _, _ => false

end

/-- No object has the key `__proto__`, but for those under secret keys. -/
def noProto (v : Json) : Bool :=
  v.everyObject (fun keys => !keys.contains protoKey) fun key => !isSecretKey key

theorem scrubString_of_not_suspicious {value : Text} (h : isSuspicious value = false) :
    scrubString value = value := by
  simp only [isSuspicious, Bool.or_eq_false_iff] at h
  simp [scrubString, h]

theorem keepsItems_map (f : Json → Json) (items : List Json) :
    keepsItems items (items.map f) = items.all fun item => keepsPlace item (f item) := by
  induction items with
  | nil => rfl
  | cons item items ih => simp only [List.map_cons, keepsItems, ih, List.all_cons]

theorem keepsEntries_scrubEntry (entries : List Entry) :
    keepsEntries entries (entries.map scrubEntry) =
      entries.all fun entry => isSecretKey entry.1 || keepsPlace entry.2 (scrub entry.2) := by
  induction entries with
  | nil => rfl
  | cons entry entries ih =>
    have hfirst : keepsEntries (entry :: entries) ((entry :: entries).map scrubEntry) =
        (entry.1 == entry.1 && (isSecretKey entry.1 ||
          keepsPlace entry.2 (scrubEntry entry).2) &&
            keepsEntries entries (entries.map scrubEntry)) := rfl
    rw [hfirst, ih, List.all_cons]
    by_cases hsecret : isSecretKey entry.1 = true <;> simp [scrubEntry, hsecret]

theorem keys_of_keepsEntries {a b : List Entry} (h : keepsEntries a b = true) :
    keys a = keys b := by
  induction a generalizing b with
  | nil =>
    cases b with
    | nil => rfl
    | cons => cases h
  | cons entry a ih =>
    cases b with
    | nil => cases h
    | cons other b =>
      simp only [keepsEntries, Bool.and_eq_true, beq_iff_eq] at h
      simp only [keys, List.map_cons, h.1.1]
      exact congrArg _ (ih h.2)

/-- Everything else keeps its place exactly when no key `__proto__` is assigned. -/
theorem keepsPlace_scrub {v : Json} (h : v.isDistinct = true) :
    keepsPlace v (scrub v) = true ↔ noProto v = true := by
  induction v using Json.induct with
  | null | bool | number => simp [scrub, keepsPlace, noProto, Json.everyObject]
  | string text =>
    refine iff_of_true ?_ rfl
    cases hsuspicious : isSuspicious text with
    | true => simp [scrub, keepsPlace, hsuspicious]
    | false => simp [scrub, keepsPlace, scrubString_of_not_suspicious hsuspicious]
  | array items ih =>
    rw [Json.isDistinct_array] at h
    rw [scrub_array, keepsPlace, keepsItems_map, List.all_eq_true, noProto, Json.everyObject_array]
    exact forall₂_congr fun item hitem => ih item hitem (h item hitem)
  | object entries ih =>
    obtain ⟨hnodup, hvalues⟩ := Json.isDistinct_object.mp h
    rw [scrub_object hnodup, keepsPlace, noProto, Json.everyObject_object]
    by_cases hproto : protoKey ∈ keys entries
    · refine iff_of_false (fun hkept => ?_) (by simp [hproto])
      have hkey : protoKey ∈ keys (scrubbedEntries entries) := keys_of_keepsEntries hkept ▸ hproto
      obtain ⟨entry, hentry, heq⟩ := List.mem_map.mp hkey
      obtain ⟨old, -, hne, rfl⟩ := mem_scrubbedEntries.mp hentry
      exact hne heq
    · have hall : scrubbedEntries entries = entries.map scrubEntry := by
        rw [scrubbedEntries, List.filter_eq_self.mpr]
        intro entry hentry
        exact bne_iff_ne.mpr fun heq => hproto (heq ▸ List.mem_map_of_mem hentry)
      have hfree : (!(keys entries).contains protoKey) = true := by simp [hproto]
      rw [hall, keepsEntries_scrubEntry, List.all_eq_true]
      simp only [hfree, true_and]
      refine forall₂_congr fun entry hentry => ?_
      rw [Bool.or_eq_true, ih entry hentry (hvalues entry hentry)]
      cases isSecretKey entry.1 <;> simp [noProto]

end TinyOidc.Audit
