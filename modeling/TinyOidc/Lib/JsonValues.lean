import Mathlib.Data.List.Nodup

/-! JSON values as a program has them: texts in UTF-16 code units, objects as their own properties
in the order of `Object.entries`. What one value holds at any depth, the assignment of a property,
and the size of the serialized text. -/
namespace JsonValues

abbrev Text := List UInt16

/-- A literal of ASCII characters. -/
def ascii (s : String) : Text := s.toList.map fun c => UInt16.ofNat c.toNat

inductive Json where
  | null
  | bool (value : Bool)
  /-- A number, by the text that it is serialized as. -/
  | number (text : Text)
  | string (text : Text)
  | array (items : List Json)
  | object (entries : List (Text × Json))

abbrev Entry := Text × Json

def keys (entries : List Entry) : List Text := entries.map Prod.fst

namespace Json

/-- Induction over the items of arrays and the values of objects. -/
@[elab_as_elim]
theorem induct {P : Json → Prop} (null : P .null) (bool : ∀ b, P (.bool b))
    (number : ∀ text, P (.number text)) (string : ∀ text, P (.string text))
    (array : ∀ items, (∀ item ∈ items, P item) → P (.array items))
    (object : ∀ entries : List Entry, (∀ entry ∈ entries, P entry.2) → P (.object entries))
    (v : Json) : P v := by
  refine @Json.rec P (fun items => ∀ item ∈ items, P item)
    (fun entries => ∀ entry ∈ entries, P entry.2) (fun entry => P entry.2)
    null bool number string array object ?_ ?_ ?_ ?_ ?_ v
  · simp
  · intro item items hitem hitems
    exact List.forall_mem_cons.mpr ⟨hitem, hitems⟩
  · simp
  · intro entry entries hentry hentries
    exact List.forall_mem_cons.mpr ⟨hentry, hentries⟩
  · exact fun _ _ hv => hv

/-! ### What a value holds -/

/-- The value `w` is the value itself, or is held by an item, or by the value of a key that is
followed. -/
inductive Holds (follows : Text → Bool) (w : Json) : Json → Prop where
  | self : Holds follows w w
  | item {items : List Json} {v : Json} (hv : v ∈ items) (h : Holds follows w v) :
      Holds follows w (.array items)
  | entry {entries : List Entry} {entry : Entry} (hentry : entry ∈ entries)
      (hkey : follows entry.1 = true) (h : Holds follows w entry.2) :
      Holds follows w (.object entries)

mutual

/-- The keys of every object that is held are as `p` says. -/
def everyObject (p : List Text → Bool) (follows : Text → Bool) : Json → Bool
  | .array items => everyItem p follows items
  | .object entries => p (keys entries) && everyEntry p follows entries
  | _ => true

def everyItem (p : List Text → Bool) (follows : Text → Bool) : List Json → Bool
  | [] => true
  | item :: items => item.everyObject p follows && everyItem p follows items

def everyEntry (p : List Text → Bool) (follows : Text → Bool) : List Entry → Bool
  | [] => true
  | (key, value) :: entries =>
      (!follows key || value.everyObject p follows) && everyEntry p follows entries

end

section Held
variable {p : List Text → Bool} {follows : Text → Bool} {w : Json}

theorem everyItem_eq (items : List Json) :
    everyItem p follows items = items.all (everyObject p follows) := by
  induction items with
  | nil => rfl
  | cons item items ih => simp only [everyItem, ih, List.all_cons]

theorem everyEntry_eq (entries : List Entry) : everyEntry p follows entries =
    entries.all fun entry => !follows entry.1 || entry.2.everyObject p follows := by
  induction entries with
  | nil => rfl
  | cons entry entries ih => simp only [everyEntry, ih, List.all_cons]

theorem everyObject_array {items : List Json} :
    (array items).everyObject p follows = true ↔
      ∀ item ∈ items, item.everyObject p follows = true := by
  rw [everyObject, everyItem_eq, List.all_eq_true]

theorem everyObject_object {entries : List Entry} :
    (object entries).everyObject p follows = true ↔ p (keys entries) = true ∧
      ∀ entry ∈ entries, follows entry.1 = true → entry.2.everyObject p follows = true := by
  rw [everyObject, everyEntry_eq, Bool.and_eq_true, List.all_eq_true]
  refine and_congr_right fun _ => forall₂_congr fun entry _ => ?_
  cases follows entry.1 <;> simp

@[simp] theorem holds_array {items : List Json} :
    Holds follows w (.array items) ↔
      w = .array items ∨ ∃ item ∈ items, Holds follows w item := by
  constructor
  · intro h
    cases h with
    | self => exact .inl rfl
    | item hv h => exact .inr ⟨_, hv, h⟩
  · rintro (rfl | ⟨item, hitem, h⟩)
    · exact .self
    · exact .item hitem h

@[simp] theorem holds_object {entries : List Entry} :
    Holds follows w (.object entries) ↔ w = .object entries ∨
      ∃ entry ∈ entries, follows entry.1 = true ∧ Holds follows w entry.2 := by
  constructor
  · intro h
    cases h with
    | self => exact .inl rfl
    | entry hentry hkey h => exact .inr ⟨_, hentry, hkey, h⟩
  · rintro (rfl | ⟨entry, hentry, hkey, h⟩)
    · exact .self
    · exact .entry hentry hkey h

@[simp] theorem holds_string {text : Text} : Holds follows w (.string text) ↔ w = .string text := by
  constructor
  · intro h
    cases h
    rfl
  · rintro rfl
    exact .self

/-- The check on objects is about those that the value holds. -/
theorem everyObject_iff {v : Json} : v.everyObject p follows = true ↔
    ∀ entries, Holds follows (.object entries) v → p (keys entries) = true := by
  induction v using induct with
  | null | bool | number | string =>
    refine iff_of_true rfl fun entries h => ?_
    cases h
  | array items ih =>
    rw [everyObject_array]
    constructor
    · intro hall entries h
      rcases holds_array.mp h with h | ⟨item, hitem, h⟩
      · cases h
      · exact (ih item hitem).mp (hall item hitem) entries h
    · exact fun hall item hitem => (ih item hitem).mpr fun entries h =>
        hall entries (.item hitem h)
  | object entries ih =>
    rw [everyObject_object]
    constructor
    · rintro ⟨hkeys, hall⟩ entries' h
      rcases holds_object.mp h with h | ⟨entry, hentry, hkey, h⟩
      · cases h
        exact hkeys
      · exact (ih entry hentry).mp (hall entry hentry hkey) entries' h
    · exact fun hall => ⟨hall entries .self, fun entry hentry hkey =>
        (ih entry hentry).mpr fun entries' h => hall entries' (.entry hentry hkey h)⟩

end Held

/-- The keys of every object are distinct, as those of an object always are. -/
def isDistinct (v : Json) : Bool := v.everyObject (fun keys => decide keys.Nodup) fun _ => true

theorem isDistinct_object {entries : List Entry} :
    (object entries).isDistinct = true ↔
      (keys entries).Nodup ∧ ∀ entry ∈ entries, entry.2.isDistinct = true := by
  simp only [isDistinct, everyObject_object, decide_eq_true_eq, forall_const]

theorem isDistinct_array {items : List Json} :
    (array items).isDistinct = true ↔ ∀ item ∈ items, item.isDistinct = true :=
  everyObject_array

end Json

structure JsonValue where
  json : Json
  distinct : json.isDistinct = true

/-! ### Assignment -/

/-- The key whose assignment sets the prototype and no property. -/
def protoKey : Text := ascii "__proto__"

/-- `out[key] = value`: a new property goes last, as it does when the keys come in the order of
`Object.entries`. -/
def assign (out : List Entry) (key : Text) (value : Json) : List Entry :=
  if key = protoKey then out
  else if key ∈ keys out then out.map fun entry => if entry.1 = key then (key, value) else entry
  else out ++ [(key, value)]

theorem assign_of_not_mem {out : List Entry} {key : Text} (hproto : key ≠ protoKey)
    (hkey : key ∉ keys out) (value : Json) : assign out key value = out ++ [(key, value)] := by
  rw [assign, if_neg hproto, if_neg hkey]

/-- Assigning entries with distinct new keys one after another adds them, but for `__proto__`. -/
theorem foldl_assign {entries out : List Entry} (hnodup : (keys entries).Nodup)
    (hnew : ∀ key ∈ keys entries, key ∉ keys out) :
    entries.foldl (fun out entry => assign out entry.1 entry.2) out =
      out ++ entries.filter fun entry => entry.1 != protoKey := by
  induction entries generalizing out with
  | nil => simp
  | cons entry entries ih =>
    obtain ⟨hfirst, hrest⟩ := List.nodup_cons.mp hnodup
    rw [List.foldl_cons]
    by_cases hproto : entry.1 = protoKey
    · rw [assign, if_pos hproto, ih hrest fun key hkey => hnew key (List.mem_cons_of_mem _ hkey)]
      simp [hproto]
    · have hlater : ∀ key ∈ keys entries, key ∉ keys (out ++ [(entry.1, entry.2)]) := by
        intro key hkey
        have hne : key ≠ entry.1 := fun heq => hfirst (heq ▸ hkey)
        have hout := hnew key (List.mem_cons_of_mem _ hkey)
        simpa [keys, hne] using hout
      rw [assign_of_not_mem hproto (hnew entry.1 List.mem_cons_self), ih hrest hlater]
      simp [hproto]

/-! ### Serialization -/

def isLead (u : UInt16) : Bool := 0xD800 ≤ u && u < 0xDC00

def isTrail (u : UInt16) : Bool := 0xDC00 ≤ u && u < 0xE000

def hexUnit (n : ℕ) : UInt16 := (ascii "0123456789abcdef").getD n 0

def escapeUnit (u : UInt16) : Text :=
  ascii "\\u" ++ [hexUnit (u.toNat / 4096), hexUnit (u.toNat / 256 % 16),
    hexUnit (u.toNat / 16 % 16), hexUnit (u.toNat % 16)]

/-- A code unit inside quotes; a surrogate here is one without its pair. -/
def quoteUnit (u : UInt16) : Text :=
  if u = 0x22 then ascii "\\\""
  else if u = 0x5C then ascii "\\\\"
  else if u = 8 then ascii "\\b"
  else if u = 9 then ascii "\\t"
  else if u = 10 then ascii "\\n"
  else if u = 12 then ascii "\\f"
  else if u = 13 then ascii "\\r"
  else if u < 0x20 || isLead u || isTrail u then escapeUnit u
  else [u]

def quoteUnits : Text → Text
  | [] => []
  | [u] => quoteUnit u
  | u :: v :: rest =>
      if isLead u && isTrail v then u :: v :: quoteUnits rest
      else quoteUnit u ++ quoteUnits (v :: rest)

def quote (text : Text) : Text := ascii "\"" ++ quoteUnits text ++ ascii "\""

mutual

/-- `JSON.stringify`. -/
def Json.stringify : Json → Text
  | .null => ascii "null"
  | .bool true => ascii "true"
  | .bool false => ascii "false"
  | .number text => text
  | .string text => quote text
  | .array items => ascii "[" ++ stringifyItems items ++ ascii "]"
  | .object entries => ascii "\x7b" ++ stringifyEntries entries ++ ascii "\x7d"

def stringifyItems : List Json → Text
  | [] => []
  | item :: items =>
      item.stringify ++ (if items.isEmpty then [] else ascii ",") ++ stringifyItems items

def stringifyEntries : List Entry → Text
  | [] => []
  | (key, value) :: entries =>
      quote key ++ ascii ":" ++ value.stringify ++ (if entries.isEmpty then [] else ascii ",") ++
        stringifyEntries entries

end

/-- The bytes of a code unit that is no part of a pair; a surrogate becomes U+FFFD. -/
def unitBytes (u : UInt16) : ℕ := if u < 0x80 then 1 else if u < 0x800 then 2 else 3

/-- The length of what `TextEncoder` gives. -/
def utf8Length : Text → ℕ
  | [] => 0
  | [u] => unitBytes u
  | u :: v :: rest =>
      if isLead u && isTrail v then 4 + utf8Length rest else unitBytes u + utf8Length (v :: rest)

end JsonValues
