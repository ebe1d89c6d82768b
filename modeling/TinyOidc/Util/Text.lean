import Mathlib.Data.List.Sort
import Mathlib.Data.List.DropRight
import Mathlib.Data.List.Lex

/-! Text and bytes as the runtime has them: sorting by UTF-16 code units, the first
occurrences of a list, and base64url (`src/util/base64url.ts`). -/
namespace TinyOidc.Util

def charUnits (c : Char) : List ℕ :=
  if c.toNat < 0x10000 then [c.toNat]
  else [0xD800 + (c.toNat - 0x10000) / 0x400, 0xDC00 + (c.toNat - 0x10000) % 0x400]

def units (s : String) : List ℕ := s.toList.flatMap charUnits

/-- The order of `Array.prototype.sort` on strings. -/
def textLe (a b : String) : Prop := units a ≤ units b

instance : DecidableRel textLe := fun a b => inferInstanceAs (Decidable (units a ≤ units b))

/-- `[...texts].sort()`. -/
def sortTexts (texts : List String) : List String := texts.insertionSort textLe

/-- `[...new Set(texts)]`. -/
def uniqueTexts (texts : List String) : List String := texts.eraseDups

@[simp] theorem mem_sortTexts {t : String} {texts : List String} :
    t ∈ sortTexts texts ↔ t ∈ texts := List.mem_insertionSort textLe

instance : IsTrans String textLe := ⟨fun _ _ _ h h' => le_trans (α := List ℕ) h h'⟩

instance : Std.Total textLe := ⟨fun a b => le_total (units a) (units b)⟩

@[simp] theorem sortTexts_sortTexts (texts : List String) :
    sortTexts (sortTexts texts) = sortTexts texts :=
  (List.pairwise_insertionSort textLe texts).insertionSort_eq

@[simp] theorem mem_uniqueTexts {t : String} {texts : List String} :
    t ∈ uniqueTexts texts ↔ t ∈ texts := by simp [uniqueTexts]

theorem nodup_uniqueTexts (texts : List String) : (uniqueTexts texts).Nodup := by
  induction hlength : texts.length using Nat.strong_induction_on generalizing texts with
  | _ n ih =>
    cases texts with
    | nil => simp [uniqueTexts]
    | cons t rest =>
      have hshort : (rest.filter fun s => !s == t).length < n := by
        have hfilter := List.length_filter_le (fun s => !s == t) rest
        simp only [List.length_cons] at hlength
        omega
      rw [uniqueTexts, List.eraseDups_cons, List.nodup_cons]
      exact ⟨by simp, ih _ hshort _ rfl⟩

theorem uniqueTexts_sublist (texts : List String) : (uniqueTexts texts).Sublist texts := by
  induction hlength : texts.length using Nat.strong_induction_on generalizing texts with
  | _ n ih =>
    cases texts with
    | nil => simp [uniqueTexts]
    | cons t rest =>
      have hshort : (rest.filter fun s => !s == t).length < n := by
        have hfilter := List.length_filter_le (fun s => !s == t) rest
        simp only [List.length_cons] at hlength
        omega
      rw [uniqueTexts, List.eraseDups_cons]
      exact ((ih _ hshort _ rfl).trans List.filter_sublist).cons_cons t

/-- A list whose set is as large has no duplicates. -/
theorem nodup_of_length_uniqueTexts {texts : List String}
    (h : (uniqueTexts texts).length = texts.length) : texts.Nodup := by
  have hsame := (uniqueTexts_sublist texts).eq_of_length h
  rw [← hsame]
  exact nodup_uniqueTexts texts

/-- The white space and line terminators of ECMAScript. -/
def isSpaceCode (n : ℕ) : Bool :=
  (9 ≤ n && n ≤ 13) || n == 0x20 || n == 0xA0 || n == 0x1680 || (0x2000 ≤ n && n ≤ 0x200A) ||
    n == 0x2028 || n == 0x2029 || n == 0x202F || n == 0x205F || n == 0x3000 || n == 0xFEFF

def isSpace (c : Char) : Bool := isSpaceCode c.toNat

/-- `text.split(" ")`. -/
def splitSpaces (text : String) : List String := (text.toList.splitOn ' ').map String.ofList

/-- `String.prototype.trim`. -/
def trim (s : String) : String :=
  String.ofList ((s.toList.dropWhile isSpace).rdropWhile isSpace)

/-- The parts of a `URL`. -/
structure Url where
  href : String
  origin : String
  protocol : String
  hostname : String
  username : String
  password : String
  pathname : String
  search : String
  hash : String
  deriving DecidableEq, Repr

def base64Alphabet : List Char :=
  "ABCDEFGHIJKLMNOPQRSTUVWXYZabcdefghijklmnopqrstuvwxyz0123456789+/".toList

def base64Char (n : ℕ) : Char := base64Alphabet.getD n 'A'

/-- The padded base64 of the HTML standard. -/
def btoa : List UInt8 → List Char
  | [] => []
  | [a] => [base64Char (a.toNat / 4), base64Char (a.toNat % 4 * 16), '=', '=']
  | [a, b] =>
      [base64Char (a.toNat / 4), base64Char (a.toNat % 4 * 16 + b.toNat / 16),
        base64Char (b.toNat % 16 * 4), '=']
  | a :: b :: c :: rest =>
      base64Char (a.toNat / 4) :: base64Char (a.toNat % 4 * 16 + b.toNat / 16) ::
        base64Char (b.toNat % 16 * 4 + c.toNat / 64) :: base64Char (c.toNat % 64) :: btoa rest

def urlChar (c : Char) : Char :=
  if c = '+' then '-' else if c = '/' then '_' else c

def encodeBase64Url (bytes : List UInt8) : String :=
  String.ofList (((btoa bytes).map urlChar).rdropWhile (· == '='))

example : encodeBase64Url [251, 255, 1] = "-_8B" := by decide

/-! ### UUIDs (`src/crypto/uuid.ts`) -/

def isHexDigit (c : Char) : Bool := c.isDigit || ('a' ≤ c && c ≤ 'f')

/-- `UUID_PATTERN`. -/
def isUuid (value : String) : Bool :=
  match value.toList.splitOn '-' with
  | [a, b, c, d, e] =>
      [a, b, c, d, e].map List.length == [8, 4, 4, 4, 12] &&
        [a, b, c, d, e].all fun group => group.all isHexDigit
  | _ => false

end TinyOidc.Util
