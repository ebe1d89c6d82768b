import TinyOidc.Lib.ByteText
import Mathlib.Algebra.Order.Ring.Int

/-! The JSON text of an array of texts and integers, as `JSON.stringify` writes it and `JSON.parse`
reads it. What is written is read back. -/
namespace JsonText
open ByteText

/-! ### Writing -/

inductive Item where
  | text (chars : List Char)
  | int (value : ℤ)
  deriving DecidableEq, Repr

def hexDigit (n : ℕ) : Char := "0123456789abcdef".toList.getD n '0'

def quoteChar (c : Char) : List Char :=
  if c = '"' then ['\\', '"']
  else if c = '\\' then ['\\', '\\']
  else if c = '\n' then ['\\', 'n']
  else if c = '\r' then ['\\', 'r']
  else if c = '\t' then ['\\', 't']
  else if c.toNat = 8 then ['\\', 'b']
  else if c.toNat = 12 then ['\\', 'f']
  else if c.toNat < 32 then
    ['\\', 'u', '0', '0', hexDigit (c.toNat / 16), hexDigit (c.toNat % 16)]
  else [c]

def intText (n : ℤ) : List Char :=
  if n < 0 then '-' :: Nat.toDigits 10 n.natAbs else Nat.toDigits 10 n.natAbs

def Item.chars : Item → List Char
  | .text chars => '"' :: (chars.flatMap quoteChar ++ ['"'])
  | .int n => intText n

/-- The items with commas between. -/
def itemsText : List Item → List Char
  | [] => []
  | [item] => item.chars
  | item :: rest => item.chars ++ ',' :: itemsText rest

def arrayText (items : List Item) : List Char := '[' :: (itemsText items ++ [']'])

/-! ### Reading -/

/-- A number as it is written: an integer, and the power of ten that it is multiplied by. -/
structure Decimal where
  mantissa : ℤ
  exponent : ℤ
  deriving DecidableEq, Repr

/-- The integer that a number is. -/
def Decimal.toInt? (d : Decimal) : Option ℤ :=
  if 0 ≤ d.exponent then some (d.mantissa * 10 ^ d.exponent.toNat)
  else if d.mantissa % 10 ^ (-d.exponent).toNat = 0 then
    some (d.mantissa / 10 ^ (-d.exponent).toNat)
  else none

inductive Scalar where
  | text (chars : List Char)
  | number (value : Decimal)
  deriving DecidableEq, Repr

def codeUnit (a b c d : Char) : Option ℕ := do
  return 4096 * (← hexValue a) + 256 * (← hexValue b) + 16 * (← hexValue c) + (← hexValue d)

/-- The character of an escape other than `\u`. -/
def escaped (c : Char) : Option Char :=
  if c = '"' ∨ c = '\\' ∨ c = '/' then some c
  else if c = 'n' then some '\n'
  else if c = 'r' then some '\r'
  else if c = 't' then some '\t'
  else if c = 'b' then some (Char.ofNat 8)
  else if c = 'f' then some (Char.ofNat 12)
  else none

/-- A text up to its closing quote, and what follows. A surrogate without its pair is no
character. -/
def readText : List Char → Option (List Char × List Char)
  | [] => none
  | c :: rest =>
    if c = '"' then some ([], rest)
    else if c = '\\' then
      match rest with
      | 'u' :: p :: q :: r :: s :: rest => do
        let unit ← codeUnit p q r s
        if 0xD800 ≤ unit ∧ unit < 0xDC00 then
          match rest with
          | '\\' :: 'u' :: p :: q :: r :: s :: rest => do
            let low ← codeUnit p q r s
            if 0xDC00 ≤ low ∧ low < 0xE000 then
              let c := Char.ofNat (0x10000 + 1024 * (unit - 0xD800) + (low - 0xDC00))
              (readText rest).map fun read => (c :: read.1, read.2)
            else none
          | _ => none
        else if 0xDC00 ≤ unit ∧ unit < 0xE000 then none
        else (readText rest).map fun read => (Char.ofNat unit :: read.1, read.2)
      | e :: rest => do
        let c ← escaped e
        (readText rest).map fun read => (c :: read.1, read.2)
      | [] => none
    else if c.toNat < 32 then none
    else (readText rest).map fun read => (c :: read.1, read.2)

/-- Digits without a leading zero, and what follows. -/
def readDigits (text : List Char) : Option (List Char × List Char) :=
  let digits := text.takeWhile Char.isDigit
  if digits = [] ∨ (digits.head? = some '0' ∧ digits ≠ ['0']) then none
  else some (digits, text.dropWhile Char.isDigit)

/-- The digits behind a point; none when there is no point. -/
def readFraction : List Char → Option (List Char × List Char)
  | '.' :: rest =>
    let digits := rest.takeWhile Char.isDigit
    if digits = [] then none else some (digits, rest.dropWhile Char.isDigit)
  | text => some ([], text)

def readExponent : List Char → Option (ℤ × List Char)
  | c :: rest =>
    if c = 'e' ∨ c = 'E' then
      let negative := rest.head? = some '-'
      let rest := if rest.head? = some '-' ∨ rest.head? = some '+' then rest.tail else rest
      let digits := rest.takeWhile Char.isDigit
      let size : ℤ := Nat.ofDigitChars 10 digits 0
      if digits = [] then none
      else some (if negative then -size else size, rest.dropWhile Char.isDigit)
    else some (0, c :: rest)
  | [] => some (0, [])

def readNumber (text : List Char) : Option (Decimal × List Char) := do
  let negative := text.head? = some '-'
  let (digits, rest) ← readDigits (if negative then text.tail else text)
  let (fraction, rest) ← readFraction rest
  let (power, rest) ← readExponent rest
  let size : ℤ := Nat.ofDigitChars 10 (digits ++ fraction) 0
  return (⟨if negative then -size else size, power - fraction.length⟩, rest)

def isJsonSpace (c : Char) : Bool := c == ' ' || c == '\t' || c == '\n' || c == '\r'

def skipSpace (text : List Char) : List Char := text.dropWhile isJsonSpace

/-- A text or a number, with the space around it. -/
def readScalar (text : List Char) : Option (Scalar × List Char) :=
  match skipSpace text with
  | '"' :: rest => (readText rest).map fun read => (.text read.1, skipSpace read.2)
  | text => (readNumber text).map fun read => (.number read.1, skipSpace read.2)

def expect (c : Char) : List Char → Option (List Char)
  | first :: rest => if first = c then some rest else none
  | [] => none

/-- That many items, with commas between. -/
def readItems : ℕ → List Char → Option (List Scalar × List Char)
  | 0, text => some ([], text)
  | 1, text => (readScalar text).map fun read => ([read.1], read.2)
  | count + 1, text => do
    let (item, rest) ← readScalar text
    let (items, rest) ← readItems count (← expect ',' rest)
    return (item :: items, rest)

/-- The items of an array that has that many and nothing but texts and numbers. -/
def readArray (count : ℕ) (text : List Char) : Option (List Scalar) := do
  let (items, rest) ← readItems count (← expect '[' (skipSpace text))
  let rest ← expect ']' rest
  if skipSpace rest = [] then some items else none

/-! ### What is written is read back -/

def Item.scalar : Item → Scalar
  | .text chars => .text chars
  | .int n => .number ⟨n, 0⟩

@[simp] theorem toInt?_int (n : ℤ) : (⟨n, 0⟩ : Decimal).toInt? = some n := by
  simp [Decimal.toInt?]

theorem hexValue_hexDigit {n : ℕ} (h : n < 16) : hexValue (hexDigit n) = some n := by
  have hall : ∀ m : Fin 16, hexValue (hexDigit m) = some (m : ℕ) := by decide
  exact hall ⟨n, h⟩

theorem readText_quoteChar (c : Char) (rest : List Char) :
    readText (quoteChar c ++ rest) = (readText rest).map fun read => (c :: read.1, read.2) := by
  unfold quoteChar
  split
  · next h => subst h; simp [readText, escaped]
  split
  · next h => subst h; simp [readText, escaped]
  split
  · next h => subst h; simp [readText, escaped]
  split
  · next h => subst h; simp [readText, escaped]
  split
  · next h => subst h; simp [readText, escaped]
  split
  · next h =>
    have hc : c = Char.ofNat 8 := by rw [← h, Char.ofNat_toNat]
    subst hc
    simp [readText, escaped]
  split
  · next h =>
    have hc : c = Char.ofNat 12 := by rw [← h, Char.ofNat_toNat]
    subst hc
    simp [readText, escaped]
  split
  · next h =>
    have hhigh := hexValue_hexDigit (by omega : c.toNat / 16 < 16)
    have hlow := hexValue_hexDigit (by omega : c.toNat % 16 < 16)
    have hzero : hexValue '0' = some 0 := by decide
    have hunit : codeUnit '0' '0' (hexDigit (c.toNat / 16)) (hexDigit (c.toNat % 16)) =
        some c.toNat := by
      simp only [codeUnit, hzero, hhigh, hlow, Option.bind_eq_bind, Option.bind_some,
        Option.pure_def, Option.some.injEq]
      omega
    have hplain : ¬ (0xD800 ≤ c.toNat ∧ c.toNat < 0xDC00) := by omega
    have hplain' : ¬ (0xDC00 ≤ c.toNat ∧ c.toNat < 0xE000) := by omega
    simp [readText, hunit, hplain, hplain', Char.ofNat_toNat]
  · next hquote hslash _ _ _ _ _ hplain =>
    rw [List.singleton_append, readText.eq_def]
    simp only [hquote, hslash, hplain, if_false]

theorem readText_quoted (chars rest : List Char) :
    readText (chars.flatMap quoteChar ++ '"' :: rest) = some (chars, rest) := by
  induction chars with
  | nil => rw [List.flatMap_nil, List.nil_append, readText.eq_def]; simp
  | cons c chars ih =>
    rw [List.flatMap_cons, List.append_assoc, readText_quoteChar, ih]
    rfl

/-- What ends an item: no character of a number. -/
def Ends (text : List Char) : Prop := ∃ c rest, text = c :: rest ∧ (c = ',' ∨ c = ']')

theorem Ends.span {text digits : List Char} (hends : Ends text)
    (hdigits : ∀ c ∈ digits, c.isDigit = true) :
    (digits ++ text).takeWhile Char.isDigit = digits ∧
      (digits ++ text).dropWhile Char.isDigit = text := by
  obtain ⟨c, rest, rfl, hc⟩ := hends
  have hnot : c.isDigit = false := by rcases hc with rfl | rfl <;> decide
  rw [List.takeWhile_append_of_pos hdigits, List.dropWhile_append_of_pos hdigits]
  simp [hnot]

theorem toDigits_head {n : ℕ} (h : (Nat.toDigits 10 n).head? = some '0') : n = 0 := by
  induction n using Nat.strongRecOn with
  | ind n ih =>
    by_cases hsmall : n < 10
    · rw [Nat.toDigits_of_lt_base hsmall] at h
      have hall : ∀ m : Fin 10, [Nat.digitChar m].head? = some '0' → (m : ℕ) = 0 := by decide
      exact hall ⟨n, hsmall⟩ h
    · have hlarge : 10 ≤ n := by omega
      have hne : Nat.toDigits 10 (n / 10) ≠ [] := Nat.toDigits_ne_nil
      rw [Nat.toDigits_of_base_le (by omega) hlarge, List.head?_append_of_ne_nil _ hne] at h
      have hzero := ih (n / 10) (by omega) h
      omega

theorem readDigits_toDigits (n : ℕ) {text : List Char} (hends : Ends text) :
    readDigits (Nat.toDigits 10 n ++ text) = some (Nat.toDigits 10 n, text) := by
  have hdigits : ∀ c ∈ Nat.toDigits 10 n, c.isDigit = true :=
    fun c hc => Nat.isDigit_of_mem_toDigits (by omega) (by omega) hc
  obtain ⟨htake, hdrop⟩ := hends.span hdigits
  have hne : Nat.toDigits 10 n ≠ [] := Nat.toDigits_ne_nil
  have hleading : ¬ ((Nat.toDigits 10 n).head? = some '0' ∧ Nat.toDigits 10 n ≠ ['0']) := by
    rintro ⟨hhead, hlong⟩
    rw [toDigits_head hhead] at hlong
    exact hlong rfl
  unfold readDigits
  rw [htake, hdrop, if_neg (by simp only [hne, false_or]; exact hleading)]

theorem readFraction_ends {text : List Char} (hends : Ends text) :
    readFraction text = some ([], text) := by
  obtain ⟨c, rest, rfl, rfl | rfl⟩ := hends <;> rfl

theorem readExponent_ends {text : List Char} (hends : Ends text) :
    readExponent text = some (0, text) := by
  obtain ⟨c, rest, rfl, rfl | rfl⟩ := hends <;> rfl

theorem readNumber_intText (n : ℤ) {text : List Char} (hends : Ends text) :
    readNumber (intText n ++ text) = some (⟨n, 0⟩, text) := by
  have hread := readDigits_toDigits n.natAbs hends
  unfold intText readNumber
  by_cases hneg : n < 0
  · obtain ⟨m, rfl⟩ : ∃ m : ℕ, n = -(m : ℤ) := ⟨n.natAbs, by omega⟩
    rw [Int.natAbs_neg, Int.natAbs_natCast] at hread ⊢
    rw [if_pos hneg]
    simp [hread, readFraction_ends hends, readExponent_ends hends]
  · obtain ⟨m, rfl⟩ : ∃ m : ℕ, n = (m : ℤ) := ⟨n.natAbs, by omega⟩
    rw [Int.natAbs_natCast] at hread ⊢
    rw [if_neg hneg]
    have hhead : ¬ (Nat.toDigits 10 m).head? = some '-' := by
      intro hminus
      have hdigit := Nat.isDigit_of_mem_toDigits (by omega) (by omega)
        (List.mem_of_mem_head? hminus)
      exact absurd hdigit (by decide)
    simp [hhead, hread, readFraction_ends hends, readExponent_ends hends]

/-- A digit or a sign is neither space nor a quote. -/
theorem intText_head (n : ℤ) : ∃ c rest, intText n = c :: rest ∧ (c.isDigit = true ∨ c = '-') := by
  unfold intText
  split
  · exact ⟨_, _, rfl, .inr rfl⟩
  · cases hdigits : Nat.toDigits 10 n.natAbs with
    | nil => exact absurd hdigits Nat.toDigits_ne_nil
    | cons c rest =>
      have hdigit := Nat.isDigit_of_mem_toDigits (by omega : 0 < 10) (by omega)
        (hdigits ▸ List.mem_cons_self .. : c ∈ Nat.toDigits 10 n.natAbs)
      exact ⟨c, rest, rfl, .inl hdigit⟩

theorem skipSpace_ends {text : List Char} (hends : Ends text) : skipSpace text = text := by
  obtain ⟨c, rest, rfl, rfl | rfl⟩ := hends <;> rfl

theorem readScalar_chars (item : Item) {text : List Char} (hends : Ends text) :
    readScalar (item.chars ++ text) = some (item.scalar, text) := by
  cases item with
  | text chars =>
    have hskip : skipSpace ((Item.text chars).chars ++ text) =
        '"' :: (chars.flatMap quoteChar ++ '"' :: text) := by
      simp [Item.chars, skipSpace, isJsonSpace]
    unfold readScalar
    rw [hskip]
    simp [readText_quoted, skipSpace_ends hends, Item.scalar]
  | int n =>
    obtain ⟨c, rest, htext, hc⟩ := intText_head n
    have hother : ∀ d : Char, d.isDigit = false ∧ d ≠ '-' → c ≠ d := by
      rintro d ⟨hdigit, hminus⟩ rfl
      rcases hc with hc | hc
      · rw [hdigit] at hc
        cases hc
      · exact hminus hc
    have hspace : isJsonSpace c = false := by
      simp [isJsonSpace, hother ' ' (by decide), hother '\t' (by decide),
        hother '\n' (by decide), hother '\r' (by decide)]
    have hquote : c ≠ '"' := hother '"' (by decide)
    have hskip : skipSpace (intText n ++ text) = intText n ++ text := by
      rw [htext]
      simp [skipSpace, hspace]
    unfold readScalar
    rw [Item.chars, hskip]
    have hread := readNumber_intText n hends
    rw [htext, List.cons_append] at hread
    rw [htext, List.cons_append]
    simp [hquote, hread, skipSpace_ends hends, Item.scalar]

theorem readItems_itemsText (items : List Item) (rest : List Char) :
    readItems items.length (itemsText items ++ ']' :: rest) =
      some (items.map Item.scalar, ']' :: rest) := by
  induction items with
  | nil => rfl
  | cons item items ih =>
    cases items with
    | nil =>
      have hread := readScalar_chars item ⟨']', rest, rfl, .inr rfl⟩
      simp [readItems, itemsText, hread]
    | cons next items =>
      have hread := readScalar_chars item
        ⟨',', itemsText (next :: items) ++ ']' :: rest, rfl, .inl rfl⟩
      simp only [List.length_cons] at ih
      simp [readItems, itemsText, hread, expect, ih]

/-- The array that is written is the array that is read. -/
theorem readArray_arrayText (items : List Item) :
    readArray items.length (arrayText items) = some (items.map Item.scalar) := by
  have hskip : skipSpace (arrayText items) = '[' :: (itemsText items ++ [']']) := by
    simp [arrayText, skipSpace, isJsonSpace]
  have hend : skipSpace [] = [] := rfl
  unfold readArray
  rw [hskip]
  simp [expect, readItems_itemsText, hend]

end JsonText
