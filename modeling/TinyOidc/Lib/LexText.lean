import Mathlib.Data.String.Basic
import Mathlib.Tactic.Ring

/-! The order of texts by their beginnings, and decimal numbers of one width: as texts they stand
in the order of the numbers. -/
namespace LexText

section Order
variable {a b p : List Char}

theorem append_lt_append_iff : p ++ a < p ++ b ↔ a < b := by
  induction p with
  | nil => rfl
  | cons c p ih =>
    rw [List.cons_append, List.cons_append, List.cons_lt_cons_iff]
    simp [ih]

/-- Texts of one length keep their order whatever follows. -/
theorem append_lt_append_of_lt (hlength : a.length = b.length) (h : a < b) (x y : List Char) :
    a ++ x < b ++ y := by
  induction a generalizing b with
  | nil =>
    have hb : b = [] := List.length_eq_zero_iff.mp hlength.symm
    subst hb
    exact absurd h (lt_irrefl _)
  | cons c a ih =>
    cases b with
    | nil => cases hlength
    | cons d b =>
      rw [List.cons_lt_cons_iff] at h
      rw [List.cons_append, List.cons_append, List.cons_lt_cons_iff]
      rcases h with h | ⟨rfl, h⟩
      · exact .inl h
      · exact .inr ⟨rfl, ih (Nat.succ.inj hlength) h⟩

/-- What does not come before a text and does not begin with it comes after all that do. -/
theorem append_lt_of_not_prefix (hle : p ≤ a) (hnot : ¬ p <+: a) (x : List Char) : p ++ x < a := by
  induction p generalizing a with
  | nil => exact absurd List.nil_prefix hnot
  | cons c p ih =>
    cases a with
    | nil => exact absurd hle (not_le.mpr (List.nil_lt_cons c p))
    | cons d a =>
      rw [List.cons_append, List.cons_lt_cons_iff]
      rcases lt_trichotomy c d with hlt | rfl | hgt
      · exact .inl hlt
      · refine .inr ⟨rfl, ih ?_ fun h => hnot (List.cons_prefix_cons.mpr ⟨rfl, h⟩)⟩
        by_contra hlt
        exact absurd hle (not_le.mpr (List.cons_lt_cons_iff.mpr (.inr ⟨rfl, not_le.mp hlt⟩)))
      · exact absurd hle (not_le.mpr (List.cons_lt_cons_iff.mpr (.inl hgt)))

theorem le_append (p x : List Char) : p ≤ p ++ x := by
  induction p with
  | nil =>
    by_contra hlt
    exact absurd (not_le.mp hlt) (List.not_lt_nil x)
  | cons c p ih =>
    by_contra hlt
    rw [not_le, List.cons_append, List.cons_lt_cons_iff] at hlt
    rcases hlt with h | ⟨-, h⟩
    · exact lt_irrefl _ h
    · exact absurd ih (not_le.mpr h)

end Order

/-! ### Decimal numbers of one width -/

/-- The last digits of a number, that many. -/
def fixed : ℕ → ℕ → List Char
  | 0, _ => []
  | width + 1, n => fixed width (n / 10) ++ [Nat.digitChar (n % 10)]

def padStart (width : ℕ) (text : List Char) : List Char :=
  List.replicate (width - text.length) '0' ++ text

@[simp] theorem length_fixed (width n : ℕ) : (fixed width n).length = width := by
  induction width generalizing n with
  | zero => rfl
  | succ width ih => rw [fixed, List.length_append, ih, List.length_singleton]

theorem digitChar_lt {a b : ℕ} (hab : a < b) (hb : b < 10) : Nat.digitChar a < Nat.digitChar b := by
  have hall : ∀ m n : Fin 10, m < n → Nat.digitChar m < Nat.digitChar n := by decide
  exact hall ⟨a, by omega⟩ ⟨b, hb⟩ hab

theorem fixed_lt {width a b : ℕ} (hab : a < b) (hb : b < 10 ^ width) :
    fixed width a < fixed width b := by
  induction width generalizing a b with
  | zero =>
    rw [pow_zero] at hb
    omega
  | succ width ih =>
    rw [pow_succ] at hb
    rw [fixed, fixed]
    by_cases hsame : a / 10 = b / 10
    · rw [hsame, append_lt_append_iff, List.cons_lt_cons_iff]
      exact .inl (digitChar_lt (by omega) (by omega))
    · have hlt := ih (by omega : a / 10 < b / 10) (by omega)
      exact append_lt_append_of_lt (by simp) hlt _ _

theorem fixed_zero (width : ℕ) : fixed width 0 = List.replicate width '0' := by
  induction width with
  | zero => rfl
  | succ width ih =>
    rw [fixed, Nat.zero_div, ih, List.replicate_succ']
    rfl

/-- A padded number is the number in that width. -/
theorem padStart_toDigits {width n : ℕ} (hwidth : 1 ≤ width) (h : n < 10 ^ width) :
    padStart width (Nat.toDigits 10 n) = fixed width n := by
  induction width generalizing n with
  | zero => omega
  | succ width ih =>
    by_cases hsmall : n < 10
    · have hdiv : n / 10 = 0 := by omega
      have hmod : n % 10 = n := by omega
      rw [Nat.toDigits_of_lt_base hsmall, padStart, fixed, hdiv, hmod, fixed_zero,
        List.length_singleton, Nat.add_sub_cancel]
    · have hwide : 1 ≤ width := by
        by_contra hzero
        have hwidth0 : width = 0 := by omega
        rw [hwidth0] at h
        omega
      rw [pow_succ] at h
      have hlength : width + 1 - ((Nat.toDigits 10 (n / 10)).length + 1) =
          width - (Nat.toDigits 10 (n / 10)).length := by omega
      have hrest := ih hwide (by omega : n / 10 < 10 ^ width)
      rw [padStart] at hrest
      rw [Nat.toDigits_of_base_le (by omega) (by omega), padStart, List.length_append,
        List.length_singleton, hlength, ← List.append_assoc, hrest, fixed]

/-- A number that fills the width is written in it without zeros in front. -/
theorem toDigits_eq_fixed {width n : ℕ} (hlow : 10 ^ width ≤ n) (h : n < 10 ^ (width + 1)) :
    Nat.toDigits 10 n = fixed (width + 1) n := by
  have hlength : width + 1 ≤ (Nat.toDigits 10 n).length := by
    by_contra hshort
    cases width with
    | zero =>
      have hpos := @Nat.length_toDigits_pos 10 n
      omega
    | succ width =>
      have hle := (Nat.length_toDigits_le_iff (by omega : 1 < 10) (by omega : 0 < width + 1)).mp
        (by omega : (Nat.toDigits 10 n).length ≤ width + 1)
      omega
  have hpad := padStart_toDigits (by omega : 1 ≤ width + 1) h
  rw [padStart, Nat.sub_eq_zero_of_le hlength] at hpad
  exact hpad

/-- The digits of a width are read back. -/
theorem ofDigitChars_fixed {width n : ℕ} (h : n < 10 ^ width) :
    Nat.ofDigitChars 10 (fixed width n) 0 = n := by
  induction width generalizing n with
  | zero =>
    rw [pow_zero] at h
    have hn : n = 0 := by omega
    rw [hn]
    rfl
  | succ width ih =>
    rw [pow_succ] at h
    rw [fixed, Nat.ofDigitChars_append, ih (by omega : n / 10 < 10 ^ width),
      Nat.ofDigitChars_cons_digitChar_of_lt_ten (by omega), Nat.ofDigitChars_nil]
    omega

theorem fixed_isDigit {width n : ℕ} : ∀ c ∈ fixed width n, c.isDigit = true := by
  induction width generalizing n with
  | zero => simp [fixed]
  | succ width ih =>
    intro c hc
    rw [fixed, List.mem_append, List.mem_singleton] at hc
    rcases hc with hc | rfl
    · exact ih c hc
    · have hdigit : n % 10 < 10 := by omega
      simp [hdigit]

end LexText
