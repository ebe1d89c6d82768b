import Mathlib.Computability.Language
import Mathlib.Data.List.Infix

/-! Regular expressions over classes of letters, for any alphabet: the language of one, its search
in a word, and the matcher that takes the derivative by each letter. -/
namespace Patterns
open Computability

inductive Regex (α : Type) where
  | fail
  | empty
  | letter (p : α → Bool)
  | alt (r s : Regex α)
  | seq (r s : Regex α)
  | star (r : Regex α)

variable {α : Type}

namespace Regex

def language : Regex α → Language α
  | fail => 0
  | empty => 1
  | letter p => {w | ∃ a, p a = true ∧ w = [a]}
  | alt r s => r.language + s.language
  | seq r s => r.language * s.language
  | star r => r.language∗

section Language
variable {r s : Regex α} {w : List α}

@[simp] theorem not_mem_fail : w ∉ (fail : Regex α).language := Language.notMem_zero w

@[simp] theorem mem_empty : w ∈ (empty : Regex α).language ↔ w = [] := Language.mem_one w

@[simp] theorem mem_letter {p : α → Bool} :
    w ∈ (letter p).language ↔ ∃ a, p a = true ∧ w = [a] := Iff.rfl

@[simp] theorem mem_alt : w ∈ (alt r s).language ↔ w ∈ r.language ∨ w ∈ s.language := Iff.rfl

@[simp] theorem mem_seq : w ∈ (seq r s).language ↔
    ∃ u ∈ r.language, ∃ v ∈ s.language, u ++ v = w := Iff.rfl

end Language

/-! ### The matcher -/

def isNullable : Regex α → Bool
  | fail | letter _ => false
  | empty | star _ => true
  | alt r s => r.isNullable || s.isNullable
  | seq r s => r.isNullable && s.isNullable

def derive (a : α) : Regex α → Regex α
  | fail | empty => fail
  | letter p => if p a then empty else fail
  | alt r s => alt (r.derive a) (s.derive a)
  | seq r s =>
      if r.isNullable then alt (seq (r.derive a) s) (s.derive a) else seq (r.derive a) s
  | star r => seq (r.derive a) (star r)

def accepts : Regex α → List α → Bool
  | r, [] => r.isNullable
  | r, a :: w => (r.derive a).accepts w

theorem isNullable_iff {r : Regex α} : r.isNullable = true ↔ [] ∈ r.language := by
  induction r with
  | fail | empty | letter p => simp [isNullable]
  | alt r s ihr ihs | seq r s ihr ihs => simp [isNullable, ihr, ihs]
  | star r ih => simp [isNullable, language, Language.nil_mem_kstar]

theorem cons_mem_mul {l m : Language α} {a : α} {w : List α} :
    a :: w ∈ l * m ↔
      (∃ u v, a :: u ∈ l ∧ v ∈ m ∧ u ++ v = w) ∨ ([] ∈ l ∧ a :: w ∈ m) := by
  rw [Language.mem_mul]
  constructor
  · rintro ⟨u, hu, v, hv, heq⟩
    cases u with
    | nil => exact .inr ⟨hu, heq ▸ hv⟩
    | cons b u =>
      obtain ⟨rfl, hrest⟩ := List.cons.inj heq
      exact .inl ⟨u, v, hu, hv, hrest⟩
  · rintro (⟨u, v, hu, hv, rfl⟩ | ⟨hnil, hw⟩)
    · exact ⟨a :: u, hu, v, hv, rfl⟩
    · exact ⟨[], hnil, a :: w, hw, rfl⟩

theorem cons_mem_kstar {l : Language α} {a : α} {w : List α} :
    a :: w ∈ l∗ ↔ ∃ u v, a :: u ∈ l ∧ v ∈ l∗ ∧ u ++ v = w := by
  rw [Language.mem_kstar_iff_exists_nonempty]
  constructor
  · rintro ⟨parts, heq, hparts⟩
    cases parts with
    | nil => cases heq
    | cons part parts =>
      obtain ⟨hpart, hne⟩ := hparts part List.mem_cons_self
      cases part with
      | nil => exact absurd rfl hne
      | cons b u =>
        obtain ⟨rfl, rfl⟩ := List.cons.inj heq
        refine ⟨u, parts.flatten, hpart, Language.join_mem_kstar fun y hy => ?_, rfl⟩
        exact (hparts y (List.mem_cons_of_mem _ hy)).1
  · rintro ⟨u, v, hu, hv, rfl⟩
    obtain ⟨parts, rfl, hparts⟩ := Language.mem_kstar_iff_exists_nonempty.mp hv
    refine ⟨(a :: u) :: parts, rfl, fun y hy => ?_⟩
    rcases List.mem_cons.mp hy with rfl | hy
    · exact ⟨hu, List.cons_ne_nil a u⟩
    · exact hparts y hy

/-- The derivative by a letter has what follows the letter. -/
theorem mem_derive {r : Regex α} {a : α} {w : List α} :
    w ∈ (r.derive a).language ↔ a :: w ∈ r.language := by
  induction r generalizing w with
  | fail | empty => simp [derive]
  | letter p => by_cases hp : p a = true <;> simp [derive, hp]
  | alt r s ihr ihs => simp only [derive, mem_alt, ihr, ihs]
  | seq r s ihr ihs =>
    have hfirst : w ∈ (seq (r.derive a) s).language ↔
        ∃ u v, a :: u ∈ r.language ∧ v ∈ s.language ∧ u ++ v = w := by
      simp only [mem_seq, ihr, exists_and_left]
    rw [language, cons_mem_mul, ← hfirst, ← isNullable_iff, ← ihs]
    by_cases hr : r.isNullable = true <;> simp only [derive, hr, if_true, mem_alt] <;> simp
  | star r ih =>
    rw [language, cons_mem_kstar, derive, mem_seq]
    simp only [ih, exists_and_left]
    rfl

theorem accepts_iff {r : Regex α} {w : List α} : r.accepts w = true ↔ w ∈ r.language := by
  induction w generalizing r with
  | nil => exact isNullable_iff
  | cons a w ih => exact ih.trans mem_derive

theorem accepts_seq {r s : Regex α} {w : List α} :
    (seq r s).accepts w = true ↔
      ∃ u v, r.accepts u = true ∧ s.accepts v = true ∧ u ++ v = w := by
  rw [accepts_iff, mem_seq]
  simp only [accepts_iff, exists_and_left]

/-! ### Letters that no word has -/

/-- No class of the expression has the letter. -/
def avoids (a : α) : Regex α → Bool
  | fail | empty => true
  | letter p => !p a
  | alt r s | seq r s => r.avoids a && s.avoids a
  | star r => r.avoids a

theorem not_mem_of_avoids {r : Regex α} {a : α} {w : List α} (h : r.avoids a = true)
    (hw : r.accepts w = true) : a ∉ w := by
  rw [accepts_iff] at hw
  induction r generalizing w with
  | fail => exact absurd hw not_mem_fail
  | empty =>
    rw [mem_empty] at hw
    simp [hw]
  | letter p =>
    obtain ⟨b, hb, rfl⟩ := hw
    rw [List.mem_singleton]
    rintro rfl
    simp [avoids, hb] at h
  | alt r s ihr ihs =>
    simp only [avoids, Bool.and_eq_true] at h
    rcases mem_alt.mp hw with hw | hw
    · exact ihr h.1 hw
    · exact ihs h.2 hw
  | seq r s ihr ihs =>
    simp only [avoids, Bool.and_eq_true] at h
    obtain ⟨u, hu, v, hv, rfl⟩ := mem_seq.mp hw
    simp [ihr h.1 hu, ihs h.2 hv]
  | star r ih =>
    obtain ⟨parts, rfl, hparts⟩ := Language.mem_kstar.mp hw
    rw [List.mem_flatten]
    rintro ⟨part, hpart, hmem⟩
    exact ih h (hparts part hpart) hmem

/-! ### Repetitions, words and the search -/

def times (r : Regex α) : ℕ → Regex α
  | 0 => empty
  | n + 1 => seq r (r.times n)

def atLeast (n : ℕ) (r : Regex α) : Regex α := seq (r.times n) (star r)

def between (m n : ℕ) (r : Regex α) : Regex α := seq (r.times m) ((alt empty r).times (n - m))

def sequence (rs : List (Regex α)) : Regex α := rs.foldr seq empty

def oneOf (rs : List (Regex α)) : Regex α := rs.foldr alt fail

def word [BEq α] (w : List α) : Regex α := sequence (w.map fun a => letter (· == a))

def any : Regex α := letter fun _ => true

def anywhere (r : Regex α) : Regex α := seq (star any) (seq r (star any))

theorem accepts_star_any (w : List α) : (star any : Regex α).accepts w = true := by
  rw [accepts_iff, language, Language.mem_kstar]
  refine ⟨w.map fun a => [a], (List.flatMap_singleton' w).symm, fun y hy => ?_⟩
  obtain ⟨a, -, rfl⟩ := List.mem_map.mp hy
  exact ⟨a, rfl, rfl⟩

theorem accepts_anywhere {r : Regex α} {w : List α} :
    r.anywhere.accepts w = true ↔ ∃ v, v <:+: w ∧ r.accepts v = true := by
  unfold anywhere
  simp only [accepts_seq, accepts_star_any, true_and]
  constructor
  · rintro ⟨u, _, ⟨v, x, hv, rfl⟩, rfl⟩
    exact ⟨v, ⟨u, x, by simp⟩, hv⟩
  · rintro ⟨v, ⟨u, x, rfl⟩, hv⟩
    exact ⟨u, v ++ x, ⟨v, x, hv, rfl⟩, by simp⟩

theorem accepts_anywhere_mono {r : Regex α} {v w : List α} (h : v <:+: w)
    (hv : r.anywhere.accepts v = true) : r.anywhere.accepts w = true := by
  obtain ⟨x, hx, hr⟩ := accepts_anywhere.mp hv
  exact accepts_anywhere.mpr ⟨x, hx.trans h, hr⟩

theorem infix_of_not_mem {v a b : List α} {sep : α} (hsep : sep ∉ v)
    (h : v <:+: a ++ sep :: b) : v <:+: a ∨ v <:+: b := by
  obtain ⟨u, x, heq⟩ := h
  rw [List.append_assoc, List.append_eq_append_iff] at heq
  rcases heq with ⟨c, rfl, hc⟩ | ⟨c, rfl, hc⟩
  · rcases List.append_eq_append_iff.mp hc with ⟨d, rfl, hd⟩ | ⟨d, rfl, hd⟩
    · exact .inl ⟨u, d, by simp⟩
    · cases d with
      | nil => exact .inl ⟨u, [], by simp⟩
      | cons s d =>
        obtain ⟨rfl, -⟩ := List.cons.inj hd
        exact absurd (by simp) hsep
  · cases c with
    | nil =>
      cases v with
      | nil => exact .inl (List.nil_infix)
      | cons s v =>
        obtain ⟨rfl, -⟩ := List.cons.inj hc
        exact absurd List.mem_cons_self hsep
    | cons s c =>
      obtain ⟨-, rfl⟩ := List.cons.inj hc
      exact .inr ⟨c, x, by simp⟩

/-- A search does not reach over a letter that the expression avoids. -/
theorem accepts_anywhere_append {r : Regex α} {sep : α} (h : r.avoids sep = true)
    (a b : List α) :
    r.anywhere.accepts (a ++ sep :: b) = (r.anywhere.accepts a || r.anywhere.accepts b) := by
  rw [Bool.eq_iff_iff, Bool.or_eq_true]
  constructor
  · intro hab
    obtain ⟨v, hv, hr⟩ := accepts_anywhere.mp hab
    rcases infix_of_not_mem (not_mem_of_avoids h hr) hv with hv | hv
    · exact .inl (accepts_anywhere.mpr ⟨v, hv, hr⟩)
    · exact .inr (accepts_anywhere.mpr ⟨v, hv, hr⟩)
  · rintro (ha | hb)
    · exact accepts_anywhere_mono (List.prefix_append a _).isInfix ha
    · exact accepts_anywhere_mono ⟨a ++ [sep], [], by simp⟩ hb

end Regex
end Patterns
