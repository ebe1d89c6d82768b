import TinyOidc.Lib.Table
import Mathlib.Data.List.Forall2
import Mathlib.Logic.Function.Iterate
import Mathlib.Algebra.Order.Group.Nat

/-! A list worked off from its front, at most so many items a pass. An item that is done leaves the
list; a stuck one stays where it is, and counts again in the next pass. -/
namespace Worklist

variable {ρ : Type}

def pass (stuck : ρ → Bool) : ℕ → List ρ → List ρ
  | 0, l => l
  | _ + 1, [] => []
  | limit + 1, x :: xs => if stuck x then x :: pass stuck limit xs else pass stuck limit xs

/-- Before each item that can be done stand fewer stuck ones than a pass takes. -/
def InReach (stuck : ρ → Bool) (limit : ℕ) (l : List ρ) : Prop :=
  ∀ before x after, l = before ++ x :: after → stuck x = false → before.countP stuck < limit

section Pass
variable {stuck : ρ → Bool} {limit : ℕ} {l : List ρ}

theorem inReach_cons_stuck {x : ρ} (hx : stuck x = true) :
    InReach stuck limit (x :: l) ↔ InReach stuck (limit - 1) l := by
  constructor
  · intro h before y after hl hy
    have hlt := h (x :: before) y after (by rw [hl]; rfl) hy
    rw [List.countP_cons_of_pos hx] at hlt
    omega
  · intro h before y after hl hy
    cases before with
    | nil =>
      cases hl
      rw [hx] at hy
      cases hy
    | cons z before =>
      cases hl
      have hlt := h before y after rfl hy
      rw [List.countP_cons_of_pos hx]
      omega

theorem inReach_cons_free {x : ρ} (hx : stuck x = false) :
    InReach stuck limit (x :: l) ↔ 0 < limit ∧ InReach stuck limit l := by
  have hcount : ∀ before : List ρ, (x :: before).countP stuck = before.countP stuck :=
    fun before => List.countP_cons_of_neg (by simp [hx])
  constructor
  · intro h
    refine ⟨h [] x l rfl hx, fun before y after hl hy => ?_⟩
    rw [← hcount]
    exact h (x :: before) y after (by rw [hl]; rfl) hy
  · rintro ⟨hpos, h⟩ before y after hl hy
    cases before with
    | nil => exact hpos
    | cons z before =>
      cases hl
      rw [hcount]
      exact h before y after rfl hy

/-- A pass keeps every item in reach, and puts none in reach. -/
theorem inReach_pass {taken : ℕ} (htaken : taken ≤ limit) :
    InReach stuck limit (pass stuck taken l) ↔ InReach stuck limit l := by
  induction l generalizing taken limit with
  | nil => cases taken <;> rfl
  | cons x xs ih =>
    cases taken with
    | zero => rfl
    | succ taken =>
      cases hx : stuck x with
      | true =>
        rw [pass, if_pos hx, inReach_cons_stuck hx, inReach_cons_stuck hx]
        exact ih (by omega)
      | false =>
        rw [pass, if_neg (by simp [hx]), inReach_cons_free hx, ih (by omega)]
        exact ⟨fun h => ⟨by omega, h⟩, fun h => h.2⟩

theorem length_pass_le (stuck : ρ → Bool) (limit : ℕ) (l : List ρ) :
    (pass stuck limit l).length ≤ l.length := by
  induction l generalizing limit with
  | nil => cases limit <;> simp [pass]
  | cons x xs ih =>
    cases limit with
    | zero => exact le_refl _
    | succ limit =>
      have hle := ih limit
      rw [pass]
      split
      · rw [List.length_cons, List.length_cons]
        omega
      · rw [List.length_cons]
        omega

theorem countP_pass (stuck : ρ → Bool) (limit : ℕ) (l : List ρ) :
    (pass stuck limit l).countP stuck = l.countP stuck := by
  induction l generalizing limit with
  | nil => cases limit <;> rfl
  | cons x xs ih =>
    cases limit with
    | zero => rfl
    | succ limit =>
      cases hx : stuck x with
      | true => rw [pass, if_pos hx, List.countP_cons_of_pos hx, List.countP_cons_of_pos hx, ih]
      | false =>
        have hneg : ¬ stuck x = true := by simp [hx]
        rw [pass, if_neg hneg, List.countP_cons_of_neg hneg, ih]

/-- A pass does at least one item as long as one can be done. -/
theorem length_pass_lt (h : InReach stuck limit l) (hfree : ∃ x ∈ l, stuck x = false) :
    (pass stuck limit l).length < l.length := by
  induction l generalizing limit with
  | nil =>
    obtain ⟨x, hx, -⟩ := hfree
    cases hx
  | cons x xs ih =>
    cases hx : stuck x with
    | true =>
      have hrest := (inReach_cons_stuck hx).mp h
      obtain ⟨y, hy, hfree⟩ := hfree
      have hmem : y ∈ xs := by
        rcases List.mem_cons.mp hy with rfl | hy
        · rw [hx] at hfree
          cases hfree
        · exact hy
      obtain ⟨before, after, rfl⟩ := List.append_of_mem hmem
      have hpos := hrest before y after rfl hfree
      obtain ⟨n, rfl⟩ : ∃ n, limit = n + 1 := ⟨limit - 1, by omega⟩
      rw [pass, if_pos hx, List.length_cons, List.length_cons]
      have hlt := ih hrest ⟨y, hmem, hfree⟩
      rw [Nat.add_sub_cancel] at hlt
      omega
    | false =>
      obtain ⟨hpos, -⟩ := (inReach_cons_free hx).mp h
      obtain ⟨n, rfl⟩ : ∃ n, limit = n + 1 := ⟨limit - 1, by omega⟩
      have hle := length_pass_le stuck n xs
      rw [pass, if_neg (by simp [hx]), List.length_cons]
      omega

end Pass

/-! ### Repeated passes -/

section Repeated
variable {stuck : ρ → Bool} {limit : ℕ}

theorem inReach_iterate (n : ℕ) (l : List ρ) :
    InReach stuck limit ((pass stuck limit)^[n] l) ↔ InReach stuck limit l := by
  induction n with
  | zero => rfl
  | succ n ih => rw [Function.iterate_succ_apply', inReach_pass (le_refl _), ih]

theorem countP_iterate (stuck : ρ → Bool) (limit n : ℕ) (l : List ρ) :
    ((pass stuck limit)^[n] l).countP stuck = l.countP stuck := by
  induction n with
  | zero => rfl
  | succ n ih => rw [Function.iterate_succ_apply', countP_pass, ih]

/-- Repeated passes end with stuck items only exactly when every other item is in reach. -/
theorem drains_iff (l : List ρ) :
    (∃ n, ∀ x ∈ (pass stuck limit)^[n] l, stuck x = true) ↔ InReach stuck limit l := by
  constructor
  · rintro ⟨n, h⟩
    rw [← inReach_iterate n]
    intro before x after hl hx
    rw [h x (by rw [hl]; simp)] at hx
    cases hx
  · intro h
    induction hlength : l.length using Nat.strong_induction_on generalizing l with
    | _ k ih =>
      by_cases hall : ∀ x ∈ l, stuck x = true
      · exact ⟨0, hall⟩
      · have hfree : ∃ x ∈ l, stuck x = false := by simpa using hall
        have hlt := length_pass_lt h hfree
        obtain ⟨n, hn⟩ := ih _ (hlength ▸ hlt) _ ((inReach_pass (le_refl _)).mpr h) rfl
        exact ⟨n + 1, hn⟩

/-- They do so within a pass that has no more items before it than it takes exactly when, besides,
the stuck items are no more than that. -/
theorem drains_within_iff (l : List ρ) :
    (∃ n, (∀ x ∈ (pass stuck limit)^[n + 1] l, stuck x = true) ∧
        ((pass stuck limit)^[n] l).length ≤ limit) ↔
      InReach stuck limit l ∧ l.countP stuck ≤ limit := by
  constructor
  · rintro ⟨n, hstuck, hlength⟩
    refine ⟨(drains_iff l).mp ⟨n + 1, hstuck⟩, ?_⟩
    rw [← countP_iterate stuck limit n]
    exact List.countP_le_length.trans hlength
  · rintro ⟨hreach, hcount⟩
    obtain ⟨n, hn⟩ := (drains_iff l).mpr hreach
    refine ⟨n, ?_, ?_⟩
    · intro x hx
      have hall := List.countP_eq_length.mpr hn
      have hlength := length_pass_le stuck limit ((pass stuck limit)^[n] l)
      have hsame := countP_pass stuck limit ((pass stuck limit)^[n] l)
      rw [Function.iterate_succ_apply'] at hx
      exact List.countP_eq_length.mp
        (le_antisymm List.countP_le_length (by omega)) x hx
    · rw [← List.countP_eq_length.mpr hn, countP_iterate]
      exact hcount

end Repeated

/-! ### Rows worked off in place -/

section Rows
variable (stale stuck : ρ → Bool) (Fixed : ρ → ρ → Prop)

/-- One pass over the rows: the first stale ones are fixed where they are not stuck. -/
inductive Swept : ℕ → List ρ → List ρ → Prop where
  | nil (limit : ℕ) : Swept limit [] []
  | fresh {limit : ℕ} {r : ρ} {s s' : List ρ} (hr : stale r = false) (h : Swept limit s s') :
      Swept limit (r :: s) (r :: s')
  | beyond {r : ρ} {s s' : List ρ} (hr : stale r = true) (h : Swept 0 s s') :
      Swept 0 (r :: s) (r :: s')
  | stuck {limit : ℕ} {r : ρ} {s s' : List ρ} (hr : stale r = true) (hstuck : stuck r = true)
      (h : Swept limit s s') : Swept (limit + 1) (r :: s) (r :: s')
  | fixed {limit : ℕ} {r r' : ρ} {s s' : List ρ} (hr : stale r = true) (hfree : stuck r = false)
      (hfixed : Fixed r r') (h : Swept limit s s') : Swept (limit + 1) (r :: s) (r' :: s')

variable {stale stuck Fixed}

/-- Rows whose first stale ones have been fixed where they are not stuck have been swept. -/
theorem swept_of_map [DecidableEq ρ] {g : ρ → ρ} {s : List ρ} (hs : s.Nodup) (limit : ℕ)
    (hfixed : ∀ r ∈ (s.filter stale).take limit, stuck r = false → Fixed r (g r)) :
    Swept stale stuck Fixed limit s (s.map fun r =>
      if r ∈ (s.filter stale).take limit ∧ stuck r = false then g r else r) := by
  induction s generalizing limit with
  | nil => exact .nil limit
  | cons r s ih =>
    obtain ⟨hr, hs⟩ := List.nodup_cons.mp hs
    have hnot : ∀ limit, r ∉ (s.filter stale).take limit := fun limit hmem =>
      hr (List.mem_of_mem_filter (List.mem_of_mem_take hmem))
    cases hstale : stale r with
    | false =>
      rw [List.filter_cons_of_neg (by simp [hstale])] at hfixed ⊢
      rw [List.map_cons, if_neg fun h => hnot limit h.1]
      exact .fresh hstale (ih hs limit hfixed)
    | true =>
      rw [List.filter_cons_of_pos hstale] at hfixed ⊢
      cases limit with
      | zero =>
        have hsame := ih hs 0 (by simp)
        simp only [List.take_zero, List.not_mem_nil, false_and, if_false, List.map_id'] at hsame ⊢
        exact .beyond hstale hsame
      | succ limit =>
        have hrest := ih hs limit fun x hx => hfixed x (List.mem_cons_of_mem _ hx)
        have htail : (s.map fun x =>
            if x ∈ (r :: s.filter stale).take (limit + 1) ∧ stuck x = false then g x else x) =
            s.map fun x =>
              if x ∈ (s.filter stale).take limit ∧ stuck x = false then g x else x := by
          apply List.map_congr_left
          intro x hx
          have hne : x ≠ r := fun heq => hr (heq ▸ hx)
          simp only [List.take_succ_cons, List.mem_cons, hne, false_or]
        rw [List.map_cons, htail]
        cases hstuck : stuck r with
        | true =>
          rw [if_neg (by simp)]
          exact .stuck hstale hstuck hrest
        | false =>
          rw [if_pos ⟨by simp, rfl⟩]
          exact .fixed hstale hstuck (hfixed r List.mem_cons_self hstuck) hrest

/-- The stale rows after a pass over the rows are what a pass leaves of them. -/
theorem Swept.filter {limit : ℕ} {s s' : List ρ} (h : Swept stale stuck Fixed limit s s')
    (hfresh : ∀ r r', Fixed r r' → stale r' = false) :
    s'.filter stale = pass stuck limit (s.filter stale) := by
  induction h with
  | nil limit => cases limit <;> rfl
  | fresh hr _ ih => rw [List.filter_cons_of_neg (by simp [hr]), List.filter_cons_of_neg
      (by simp [hr]), ih]
  | beyond hr _ ih => rw [List.filter_cons_of_pos hr, List.filter_cons_of_pos hr, ih, pass, pass]
  | stuck hr hstuck _ ih =>
    rw [List.filter_cons_of_pos hr, List.filter_cons_of_pos hr, ih, pass, if_pos hstuck]
  | fixed hr hfree hfixed _ ih =>
    rw [List.filter_cons_of_neg (by simp [hfresh _ _ hfixed]), List.filter_cons_of_pos hr, ih, pass,
      if_neg (by simp [hfree])]

/-- What became of a row: it is as it was, or it was stale and not stuck and has been fixed. -/
def Became (stale stuck : ρ → Bool) (Fixed : ρ → ρ → Prop) (r r' : ρ) : Prop :=
  r' = r ∨ stale r = true ∧ stuck r = false ∧ Fixed r r'

theorem Swept.became {limit : ℕ} {s s' : List ρ} (h : Swept stale stuck Fixed limit s s') :
    List.Forall₂ (Became stale stuck Fixed) s s' := by
  induction h with
  | nil limit => exact .nil
  | fresh hr _ ih => exact .cons (.inl rfl) ih
  | beyond hr _ ih => exact .cons (.inl rfl) ih
  | stuck hr hstuck _ ih => exact .cons (.inl rfl) ih
  | fixed hr hfree hfixed _ ih => exact .cons (.inr ⟨hr, hfree, hfixed⟩) ih

theorem became_trans (hfresh : ∀ r r', Fixed r r' → stale r' = false) {s s' s'' : List ρ}
    (h : List.Forall₂ (Became stale stuck Fixed) s s')
    (h' : List.Forall₂ (Became stale stuck Fixed) s' s'') :
    List.Forall₂ (Became stale stuck Fixed) s s'' := by
  induction h generalizing s'' with
  | nil => exact h'
  | cons hr _ ih =>
    cases h' with
    | cons hr' hs' =>
      refine .cons ?_ (ih hs')
      rcases hr with rfl | ⟨hstale, hfree, hfixed⟩
      · exact hr'
      · rcases hr' with rfl | ⟨hstale', -, -⟩
        · exact .inr ⟨hstale, hfree, hfixed⟩
        · rw [hfresh _ _ hfixed] at hstale'
          cases hstale'

/-- Rows are swept again and again. -/
structure Sweeps (stale stuck : ρ → Bool) (Fixed : ρ → ρ → Prop) (limit : ℕ) (rows : ℕ → List ρ) :
    Prop where
  fresh : ∀ r r', Fixed r r' → stale r' = false
  next : ∀ n, Swept stale stuck Fixed limit (rows n) (rows (n + 1))

variable {limit : ℕ} {rows : ℕ → List ρ}

theorem Sweeps.filter (h : Sweeps stale stuck Fixed limit rows) (n : ℕ) :
    (rows n).filter stale = (pass stuck limit)^[n] ((rows 0).filter stale) := by
  induction n with
  | zero => rfl
  | succ n ih => rw [(h.next n).filter h.fresh, ih, Function.iterate_succ_apply']

theorem Sweeps.became (h : Sweeps stale stuck Fixed limit rows) (n : ℕ) :
    List.Forall₂ (Became stale stuck Fixed) (rows 0) (rows n) := by
  induction n with
  | zero => exact List.forall₂_same.mpr fun r _ => .inl rfl
  | succ n ih => exact became_trans h.fresh ih (h.next n).became

/-- A relation that rows have with what they should become: fresh rows with themselves, and rows
that can be fixed exactly with what they are fixed to. -/
structure Judges (stale stuck : ρ → Bool) (Fixed : ρ → ρ → Prop) (Good : ρ → ρ → Prop) : Prop where
  fresh : ∀ r, stale r = false → Good r r
  fixed : ∀ r r', stale r = true → stuck r = false → Fixed r r' → Good r r'
  unfixed : ∀ r, stale r = true → stuck r = false → ¬ Good r r

variable {Good : ρ → ρ → Prop}

/-- All rows are as they should be exactly when only stuck ones are stale and a stuck one may stay
as it is. -/
theorem good_iff (hjudges : Judges stale stuck Fixed Good)
    (hfresh : ∀ r r', Fixed r r' → stale r' = false) {s s' : List ρ}
    (h : List.Forall₂ (Became stale stuck Fixed) s s') :
    List.Forall₂ Good s s' ↔ (∀ x ∈ s'.filter stale, stuck x = true) ∧
      ∀ r ∈ s, stale r = true → stuck r = true → Good r r := by
  induction h with
  | nil => simp
  | @cons r r' s s' hr _ ih =>
    rw [List.forall₂_cons, ih]
    have hhead : Good r r' ↔ (stale r' = true → stuck r' = true) ∧
        (stale r = true → stuck r = true → Good r r) := by
      rcases hr with rfl | ⟨hstale, hfree, hfixed⟩
      · cases hstale : stale r' with
        | false => simpa using hjudges.fresh r' hstale
        | true =>
          cases hstuck : stuck r' with
          | false => simpa using hjudges.unfixed r' hstale hstuck
          | true => simp
      · simpa [hfree, hfresh _ _ hfixed] using hjudges.fixed r r' hstale hfree hfixed
    simp only [List.mem_filter, List.mem_cons, forall_eq_or_imp, hhead, and_imp]
    tauto

/-- Repeated sweeps make all rows as they should be, the last of them over no more stale rows than
it takes, exactly when all rows that can be fixed are in reach, the stuck ones are no more than one
sweep takes, and each of these may stay as it is. -/
theorem Sweeps.complete_iff (h : Sweeps stale stuck Fixed limit rows)
    (hjudges : Judges stale stuck Fixed Good) :
    (∃ n, List.Forall₂ Good (rows 0) (rows (n + 1)) ∧ ((rows n).filter stale).length ≤ limit) ↔
      InReach stuck limit ((rows 0).filter stale) ∧
        ((rows 0).filter stale).countP stuck ≤ limit ∧
        ∀ r ∈ rows 0, stale r = true → stuck r = true → Good r r := by
  rw [← and_assoc, ← drains_within_iff, ← exists_and_right]
  apply exists_congr
  intro n
  rw [good_iff hjudges h.fresh (h.became (n + 1)), h.filter (n + 1), h.filter n]
  exact and_right_comm

end Rows

/-! ### Rows of a table -/

section Tables
open RowTable
variable {κ : Type} {key : ρ → κ} [DecidableEq ρ]

/-- Rows of a table that are assigned one after the other are assigned together. -/
theorem map_assigned {t : Table ρ key} {x x' : ρ} {xs : List ρ} (hx : x ∈ t.rows)
    (hkey : key x' = key x) (hnew : x ∉ xs) (hxs : ∀ y ∈ xs, y ∈ t.rows) (g : ρ → ρ) :
    ((t.rows.map fun r => if r = x then x' else r).map fun r => if r ∈ xs then g r else r) =
      t.rows.map fun r => if r ∈ x :: xs then (if r = x then x' else g r) else r := by
  have hout : x' ∉ xs := fun hmem => hnew (Table.eq_of_key_eq (hxs x' hmem) hx hkey ▸ hmem)
  rw [List.map_map]
  apply List.map_congr_left
  intro r _
  by_cases hr : r = x
  · simp [hr, hout]
  · simp [hr]

theorem mem_assigned {t : Table ρ key} {x x' : ρ} {xs : List ρ} (hnew : x ∉ xs)
    (hxs : ∀ y ∈ xs, y ∈ t.rows) {y : ρ} (hy : y ∈ xs) :
    y ∈ t.rows.map fun r => if r = x then x' else r := by
  have hne : y ≠ x := fun heq => hnew (heq ▸ hy)
  exact List.mem_map.mpr ⟨y, hxs y hy, if_neg hne⟩

end Tables

end Worklist
