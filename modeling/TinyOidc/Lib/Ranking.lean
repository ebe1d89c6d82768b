import Mathlib.Data.List.Sort
import TinyOidc.Lib.Table

/-! The items of a list beyond the first `k` of an order, and tables cut down to them. -/
namespace Ranking

variable {α : Type} [DecidableEq α] {r : α → α → Prop} [DecidableRel r]

/-- How many other items of the list come before one. -/
def rank (r : α → α → Prop) [DecidableRel r] (l : List α) (a : α) : ℕ :=
  l.countP (fun b => decide (b ≠ a ∧ r b a))

theorem rank_perm {l l' : List α} (h : l.Perm l') (a : α) : rank r l a = rank r l' a :=
  h.countP_eq _

theorem rank_head {a : α} {l : List α} (hsorted : ∀ b ∈ l, r a b)
    (hanti : ∀ b ∈ l, r b a → b = a) : rank r (a :: l) a = 0 := by
  refine List.countP_eq_zero.mpr fun b hb => ?_
  rcases List.mem_cons.mp hb with rfl | hb
  · simp
  · simp only [decide_eq_true_eq]
    rintro ⟨hne, hba⟩
    exact hne (hanti b hb hba)

theorem rank_cons_of_mem {a b : α} {l : List α} (hne : a ≠ b) (hab : r a b) :
    rank r (a :: l) b = rank r l b + 1 := by
  unfold rank
  rw [List.countP_cons_of_pos (by simp [hne, hab])]

/-- In a sorted list the items from place `k` on are those with at least `k` before them. -/
theorem mem_drop_iff {l : List α} (hsorted : l.Pairwise r) (hnodup : l.Nodup)
    (hanti : ∀ a ∈ l, ∀ b ∈ l, r a b → r b a → a = b) (k : ℕ) (a : α) :
    a ∈ l.drop k ↔ a ∈ l ∧ k ≤ rank r l a := by
  induction l generalizing k with
  | nil => simp
  | cons x l ih =>
    obtain ⟨hhead, htail⟩ := List.pairwise_cons.mp hsorted
    obtain ⟨hx, hnodup'⟩ := List.nodup_cons.mp hnodup
    have hih := ih htail hnodup' fun a ha b hb =>
      hanti a (List.mem_cons_of_mem _ ha) b (List.mem_cons_of_mem _ hb)
    cases k with
    | zero => simp
    | succ k =>
      rw [List.drop_succ_cons, hih]
      constructor
      · rintro ⟨ha, hrank⟩
        have hne : x ≠ a := fun h => hx (h ▸ ha)
        rw [rank_cons_of_mem hne (hhead a ha)]
        exact ⟨List.mem_cons_of_mem _ ha, by omega⟩
      · rintro ⟨ha, hrank⟩
        rcases List.mem_cons.mp ha with rfl | ha
        · have hzero : rank r (a :: l) a = 0 := rank_head hhead fun b hb hba =>
            hanti b (List.mem_cons_of_mem _ hb) a List.mem_cons_self hba (hhead b hb)
          omega
        · have hne : x ≠ a := fun h => hx (h ▸ ha)
          rw [rank_cons_of_mem hne (hhead a ha)] at hrank
          exact ⟨ha, by omega⟩

theorem mem_drop_insertionSort_iff [Std.Total r] [IsTrans α r] {l : List α} (hnodup : l.Nodup)
    (hanti : ∀ a ∈ l, ∀ b ∈ l, r a b → r b a → a = b) (k : ℕ) (a : α) :
    a ∈ (l.insertionSort r).drop k ↔ a ∈ l ∧ k ≤ rank r l a := by
  have hperm := List.perm_insertionSort r l
  rw [mem_drop_iff (List.pairwise_insertionSort r l) (hperm.nodup_iff.mpr hnodup)
    (fun a ha b hb => hanti a (hperm.mem_iff.mp ha) b (hperm.mem_iff.mp hb)),
    rank_perm hperm, hperm.mem_iff]

end Ranking

namespace RowTable.Table

variable {ρ κ : Type} {key : ρ → κ}

/-- As many rows as keys they may have. -/
theorem length_filter_le_of_keys {t : Table ρ key} {p : ρ → Bool} {keys : List κ}
    (h : ∀ r ∈ t.rows, p r = true → key r ∈ keys) : (t.rows.filter p).length ≤ keys.length := by
  have hnodup : ((t.rows.filter p).map key).Nodup :=
    t.nodup.sublist (List.filter_sublist.map key)
  have hsubset : (t.rows.filter p).map key ⊆ keys := by
    intro k hk
    obtain ⟨r, hr, rfl⟩ := List.mem_map.mp hk
    obtain ⟨hmem, hp⟩ := List.mem_filter.mp hr
    exact h r hmem hp
  simpa using (List.subperm_of_subset hnodup hsubset).length_le

end RowTable.Table
