import Mathlib.Algebra.Order.Floor.Div
import Mathlib.Data.List.Basic

/-! A list cut into slices of one size, the last of which may be shorter. -/
namespace Chunks

variable {α : Type}

/-- At most `count` slices. -/
def slices (size : ℕ) : ℕ → List α → List (List α)
  | 0, _ => []
  | _ + 1, [] => []
  | count + 1, a :: rest => (a :: rest).take size :: slices size count ((a :: rest).drop size)

def chunks (size : ℕ) (items : List α) : List (List α) := slices size items.length items

theorem flatten_slices {size count : ℕ} {items : List α} (hsize : 0 < size)
    (hcount : items.length ≤ count) : (slices size count items).flatten = items := by
  induction count generalizing items with
  | zero =>
    have hnil : items = [] := List.length_eq_zero_iff.mp (by omega)
    simp [slices, hnil]
  | succ count ih =>
    cases items with
    | nil => rfl
    | cons a rest =>
      have hshort : ((a :: rest).drop size).length ≤ count := by
        rw [List.length_drop]
        simp only [List.length_cons] at hcount ⊢
        omega
      rw [slices, List.flatten_cons, ih hshort, List.take_append_drop]

/-- The slices together are the list. -/
theorem flatten_chunks {size : ℕ} (hsize : 0 < size) (items : List α) :
    (chunks size items).flatten = items := flatten_slices hsize (Nat.le_refl _)

theorem mem_of_mem_slices {size count : ℕ} {items slice : List α}
    (h : slice ∈ slices size count items) : ∀ a ∈ slice, a ∈ items := by
  induction count generalizing items with
  | zero => cases h
  | succ count ih =>
    cases items with
    | nil => cases h
    | cons b rest =>
      intro a ha
      rcases List.mem_cons.mp h with rfl | h
      · exact List.mem_of_mem_take ha
      · exact List.mem_of_mem_drop (ih h a ha)

theorem mem_of_mem_chunks {size : ℕ} {items slice : List α} (h : slice ∈ chunks size items) :
    ∀ a ∈ slice, a ∈ items := mem_of_mem_slices h

theorem length_slices {size count : ℕ} {items : List α} (hsize : 0 < size)
    (hcount : items.length ≤ count) : (slices size count items).length = items.length ⌈/⌉ size := by
  induction count generalizing items with
  | zero =>
    have hnil : items = [] := List.length_eq_zero_iff.mp (by omega)
    simp [slices, hnil]
  | succ count ih =>
    cases items with
    | nil => simp [slices]
    | cons a rest =>
      have hshort : ((a :: rest).drop size).length ≤ count := by
        rw [List.length_drop]
        simp only [List.length_cons] at hcount ⊢
        omega
      rw [slices, List.length_cons, ih hshort, List.length_drop, Nat.ceilDiv_eq_add_pred_div,
        Nat.ceilDiv_eq_add_pred_div]
      simp only [List.length_cons]
      by_cases hlong : size ≤ rest.length + 1
      · have hsum : rest.length + 1 + size - 1 = rest.length + 1 - size + size - 1 + size := by
          omega
        rw [hsum, Nat.add_div_right _ hsize]
      · have hnone : rest.length + 1 - size + size - 1 = size - 1 := by omega
        have hone : rest.length + 1 + size - 1 = rest.length + size := by omega
        rw [hnone, hone, Nat.add_div_right _ hsize, Nat.div_eq_of_lt (by omega),
          Nat.div_eq_of_lt (by omega)]

/-- As many slices as the size goes into the length, rounded up. -/
theorem length_chunks {size : ℕ} (hsize : 0 < size) (items : List α) :
    (chunks size items).length = items.length ⌈/⌉ size := length_slices hsize (Nat.le_refl _)

end Chunks
