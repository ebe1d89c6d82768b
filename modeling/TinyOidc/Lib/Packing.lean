import Mathlib.Data.List.Basic

/-! Items packed in order into runs: an item joins the last run when it fits there, and opens a run
of its own when it does not. -/
namespace Packing

variable {α : Type}

def packFrom (fits : List α → α → Bool) (current : List α) : List α → List (List α)
  | [] => [current]
  | a :: rest =>
    if fits current a then packFrom fits (current ++ [a]) rest else current ::
      packFrom fits [a] rest

def pack (fits : List α → α → Bool) : List α → List (List α)
  | [] => []
  | a :: rest => packFrom fits [a] rest

section Runs
variable {fits : List α → α → Bool} {current items : List α}

theorem flatten_packFrom : (packFrom fits current items).flatten = current ++ items := by
  induction items generalizing current with
  | nil => simp [packFrom]
  | cons a rest ih =>
    rw [packFrom]
    split
    · rw [ih, List.append_assoc, List.singleton_append]
    · rw [List.flatten_cons, ih, List.singleton_append]

/-- The runs together are the items, in order. -/
theorem flatten_pack : (pack fits items).flatten = items := by
  cases items with
  | nil => rfl
  | cons a rest => exact flatten_packFrom

/-- What holds of one item, and stays true as items that fit join it, holds of every run. -/
theorem packFrom_forall {P : List α → Prop} (hone : ∀ a, P [a])
    (hjoin : ∀ run a, P run → fits run a = true → P (run ++ [a])) (hcurrent : P current) :
    ∀ run ∈ packFrom fits current items, P run := by
  induction items generalizing current with
  | nil =>
    intro run hrun
    rw [packFrom, List.mem_singleton] at hrun
    rw [hrun]
    exact hcurrent
  | cons a rest ih =>
    intro run hrun
    rw [packFrom] at hrun
    by_cases hfits : fits current a = true
    · rw [if_pos hfits] at hrun
      exact ih (hjoin current a hcurrent hfits) run hrun
    · rw [if_neg hfits] at hrun
      rcases List.mem_cons.mp hrun with rfl | hrun
      · exact hcurrent
      · exact ih (hone a) run hrun

theorem pack_forall {P : List α → Prop} (hone : ∀ a, P [a])
    (hjoin : ∀ run a, P run → fits run a = true → P (run ++ [a])) :
    ∀ run ∈ pack fits items, P run := by
  cases items with
  | nil => simp [pack]
  | cons a rest => exact packFrom_forall hone hjoin (hone a)

/-- A run of more than one item satisfies what each item that joined it was tested for. -/
theorem pack_bound {Bound : List α → Prop}
    (hbound : ∀ run a, fits run a = true → Bound (run ++ [a])) :
    ∀ run ∈ pack fits items, run ≠ [] ∧ (run.length = 1 ∨ Bound run) := by
  apply pack_forall
  · intro a
    simp
  · intro run a _ hfits
    exact ⟨by simp, .inr (hbound run a hfits)⟩

end Runs

/-! ### The loop over the runs -/

def place (fits : List α → α → Bool) (runs : List (List α)) (a : α) : List (List α) :=
  match runs.getLast? with
  | none => runs ++ [[a]]
  | some last => if fits last a then runs.dropLast ++ [last ++ [a]] else runs ++ [[a]]

theorem place_concat {fits : List α → α → Bool} (closed : List (List α)) (current : List α)
    (a : α) : place fits (closed ++ [current]) a =
      if fits current a then closed ++ [current ++ [a]] else closed ++ [current] ++ [[a]] := by
  unfold place
  simp only [List.getLast?_concat, List.dropLast_concat]

theorem foldl_place_concat {fits : List α → α → Bool} (closed : List (List α))
    (current items : List α) :
    items.foldl (place fits) (closed ++ [current]) = closed ++ packFrom fits current items := by
  induction items generalizing closed current with
  | nil => rfl
  | cons a rest ih =>
    rw [List.foldl_cons, place_concat, packFrom]
    split
    · exact ih closed (current ++ [a])
    · rw [ih (closed ++ [current]) [a], List.append_assoc, List.singleton_append]

/-- The loop that places the items one after another packs them. -/
theorem foldl_place (fits : List α → α → Bool) (items : List α) :
    items.foldl (place fits) [] = pack fits items := by
  cases items with
  | nil => rfl
  | cons a rest => exact foldl_place_concat [] [a] rest

end Packing
