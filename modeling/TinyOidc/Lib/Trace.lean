import Mathlib.Data.List.Basic

/-! What has to come before an action of a trace. -/
namespace Trace

variable {α : Type} {P : α → List α → Prop} {done : List α}

/-- Each action finds what it needs in what was done before it. -/
def Preceded (P : α → List α → Prop) : List α → List α → Prop
  | _, [] => True
  | done, a :: rest => P a done ∧ Preceded P (done ++ [a]) rest

theorem preceded_append {first second : List α} (hfirst : Preceded P done first)
    (hsecond : Preceded P (done ++ first) second) : Preceded P done (first ++ second) := by
  induction first generalizing done with
  | nil =>
    rw [List.append_nil] at hsecond
    exact hsecond
  | cons a rest ih =>
    rw [List.append_cons] at hsecond
    exact ⟨hfirst.1, ih hfirst.2 hsecond⟩

/-- Needs that more actions cannot take back are met when they are met at the start. -/
theorem preceded_of_forall (hmono : ∀ a done more, P a done → P a (done ++ more))
    {actions : List α} (h : ∀ a ∈ actions, P a done) : Preceded P done actions := by
  induction actions generalizing done with
  | nil => trivial
  | cons a rest ih =>
    constructor
    · exact h a (List.mem_cons_self ..)
    · exact ih fun b hb => hmono b done [a] (h b (List.mem_cons_of_mem _ hb))

theorem preceded_split {actions before after : List α} {a : α} (h : Preceded P done actions)
    (hsplit : actions = before ++ a :: after) : P a (done ++ before) := by
  induction before generalizing done actions with
  | nil =>
    rw [hsplit] at h
    rw [List.append_nil]
    exact h.1
  | cons b rest ih =>
    rw [hsplit] at h
    rw [List.append_cons]
    exact ih h.2 rfl

end Trace
