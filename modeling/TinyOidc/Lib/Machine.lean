import Mathlib.Data.List.Basic

/-! Runs of a deterministic machine that answers every input. A run is the list of
its inputs, newest first, so that a suffix of the list is an earlier part of the run
and induction on the list is induction on the run. -/
namespace Machine

/-- One answered input, with the state it was given in. -/
structure Event (σ ι ρ : Type) where
  pre : σ
  input : ι
  reply : ρ

variable {σ ι ρ : Type} (step : σ → ι → σ × ρ)

def after (s : σ) : List ι → σ
  | [] => s
  | i :: is => (step (after s is) i).1

def event (s : σ) (i : ι) : Event σ ι ρ := ⟨s, i, (step s i).2⟩

/-- The events of a run, newest first. -/
def events (s : σ) : List ι → List (Event σ ι ρ)
  | [] => []
  | i :: is => event step (after step s is) i :: events s is

@[simp] theorem after_nil (s : σ) : after step s [] = s := rfl

@[simp] theorem after_cons (s : σ) (i : ι) (is : List ι) :
    after step s (i :: is) = (step (after step s is) i).1 := rfl

@[simp] theorem events_nil (s : σ) : events step s [] = [] := rfl

@[simp] theorem events_cons (s : σ) (i : ι) (is : List ι) :
    events step s (i :: is) = event step (after step s is) i :: events step s is := rfl

@[simp] theorem event_pre (s : σ) (i : ι) : (event step s i).pre = s := rfl

@[simp] theorem event_input (s : σ) (i : ι) : (event step s i).input = i := rfl

@[simp] theorem event_reply (s : σ) (i : ι) : (event step s i).reply = (step s i).2 := rfl

theorem after_append (s : σ) (later earlier : List ι) :
    after step s (later ++ earlier) = after step (after step s earlier) later := by
  induction later with
  | nil => rfl
  | cons i is ih => simp [ih]

theorem events_append (s : σ) (later earlier : List ι) :
    events step s (later ++ earlier) =
      events step (after step s earlier) later ++ events step s earlier := by
  induction later with
  | nil => rfl
  | cons i is ih => simp [ih, after_append]

/-- Every event of a run is the answer to an input of it, in the state its earlier part left. -/
theorem exists_of_mem_events {s : σ} {is : List ι} {e : Event σ ι ρ}
    (h : e ∈ events step s is) :
    ∃ later i earlier, is = later ++ i :: earlier ∧ e = event step (after step s earlier) i := by
  induction is with
  | nil => simp at h
  | cons i is ih =>
    rcases List.mem_cons.mp h with rfl | h
    · exact ⟨[], i, is, rfl, rfl⟩
    · obtain ⟨later, j, earlier, rfl, he⟩ := ih h
      exact ⟨i :: later, j, earlier, rfl, he⟩

/-- Machines that answer the inputs of a run alike run alike. -/
theorem run_congr {step' : σ → ι → σ × ρ} {is : List ι}
    (h : ∀ i ∈ is, ∀ s, step s i = step' s i) (s : σ) :
    after step s is = after step' s is ∧ events step s is = events step' s is := by
  induction is with
  | nil => exact ⟨rfl, rfl⟩
  | cons i is ih =>
    obtain ⟨ha, he⟩ := ih fun j hj => h j (List.mem_cons_of_mem _ hj)
    have hi := h i List.mem_cons_self (after step' s is)
    simp [ha, he, hi, event]

/-- What one step keeps, a run keeps. -/
theorem after_invariant {I : σ → Prop} (hstep : ∀ s i, I s → I (step s i).1) {s : σ}
    (hs : I s) (is : List ι) : I (after step s is) := by
  induction is with
  | nil => exact hs
  | cons i is ih => exact hstep _ i ih

end Machine
