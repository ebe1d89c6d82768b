import Mathlib.Data.List.Basic

/-! Batches of writes that may each be refused: a batch that succeeds is what its writes do one at
a time, and a change that commutes with the writes may wait until after them. -/
namespace Batches

variable {σ κ ε : Type} (write : σ → κ → Except ε σ)

def attempt (s : σ) : Except ε κ → σ × Except ε κ
  | .error e => (s, .error e)
  | .ok k =>
    match write s k with
    | .ok s' => (s', .ok k)
    | .error e => (s, .error e)

/-- The entries one at a time; a refused write changes nothing. -/
def attemptAll : σ → List (Except ε κ) → σ × List (Except ε κ)
  | s, [] => (s, [])
  | s, entry :: rest =>
    let first := attempt write s entry
    let others := attemptAll first.1 rest
    (others.1, first.2 :: others.2)

def openOf (entries : List (Except ε κ)) : List κ := entries.filterMap (·.toOption)

@[simp] theorem openOf_cons_error (e : ε) (entries : List (Except ε κ)) :
    openOf (.error e :: entries) = openOf entries := rfl

@[simp] theorem openOf_cons_ok (k : κ) (entries : List (Except ε κ)) :
    openOf (.ok k :: entries) = k :: openOf entries := rfl

variable {write}

theorem attempt_of_ok {s s' : σ} {k : κ} (h : write s k = .ok s') :
    attempt write s (.ok k) = (s', .ok k) := by
  simp only [attempt, h]

theorem attempt_of_error {s : σ} {k : κ} {e : ε} (h : write s k = .error e) :
    attempt write s (.ok k) = (s, .error e) := by
  simp only [attempt, h]

theorem attempt_cases (s : σ) (entry : Except ε κ) :
    (∃ e, attempt write s entry = (s, .error e)) ∨
      ∃ k s', entry = .ok k ∧ write s k = .ok s' := by
  cases entry with
  | error e => exact .inl ⟨e, rfl⟩
  | ok k =>
    cases hwrite : write s k with
    | error e => exact .inl ⟨e, attempt_of_error hwrite⟩
    | ok s' => exact .inr ⟨k, s', rfl, hwrite⟩

/-- A batch that succeeds writes every entry. -/
theorem attemptAll_of_batch {s s' : σ} {entries : List (Except ε κ)}
    (h : (openOf entries).foldlM write s = .ok s') : attemptAll write s entries =
    (s', entries) := by
  induction entries generalizing s with
  | nil =>
    cases h
    rfl
  | cons entry rest ih =>
    cases entry with
    | error e =>
      have hrest := ih h
      simp only [attemptAll, attempt, hrest]
    | ok k =>
      rw [openOf_cons_ok, List.foldlM_cons] at h
      cases hwrite : write s k with
      | error e =>
        rw [hwrite] at h
        cases h
      | ok s₁ =>
        rw [hwrite] at h
        have hrest := ih h
        simp only [attemptAll, attempt_of_ok hwrite, hrest]

/-- A change that commutes with the writes may come before them or after. -/
theorem attemptAll_commute (P : σ → Prop) (change : σ → σ)
    (hkeeps : ∀ s k s', P s → write s k = .ok s' → P s')
    (hcommutes : ∀ s k, P s → write (change s) k = (write s k).map change) {s : σ}
    (entries : List (Except ε κ)) (h : P s) :
    attemptAll write (change s) entries =
      (change (attemptAll write s entries).1, (attemptAll write s entries).2) := by
  induction entries generalizing s with
  | nil => rfl
  | cons entry rest ih =>
    cases entry with
    | error e =>
      have hrest := ih h
      simp only [attemptAll, attempt, hrest]
    | ok k =>
      have hchanged := hcommutes s k h
      cases hwrite : write s k with
      | error e =>
        rw [hwrite] at hchanged
        have hrest := ih h
        simp only [attemptAll, attempt_of_error hwrite, attempt_of_error hchanged, hrest]
      | ok s' =>
        rw [hwrite] at hchanged
        have hrest := ih (hkeeps s k s' h hwrite)
        simp only [attemptAll, attempt_of_ok hwrite, attempt_of_ok hchanged, hrest]

/-- The same for the writes of one batch. -/
theorem foldlM_commute (P : σ → Prop) (change : σ → σ)
    (hkeeps : ∀ s k s', P s → write s k = .ok s' → P s')
    (hcommutes : ∀ s k, P s → write (change s) k = (write s k).map change) {s : σ}
    (items : List κ) (h : P s) :
    items.foldlM write (change s) = (items.foldlM write s).map change := by
  induction items generalizing s with
  | nil => rfl
  | cons k rest ih =>
    rw [List.foldlM_cons, List.foldlM_cons, hcommutes s k h]
    cases hwrite : write s k with
    | error e => rfl
    | ok s' => exact ih (hkeeps s k s' h hwrite)

/-- What one write gives, a batch gives. -/
theorem foldlM_rule {R : σ → σ → Prop} (hrefl : ∀ s, R s s)
    (htrans : ∀ {a b c}, R a b → R b c → R a c) (hstep : ∀ s k s', write s k = .ok s' → R s s')
    {items : List κ} {s s' : σ} (h : items.foldlM write s = .ok s') : R s s' := by
  induction items generalizing s with
  | nil =>
    cases h
    exact hrefl _
  | cons k rest ih =>
    rw [List.foldlM_cons] at h
    cases hwrite : write s k with
    | error e =>
      rw [hwrite] at h
      cases h
    | ok s₁ =>
      rw [hwrite] at h
      exact htrans (hstep s k s₁ hwrite) (ih h)

/-- How a batch can be refused. -/
theorem foldlM_error (P : σ → Prop) (Q : ε → Prop)
    (hkeeps : ∀ s k s', P s → write s k = .ok s' → P s') {items : List κ}
    (hwrite : ∀ s, ∀ k ∈ items, ∀ e, P s → write s k = .error e → Q e) {s : σ} {e : ε} (h : P s)
    (hrefused : items.foldlM write s = .error e) : Q e := by
  induction items generalizing s with
  | nil => cases hrefused
  | cons k rest ih =>
    rw [List.foldlM_cons] at hrefused
    cases hfirst : write s k with
    | error e' =>
      rw [hfirst] at hrefused
      cases hrefused
      exact hwrite s k List.mem_cons_self _ h hfirst
    | ok s₁ =>
      rw [hfirst] at hrefused
      exact ih (fun s k hk => hwrite s k (List.mem_cons_of_mem _ hk)) (hkeeps s k s₁ h hfirst)
        hrefused

theorem foldlM_mapError {δ : Type} (write : σ → κ → Except ε σ) (f : ε → δ) (items : List κ)
    (s : σ) :
    items.foldlM (fun s k => (write s k).mapError f) s = (items.foldlM write s).mapError f := by
  induction items generalizing s with
  | nil => rfl
  | cons k rest ih =>
    rw [List.foldlM_cons, List.foldlM_cons]
    cases write s k with
    | error e => rfl
    | ok s' => exact ih s'

theorem bind_eq_ok {α β : Type} {x : Except ε α} {f : α → Except ε β} {b : β}
    (h : x >>= f = .ok b) : ∃ a, x = .ok a ∧ f a = .ok b := by
  cases x with
  | error e => cases h
  | ok a => exact ⟨a, rfl, h⟩

end Batches
