import Mathlib.Algebra.Order.BigOperators.Group.List
import Mathlib.Algebra.Order.Ring.Nat
import Mathlib.Data.List.Basic
import TinyOidc.Lib.Lists
import TinyOidc.Lib.Machine

/-! Programs that call operations on a shared state, and threads of them that interleave one
operation at a time. A thread keeps the log of its own calls, newest first, and what a program
may call is stated over that log. -/
namespace Threads
open Lists (count_filterMap_cons)

/-- A program ends with a value, or calls one operation and goes on with the answer. -/
inductive Prog (ω : Type) (ρ : ω → Type) (α : Type) where
  | done (a : α)
  | call (op : ω) (next : ρ op → Prog ω ρ α)

/-- An answered call. -/
abbrev Entry {ω : Type} (ρ : ω → Type) := Sigma ρ

variable {ω : Type} {ρ : ω → Type} {α β : Type}

namespace Prog

def bind : Prog ω ρ α → (α → Prog ω ρ β) → Prog ω ρ β
  | done a, f => f a
  | call op next, f => call op fun r => (next r).bind f

instance : Monad (Prog ω ρ) where
  pure := done
  bind := bind

def perform (op : ω) : Prog ω ρ (ρ op) := call op done

def head : Prog ω ρ α → Option ω
  | done _ => none
  | call op _ => some op

def result : Prog ω ρ α → Option α
  | done a => some a
  | call _ _ => none

theorem result_eq_some {p : Prog ω ρ α} {a : α} : p.result = some a ↔ p = done a := by
  cases p <;> simp [result]

def run {σ : Type} (exec : σ → (op : ω) → σ × ρ op) : Prog ω ρ α → σ → σ × α
  | done a, s => (s, a)
  | call op next, s => (next (exec s op).2).run exec (exec s op).1

section Run
variable {σ : Type} (exec : σ → (op : ω) → σ × ρ op) (s : σ)

@[simp] theorem run_pure (a : α) : (pure a : Prog ω ρ α).run exec s = (s, a) := rfl

@[simp] theorem run_perform (op : ω) : (perform op : Prog ω ρ (ρ op)).run exec s = exec s op := rfl

@[simp] theorem run_bind (p : Prog ω ρ β) (f : β → Prog ω ρ α) :
    (p >>= f).run exec s = (f (p.run exec s).2).run exec (p.run exec s).1 := by
  induction p generalizing s with
  | done b => rfl
  | call op next ih => exact ih (exec s op).2 (exec s op).1

end Run

/-- Every operation the program calls from `log` on is permitted by what it has seen before,
and the program ends as `post` says. -/
def Obeys (permits : List (Entry ρ) → ω → Prop) (post : List (Entry ρ) → α → Prop) :
    List (Entry ρ) → Prog ω ρ α → Prop
  | log, done a => post log a
  | log, call op next => permits log op ∧ ∀ r, (next r).Obeys permits post (⟨op, r⟩ :: log)

variable {permits : List (Entry ρ) → ω → Prop} {post : List (Entry ρ) → α → Prop}
  {log : List (Entry ρ)}

@[simp] theorem obeys_pure {a : α} :
    Obeys permits post log (pure a : Prog ω ρ α) ↔ post log a := Iff.rfl

@[simp] theorem obeys_done {a : α} :
    Obeys permits post log (done a : Prog ω ρ α) ↔ post log a := Iff.rfl

@[simp] theorem obeys_call {op : ω} {next : ρ op → Prog ω ρ α} :
    Obeys permits post log (call op next) ↔
      permits log op ∧ ∀ r, Obeys permits post (⟨op, r⟩ :: log) (next r) := Iff.rfl

@[simp] theorem obeys_perform_bind {op : ω} {f : ρ op → Prog ω ρ α} :
    Obeys permits post log (perform op >>= f) ↔
      permits log op ∧ ∀ r, Obeys permits post (⟨op, r⟩ :: log) (f r) := Iff.rfl

/-- The rule of a call: it is permitted, and the rest starts from the log with its answer. -/
theorem Obeys.perform {op : ω} {f : ρ op → Prog ω ρ α} (hop : permits log op)
    (hf : ∀ r, Obeys permits post (⟨op, r⟩ :: log) (f r)) :
    Obeys permits post log (Prog.perform op >>= f) := ⟨hop, hf⟩

/-- The rule of sequence: the second program starts from the log the first one leaves. -/
theorem Obeys.bind {p : Prog ω ρ β} {f : β → Prog ω ρ α}
    (h : Obeys permits (fun log b => Obeys permits post log (f b)) log p) :
    Obeys permits post log (p >>= f) := by
  induction p generalizing log with
  | done b => exact h
  | call op next ih => exact ⟨h.1, fun r => ih r (h.2 r)⟩

/-- The rule of consequence. -/
theorem Obeys.mono {post' : List (Entry ρ) → α → Prop} {p : Prog ω ρ α}
    (h : Obeys permits post log p) (hpost : ∀ log a, post log a → post' log a) :
    Obeys permits post' log p := by
  induction p generalizing log with
  | done a => exact hpost log a h
  | call op next ih => exact ⟨h.1, fun r => ih r (h.2 r)⟩

theorem Obeys.weaken {permits' : List (Entry ρ) → ω → Prop} {p : Prog ω ρ α}
    (h : Obeys permits post log p) (hpermits : ∀ log op, permits log op → permits' log op) :
    Obeys permits' post log p := by
  induction p generalizing log with
  | done a => exact h
  | call op next ih => exact ⟨hpermits log op h.1, fun r => ih r (h.2 r)⟩

/-- The rule of conjunction. -/
theorem Obeys.and {permits' : List (Entry ρ) → ω → Prop} {post' : List (Entry ρ) → α → Prop}
    {p : Prog ω ρ α} (h : Obeys permits post log p) (h' : Obeys permits' post' log p) :
    Obeys (fun log op => permits log op ∧ permits' log op)
      (fun log a => post log a ∧ post' log a) log p := by
  induction p generalizing log with
  | done a => exact ⟨h, h'⟩
  | call op next ih => exact ⟨⟨h.1, h'.1⟩, fun r => ih r (h.2 r) (h'.2 r)⟩

/-- A log only grows. -/
theorem Obeys.growing {p : Prog ω ρ α} (h : Obeys permits post log p) :
    Obeys permits (fun log' a => log ⊆ log' ∧ post log' a) log p := by
  induction p generalizing log with
  | done a => exact ⟨List.Subset.refl log, h⟩
  | call op next ih =>
    refine ⟨h.1, fun r => (ih r (h.2 r)).mono fun log' a hgrown => ⟨?_, hgrown.2⟩⟩
    exact List.Subset.trans (List.subset_cons_self _ log) hgrown.1

def Only (allowed : ω → Prop) : Prog ω ρ α → Prop
  | done _ => True
  | call op next => allowed op ∧ ∀ r, (next r).Only allowed

theorem Only.perform {allowed : ω → Prop} {op : ω} {f : ρ op → Prog ω ρ α} (hop : allowed op)
    (hf : ∀ r, (f r).Only allowed) : (Prog.perform op >>= f).Only allowed := ⟨hop, hf⟩

theorem Only.bind {allowed : ω → Prop} {p : Prog ω ρ β} {f : β → Prog ω ρ α}
    (hp : p.Only allowed) (hf : ∀ b, (f b).Only allowed) : (p >>= f).Only allowed := by
  induction p with
  | done b => exact hf b
  | call op next ih => exact ⟨hp.1, fun r => ih r (hp.2 r)⟩

theorem Only.mono {allowed allowed' : ω → Prop} {p : Prog ω ρ α} (h : p.Only allowed)
    (hallowed : ∀ op, allowed op → allowed' op) : p.Only allowed' := by
  induction p with
  | done a => trivial
  | call op next ih => exact ⟨hallowed op h.1, fun r => ih r (h.2 r)⟩

theorem only_true (p : Prog ω ρ α) : p.Only fun _ => True := by
  induction p with
  | done a => trivial
  | call op next ih => exact ⟨trivial, ih⟩

/-- Every operation the program can call is one of the allowed ones, and it ends as `ends` says. -/
def Yields (allowed : ω → Prop) (ends : α → Prop) : Prog ω ρ α → Prop
  | done a => ends a
  | call op next => allowed op ∧ ∀ r, (next r).Yields allowed ends

section Yields
variable {allowed : ω → Prop} {ends : α → Prop}

theorem Yields.perform {op : ω} {f : ρ op → Prog ω ρ α} (hop : allowed op)
    (hf : ∀ r, (f r).Yields allowed ends) : (Prog.perform op >>= f).Yields allowed ends :=
  ⟨hop, hf⟩

theorem Yields.bind {mid : β → Prop} {p : Prog ω ρ β} {f : β → Prog ω ρ α}
    (hp : p.Yields allowed mid) (hf : ∀ b, mid b → (f b).Yields allowed ends) :
    (p >>= f).Yields allowed ends := by
  induction p with
  | done b => exact hf b hp
  | call op next ih => exact ⟨hp.1, fun r => ih r (hp.2 r)⟩

theorem Only.yields {p : Prog ω ρ α} (h : p.Only allowed) : p.Yields allowed fun _ => True := by
  induction p with
  | done a => trivial
  | call op next ih => exact ⟨h.1, fun r => ih r (h.2 r)⟩

theorem Yields.only {p : Prog ω ρ α} (h : p.Yields allowed ends) : p.Only allowed := by
  induction p with
  | done a => trivial
  | call op next ih => exact ⟨h.1, fun r => ih r (h.2 r)⟩

theorem Yields.obeys {p : Prog ω ρ α} (h : p.Yields allowed ends)
    (hallowed : ∀ log op, allowed op → permits log op) :
    Obeys permits (fun _ a => ends a) log p := by
  induction p generalizing log with
  | done a => exact h
  | call op next ih => exact ⟨hallowed log op h.1, fun r => ih r (h.2 r)⟩

/-- A run on its own gives what the program ends as. -/
theorem Yields.run {σ : Type} (exec : σ → (op : ω) → σ × ρ op) {p : Prog ω ρ α}
    (h : p.Yields allowed ends) (s : σ) : ends (p.run exec s).2 := by
  induction p generalizing s with
  | done a => exact h
  | call op next ih => exact ih _ (h.2 _) _

end Yields

/-- A program of operations that are always permitted, and what each of them keeps of the log. -/
theorem Only.obeys_keeping {allowed : ω → Prop} {keeps : List (Entry ρ) → List (Entry ρ) → Prop}
    {p : Prog ω ρ α} (h : p.Only allowed) (hallowed : ∀ log op, allowed op → permits log op)
    (hrefl : ∀ log, keeps log log)
    (hstep : ∀ log log' op r, allowed op → keeps (⟨op, r⟩ :: log) log' → keeps log log') :
    Obeys permits (fun log' _ => keeps log log') log p := by
  induction p generalizing log with
  | done a => exact hrefl log
  | call op next ih =>
    exact ⟨hallowed log op h.1, fun r => (ih r (h.2 r)).mono fun log' a hkeeps =>
      hstep log log' op r h.1 hkeeps⟩

/-- A program of operations that are permitted while something holds of the log, and that keep it
so. -/
theorem Only.obeys_while {allowed : ω → Prop} {holds : List (Entry ρ) → Prop} {p : Prog ω ρ α}
    (h : p.Only allowed) (hlog : holds log)
    (hallowed : ∀ log op, holds log → allowed op → permits log op)
    (hkeeps : ∀ log op r, holds log → allowed op → holds (⟨op, r⟩ :: log)) :
    Obeys permits (fun log' _ => holds log') log p := by
  induction p generalizing log with
  | done a => exact hlog
  | call op next ih =>
    exact ⟨hallowed log op hlog h.1, fun r => ih r (h.2 r) (hkeeps log op r hlog h.1)⟩

/-- A program of operations that are permitted from its log on only adds to the log. -/
theorem Only.obeys_from {allowed : ω → Prop} {p : Prog ω ρ α} (h : p.Only allowed)
    (hallowed : ∀ log', log ⊆ log' → ∀ op, allowed op → permits log' op) :
    Obeys permits (fun log' _ => log ⊆ log') log p := by
  induction p generalizing log with
  | done a => exact List.Subset.refl log
  | call op next ih =>
    refine ⟨hallowed log (List.Subset.refl log) op h.1, fun r => ?_⟩
    have hcons : log ⊆ ⟨op, r⟩ :: log := List.subset_cons_self ⟨op, r⟩ log
    have hrest := ih r (h.2 r) fun log' hsub => hallowed log' (List.Subset.trans hcons hsub)
    exact hrest.mono fun log' a hsub => List.Subset.trans hcons hsub

/-- A program of operations that are always permitted only adds to its log. -/
theorem Only.obeys {allowed : ω → Prop} {p : Prog ω ρ α} (h : p.Only allowed)
    (hallowed : ∀ log op, allowed op → permits log op) :
    Obeys permits (fun log' _ => log ⊆ log') log p :=
  h.obeys_from fun log' _ => hallowed log'

end Prog

variable {κ ε σ : Type}

structure Thread (κ : Type) {ω : Type} (ρ : ω → Type) (α : Type) where
  request : κ
  log : List (Entry ρ)
  prog : Prog ω ρ α

structure Config (κ σ : Type) {ω : Type} (ρ : ω → Type) (α : Type) where
  shared : σ
  threads : List (Thread κ ρ α)

/-- What a schedule says next: a request arrives, a thread makes its next call, or someone
else makes one. An `answer` settles what the shared state does not. -/
inductive Label (κ ω ε : Type) where
  | spawn (request : κ)
  | step (thread : ℕ) (answer : ε)
  | outside (op : ω) (answer : ε)

/-- The request a step lets in. -/
def Label.request : Label κ ω ε → Option κ
  | .spawn q => some q
  | _ => none

/-- The requests of a run, newest first. -/
def arrivals (labels : List (Label κ ω ε)) : List κ := labels.filterMap Label.request

/-- The call a step made, with the thread that made it as it was before. -/
inductive Effect (κ : Type) {ω : Type} (ρ : ω → Type) (α : Type) where
  | thread (index : ℕ) (origin : Thread κ ρ α) (entry : Entry ρ)
  | outside (entry : Entry ρ)

def Effect.entry : Effect κ ρ α → Entry ρ
  | .thread _ _ entry => entry
  | .outside entry => entry

@[simp] theorem Effect.entry_thread (i : ℕ) (t : Thread κ ρ α) (entry : Entry ρ) :
    (Effect.thread i t entry).entry = entry := rfl

@[simp] theorem Effect.entry_outside (entry : Entry ρ) :
    (Effect.outside entry : Effect κ ρ α).entry = entry := rfl

/-- The programs that answer requests, the operations, and those that others may call too. -/
structure System (κ ε σ : Type) {ω : Type} (ρ : ω → Type) (α : Type) where
  start : κ → Prog ω ρ α
  exec : σ → ε → (op : ω) → σ × ρ op
  isOutside : ω → Bool

namespace System

abbrev Event (_S : System κ ε σ ρ α) :=
  Machine.Event (Config κ σ ρ α) (Label κ ω ε) (Option (Effect κ ρ α))

def advance (t : Thread κ ρ α) (op : ω) (next : ρ op → Prog ω ρ α) (r : ρ op) : Thread κ ρ α :=
  ⟨t.request, ⟨op, r⟩ :: t.log, next r⟩

def step (S : System κ ε σ ρ α) (c : Config κ σ ρ α) :
    Label κ ω ε → Config κ σ ρ α × Option (Effect κ ρ α)
  | .spawn q => (⟨c.shared, c.threads ++ [⟨q, [], S.start q⟩]⟩, none)
  | .step i answer =>
      match c.threads[i]? with
      | none => (c, none)
      | some t =>
          match t.prog with
          | .done _ => (c, none)
          | .call op next =>
              let answered := S.exec c.shared answer op
              (⟨answered.1, c.threads.set i (advance t op next answered.2)⟩,
                some (.thread i t ⟨op, answered.2⟩))
  | .outside op answer =>
      if S.isOutside op then
        let answered := S.exec c.shared answer op
        (⟨answered.1, c.threads⟩, some (.outside ⟨op, answered.2⟩))
      else (c, none)

/-- The configuration after a schedule, newest label first, with no request under way before. -/
abbrev after (S : System κ ε σ ρ α) (s : σ) (labels : List (Label κ ω ε)) : Config κ σ ρ α :=
  Machine.after S.step ⟨s, []⟩ labels

abbrev history (S : System κ ε σ ρ α) (s : σ) (labels : List (Label κ ω ε)) : List S.Event :=
  Machine.events S.step ⟨s, []⟩ labels

/-- Everything a step can do. -/
inductive Steps (S : System κ ε σ ρ α) (c : Config κ σ ρ α) :
    Config κ σ ρ α → Option (Effect κ ρ α) → Prop where
  | idle : Steps S c c none
  | spawn (q : κ) : Steps S c ⟨c.shared, c.threads ++ [⟨q, [], S.start q⟩]⟩ none
  | thread (i : ℕ) (t : Thread κ ρ α) (op : ω) (next : ρ op → Prog ω ρ α) (answer : ε)
      (hi : c.threads[i]? = some t) (hp : t.prog = .call op next) :
      Steps S c
        ⟨(S.exec c.shared answer op).1,
          c.threads.set i (advance t op next (S.exec c.shared answer op).2)⟩
        (some (.thread i t ⟨op, (S.exec c.shared answer op).2⟩))
  | outside (op : ω) (answer : ε) (hop : S.isOutside op = true) :
      Steps S c ⟨(S.exec c.shared answer op).1, c.threads⟩
        (some (.outside ⟨op, (S.exec c.shared answer op).2⟩))

variable (S : System κ ε σ ρ α)

theorem step_steps (c : Config κ σ ρ α) (l : Label κ ω ε) :
    Steps S c (S.step c l).1 (S.step c l).2 := by
  cases l with
  | spawn q => exact .spawn q
  | step i answer =>
    cases hi : c.threads[i]? with
    | none => simpa only [step, hi] using Steps.idle
    | some t =>
      cases hp : t.prog with
      | done a => simpa only [step, hi, hp] using Steps.idle
      | call op next => simpa only [step, hi, hp] using Steps.thread i t op next answer hi hp
  | outside op answer =>
    by_cases hop : S.isOutside op = true
    · simpa only [step, if_pos hop] using Steps.outside op answer hop
    · simpa only [step, if_neg hop] using Steps.idle

/-- A thread's turn: nothing is left to do, or it makes its next call. -/
theorem step_turn (c : Config κ σ ρ α) (i : ℕ) (answer : ε) :
    (S.step c (.step i answer) = (c, none) ∧ (c.threads[i]?.bind (·.prog.head)) = none) ∨
      ∃ t op next, c.threads[i]? = some t ∧ t.prog = .call op next ∧
        S.step c (.step i answer) =
          (⟨(S.exec c.shared answer op).1,
            c.threads.set i (advance t op next (S.exec c.shared answer op).2)⟩,
            some (.thread i t ⟨op, (S.exec c.shared answer op).2⟩)) := by
  cases hi : c.threads[i]? with
  | none => exact .inl ⟨by simp only [step, hi], rfl⟩
  | some t =>
    cases hp : t.prog with
    | done a => exact .inl ⟨by simp only [step, hi, hp], by simp [hp, Prog.head]⟩
    | call op next => exact .inr ⟨t, op, next, rfl, hp, by simp only [step, hi, hp]⟩

/-- The threads after a step: as before, one more, or one advanced. -/
theorem getElem?_threads_of_steps {c c' : Config κ σ ρ α} {e : Option (Effect κ ρ α)}
    (h : Steps S c c' e) {i : ℕ} {t' : Thread κ ρ α} (ht : c'.threads[i]? = some t') :
    c.threads[i]? = some t' ∨ (∃ q, t' = ⟨q, [], S.start q⟩) ∨
      ∃ t op next r, c.threads[i]? = some t ∧ t.prog = .call op next ∧
        e = some (.thread i t ⟨op, r⟩) ∧ t' = advance t op next r := by
  cases h with
  | idle => exact .inl ht
  | spawn q =>
    rcases lt_or_ge i c.threads.length with hlt | hge
    · exact .inl (by rwa [List.getElem?_append_left hlt] at ht)
    · rw [List.getElem?_append_right hge] at ht
      exact .inr (.inl ⟨q, List.mem_singleton.mp (List.mem_of_getElem? ht)⟩)
  | thread j t op next answer hj hp =>
    by_cases hji : j = i
    · subst hji
      rw [List.getElem?_set_self (List.getElem?_eq_some_iff.mp hj).1] at ht
      cases ht
      exact .inr (.inr ⟨t, op, next, _, hj, hp, rfl, rfl⟩)
    · exact .inl (by rwa [List.getElem?_set_ne hji] at ht)
  | outside op answer hop => exact .inl ht

theorem mem_threads_of_steps {c c' : Config κ σ ρ α} {e : Option (Effect κ ρ α)}
    (h : Steps S c c' e) {t' : Thread κ ρ α} (ht : t' ∈ c'.threads) :
    t' ∈ c.threads ∨ (∃ q, t' = ⟨q, [], S.start q⟩) ∨
      ∃ i t op next r, c.threads[i]? = some t ∧ t.prog = .call op next ∧
        e = some (.thread i t ⟨op, r⟩) ∧ t' = advance t op next r := by
  obtain ⟨i, hi⟩ := List.mem_iff_getElem?.mp ht
  rcases S.getElem?_threads_of_steps h hi with hold | hnew | ⟨t, op, next, r, hrest⟩
  · exact .inl (List.mem_of_getElem? hold)
  · exact .inr (.inl hnew)
  · exact .inr (.inr ⟨i, t, op, next, r, hrest⟩)

/-- A thread stays where it is in the list, and makes its calls in order. -/
theorem thread_of_steps {c c' : Config κ σ ρ α} {e : Option (Effect κ ρ α)} (h : Steps S c c' e)
    {i : ℕ} {t : Thread κ ρ α} (hi : c.threads[i]? = some t) :
    c'.threads[i]? = some t ∨
      ∃ op next r, t.prog = .call op next ∧ c'.threads[i]? = some (advance t op next r) := by
  cases h with
  | idle => exact .inl hi
  | spawn q =>
    exact .inl (by rw [List.getElem?_append_left (List.getElem?_eq_some_iff.mp hi).1, hi])
  | thread j t₀ op next answer hj hp =>
    by_cases hji : j = i
    · subst hji
      cases hi.symm.trans hj
      refine .inr ⟨op, next, (S.exec c.shared answer op).2, hp, ?_⟩
      rw [List.getElem?_set_self (List.getElem?_eq_some_iff.mp hi).1]
    · exact .inl (by rw [List.getElem?_set_ne hji, hi])
  | outside op answer hop => exact .inl hi

/-- The threads are those of the requests that have arrived. -/
theorem requests_after (s : σ) (labels : List (Label κ ω ε)) :
    (S.after s labels).threads.map (·.request) = (arrivals labels).reverse := by
  induction labels with
  | nil => rfl
  | cons l labels ih =>
    have hkept : ∀ {threads : List (Thread κ ρ α)} {i : ℕ} {t t' : Thread κ ρ α},
        threads[i]? = some t → t'.request = t.request →
        (threads.set i t').map (·.request) = threads.map (·.request) := by
      intro threads i t t' hi hrequest
      obtain ⟨hlt, rfl⟩ := List.getElem?_eq_some_iff.mp hi
      have hlt' : i < (threads.map (·.request)).length := by simpa using hlt
      have hself : (threads.map (·.request)).set i (threads.map (·.request))[i] =
          threads.map (·.request) := List.set_getElem_self hlt'
      rw [List.getElem_map] at hself
      rw [List.map_set, hrequest, hself]
    cases l with
    | spawn q =>
      have hstep : (S.after s (.spawn q :: labels)).threads =
          (S.after s labels).threads ++ [⟨q, [], S.start q⟩] := rfl
      rw [hstep, List.map_append, ih]
      simp [arrivals, Label.request]
    | step i answer =>
      have harrivals : arrivals (.step i answer :: labels) = arrivals labels := rfl
      rw [harrivals, ← ih, System.after, Machine.after_cons]
      simp only [step]
      split
      · rfl
      · next t hi =>
        split
        · rfl
        · exact hkept hi rfl
    | outside op answer =>
      have harrivals : arrivals (.outside op answer :: labels) = arrivals labels := rfl
      rw [harrivals, ← ih, System.after, Machine.after_cons]
      simp only [step]
      split <;> rfl

/-- The request of a thread has arrived in the run. -/
theorem spawn_mem_of_thread {s : σ} {labels : List (Label κ ω ε)} {t : Thread κ ρ α}
    (ht : t ∈ (S.after s labels).threads) : .spawn t.request ∈ labels := by
  have hmem : t.request ∈ (S.after s labels).threads.map (·.request) := List.mem_map_of_mem ht
  rw [S.requests_after, List.mem_reverse] at hmem
  obtain ⟨l, hl, hrequest⟩ := List.mem_filterMap.mp hmem
  cases l with
  | spawn q =>
    cases Option.some.inj hrequest
    exact hl
  | step | outside => cases hrequest

/-- Two threads stand for two requests of the run. -/
theorem pairwise_requests {R : κ → κ → Prop} (hsymm : ∀ q q', R q q' → R q' q) {s : σ}
    {labels : List (Label κ ω ε)} (h : (arrivals labels).Pairwise R) {i j : ℕ}
    {t t' : Thread κ ρ α} (hi : (S.after s labels).threads[i]? = some t)
    (hj : (S.after s labels).threads[j]? = some t') (hne : i ≠ j) : R t.request t'.request := by
  have hpairs : ((S.after s labels).threads.map (·.request)).Pairwise R := by
    rw [S.requests_after, List.pairwise_reverse]
    exact h.imp (hsymm _ _)
  rw [List.pairwise_map, List.pairwise_iff_getElem] at hpairs
  obtain ⟨hilt, rfl⟩ := List.getElem?_eq_some_iff.mp hi
  obtain ⟨hjlt, rfl⟩ := List.getElem?_eq_some_iff.mp hj
  rcases Nat.lt_or_gt_of_ne hne with hlt | hlt
  · exact hpairs i j hilt hjlt hlt
  · exact hsymm _ _ (hpairs j i hjlt hilt hlt)

/-- Along a run a thread is as it was, or its log has grown by the call it was about to make. -/
theorem thread_grows (s : σ) (later earlier : List (Label κ ω ε)) {i : ℕ} {t : Thread κ ρ α}
    (hi : (S.after s earlier).threads[i]? = some t) :
    ∃ t', (S.after s (later ++ earlier)).threads[i]? = some t' ∧ t'.request = t.request ∧
      (t' = t ∨ ∃ op next r, t.prog = .call op next ∧ ⟨op, r⟩ :: t.log <:+ t'.log) := by
  induction later with
  | nil => exact ⟨t, hi, rfl, .inl rfl⟩
  | cons l later ih =>
    obtain ⟨t₁, hi₁, hrequest, hgrown⟩ := ih
    rcases S.thread_of_steps (S.step_steps (S.after s (later ++ earlier)) l) hi₁ with
      hsame | ⟨op, next, r, hp, hnext⟩
    · exact ⟨t₁, hsame, hrequest, hgrown⟩
    · refine ⟨advance t₁ op next r, hnext, hrequest, .inr ?_⟩
      rcases hgrown with rfl | ⟨op₀, next₀, r₀, hp₀, hsuffix⟩
      · exact ⟨op, next, r, hp, List.suffix_refl _⟩
      · exact ⟨op₀, next₀, r₀, hp₀, hsuffix.trans (List.suffix_cons _ _)⟩

section Protocol

variable {permits : κ → List (Entry ρ) → ω → Prop}

/-- The programs keep to the protocol: what a request's program calls is permitted. -/
def Follows (permits : κ → List (Entry ρ) → ω → Prop) : Prop :=
  ∀ q, (S.start q).Obeys (permits q) (fun _ _ => True) []

variable {S}

/-- Programs that keep to two protocols keep to both at once. -/
theorem Follows.and {permits' : κ → List (Entry ρ) → ω → Prop} (h : S.Follows permits)
    (h' : S.Follows permits') :
    S.Follows fun q log op => permits q log op ∧ permits' q log op :=
  fun q => ((h q).and (h' q)).mono fun _ _ _ => trivial

/-- A thread keeps to the protocol from where it stands, and to what its program ends with. -/
theorem thread_obeys_to {post : κ → List (Entry ρ) → α → Prop}
    (hS : ∀ q, (S.start q).Obeys (permits q) (post q) []) (s : σ)
    (labels : List (Label κ ω ε)) :
    ∀ t ∈ (S.after s labels).threads,
      t.prog.Obeys (permits t.request) (post t.request) t.log := by
  refine Machine.after_invariant S.step
    (I := fun c : Config κ σ ρ α => ∀ t ∈ c.threads,
      t.prog.Obeys (permits t.request) (post t.request) t.log) ?_ (by simp) labels
  intro c l hc t' ht'
  rcases S.mem_threads_of_steps (S.step_steps c l) ht' with
    ht | ⟨q, rfl⟩ | ⟨i, t, op, next, r, hi, hp, -, rfl⟩
  · exact hc t' ht
  · exact hS q
  · have ht := hc t (List.mem_of_getElem? hi)
    rw [hp] at ht
    exact ht.2 r

/-- A thread keeps to the protocol from where it stands. -/
theorem thread_obeys (hS : S.Follows permits) (s : σ) (labels : List (Label κ ω ε)) :
    ∀ t ∈ (S.after s labels).threads,
      t.prog.Obeys (permits t.request) (fun _ _ => True) t.log :=
  thread_obeys_to hS s labels

/-- Every entry of a log was permitted by what the log held before. -/
theorem log_permitted (hS : S.Follows permits) (s : σ) (labels : List (Label κ ω ε)) :
    ∀ t ∈ (S.after s labels).threads, ∀ entry older, entry :: older <:+ t.log →
      permits t.request older entry.1 := by
  induction labels with
  | nil => simp
  | cons l labels ih =>
    intro t' ht' entry older hsuffix
    rcases S.mem_threads_of_steps (S.step_steps (S.after s labels) l) ht' with
      ht | ⟨q, rfl⟩ | ⟨i, t, op, next, r, hi, hp, -, rfl⟩
    · exact ih t' ht entry older hsuffix
    · simp at hsuffix
    · rcases List.suffix_cons_iff.mp hsuffix with heq | hsuffix
      · obtain ⟨rfl, rfl⟩ := List.cons.inj heq
        have ht := thread_obeys hS s labels t (List.mem_of_getElem? hi)
        rw [hp] at ht
        exact ht.1
      · exact ih t (List.mem_of_getElem? hi) entry older hsuffix

/-- What every call keeps of the shared state holds throughout, and what its answers then
satisfy holds of every entry of a log. -/
theorem shared_invariant (hS : S.Follows permits) {I : σ → Prop} {E : Entry ρ → Prop} {s : σ}
    (h0 : I s)
    (hexec : ∀ s answer op, I s → S.isOutside op = true ∨ (∃ q log, permits q log op) →
      I (S.exec s answer op).1 ∧ E ⟨op, (S.exec s answer op).2⟩)
    (labels : List (Label κ ω ε)) :
    I (S.after s labels).shared ∧ ∀ t ∈ (S.after s labels).threads, ∀ entry ∈ t.log, E entry := by
  induction labels with
  | nil => exact ⟨h0, by simp⟩
  | cons l labels ih =>
    obtain ⟨hI, hE⟩ := ih
    have hpermitted : ∀ op next, ∀ t ∈ (S.after s labels).threads, t.prog = .call op next →
        ∃ q log, permits q log op := by
      intro op next t ht hp
      have hobeys := thread_obeys hS s labels t ht
      rw [hp] at hobeys
      exact ⟨t.request, t.log, hobeys.1⟩
    rw [after, Machine.after_cons]
    have hstep := S.step_steps (S.after s labels) l
    generalize S.step (S.after s labels) l = stepped at hstep ⊢
    obtain ⟨c', e⟩ := stepped
    dsimp only at hstep ⊢
    cases hstep with
    | idle => exact ⟨hI, hE⟩
    | spawn q =>
      refine ⟨hI, fun t ht entry hentry => ?_⟩
      rcases List.mem_append.mp ht with ht | ht
      · exact hE t ht entry hentry
      · rw [List.mem_singleton.mp ht] at hentry
        simp at hentry
    | thread i t op next answer hi hp =>
      obtain ⟨hI', hE'⟩ := hexec _ answer op hI
        (.inr (hpermitted op next t (List.mem_of_getElem? hi) hp))
      refine ⟨hI', fun t' ht' entry hentry => ?_⟩
      rcases List.mem_or_eq_of_mem_set ht' with ht' | rfl
      · exact hE t' ht' entry hentry
      · rcases List.mem_cons.mp hentry with rfl | hentry
        · exact hE'
        · exact hE t (List.mem_of_getElem? hi) entry hentry
    | outside op answer hop => exact ⟨(hexec _ answer op hI (.inl hop)).1, hE⟩

end Protocol

/-- The call of a step is answered from the shared state the step finds. -/
theorem entry_of_steps {c c' : Config κ σ ρ α} {eff : Effect κ ρ α}
    (h : Steps S c c' (some eff)) :
    ∃ op answer, eff.entry = ⟨op, (S.exec c.shared answer op).2⟩ := by
  cases h with
  | thread i t op next answer hi hp => exact ⟨op, answer, rfl⟩
  | outside op answer hop => exact ⟨op, answer, rfl⟩

theorem entry_of_mem_history {s : σ} {labels : List (Label κ ω ε)} {e : S.Event}
    (he : e ∈ S.history s labels) {eff : Effect κ ρ α} (hreply : e.reply = some eff) :
    ∃ op answer, eff.entry = ⟨op, (S.exec e.pre.shared answer op).2⟩ := by
  obtain ⟨later, l, earlier, rfl, rfl⟩ := Machine.exists_of_mem_events S.step he
  have hstep := S.step_steps (S.after s earlier) l
  rw [Machine.event_reply] at hreply
  rw [hreply] at hstep
  exact S.entry_of_steps hstep

/-- Every entry of a thread's log is a call of the run, made by that thread when its log was
a shorter one. -/
theorem exists_event_of_log (s : σ) (labels : List (Label κ ω ε)) {i : ℕ} {t : Thread κ ρ α}
    (hi : (S.after s labels).threads[i]? = some t) {entry : Entry ρ} (hentry : entry ∈ t.log) :
    ∃ e ∈ S.history s labels, ∃ t₀, e.reply = some (.thread i t₀ entry) ∧
      t₀.request = t.request := by
  induction labels generalizing t with
  | nil => simp at hi
  | cons l labels ih =>
    rcases S.getElem?_threads_of_steps (S.step_steps (S.after s labels) l) hi with
      hold | ⟨q, rfl⟩ | ⟨t₁, op, next, r, hi₁, hp, hr, rfl⟩
    · obtain ⟨e, he, hrest⟩ := ih hold hentry
      exact ⟨e, List.mem_cons_of_mem _ he, hrest⟩
    · simp at hentry
    · rcases List.mem_cons.mp hentry with rfl | hentry
      · exact ⟨_, List.mem_cons_self, t₁, hr, rfl⟩
      · obtain ⟨e, he, hrest⟩ := ih hi₁ hentry
        exact ⟨e, List.mem_cons_of_mem _ he, hrest⟩

theorem exists_event_of_mem_log (s : σ) (labels : List (Label κ ω ε)) :
    ∀ t ∈ (S.after s labels).threads, ∀ entry ∈ t.log,
      ∃ e ∈ S.history s labels, ∃ i t₀, e.reply = some (.thread i t₀ entry) ∧
        t₀.request = t.request := by
  intro t ht entry hentry
  obtain ⟨i, hi⟩ := List.mem_iff_getElem?.mp ht
  obtain ⟨e, he, t₀, hrest⟩ := S.exists_event_of_log s labels hi hentry
  exact ⟨e, he, i, t₀, hrest⟩

/-- The calls made from a configuration on, with those who made them, newest first. -/
def effectsFrom (c : Config κ σ ρ α) (labels : List (Label κ ω ε)) : List (Effect κ ρ α) :=
  (Machine.events S.step c labels).filterMap (·.reply)

abbrev effects (s : σ) (labels : List (Label κ ω ε)) : List (Effect κ ρ α) :=
  S.effectsFrom ⟨s, []⟩ labels

@[simp] theorem effectsFrom_nil (c : Config κ σ ρ α) : S.effectsFrom c [] = [] := rfl

theorem effectsFrom_cons (c : Config κ σ ρ α) (l : Label κ ω ε) (labels : List (Label κ ω ε)) :
    S.effectsFrom c (l :: labels) =
      (S.step (Machine.after S.step c labels) l).2.toList ++ S.effectsFrom c labels := by
  rw [effectsFrom, Machine.events_cons, List.filterMap_cons, Machine.event_reply]
  cases (S.step (Machine.after S.step c labels) l).2 <;> rfl

theorem effects_append (s : σ) (later earlier : List (Label κ ω ε)) :
    S.effects s (later ++ earlier) =
      S.effectsFrom (S.after s earlier) later ++ S.effects s earlier := by
  rw [effects, effectsFrom, Machine.events_append, List.filterMap_append]
  rfl

section Rule

variable {S} {permits : κ → List (Entry ρ) → ω → Prop}

/-- The invariant rule for programs that keep to a protocol, over the state and the calls that
led to it. The condition `C` on runs passes to every earlier part. -/
theorem run_invariant (hS : S.Follows permits) {s : σ} {C : List (Label κ ω ε) → Prop}
    (hC : ∀ l labels, C (l :: labels) → C labels)
    {J : Config κ σ ρ α → List (Effect κ ρ α) → Prop} (h0 : J ⟨s, []⟩ [])
    (hspawn : ∀ labels q, J (S.after s labels) (S.effects s labels) →
      J ⟨(S.after s labels).shared, (S.after s labels).threads ++ [⟨q, [], S.start q⟩]⟩
        (S.effects s labels))
    (hthread : ∀ labels i t op answer prog, C (.step i answer :: labels) →
      (S.step (S.after s labels) (.step i answer)).2 =
        some (.thread i t ⟨op, (S.exec (S.after s labels).shared answer op).2⟩) →
      J (S.after s labels) (S.effects s labels) → (S.after s labels).threads[i]? = some t →
      t.prog.head = some op → permits t.request t.log op →
      J ⟨(S.exec (S.after s labels).shared answer op).1, (S.after s labels).threads.set i
          ⟨t.request, ⟨op, (S.exec (S.after s labels).shared answer op).2⟩ :: t.log, prog⟩⟩
        (.thread i t ⟨op, (S.exec (S.after s labels).shared answer op).2⟩ :: S.effects s labels))
    (houtside : ∀ labels op answer, J (S.after s labels) (S.effects s labels) →
      S.isOutside op = true →
      J ⟨(S.exec (S.after s labels).shared answer op).1, (S.after s labels).threads⟩
        (.outside ⟨op, (S.exec (S.after s labels).shared answer op).2⟩ :: S.effects s labels))
    (labels : List (Label κ ω ε)) (hc : C labels) :
    J (S.after s labels) (S.effects s labels) := by
  induction labels with
  | nil => exact h0
  | cons l labels ih =>
    have hJ := ih (hC l labels hc)
    have hobeys := thread_obeys hS s labels
    rw [effects, effectsFrom_cons]
    change J (S.step (S.after s labels) l).1 ((S.step (S.after s labels) l).2.toList ++ _)
    cases l with
    | spawn q => exact hspawn labels q hJ
    | step i answer =>
      cases hi : (S.after s labels).threads[i]? with
      | none =>
        have hstep : S.step (S.after s labels) (.step i answer) = (S.after s labels, none) := by
          simp only [step, hi]
        rw [hstep]
        exact hJ
      | some t =>
        cases hp : t.prog with
        | done a =>
          have hstep : S.step (S.after s labels) (.step i answer) = (S.after s labels, none) := by
            simp only [step, hi, hp]
          rw [hstep]
          exact hJ
        | call op next =>
          have ht := hobeys t (List.mem_of_getElem? hi)
          rw [hp] at ht
          have hstep : S.step (S.after s labels) (.step i answer) =
              (⟨(S.exec (S.after s labels).shared answer op).1,
                (S.after s labels).threads.set i
                  (advance t op next (S.exec (S.after s labels).shared answer op).2)⟩,
                some (.thread i t ⟨op, (S.exec (S.after s labels).shared answer op).2⟩)) := by
            simp only [step, hi, hp]
          rw [hstep]
          exact hthread labels i t op answer _ hc (by rw [hstep]) hJ hi (by rw [hp]; rfl) ht.1
    | outside op answer =>
      by_cases hop : S.isOutside op = true
      · have hstep : S.step (S.after s labels) (.outside op answer) =
            (⟨(S.exec (S.after s labels).shared answer op).1, (S.after s labels).threads⟩,
              some (.outside ⟨op, (S.exec (S.after s labels).shared answer op).2⟩)) := by
          simp only [step, if_pos hop]
        rw [hstep]
        exact houtside labels op answer hJ hop
      · have hstep : S.step (S.after s labels) (.outside op answer) = (S.after s labels, none) := by
          simp only [step, if_neg hop]
        rw [hstep]
        exact hJ

end Rule

end System

/-- Replacing one item moves a sum by the difference of its two values. -/
theorem sum_map_set {τ : Type} (f : τ → ℕ) {l : List τ} {i : ℕ} {a : τ} (h : l[i]? = some a)
    (b : τ) : ((l.set i b).map f).sum + f a = (l.map f).sum + f b := by
  induction l generalizing i with
  | nil => simp at h
  | cons x l ih =>
    cases i with
    | zero =>
      have hx : x = a := by simpa using h
      simp only [List.set_cons_zero, List.map_cons, List.sum_cons, hx]
      omega
    | succ i =>
      have hi := ih (i := i) (by simpa using h)
      simp only [List.set_cons_succ, List.map_cons, List.sum_cons]
      omega

/-- An item after a replacement is the new one, or stands elsewhere. -/
theorem exists_of_mem_set {τ : Type} {l : List τ} {i : ℕ} {a b : τ} (h : b ∈ l.set i a) :
    b = a ∨ ∃ j, j ≠ i ∧ l[j]? = some b := by
  obtain ⟨j, hj⟩ := List.mem_iff_getElem?.mp h
  by_cases hji : j = i
  · subst hji
    rw [List.getElem?_set_self'] at hj
    obtain ⟨_, -, rfl⟩ := Option.map_eq_some_iff.mp hj
    exact .inl rfl
  · rw [List.getElem?_set_ne (Ne.symm hji)] at hj
    exact .inr ⟨j, hji, hj⟩

/-- After a call of one thread every thread is there, with what it has logged before. -/
theorem exists_grown_of_mem {threads : List (Thread κ ρ α)} {i : ℕ} {t t' : Thread κ ρ α}
    (hi : threads[i]? = some t) (entry : Entry ρ) (prog : Prog ω ρ α) (h : t' ∈ threads) :
    ∃ t'' ∈ threads.set i ⟨t.request, entry :: t.log, prog⟩,
      t''.request = t'.request ∧ t'.log <:+ t''.log := by
  obtain ⟨j, hj⟩ := List.mem_iff_getElem?.mp h
  by_cases hji : j = i
  · subst hji
    cases hi.symm.trans hj
    have hlt := (List.getElem?_eq_some_iff.mp hj).1
    exact ⟨_, List.mem_of_getElem? (List.getElem?_set_self hlt), rfl, List.suffix_cons _ _⟩
  · refine ⟨t', List.mem_of_getElem? (i := j) ?_, rfl, List.suffix_refl _⟩
    rw [List.getElem?_set_ne (Ne.symm hji), hj]

namespace Config

def Grows (c c' : Config κ σ ρ α) : Prop :=
  ∀ t ∈ c.threads, ∃ t' ∈ c'.threads, t'.request = t.request ∧ t.log <:+ t'.log

theorem grows_called {c : Config κ σ ρ α} {i : ℕ} {t : Thread κ ρ α} (hi : c.threads[i]? = some t)
    (s : σ) (entry : Entry ρ) (prog : Prog ω ρ α) :
    c.Grows ⟨s, c.threads.set i ⟨t.request, entry :: t.log, prog⟩⟩ :=
  fun _ ht => exists_grown_of_mem hi entry prog ht

theorem grows_append (c : Config κ σ ρ α) (s : σ) (threads : List (Thread κ ρ α)) :
    c.Grows ⟨s, c.threads ++ threads⟩ :=
  fun t ht => ⟨t, List.mem_append_left threads ht, rfl, List.suffix_refl _⟩

theorem grows_shared (c : Config κ σ ρ α) (s : σ) : c.Grows ⟨s, c.threads⟩ :=
  fun t ht => ⟨t, ht, rfl, List.suffix_refl _⟩

/-- What the threads hold together. -/
def total (held : Thread κ ρ α → ℕ) (c : Config κ σ ρ α) : ℕ := (c.threads.map held).sum

variable (held : Thread κ ρ α → ℕ) (c : Config κ σ ρ α) (s : σ)

@[simp] theorem total_nil : total held (⟨s, []⟩ : Config κ σ ρ α) = 0 := rfl

theorem total_spawn (t : Thread κ ρ α) :
    total held (⟨s, c.threads ++ [t]⟩ : Config κ σ ρ α) = total held c + held t := by
  simp [total]

theorem total_set {i : ℕ} {t : Thread κ ρ α} (hi : c.threads[i]? = some t) (t' : Thread κ ρ α) :
    total held (⟨s, c.threads.set i t'⟩ : Config κ σ ρ α) + held t = total held c + held t' :=
  sum_map_set held hi t'

theorem held_le_total {i : ℕ} {t : Thread κ ρ α} (hi : c.threads[i]? = some t) :
    held t ≤ total held c :=
  List.single_le_sum (by simp) _ (List.mem_map.mpr ⟨t, List.mem_of_getElem? hi, rfl⟩)

end Config

/-! ### Storage that fails -/

/-- How a statement on storage ends: it answers, or it throws and may have been applied. -/
inductive Delivery where
  | answers
  | throws (applied : Bool)
  deriving DecidableEq, Repr

namespace Delivery

def isApplied : Delivery → Bool
  | answers => true
  | throws applied => applied

/-- The state and the answer that a caller is left with. -/
def deliver {τ : Type} (delivery : Delivery) (s : σ) (result : σ × τ) : σ × Option τ :=
  match delivery with
  | answers => (result.1, some result.2)
  | throws applied => (if applied then result.1 else s, none)

section Deliver
variable {τ : Type} (delivery : Delivery) (s : σ) (result : σ × τ)

theorem deliver_state :
    (delivery.deliver s result).1 = if delivery.isApplied then result.1 else s := by
  cases delivery with
  | answers => rfl
  | throws applied => rfl

theorem deliver_answer {answer : τ} (h : (delivery.deliver s result).2 = some answer) :
    result.2 = answer := by
  cases delivery with
  | answers => exact Option.some.inj h
  | throws applied => cases h

end Deliver

end Delivery

/-! ### Drawn values

Values that a program draws (ids, secrets) and uses once: between the two it holds them. -/

/-- What the caller of a step had logged before it. -/
def Effect.log : Effect κ ρ α → List (Entry ρ)
  | .thread _ t _ => t.log
  | .outside _ => []

@[simp] theorem Effect.log_thread (i : ℕ) (t : Thread κ ρ α) (entry : Entry ρ) :
    (Effect.thread i t entry).log = t.log := rfl

@[simp] theorem Effect.log_outside (entry : Entry ρ) :
    (Effect.outside entry : Effect κ ρ α).log = [] := rfl

section Draws

variable {τ : Type} [BEq τ]

def drawnIn (drawn : Entry ρ → Option τ) (effects : List (Effect κ ρ α)) : List τ :=
  effects.filterMap fun e => drawn e.entry

def usedIn (used : List (Entry ρ) → Entry ρ → Option τ) (effects : List (Effect κ ρ α)) : List τ :=
  effects.filterMap fun e => used e.log e.entry

variable {S : System κ ε σ ρ α} {permits : κ → List (Entry ρ) → ω → Prop}
  (drawn : Entry ρ → Option τ) (used : List (Entry ρ) → Entry ρ → Option τ)
  (held : τ → List (Entry ρ) → ℕ)

/-- When every step that uses a value gives up a held one, and only a draw gives one to hold, no
value is used more often than it is drawn. -/
theorem System.used_le_drawn (hS : S.Follows permits) (hstart : ∀ x, held x [] = 0)
    (hstep : ∀ q log entry x, permits q log entry.1 →
      (used log entry).toList.count x + held x (entry :: log) ≤
        held x log + (drawn entry).toList.count x)
    (houtside : ∀ entry, S.isOutside entry.1 = true → used [] entry = none) (s : σ)
    (labels : List (Label κ ω ε)) (x : τ) :
    (usedIn used (S.effects s labels)).count x +
        (S.after s labels).total (fun t => held x t.log) ≤
      (drawnIn drawn (S.effects s labels)).count x := by
  refine System.run_invariant hS (C := fun _ => True) (fun _ _ h => h)
    (J := fun c effects => (usedIn used effects).count x + c.total (fun t => held x t.log) ≤
      (drawnIn drawn effects).count x) (by simp [usedIn]) ?_ ?_ ?_ labels trivial
  · intro labels q hJ
    rw [Config.total_spawn, hstart]
    exact hJ
  · intro labels i t op answer prog _ _ hJ hi _ permitted
    have hset := Config.total_set (fun t => held x t.log) (S.after s labels)
      (S.exec (S.after s labels).shared answer op).1 hi
      ⟨t.request, ⟨op, (S.exec (S.after s labels).shared answer op).2⟩ :: t.log, prog⟩
    have hone := hstep t.request t.log ⟨op, (S.exec (S.after s labels).shared answer op).2⟩ x
      permitted
    simp only [usedIn, drawnIn, count_filterMap_cons, Effect.entry_thread,
      Effect.log_thread] at hJ hset ⊢
    omega
  · intro labels op answer hJ hop
    have hnone := houtside ⟨op, (S.exec (S.after s labels).shared answer op).2⟩ hop
    simp only [usedIn, drawnIn, count_filterMap_cons, Effect.entry_outside, Effect.log_outside,
      hnone, Option.toList_none, List.count_nil, Config.total] at hJ ⊢
    omega

end Draws

end Threads
