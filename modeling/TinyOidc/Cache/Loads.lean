import TinyOidc.Lib.Threads

/-! What the isolate caches share (`src/util/swr.ts`, spec §2.8): the verdict on a value's age, and
the loads under way. A load is a program of D1 statements that others interleave with; D1 counts
the statements it executes, and a load notes the count at which it last called it. -/
namespace TinyOidc.Cache
open Threads (Prog Delivery)

/-! ### Ages -/

inductive Verdict where
  | fresh | early | expired
  deriving DecidableEq, Repr

/-- `Refresher.verdict`: a value is refreshed early from three quarters of its lifetime on. -/
def verdict (age ttl : ℤ) : Verdict :=
  if ttl ≤ age then .expired else if 3 * ttl ≤ 4 * age then .early else .fresh

structure Cached (V : Type) where
  value : V
  cachedAt : ℤ
  readAt : ℕ
  deriving DecidableEq

/-- A call of `get`: it waits for a load, with the value it has found, or it has ended. -/
inductive Get (E V : Type) where
  | waiting (now : ℤ) (found : Option (Cached V)) (load : ℕ)
  | value (v : V) (readAt : ℕ)
  | threw (e : E)
  deriving DecidableEq

/-- The items of a list with one more at its end. -/
theorem getElem?_concat {τ : Type} {items : List τ} {last item : τ} {i : ℕ}
    (h : (items ++ [last])[i]? = some item) : items[i]? = some item ∨ item = last := by
  by_cases hlt : i < items.length
  · rw [List.getElem?_append_left hlt] at h
    exact .inl h
  · rw [List.getElem?_append_right (Nat.le_of_not_lt hlt)] at h
    exact .inr (List.mem_singleton.mp (List.mem_of_getElem? h))

/-! ### Loads -/

section Loads
variable {ω : Type} (ρ : ω → Type) (κ E V : Type)

/-- A load calls D1, then its promise settles; what awaits the promise goes on after that. -/
inductive Phase where
  | reading (prog : Prog ω ρ (Except E V))
  | returned (result : Except E V)
  | settled (result : Except E V)

structure Load where
  key : κ
  now : ℤ
  readAt : ℕ
  phase : Phase ρ E V

/-- D1, the number of statements it has executed, and the loads of the isolate. -/
structure Store (δ : Type) where
  d1 : δ
  statements : ℕ
  loads : List (Load ρ κ E V)

end Loads

variable {ω : Type} {ρ : ω → Type} {κ E V δ : Type}

namespace Load

def value (load : Load ρ κ E V) : Option V :=
  match load.phase with
  | .reading (.done (.ok v)) | .returned (.ok v) | .settled (.ok v) => some v
  | _ => none

/-- It has not written the cache yet. -/
def isReading (load : Load ρ κ E V) : Bool :=
  match load.phase with
  | .reading _ => true
  | _ => false

/-- Its value, if it has one, is of the count or later. -/
def Since (count : ℕ) (load : Load ρ κ E V) : Prop := load.value.isSome → count ≤ load.readAt

instance (count : ℕ) (load : Load ρ κ E V) : Decidable (load.Since count) :=
  inferInstanceAs (Decidable (_ → _))

end Load

namespace Store

def start (s : Store ρ κ E V δ) (key : κ) (now : ℤ) (prog : Prog ω ρ (Except E V)) :
    Store ρ κ E V δ :=
  { s with loads := s.loads ++ [⟨key, now, s.statements, .reading prog⟩] }

def write (s : Store ρ κ E V δ) (d1 : δ) : Store ρ κ E V δ :=
  { s with d1 := d1, statements := s.statements + 1 }

/-- A load with its next statement executed. A statement that throws ends it. -/
def advance (s : Store ρ κ E V δ) (load : Load ρ κ E V) {op : ω}
    (next : ρ op → Prog ω ρ (Except E V)) (thrown : E) (answer : Option (ρ op)) :
    Load ρ κ E V :=
  { load with
    readAt := s.statements
    phase := .reading (match answer with
      | some r => next r
      | none => .done (.error thrown)) }

def statement (exec : δ → (op : ω) → δ × ρ op) (thrown : E) (s : Store ρ κ E V δ) (i : ℕ)
    (delivery : Delivery) : Store ρ κ E V δ :=
  match s.loads[i]? with
  | some load =>
    match load.phase with
    | .reading (.call op next) =>
      let delivered := delivery.deliver s.d1 (exec s.d1 op)
      ⟨delivered.1, s.statements + 1,
        s.loads.set i (s.advance load next thrown delivered.2)⟩
    | _ => s
  | none => s

def setPhase (s : Store ρ κ E V δ) (i : ℕ) (load : Load ρ κ E V) (phase : Phase ρ E V) :
    Store ρ κ E V δ :=
  { s with loads := s.loads.set i { load with phase := phase } }

section Since
variable {count : ℕ} {s : Store ρ κ E V δ}

/-- A load that starts has called nothing before the count. -/
theorem since_start {key : κ} {now : ℤ} {prog : Prog ω ρ (Except E V)} {i : ℕ}
    {load : Load ρ κ E V} (hcount : count ≤ s.statements)
    (hi : (s.start key now prog).loads[i]? = some load) :
    s.loads[i]? = some load ∨ (i = s.loads.length ∧ load.Since count) := by
  change (s.loads ++ [_])[i]? = some load at hi
  by_cases hlt : i < s.loads.length
  · rw [List.getElem?_append_left hlt] at hi
    exact .inl hi
  · rw [List.getElem?_append_right (Nat.le_of_not_lt hlt)] at hi
    obtain ⟨hi0, rfl⟩ := List.getElem?_eq_some_iff.mp hi
    have hlast : i - s.loads.length = 0 := by simpa using hi0
    refine .inr ⟨by omega, fun _ => ?_⟩
    simpa using hcount

/-- A statement is executed after those counted before. -/
theorem since_statement {exec : δ → (op : ω) → δ × ρ op} {thrown : E} {delivery : Delivery}
    {i j : ℕ} {load : Load ρ κ E V} (hcount : count ≤ s.statements)
    (hj : (s.statement exec thrown i delivery).loads[j]? = some load) :
    load.Since count ∨ s.loads[j]? = some load := by
  unfold statement at hj
  split at hj
  · next before hi =>
    split at hj
    · next op next hphase =>
      by_cases hji : i = j
      · subst hji
        dsimp only at hj
        rw [List.getElem?_set_self (List.getElem?_eq_some_iff.mp hi).1] at hj
        cases hj
        exact .inl fun _ => hcount
      · rw [List.getElem?_set_ne hji] at hj
        exact .inr hj
    · exact .inr hj
  · exact .inr hj

theorem statements_le_statement (exec : δ → (op : ω) → δ × ρ op) (thrown : E) (i : ℕ)
    (delivery : Delivery) : s.statements ≤ (s.statement exec thrown i delivery).statements := by
  unfold statement
  split
  · split
    · exact Nat.le_succ _
    · exact Nat.le_refl _
  · exact Nat.le_refl _

/-- The loads after a phase has changed. -/
theorem of_setPhase {i j : ℕ} {moved load : Load ρ κ E V} {phase : Phase ρ E V}
    (hi : s.loads[i]? = some moved) (hj : (s.setPhase i moved phase).loads[j]? = some load) :
    (j = i ∧ load = { moved with phase := phase }) ∨ (j ≠ i ∧ s.loads[j]? = some load) := by
  change (s.loads.set i _)[j]? = some load at hj
  by_cases hji : i = j
  · subst hji
    rw [List.getElem?_set_self (List.getElem?_eq_some_iff.mp hi).1] at hj
    cases hj
    exact .inl ⟨rfl, rfl⟩
  · rw [List.getElem?_set_ne hji] at hj
    exact .inr ⟨fun h => hji h.symm, hj⟩

end Since

end Store

end TinyOidc.Cache
