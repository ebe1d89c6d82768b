import TinyOidc.Lib.Threads

/-! What a program run on its own ensures of the state it leaves and of its result. -/
namespace Threads.Prog

variable {ω : Type} {ρ : ω → Type} {α β σ : Type} {exec : σ → (op : ω) → σ × ρ op} {s : σ}

/-- The program, run from the state, ends as `post` says. -/
def Ensures (exec : σ → (op : ω) → σ × ρ op) (post : σ → α → Prop) (s : σ) (p : Prog ω ρ α) :
    Prop :=
  post (p.run exec s).1 (p.run exec s).2

variable {post : σ → α → Prop}

@[simp] theorem ensures_pure {a : α} : Ensures exec post s (pure a) ↔ post s a := Iff.rfl

/-- The rule of a call: the rest starts from what the call leaves and answers. -/
theorem Ensures.perform {op : ω} {f : ρ op → Prog ω ρ α}
    (h : Ensures exec post (exec s op).1 (f (exec s op).2)) :
    Ensures exec post s (Prog.perform op >>= f) := h

theorem Ensures.bind {p : Prog ω ρ β} {f : β → Prog ω ρ α}
    (h : Ensures exec (fun s b => Ensures exec post s (f b)) s p) :
    Ensures exec post s (p >>= f) := by
  rw [Ensures, run_bind]
  exact h

/-- The rule of consequence. -/
theorem Ensures.mono {post' : σ → α → Prop} {p : Prog ω ρ α} (h : Ensures exec post s p)
    (hpost : ∀ s a, post s a → post' s a) : Ensures exec post' s p :=
  hpost _ _ h

/-- What a program ends as, it ensures. -/
theorem Yields.ensures {allowed : ω → Prop} {ends : α → Prop} {p : Prog ω ρ α}
    (h : p.Yields allowed ends) : Ensures exec (fun _ a => ends a) s p :=
  h.run exec s

end Threads.Prog
