import TinyOidc.Lib.Threads

/-! A program as one over more operations. -/
namespace Threads.Prog

variable {ω ω' : Type} {ρ : ω → Type} {ρ' : ω' → Type} {α : Type}

/-- Each call becomes one of the larger set, whose answers are read back. -/
def embed (f : ω → ω') (answer : (op : ω) → ρ' (f op) → ρ op) : Prog ω ρ α → Prog ω' ρ' α
  | done a => done a
  | call op next => call (f op) fun r => (next (answer op r)).embed f answer

variable {f : ω → ω'} {answer : (op : ω) → ρ' (f op) → ρ op}
  {permits : List (Entry ρ') → ω' → Prop} {post : List (Entry ρ') → α → Prop}
  {log : List (Entry ρ')}

/-- The rule of an embedded call: the log has it as the call of the larger set. -/
theorem Obeys.embed_perform {op : ω} {k : ρ op → Prog ω ρ α} (hop : permits log (f op))
    (hk : ∀ r, Obeys permits post (⟨f op, r⟩ :: log) ((k (answer op r)).embed f answer)) :
    Obeys permits post log ((Prog.perform op >>= k).embed f answer) := ⟨hop, hk⟩

/-- The rule of an embedded end. -/
theorem Obeys.embed_pure {a : α} (h : post log a) :
    Obeys permits post log ((pure a : Prog ω ρ α).embed f answer) := h

end Threads.Prog
