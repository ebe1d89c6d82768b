import TinyOidc.Lib.Table

/-! The rows of a table that belong to one owner, rewritten: those that are there go, and the new
ones are written in turn. -/
namespace RowTable.Table

variable {ρ κ : Type} {key : ρ → κ} [DecidableEq κ]

/-- The rows written in turn, each in place of the one with its key. -/
def upsertAll (t : Table ρ key) (rows : List ρ) : Table ρ key := rows.foldl upsert t

@[simp] theorem upsertAll_nil (t : Table ρ key) : t.upsertAll [] = t := rfl

@[simp] theorem upsertAll_cons (t : Table ρ key) (r : ρ) (rows : List ρ) :
    t.upsertAll (r :: rows) = (t.upsert r).upsertAll rows := rfl

/-- The row of the key is the owner's. -/
def Owns (owned : ρ → Bool) (t : Table ρ key) (k : κ) : Prop := (t.find k).any owned = true

instance (owned : ρ → Bool) (t : Table ρ key) (k : κ) : Decidable (Owns owned t k) :=
  inferInstanceAs (Decidable (_ = true))

variable {owned : ρ → Bool} {t u : Table ρ key} {k : κ}

theorem not_owns_deleteWhere : ¬ Owns owned (t.deleteWhere owned) k := by
  unfold Owns
  cases hfind : (t.deleteWhere owned).find k with
  | none => simp
  | some r => simp [(find_of_find_deleteWhere hfind).2]

theorem owns_upsert {r : ρ} (hr : owned r = true) :
    Owns owned (t.upsert r) k ↔ k = key r ∨ Owns owned t k := by
  unfold Owns
  rw [find_upsert]
  by_cases hk : k = key r <;> simp [hk, hr]

theorem owns_insert {r : ρ} (hr : owned r = true) (h : t.insert r = some u) :
    Owns owned u k ↔ k = key r ∨ Owns owned t k := by
  unfold Owns
  rw [find_insert h]
  by_cases hk : k = key r <;> simp [hk, hr]

theorem owns_upsertAll {rows : List ρ} (hrows : ∀ r ∈ rows, owned r = true) :
    Owns owned (t.upsertAll rows) k ↔ k ∈ rows.map key ∨ Owns owned t k := by
  induction rows generalizing t with
  | nil => simp
  | cons r rows ih =>
    rw [List.forall_mem_cons] at hrows
    rw [upsertAll_cons, ih hrows.2, owns_upsert hrows.1]
    simp only [List.map_cons, List.mem_cons]
    tauto

/-- An owner whose rows are rewritten has the new ones and no other. -/
theorem owns_rewritten {rows : List ρ} (hrows : ∀ r ∈ rows, owned r = true) :
    Owns owned ((t.deleteWhere owned).upsertAll rows) k ↔ k ∈ rows.map key := by
  rw [owns_upsertAll hrows, or_iff_left not_owns_deleteWhere]

end RowTable.Table
