import Mathlib.Logic.Basic

/-! Items with at most one owner each. An index names the owner of an item. A process claims an
item in the index before the owner takes it, and after an owner has dropped an item a process
releases the index. -/

/-- What a process has still to do: give an item to the owner it claimed it for, or release one. -/
inductive Ledger.Stand (υ π : Type) where
  | claims (owner : υ) (item : π)
  | owes (item : π)
  deriving DecidableEq

def Ledger.Stand.item {υ π : Type} : Ledger.Stand υ π → π
  | claims _ item | owes item => item

/-- What the owners have, what the index says, and what each process has still to do. -/
structure Ledger (ι υ π : Type) where
  holds : υ → π → Prop
  owner : π → Option υ
  stands : ι → Option (Ledger.Stand υ π)

namespace Ledger
variable {ι υ π : Type}

/-- Whether the release of an item leaves nobody behind: the owner that the index names does not
have it, and no process has claimed it. -/
def Safe (l : Ledger ι υ π) (p : π) : Prop :=
  (∀ u, l.owner p = some u → ¬ l.holds u p) ∧ ∀ i u, l.stands i ≠ some (.claims u p)

inductive Step (l l' : Ledger ι υ π) : Prop where
  | rest (hholds : ∀ v x, l'.holds v x ↔ l.holds v x) (howner : ∀ x, l'.owner x = l.owner x)
      (hstands : ∀ j, l'.stands j = l.stands j)
  | claim (i : ι) (u : υ) (p : π) (hidle : l.stands i = none) (hfree : l.owner p = none)
      (hholds : ∀ v x, l'.holds v x ↔ l.holds v x)
      (howner : l'.owner p = some u) (hothers : ∀ x, x ≠ p → l'.owner x = l.owner x)
      (hstand : l'.stands i = some (.claims u p)) (hstands : ∀ j, j ≠ i → l'.stands j = l.stands j)
  | store (i : ι) (u : υ) (p : π) (hclaims : l.stands i = some (.claims u p))
      (hholds : ∀ v x, l'.holds v x ↔ l.holds v x ∨ v = u ∧ x = p)
      (howner : ∀ x, l'.owner x = l.owner x)
      (hstand : l'.stands i = none) (hstands : ∀ j, j ≠ i → l'.stands j = l.stands j)
  | fail (i : ι) (u : υ) (p : π) (hclaims : l.stands i = some (.claims u p))
      (hholds : ∀ v x, l'.holds v x ↔ l.holds v x) (howner : ∀ x, l'.owner x = l.owner x)
      (hstand : l'.stands i = some (.owes p)) (hstands : ∀ j, j ≠ i → l'.stands j = l.stands j)
  | drop (i : ι) (u : υ) (p : π) (hidle : l.stands i = none)
      (hsub : ∀ v x, l'.holds v x → l.holds v x)
      (hkept : ∀ v x, l.holds v x → ¬ (v = u ∧ x = p) → l'.holds v x)
      (howner : ∀ x, l'.owner x = l.owner x)
      (hstand : l'.stands i = some (.owes p)) (hstands : ∀ j, j ≠ i → l'.stands j = l.stands j)
  | release (i : ι) (p : π) (hidle : ∀ s, l.stands i = some s → s = .owes p) (hsafe : l.Safe p)
      (hholds : ∀ v x, l'.holds v x ↔ l.holds v x)
      (howner : l'.owner p = none) (hothers : ∀ x, x ≠ p → l'.owner x = l.owner x)
      (hstand : l'.stands i = none) (hstands : ∀ j, j ≠ i → l'.stands j = l.stands j)

/-- The index names the owner of every item that has one, and of every claimed one, which nobody
has yet and one process claims; for every other item it names, a process owes the release. -/
structure Consistent (l : Ledger ι υ π) : Prop where
  held : ∀ u p, l.holds u p → l.owner p = some u
  claimed : ∀ i u p, l.stands i = some (.claims u p) → l.owner p = some u ∧ ¬ l.holds u p
  alone : ∀ i j u v p, l.stands i = some (.claims u p) → l.stands j = some (.claims v p) → i = j
  named : ∀ p u, l.owner p = some u → l.holds u p ∨ ∃ i s, l.stands i = some s ∧ s.item = p

variable {l l' : Ledger ι υ π}

theorem Consistent.one_owner (h : l.Consistent) {u v : υ} {p : π} (hu : l.holds u p)
    (hv : l.holds v p) : u = v :=
  Option.some.inj ((h.held u p hu).symm.trans (h.held v p hv))

/-- When no process has anything left to do, the index is exact. -/
theorem Consistent.exact (h : l.Consistent) (hrest : ∀ i, l.stands i = none) {u : υ} {p : π} :
    l.owner p = some u ↔ l.holds u p := by
  refine ⟨fun howner => ?_, h.held u p⟩
  rcases h.named p u howner with hholds | ⟨i, s, hstands, -⟩
  · exact hholds
  · rw [hrest i] at hstands
    cases hstands

/-- An item that the index does not name belongs to nobody and is claimed by nobody. -/
theorem Consistent.free (h : l.Consistent) {p : π} (hfree : l.owner p = none) :
    (∀ u, ¬ l.holds u p) ∧ ∀ i u, l.stands i ≠ some (.claims u p) := by
  constructor
  · intro u hholds
    have howner := h.held u p hholds
    rw [hfree] at howner
    cases howner
  · intro i u hclaims
    have howner := (h.claimed i u p hclaims).1
    rw [hfree] at howner
    cases howner

theorem Consistent.rest (h : l.Consistent) (hholds : ∀ v x, l'.holds v x ↔ l.holds v x)
    (howner : ∀ x, l'.owner x = l.owner x) (hstands : ∀ j, l'.stands j = l.stands j) :
    l'.Consistent where
  held u p hu := (howner p).trans (h.held u p ((hholds u p).mp hu))
  claimed i u p hi := by
    rw [howner, hholds]
    exact h.claimed i u p ((hstands i).symm.trans hi)
  alone i j u v p hi hj :=
    h.alone i j u v p ((hstands i).symm.trans hi) ((hstands j).symm.trans hj)
  named p u hu := by
    simp only [hholds, hstands]
    exact h.named p u ((howner p).symm.trans hu)

theorem Consistent.claim (h : l.Consistent) {i : ι} {u : υ} {p : π} (hidle : l.stands i = none)
    (hfree : l.owner p = none) (hholds : ∀ v x, l'.holds v x ↔ l.holds v x)
    (howner : l'.owner p = some u) (hothers : ∀ x, x ≠ p → l'.owner x = l.owner x)
    (hstand : l'.stands i = some (.claims u p))
    (hstands : ∀ j, j ≠ i → l'.stands j = l.stands j) : l'.Consistent := by
  obtain ⟨hnobody, hnone⟩ := h.free hfree
  have hold : ∀ j v x, j ≠ i → l'.stands j = some (.claims v x) →
      l.stands j = some (.claims v x) ∧ x ≠ p := by
    intro j v x hj hclaims
    rw [hstands j hj] at hclaims
    exact ⟨hclaims, fun heq => hnone j v (heq ▸ hclaims)⟩
  constructor
  · intro v x hv
    have hv := (hholds v x).mp hv
    have hne : x ≠ p := fun heq => hnobody v (heq ▸ hv)
    rw [hothers x hne]
    exact h.held v x hv
  · intro j v x hj
    rw [hholds]
    by_cases hji : j = i
    · subst hji
      cases hstand.symm.trans hj
      exact ⟨howner, hnobody u⟩
    · obtain ⟨hclaims, hne⟩ := hold j v x hji hj
      rw [hothers x hne]
      exact h.claimed j v x hclaims
  · intro j k v w x hj hk
    by_cases hji : j = i <;> by_cases hki : k = i
    · rw [hji, hki]
    · subst hji
      cases hstand.symm.trans hj
      exact absurd rfl (hold k w p hki hk).2
    · subst hki
      cases hstand.symm.trans hk
      exact absurd rfl (hold j v p hji hj).2
    · exact h.alone j k v w x (hold j v x hji hj).1 (hold k w x hki hk).1
  · intro x v hx
    by_cases hne : x = p
    · exact .inr ⟨i, _, hstand, hne.symm⟩
    · rw [hothers x hne] at hx
      rw [hholds]
      refine (h.named x v hx).imp_right ?_
      rintro ⟨j, s, hj, hitem⟩
      have hji : j ≠ i := by
        rintro rfl
        rw [hidle] at hj
        cases hj
      exact ⟨j, s, (hstands j hji).trans hj, hitem⟩

/-- A process that has claimed an item is done with it, or owes its release. -/
theorem Consistent.unclaim (h : l.Consistent) {i : ι} {u : υ} {p : π}
    (hclaims : l.stands i = some (.claims u p))
    (hstays : ∀ v x, l.holds v x → l'.holds v x)
    (hnew : ∀ v x, l'.holds v x → l.holds v x ∨ v = u ∧ x = p)
    (howner : ∀ x, l'.owner x = l.owner x) (hstand : ∀ v x, l'.stands i ≠ some (.claims v x))
    (hdone : l'.holds u p ∨ l'.stands i = some (.owes p))
    (hstands : ∀ j, j ≠ i → l'.stands j = l.stands j) : l'.Consistent := by
  obtain ⟨hown, -⟩ := h.claimed i u p hclaims
  have hold : ∀ j v x, l'.stands j = some (.claims v x) →
      l.stands j = some (.claims v x) ∧ x ≠ p := by
    intro j v x hj
    have hji : j ≠ i := by
      rintro rfl
      exact hstand v x hj
    rw [hstands j hji] at hj
    refine ⟨hj, ?_⟩
    rintro rfl
    exact hji (h.alone j i v u x hj hclaims)
  constructor
  · intro v x hv
    rw [howner]
    rcases hnew v x hv with hv | ⟨rfl, rfl⟩
    · exact h.held v x hv
    · exact hown
  · intro j v x hj
    obtain ⟨hclaimed, hne⟩ := hold j v x hj
    rw [howner]
    refine ⟨(h.claimed j v x hclaimed).1, fun hv => ?_⟩
    rcases hnew v x hv with hv | ⟨-, rfl⟩
    · exact (h.claimed j v x hclaimed).2 hv
    · exact hne rfl
  · intro j k v w x hj hk
    exact h.alone j k v w x (hold j v x hj).1 (hold k w x hk).1
  · intro x v hx
    rw [howner] at hx
    rcases h.named x v hx with hv | ⟨j, s, hj, hitem⟩
    · exact .inl (hstays v x hv)
    · by_cases hji : j = i
      · subst hji
        cases hclaims.symm.trans hj
        have hpx : p = x := hitem
        subst hpx
        cases hown.symm.trans hx
        exact hdone.imp (fun hv => hv) fun howes => ⟨j, .owes p, howes, rfl⟩
      · exact .inr ⟨j, s, (hstands j hji).trans hj, hitem⟩

theorem Consistent.drop (h : l.Consistent) {i : ι} {u : υ} {p : π} (hidle : l.stands i = none)
    (hsub : ∀ v x, l'.holds v x → l.holds v x)
    (hkept : ∀ v x, l.holds v x → ¬ (v = u ∧ x = p) → l'.holds v x)
    (howner : ∀ x, l'.owner x = l.owner x) (hstand : l'.stands i = some (.owes p))
    (hstands : ∀ j, j ≠ i → l'.stands j = l.stands j) : l'.Consistent := by
  have hold : ∀ j v x, l'.stands j = some (.claims v x) → l.stands j = some (.claims v x) := by
    intro j v x hj
    have hji : j ≠ i := by
      rintro rfl
      cases hstand.symm.trans hj
    exact (hstands j hji).symm.trans hj
  constructor
  · intro v x hv
    rw [howner]
    exact h.held v x (hsub v x hv)
  · intro j v x hj
    rw [howner]
    obtain ⟨hown, hnot⟩ := h.claimed j v x (hold j v x hj)
    exact ⟨hown, fun hv => hnot (hsub v x hv)⟩
  · intro j k v w x hj hk
    exact h.alone j k v w x (hold j v x hj) (hold k w x hk)
  · intro x v hx
    rw [howner] at hx
    rcases h.named x v hx with hv | ⟨j, s, hj, hitem⟩
    · by_cases hgone : v = u ∧ x = p
      · exact .inr ⟨i, _, hstand, hgone.2.symm⟩
      · exact .inl (hkept v x hv hgone)
    · have hji : j ≠ i := by
        rintro rfl
        rw [hidle] at hj
        cases hj
      exact .inr ⟨j, s, (hstands j hji).trans hj, hitem⟩

theorem Consistent.release (h : l.Consistent) {i : ι} {p : π}
    (hidle : ∀ s, l.stands i = some s → s = .owes p) (hsafe : l.Safe p)
    (hholds : ∀ v x, l'.holds v x ↔ l.holds v x)
    (howner : l'.owner p = none) (hothers : ∀ x, x ≠ p → l'.owner x = l.owner x)
    (hstand : l'.stands i = none) (hstands : ∀ j, j ≠ i → l'.stands j = l.stands j) :
    l'.Consistent := by
  have hold : ∀ j v x, l'.stands j = some (.claims v x) →
      l.stands j = some (.claims v x) ∧ x ≠ p := by
    intro j v x hj
    have hji : j ≠ i := by
      rintro rfl
      cases hstand.symm.trans hj
    rw [hstands j hji] at hj
    exact ⟨hj, fun heq => hsafe.2 j v (heq ▸ hj)⟩
  constructor
  · intro v x hv
    have hv := (hholds v x).mp hv
    have hown := h.held v x hv
    have hne : x ≠ p := by
      rintro rfl
      exact hsafe.1 v hown hv
    rw [hothers x hne, hown]
  · intro j v x hj
    obtain ⟨hclaims, hne⟩ := hold j v x hj
    rw [hothers x hne, hholds]
    exact h.claimed j v x hclaims
  · intro j k v w x hj hk
    exact h.alone j k v w x (hold j v x hj).1 (hold k w x hk).1
  · intro x v hx
    have hne : x ≠ p := by
      rintro rfl
      rw [howner] at hx
      cases hx
    rw [hothers x hne] at hx
    rw [hholds]
    refine (h.named x v hx).imp_right ?_
    rintro ⟨j, s, hj, hitem⟩
    have hji : j ≠ i := by
      rintro rfl
      rw [hidle s hj] at hitem
      exact hne hitem.symm
    exact ⟨j, s, (hstands j hji).trans hj, hitem⟩

/-- Every step keeps the index consistent, a release when it is safe. -/
theorem Consistent.step (h : l.Consistent) (hstep : Step l l') : l'.Consistent := by
  cases hstep with
  | rest hholds howner hstands => exact h.rest hholds howner hstands
  | claim i u p hidle hfree hholds howner hothers hstand hstands =>
    exact h.claim hidle hfree hholds howner hothers hstand hstands
  | store i u p hclaims hholds howner hstand hstands =>
    refine h.unclaim hclaims (fun v x hv => (hholds v x).mpr (.inl hv))
      (fun v x hv => (hholds v x).mp hv) howner ?_ (.inl ((hholds u p).mpr (.inr ⟨rfl, rfl⟩)))
      hstands
    rw [hstand]
    exact nofun
  | fail i u p hclaims hholds howner hstand hstands =>
    refine h.unclaim hclaims (fun v x hv => (hholds v x).mpr hv)
      (fun v x hv => .inl ((hholds v x).mp hv)) howner ?_ (.inr hstand) hstands
    rw [hstand]
    exact nofun
  | drop i u p hidle hsub hkept howner hstand hstands =>
    exact h.drop hidle hsub hkept howner hstand hstands
  | release i p hidle hsafe hholds howner hothers hstand hstands =>
    exact h.release hidle hsafe hholds howner hothers hstand hstands

end Ledger
