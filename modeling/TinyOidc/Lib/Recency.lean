import Mathlib.Data.List.Nodup

/-! Caches that drop what was used longest ago. Entries stand from the least to the most recently
used key, and a log of uses, newest first, says which one that is. -/
namespace Recency

variable {κ α : Type} [DecidableEq κ]

/-- Of the keys, the one whose last use in the log lies furthest back. -/
def LeastRecent (log keys : List κ) (k : κ) : Prop :=
  k ∈ keys ∧ k ∈ log ∧ ∀ j ∈ keys, j ≠ k → log.idxOf j < log.idxOf k

/-- Reinserts an entry as the most recently used, and drops the first one beyond the capacity. -/
def touch (cap : ℕ) (entries : List (κ × α)) (k : κ) (v : α) : List (κ × α) :=
  let moved := (entries.filter fun e => e.1 ≠ k) ++ [(k, v)]
  if moved.length > cap then moved.tail else moved

/-- At most one entry a key and as many as the capacity, in the order of their last uses. -/
structure Ordered (cap : ℕ) (log : List κ) (entries : List (κ × α)) : Prop where
  bounded : entries.length ≤ cap
  nodup : (entries.map Prod.fst).Nodup
  logged : ∀ k ∈ entries.map Prod.fst, k ∈ log
  recent : (entries.map Prod.fst).Pairwise fun j k => log.idxOf k < log.idxOf j

variable {cap : ℕ} {log : List κ} {entries : List (κ × α)} {k : κ} {v : α}

theorem ordered_nil : Ordered cap log ([] : List (κ × α)) :=
  ⟨Nat.zero_le _, List.nodup_nil, by simp, List.Pairwise.nil⟩

theorem map_fst_filter_ne (hnodup : (entries.map Prod.fst).Nodup) (k : κ) :
    (entries.filter fun e => e.1 ≠ k).map Prod.fst = (entries.map Prod.fst).erase k := by
  rw [hnodup.erase_eq_filter, List.filter_map]
  congr 1
  apply List.filter_congr
  intro e _
  by_cases he : e.1 = k
  · simp [he]
  · simp [he]

/-- A key that has an entry, or finds room for one, drops no other. -/
theorem map_fst_touch_of_room (h : Ordered cap log entries) (hcap : 0 < cap)
    (hroom : k ∈ entries.map Prod.fst ∨ entries.length < cap) :
    (touch cap entries k v).map Prod.fst = (entries.map Prod.fst).erase k ++ [k] := by
  have hkeys := map_fst_filter_ne h.nodup k
  have hlength : (entries.filter fun e => e.1 ≠ k).length + 1 ≤ cap := by
    have hmapped := congrArg List.length hkeys
    rw [List.length_map] at hmapped
    rw [hmapped]
    rcases hroom with hmem | hlt
    · have herased := List.length_erase_of_mem hmem
      have hbounded := h.bounded
      rw [herased, List.length_map]
      omega
    · have herased := List.length_erase_le (l := entries.map Prod.fst) (a := k)
      rw [List.length_map] at herased
      omega
  have hkept : touch cap entries k v = (entries.filter fun e => e.1 ≠ k) ++ [(k, v)] := by
    apply if_neg
    simp only [List.length_append, List.length_singleton]
    omega
  rw [hkept, List.map_append, hkeys]
  rfl

/-- A new key in a full cache drops the first entry, which is the one used longest ago. -/
theorem map_fst_touch_of_full (h : Ordered cap log entries) (hcap : 0 < cap)
    (hnew : k ∉ entries.map Prod.fst) (hfull : cap ≤ entries.length) :
    ∃ old, LeastRecent log (entries.map Prod.fst) old ∧
      (touch cap entries k v).map Prod.fst = (entries.map Prod.fst).erase old ++ [k] := by
  have hkept : (entries.filter fun e => e.1 ≠ k) = entries := by
    apply List.filter_eq_self.mpr
    intro e he
    have hne : e.1 ≠ k := fun hk => hnew (hk ▸ List.mem_map_of_mem he)
    simpa using hne
  cases entries with
  | nil =>
    simp only [List.length_nil] at hfull
    omega
  | cons first rest =>
    have hdropped : touch cap (first :: rest) k v = rest ++ [(k, v)] := by
      unfold touch
      rw [hkept]
      apply if_pos
      simp only [List.length_append, List.length_singleton]
      omega
    refine ⟨first.1, ⟨List.mem_cons_self, h.logged _ List.mem_cons_self, ?_⟩, ?_⟩
    · intro j hj hne
      obtain ⟨hfirst, -⟩ := List.pairwise_cons.mp h.recent
      apply hfirst
      exact (List.mem_cons.mp hj).resolve_left hne
    · rw [hdropped, List.map_cons, List.erase_cons_head, List.map_append]
      rfl

/-- A use of a key leaves the order of the others. -/
theorem pairwise_use {keys : List κ} (hk : k ∉ keys)
    (h : keys.Pairwise fun i j => log.idxOf j < log.idxOf i) :
    (keys ++ [k]).Pairwise fun i j => (k :: log).idxOf j < (k :: log).idxOf i := by
  have hshift : ∀ j ∈ keys, (k :: log).idxOf j = log.idxOf j + 1 := by
    intro j hj
    apply List.idxOf_cons_ne
    intro hkj
    exact hk (hkj ▸ hj)
  apply List.pairwise_append.mpr
  refine ⟨?_, List.pairwise_singleton _ _, ?_⟩
  · apply h.imp_of_mem
    intro i j hi hj hlt
    rw [hshift i hi, hshift j hj]
    omega
  · intro i hi j hj
    rw [List.mem_singleton.mp hj, List.idxOf_cons_self, hshift i hi]
    omega

theorem Ordered.touch (h : Ordered cap log entries) (hcap : 0 < cap) (k : κ) (v : α) :
    Ordered cap (k :: log) (touch cap entries k v) := by
  -- Whatever is dropped, the keys left stand as before, with the used one at the end.
  have hordered : ∀ keys, keys.Sublist (entries.map Prod.fst) → k ∉ keys →
      keys.length + 1 ≤ cap → (Recency.touch cap entries k v).map Prod.fst = keys ++ [k] →
      Ordered cap (k :: log) (Recency.touch cap entries k v) := by
    intro keys hsub hk hlength heq
    constructor
    · have hmapped := congrArg List.length heq
      simp only [List.length_map, List.length_append, List.length_singleton] at hmapped
      omega
    · rw [heq]
      apply List.Nodup.append (h.nodup.sublist hsub) (List.nodup_singleton k)
      simpa using hk
    · intro j hj
      rw [heq] at hj
      rcases List.mem_append.mp hj with hold | hnew
      · exact List.mem_cons_of_mem _ (h.logged j (hsub.subset hold))
      · rw [List.mem_singleton.mp hnew]
        exact List.mem_cons_self
    · rw [heq]
      exact pairwise_use hk (h.recent.sublist hsub)
  by_cases hroom : k ∈ entries.map Prod.fst ∨ entries.length < cap
  · have heq := map_fst_touch_of_room (v := v) h hcap hroom
    apply hordered _ List.erase_sublist h.nodup.not_mem_erase _ heq
    have hbounded := h.bounded
    rcases hroom with hmem | hlt
    · have herased := List.length_erase_of_mem hmem
      have hpos := List.length_pos_of_mem hmem
      simp only [List.length_map] at herased hpos
      omega
    · have herased := List.length_erase_le (l := entries.map Prod.fst) (a := k)
      simp only [List.length_map] at herased
      omega
  · obtain ⟨hnew, hfull⟩ := not_or.mp hroom
    obtain ⟨old, hold, heq⟩ := map_fst_touch_of_full (v := v) h hcap hnew (Nat.le_of_not_lt hfull)
    apply hordered _ List.erase_sublist _ _ heq
    · intro hk
      exact hnew (List.mem_of_mem_erase hk)
    · have herased := List.length_erase_of_mem hold.1
      have hbounded := h.bounded
      have hpos := List.length_pos_of_mem hold.1
      simp only [List.length_map] at herased hpos
      omega

theorem Ordered.filter (h : Ordered cap log entries) (p : κ × α → Bool) :
    Ordered cap log (entries.filter p) := by
  have hsub : ((entries.filter p).map Prod.fst).Sublist (entries.map Prod.fst) :=
    List.filter_sublist.map Prod.fst
  constructor
  · exact Nat.le_trans (List.length_filter_le p entries) h.bounded
  · exact h.nodup.sublist hsub
  · exact fun k hk => h.logged k (hsub.subset hk)
  · exact h.recent.sublist hsub

end Recency
