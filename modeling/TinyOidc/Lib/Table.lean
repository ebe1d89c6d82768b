import Mathlib.Data.List.Nodup
import Mathlib.Data.List.Basic

/-! Tables of rows with a primary key. The key's uniqueness is a field, so a table
with two rows of one key cannot be built; an insertion that would make one fails. -/
namespace RowTable

structure Table (ρ : Type) {κ : Type} (key : ρ → κ) where
  rows : List ρ
  nodup : (rows.map key).Nodup

namespace Table
variable {ρ κ : Type} {key : ρ → κ}

theorem ext_rows {t u : Table ρ key} (h : t.rows = u.rows) : t = u := by
  cases t
  cases u
  simpa using h

def empty : Table ρ key := ⟨[], List.nodup_nil⟩

/-- `DELETE FROM t WHERE p`. The predicate is evaluated on the table before the deletion. -/
def deleteWhere (t : Table ρ key) (p : ρ → Bool) : Table ρ key where
  rows := t.rows.filter (fun r => !p r)
  nodup := t.nodup.sublist (List.filter_sublist.map key)

/-- `UPDATE t SET f WHERE p`, for an assignment that leaves the key alone. -/
def updateWhere (t : Table ρ key) (p : ρ → Bool) (f : ρ → ρ)
    (hf : ∀ r, key (f r) = key r) : Table ρ key where
  rows := t.rows.map (fun r => if p r then f r else r)
  nodup := by
    have h : (t.rows.map (fun r => if p r then f r else r)).map key = t.rows.map key := by
      rw [List.map_map]
      apply List.map_congr_left
      intro r _
      simp only [Function.comp]
      split <;> simp [hf]
    rw [h]
    exact t.nodup

section Keyed
variable [DecidableEq κ]

/-- `SELECT * FROM t WHERE key = k`. -/
def find (t : Table ρ key) (k : κ) : Option ρ := t.rows.find? (fun r => key r = k)

/-- `INSERT INTO t`: fails when the key is taken. -/
def insert (t : Table ρ key) (r : ρ) : Option (Table ρ key) :=
  if h : key r ∈ t.rows.map key then none
  else some ⟨t.rows ++ [r], by
    rw [List.map_append, List.nodup_append]
    refine ⟨t.nodup, List.nodup_singleton _, ?_⟩
    intro a ha b hb hab
    rw [List.map_singleton, List.mem_singleton] at hb
    exact h (hb ▸ hab ▸ ha)⟩

/-- `INSERT … ON CONFLICT(key) DO UPDATE`: the row takes the place of the one with its key. -/
def upsert (t : Table ρ key) (r : ρ) : Table ρ key :=
  match t.insert r with
  | some u => u
  | none => t.updateWhere (fun s => key s = key r) (fun s => if key s = key r then r else s)
      (fun s => by split <;> simp_all)

end Keyed

@[simp] theorem empty_rows : (empty : Table ρ key).rows = [] := rfl

@[simp] theorem mem_deleteWhere {t : Table ρ key} {p : ρ → Bool} {r : ρ} :
    r ∈ (t.deleteWhere p).rows ↔ r ∈ t.rows ∧ p r = false := by
  simp [deleteWhere]

theorem deleteWhere_subset {t : Table ρ key} {p : ρ → Bool} :
    (t.deleteWhere p).rows ⊆ t.rows := fun _ h => (mem_deleteWhere.mp h).1

theorem mem_updateWhere_of_mem {t : Table ρ key} {p : ρ → Bool} {f : ρ → ρ}
    (hf : ∀ r, key (f r) = key r) {r : ρ} (hr : r ∈ t.rows) :
    (if p r then f r else r) ∈ (t.updateWhere p f hf).rows := List.mem_map_of_mem hr

/-- A unique index over an update of one row, to a value that no other row has. -/
theorem nodup_filterMap_update {τ : Type} {rows : List ρ} {g : ρ → Option τ} {p : ρ → Bool}
    {f : ρ → ρ} (hone : rows.Pairwise fun a b => p a = true → p b = false)
    (hnodup : (rows.filterMap g).Nodup)
    (hother : ∀ a ∈ rows, p a = true → ∀ b ∈ rows, p b = false → ∀ x, g (f a) = some x →
      g b ≠ some x) :
    ((rows.map fun r => if p r then f r else r).filterMap g).Nodup := by
  rw [List.Nodup, List.pairwise_filterMap] at hnodup ⊢
  rw [List.pairwise_map]
  have hboth := List.pairwise_and_iff.mpr ⟨hone, hnodup⟩
  refine hboth.imp_of_mem ?_
  rintro a b ha hb ⟨hab, hdistinct⟩ x hx y hy rfl
  cases hpa : p a with
  | true =>
    have hpb := hab hpa
    simp only [hpa, hpb, if_true, Bool.false_eq_true, if_false] at hx hy
    exact hother a ha hpa b hb hpb x hx hy
  | false =>
    cases hpb : p b with
    | true =>
      simp only [hpa, hpb, if_true, Bool.false_eq_true, if_false] at hx hy
      exact hother b hb hpb a ha hpa x hy hx
    | false =>
      simp only [hpa, hpb, Bool.false_eq_true, if_false] at hx hy
      exact hdistinct x hx x hy rfl

/-- Two rows of one value of a unique column are one. -/
theorem eq_of_nodup_filterMap {τ : Type} {rows : List ρ} {g : ρ → Option τ}
    (hnodup : (rows.filterMap g).Nodup) {a b : ρ} {x : τ} (ha : a ∈ rows) (hb : b ∈ rows)
    (hax : g a = some x) (hbx : g b = some x) : a = b := by
  induction rows with
  | nil => cases ha
  | cons r rows ih =>
    have hmem : ∀ c ∈ rows, g c = some x → x ∈ rows.filterMap g :=
      fun c hc hcx => List.mem_filterMap.mpr ⟨c, hc, hcx⟩
    rcases List.mem_cons.mp ha with rfl | har <;> rcases List.mem_cons.mp hb with rfl | hbr
    · rfl
    · rw [List.filterMap_cons_some hax, List.nodup_cons] at hnodup
      exact absurd (hmem b hbr hbx) hnodup.1
    · rw [List.filterMap_cons_some hbx, List.nodup_cons] at hnodup
      exact absurd (hmem a har hax) hnodup.1
    · exact ih (hnodup.sublist ((List.sublist_cons_self r rows).filterMap g)) har hbr

/-- Each row after an update is a row of before, assigned or as it was. -/
theorem exists_of_mem_update {rows : List ρ} {p : ρ → Bool} {f : ρ → ρ} {r : ρ}
    (h : r ∈ rows.map (fun s => if p s then f s else s)) :
    ∃ s ∈ rows, (p s = false ∧ r = s) ∨ (p s = true ∧ r = f s) := by
  obtain ⟨s, hs, rfl⟩ := List.mem_map.mp h
  cases hp : p s with
  | false => exact ⟨s, hs, Or.inl ⟨hp, by simp⟩⟩
  | true => exact ⟨s, hs, Or.inr ⟨hp, by simp⟩⟩

theorem updateWhere_self {t : Table ρ key} {p : ρ → Bool} {f : ρ → ρ}
    {hf : ∀ r, key (f r) = key r} (h : ∀ r ∈ t.rows, p r = true → f r = r) :
    t.updateWhere p f hf = t := by
  have hid : ∀ r ∈ t.rows, (if p r then f r else r) = r := by
    intro r hr
    split
    · next hp => exact h r hr hp
    · rfl
  exact ext_rows ((List.map_congr_left hid).trans (List.map_id _))

theorem updateWhere_congr {t : Table ρ key} {p q : ρ → Bool} {f : ρ → ρ}
    {hf : ∀ r, key (f r) = key r} (h : ∀ r ∈ t.rows, p r = q r) :
    t.updateWhere p f hf = t.updateWhere q f hf :=
  ext_rows (List.map_congr_left fun r hm => by rw [h r hm])

/-- Two rows with one key are the same row. -/
theorem eq_of_key_eq {t : Table ρ key} {r s : ρ} (hr : r ∈ t.rows) (hs : s ∈ t.rows)
    (h : key r = key s) : r = s :=
  List.inj_on_of_nodup_map t.nodup hr hs h

section Keyed
variable [DecidableEq κ]

theorem find_eq_some {t : Table ρ key} {k : κ} {r : ρ} :
    t.find k = some r ↔ r ∈ t.rows ∧ key r = k := by
  constructor
  · intro h
    exact ⟨List.mem_of_find?_eq_some h, by simpa using List.find?_some h⟩
  · rintro ⟨hr, rfl⟩
    cases h : t.find (key r) with
    | none =>
      have hn := List.find?_eq_none.mp h r hr
      simp at hn
    | some s =>
      have hs : s ∈ t.rows := List.mem_of_find?_eq_some h
      have hk : key s = key r := by simpa using List.find?_some h
      rw [eq_of_key_eq hs hr hk]

theorem find_eq_none {t : Table ρ key} {k : κ} :
    t.find k = none ↔ ∀ r ∈ t.rows, key r ≠ k := by
  simp [find, List.find?_eq_none]

theorem mem_insert {t u : Table ρ key} {r s : ρ} (h : t.insert r = some u) :
    s ∈ u.rows ↔ s ∈ t.rows ∨ s = r := by
  unfold insert at h
  split at h
  · cases h
  · cases h
    simp

theorem key_notMem_of_insert {t u : Table ρ key} {r : ρ} (h : t.insert r = some u) :
    ∀ s ∈ t.rows, key s ≠ key r := by
  unfold insert at h
  split at h
  · cases h
  · next hk =>
    intro s hs he
    exact hk (List.mem_map.mpr ⟨s, hs, he⟩)

theorem insert_isSome_of_key_notMem {t : Table ρ key} {r : ρ}
    (h : ∀ s ∈ t.rows, key s ≠ key r) : ∃ u, t.insert r = some u := by
  have hk : key r ∉ t.rows.map key := by
    intro hm
    obtain ⟨s, hs, he⟩ := List.mem_map.mp hm
    exact h s hs he
  exact ⟨_, dif_neg hk⟩

/-- An update that spares a new row may come before its insertion or after. -/
theorem insert_updateWhere {t : Table ρ key} {r : ρ} {p : ρ → Bool} {f : ρ → ρ}
    {hf : ∀ r, key (f r) = key r} (hr : (∀ s ∈ t.rows, key s ≠ key r) → p r = false) :
    (t.updateWhere p f hf).insert r = (t.insert r).map (·.updateWhere p f hf) := by
  have hkeys : (t.updateWhere p f hf).rows.map key = t.rows.map key := by
    rw [updateWhere, List.map_map]
    refine List.map_congr_left fun s _ => ?_
    by_cases hs : p s = true
    · simp [hs, hf]
    · simp [hs]
  by_cases hk : key r ∈ t.rows.map key
  · have hk' : key r ∈ (t.updateWhere p f hf).rows.map key := hkeys ▸ hk
    simp only [insert, dif_pos hk, dif_pos hk', Option.map_none]
  · have hk' : key r ∉ (t.updateWhere p f hf).rows.map key := hkeys ▸ hk
    have hspared : p r = false := hr fun s hs he => hk (List.mem_map.mpr ⟨s, hs, he⟩)
    rw [insert, insert, dif_neg hk, dif_neg hk', Option.map_some]
    refine congrArg some (ext_rows ?_)
    simp [updateWhere, hspared]

theorem find_insert {t u : Table ρ key} {r : ρ} (h : t.insert r = some u) (k : κ) :
    u.find k = if k = key r then some r else t.find k := by
  by_cases hk : k = key r
  · rw [if_pos hk]
    exact find_eq_some.mpr ⟨(mem_insert h).mpr (.inr rfl), hk.symm⟩
  · rw [if_neg hk]
    cases hfind : t.find k with
    | some s =>
      obtain ⟨hs, hkey⟩ := find_eq_some.mp hfind
      exact find_eq_some.mpr ⟨(mem_insert h).mpr (.inl hs), hkey⟩
    | none =>
      refine find_eq_none.mpr fun s hs => ?_
      rcases (mem_insert h).mp hs with hs | rfl
      · exact find_eq_none.mp hfind s hs
      · exact fun he => hk he.symm

theorem find_updateWhere {t : Table ρ key} {p : ρ → Bool} {f : ρ → ρ}
    {hf : ∀ r, key (f r) = key r} (k : κ) :
    (t.updateWhere p f hf).find k = (t.find k).map (fun r => if p r then f r else r) := by
  cases hfind : t.find k with
  | none =>
    refine find_eq_none.mpr fun s hs => ?_
    obtain ⟨r, hr, ⟨-, rfl⟩ | ⟨-, rfl⟩⟩ := exists_of_mem_update hs
    · exact find_eq_none.mp hfind s hr
    · rw [hf]
      exact find_eq_none.mp hfind r hr
  | some r =>
    obtain ⟨hr, hkey⟩ := find_eq_some.mp hfind
    refine find_eq_some.mpr ⟨mem_updateWhere_of_mem hf hr, ?_⟩
    dsimp only
    split
    · rw [hf, hkey]
    · exact hkey

/-- A row that survives a deletion is the row that was there. -/
theorem find_upsert (t : Table ρ key) (r : ρ) (k : κ) :
    (t.upsert r).find k = if k = key r then some r else t.find k := by
  unfold upsert
  split
  · next u hinsert => exact find_insert hinsert k
  · next hinsert =>
    rw [find_updateWhere]
    by_cases hk : k = key r
    · subst hk
      have htaken : ∃ s, t.find (key r) = some s := by
        by_contra hfree
        have hnone : t.find (key r) = none := Option.eq_none_iff_forall_ne_some.mpr
          fun s hs => hfree ⟨s, hs⟩
        obtain ⟨u, hu⟩ := insert_isSome_of_key_notMem (find_eq_none.mp hnone)
        rw [hinsert] at hu
        cases hu
      obtain ⟨s, hs⟩ := htaken
      have hkey : key s = key r := (find_eq_some.mp hs).2
      simp [hs, hkey]
    · cases hs : t.find k with
      | none => simp [hk]
      | some s =>
        have hkey : key s ≠ key r := by
          rw [(find_eq_some.mp hs).2]
          exact hk
        simp [hk, hkey]

theorem find_of_find_deleteWhere {t : Table ρ key} {p : ρ → Bool} {k : κ} {r : ρ}
    (h : (t.deleteWhere p).find k = some r) : t.find k = some r ∧ p r = false := by
  obtain ⟨hr, hkey⟩ := find_eq_some.mp h
  obtain ⟨hmem, hp⟩ := mem_deleteWhere.mp hr
  exact ⟨find_eq_some.mpr ⟨hmem, hkey⟩, hp⟩

theorem find_deleteWhere_key (t : Table ρ key) (k k' : κ) :
    (t.deleteWhere (fun r => key r == k)).find k' = if k' = k then none else t.find k' := by
  by_cases hk : k' = k
  · rw [if_pos hk, find_eq_none]
    intro r hr
    have hne := (mem_deleteWhere.mp hr).2
    rw [hk]
    simpa using hne
  · rw [if_neg hk]
    cases hfind : t.find k' with
    | none =>
      rw [find_eq_none] at hfind ⊢
      exact fun r hr => hfind r (deleteWhere_subset hr)
    | some r =>
      obtain ⟨hr, rfl⟩ := find_eq_some.mp hfind
      exact find_eq_some.mpr ⟨mem_deleteWhere.mpr ⟨hr, by simpa using hk⟩, rfl⟩

theorem length_insert {t u : Table ρ key} {r : ρ} (h : t.insert r = some u) :
    u.rows.length = t.rows.length + 1 := by
  unfold insert at h
  split at h
  · cases h
  · cases h
    simp

/-- Deleting by key takes the one row of that key, if there is one. -/
theorem length_deleteWhere_key (t : Table ρ key) (k : κ) :
    (t.deleteWhere (fun r => key r == k)).rows.length + (if (t.find k).isSome then 1 else 0) =
      t.rows.length := by
  have hsplit := List.length_eq_countP_add_countP (fun r => key r == k) (l := t.rows)
  have hdeleted : (t.deleteWhere (fun r => key r == k)).rows.length =
      t.rows.countP (fun r => !(key r == k)) := by
    rw [List.countP_eq_length_filter]
    rfl
  have hcount : t.rows.countP (fun r => key r == k) = if (t.find k).isSome then 1 else 0 := by
    have hkeys : t.rows.countP (fun r => key r == k) = (t.rows.map key).count k := by
      rw [List.count_eq_countP, List.countP_map]
      rfl
    have hmem : k ∈ t.rows.map key ↔ (t.find k).isSome = true := by
      simp [find, List.mem_map]
    simp only [hkeys, t.nodup.count, hmem]
  have hnot : t.rows.countP (fun r => ¬(key r == k) = true) =
      t.rows.countP (fun r => !(key r == k)) := by
    refine List.countP_congr fun r _ => ?_
    by_cases hr : key r = k <;> simp [hr]
  omega

end Keyed

/-! ### Where the rows of a table come from -/

/-- Every row of the second table is a later version of a row of the first, or new. -/
def Evolves (later : ρ → ρ → Prop) (new : ρ → Prop) (t u : Table ρ key) : Prop :=
  ∀ r ∈ u.rows, (∃ s ∈ t.rows, later s r) ∨ new r

section Evolves
variable {later : ρ → ρ → Prop} {new : ρ → Prop} {t u : Table ρ key}

theorem Evolves.refl (hl : ∀ r, later r r) : Evolves later new t t :=
  fun r hr => .inl ⟨r, hr, hl r⟩

theorem Evolves.of_eq (hl : ∀ r, later r r) (h : u = t) : Evolves later new t u :=
  h ▸ Evolves.refl hl

theorem Evolves.trans {v : Table ρ key} (hl : ∀ {r s w}, later r s → later s w → later r w)
    (hn : ∀ {r s}, later r s → new r → new s) (h : Evolves later new t u)
    (h' : Evolves later new u v) : Evolves later new t v := by
  intro r hr
  rcases h' r hr with ⟨s, hs, hsr⟩ | hnew
  · rcases h s hs with ⟨w, hw, hws⟩ | hnew
    · exact .inl ⟨w, hw, hl hws hsr⟩
    · exact .inr (hn hsr hnew)
  · exact .inr hnew

theorem Evolves.mono {new' : ρ → Prop} (h : Evolves later new t u) (hn : ∀ r, new r → new' r) :
    Evolves later new' t u :=
  fun r hr => (h r hr).imp_right (hn r)

/-- What the rows have, later versions keep and new rows have, the later rows have. -/
theorem Evolves.forall {P : ρ → Prop} (h : Evolves later new t u)
    (hl : ∀ r s, later r s → P r → P s) (hn : ∀ r, new r → P r) (ht : ∀ r ∈ t.rows, P r) :
    ∀ r ∈ u.rows, P r := by
  intro r hr
  rcases h r hr with ⟨s, hs, hsr⟩ | hnew
  · exact hl s r hsr (ht s hs)
  · exact hn r hnew

theorem evolves_empty : Evolves later new t empty := by
  intro r hr
  simp at hr

theorem evolves_deleteWhere (hl : ∀ r, later r r) (p : ρ → Bool) :
    Evolves later new t (t.deleteWhere p) :=
  fun r hr => .inl ⟨r, deleteWhere_subset hr, hl r⟩

theorem evolves_update_of_mem (hl : ∀ r, later r r) {p : ρ → Bool} {f : ρ → ρ}
    (hu : u.rows = t.rows.map (fun r => if p r then f r else r))
    (hp : ∀ r ∈ t.rows, p r = true → later r (f r)) : Evolves later new t u := by
  intro r hr
  rw [hu] at hr
  obtain ⟨s, hs, ⟨_, rfl⟩ | ⟨ht, rfl⟩⟩ := exists_of_mem_update hr
  · exact .inl ⟨r, hs, hl r⟩
  · exact .inl ⟨s, hs, hp s hs ht⟩

theorem evolves_update (hl : ∀ r, later r r) {p : ρ → Bool} {f : ρ → ρ}
    (hu : u.rows = t.rows.map (fun r => if p r then f r else r))
    (hp : ∀ r, p r = true → later r (f r)) : Evolves later new t u :=
  evolves_update_of_mem hl hu (fun r _ => hp r)

theorem evolves_insert [DecidableEq κ] (hl : ∀ r, later r r) {r : ρ}
    (h : t.insert r = some u) (hn : new r) : Evolves later new t u := by
  intro s hs
  rcases (mem_insert h).mp hs with hs | rfl
  · exact .inl ⟨s, hs, hl s⟩
  · exact .inr hn

end Evolves
end Table
end RowTable
