import Mathlib.Data.List.Forall2
import Mathlib.Data.List.Perm.Basic
import Mathlib.Data.List.Sort

/-! Facts about lists that Mathlib does not have. -/
namespace Lists

/-- Two maps of lists that tell the same members apart tell the same lists apart. -/
theorem map_eq_map_iff {α β γ : Type} {f : α → β} {g : α → γ} {l l' : List α}
    (h : ∀ a ∈ l, ∀ b ∈ l', f a = f b ↔ g a = g b) :
    l.map f = l'.map f ↔ l.map g = l'.map g := by
  induction l generalizing l' with
  | nil => simp
  | cons a l ih =>
    cases l' with
    | nil => simp
    | cons b l' =>
      have hrest := ih fun x hx y hy =>
        h x (List.mem_cons_of_mem _ hx) y (List.mem_cons_of_mem _ hy)
      rw [List.map_cons, List.map_cons, List.cons.injEq, List.map_cons, List.map_cons,
        List.cons.injEq, h a List.mem_cons_self b List.mem_cons_self, hrest]

theorem mem_intercalate {α : Type} {sep : List α} {parts : List (List α)} {a : α}
    (h : a ∈ sep.intercalate parts) : a ∈ sep ∨ ∃ part ∈ parts, a ∈ part := by
  induction parts with
  | nil => cases h
  | cons part parts ih =>
    cases parts with
    | nil => exact .inr ⟨part, List.mem_cons_self, by simpa [List.intercalate] using h⟩
    | cons next parts =>
      rw [List.intercalate_cons_cons, List.mem_append, List.mem_append] at h
      rcases h with (h | h) | h
      · exact .inr ⟨part, List.mem_cons_self, h⟩
      · exact .inl h
      · rcases ih h with hsep | ⟨p, hp, hmem⟩
        · exact .inl hsep
        · exact .inr ⟨p, List.mem_cons_of_mem _ hp, hmem⟩

theorem modifyHead_self {α : Type} (l : List α) : l.modifyHead (fun x => x) = l := by
  cases l <;> rfl

/-- Whatever is taken out of a list, each other item stays. -/
theorem mem_eraseIdx_or {α : Type} {l : List α} {i : ℕ} {a b : α} (ha : a ∈ l)
    (hi : l[i]? = some b) : a = b ∨ a ∈ l.eraseIdx i := by
  obtain ⟨hlt, rfl⟩ := List.getElem?_eq_some_iff.mp hi
  exact List.mem_cons.mp ((List.getElem_cons_eraseIdx_perm hlt).mem_iff.mpr ha)

theorem flatMap_eq_filter {ρ : Type} {rows : List ρ} {f : ρ → List ρ} {p : ρ → Bool}
    (h : ∀ row, f row = if p row then [row] else []) : rows.flatMap f = rows.filter p := by
  induction rows with
  | nil => rfl
  | cons row rows ih =>
    rw [List.flatMap_cons, h, ih, List.filter_cons]
    split <;> simp

theorem count_filterMap_cons {γ τ : Type} [BEq τ] (f : γ → Option τ) (a : γ) (l : List γ) (x : τ) :
    ((a :: l).filterMap f).count x = (f a).toList.count x + (l.filterMap f).count x := by
  cases h : f a with
  | none => simp [h]
  | some y => simp [h, List.count_cons, Nat.add_comm]

theorem exists_of_mem_mapM {α β : Type} {f : α → Option β} {l : List α} {ys : List β}
    (h : l.mapM f = some ys) {y : β} (hy : y ∈ ys) : ∃ x ∈ l, f x = some y := by
  induction l generalizing ys with
  | nil =>
    cases h
    cases hy
  | cons x rest ih =>
    rw [List.mapM_cons] at h
    obtain ⟨z, hz, h⟩ := Option.bind_eq_some_iff.mp h
    obtain ⟨zs, hzs, h⟩ := Option.bind_eq_some_iff.mp h
    cases h
    rcases List.mem_cons.mp hy with rfl | hy
    · exact ⟨x, List.mem_cons_self, hz⟩
    · obtain ⟨x', hx', hf⟩ := ih hzs hy
      exact ⟨x', List.mem_cons_of_mem _ hx', hf⟩

/-- A fold whose steps always hold something ends with something, unless it has nothing to take. -/
theorem foldl_isSome {α β : Type} {f : Option β → α → Option β} (hf : ∀ b a, (f b a).isSome)
    (l : List α) (b : Option β) : (l.foldl f b).isSome = (b.isSome || !l.isEmpty) := by
  induction l generalizing b with
  | nil => simp
  | cons a l ih => simp [ih, hf b a]

theorem insertionSort_congr {ρ : Type} {r s : ρ → ρ → Prop} [DecidableRel r] [DecidableRel s]
    (h : ∀ a b, r a b ↔ s a b) (rows : List ρ) : rows.insertionSort r = rows.insertionSort s := by
  have hmap := List.map_insertionSort r s id rows fun a _ b _ => h a b
  simpa using hmap

theorem lookup_map_self {α β : Type} [BEq α] [LawfulBEq α] {f : α → β} {l : List α} {a : α}
    (h : a ∈ l) : (l.map fun x => (x, f x)).lookup a = some (f a) := by
  induction l with
  | nil => cases h
  | cons x rest ih =>
    by_cases hx : a = x
    · subst hx
      simp
    · have hrest := ih ((List.mem_cons.mp h).resolve_left hx)
      simp [List.lookup_cons, beq_eq_false_iff_ne.mpr hx, hrest]

theorem lookup_eq_of_mem {κ τ : Type} [BEq κ] [LawfulBEq κ] {pairs : List (κ × τ)}
    (hkeys : (pairs.map Prod.fst).Nodup) {k : κ} {v : τ} (hmem : (k, v) ∈ pairs) :
    pairs.lookup k = some v := by
  induction pairs with
  | nil => cases hmem
  | cons p pairs ih =>
    obtain ⟨k', v'⟩ := p
    rw [List.map_cons, List.nodup_cons] at hkeys
    rcases List.mem_cons.mp hmem with heq | hmem
    · cases heq
      simp
    · have hfst : k ∈ pairs.map Prod.fst := List.mem_map_of_mem hmem
      have hne : (k == k') = false := by
        rw [beq_eq_false_iff_ne]
        rintro rfl
        exact hkeys.1 hfst
      rw [List.lookup_cons, hne]
      exact ih hkeys.2 hmem

/-- Relations between lists, item by item, compose. -/
theorem forall₂_comp {α β γ : Type} {R : α → β → Prop} {S : β → γ → Prop} {T : α → γ → Prop}
    (h : ∀ a b c, R a b → S b c → T a c) {l : List α} {m : List β} {n : List γ}
    (hR : List.Forall₂ R l m) (hS : List.Forall₂ S m n) : List.Forall₂ T l n := by
  induction hR generalizing n with
  | nil =>
    cases hS
    exact .nil
  | cons hab _ ih =>
    cases hS with
    | cons hbc hrest => exact .cons (h _ _ _ hab hbc) (ih hrest)

end Lists
