import Mathlib.Data.List.Sort
import Mathlib.Data.Prod.Lex

/-! Listings in pages. The rows of a table are shown in the order of a key, and each page goes on
after the key of the last row of the page before it. One row more than the page holds is fetched:
it tells whether there is another page. -/
namespace Paging

variable {α κ : Type}

structure Page (α γ : Type) where
  items : List α
  next : Option γ
  deriving DecidableEq, Repr

/-- The items of the pages from a cursor on, in at most `fuel` pages; `none` when a page is
refused or there are more. -/
def follow {γ : Type} (serve : ℕ → Option γ → Option (Page α γ)) :
    ℕ → ℕ → Option γ → Option (List α)
  | 0, _, _ => none
  | fuel + 1, i, cursor =>
    match serve i cursor with
    | none => none
    | some page =>
      match page.next with
      | none => some page.items
      | some next => (follow serve fuel (i + 1) (some next)).map (page.items ++ ·)

/-- Pages with cursors of another form, that open to the keys, show the same items. -/
theorem follow_refines {β γ : Type} {serve : ℕ → Option κ → Option (Page α κ)}
    {served : ℕ → Option γ → Option (Page β γ)} {shown : α → Option β}
    {opens : ℕ → Option γ → Option κ → Prop}
    (hstep : ∀ i cursor after, opens i cursor after → ∃ page next,
      serve i after = some page ∧ served i cursor = some ⟨page.items.filterMap shown, next⟩ ∧
      (page.next = none → next = none) ∧
      ∀ k, page.next = some k → ∃ c, next = some c ∧ opens (i + 1) (some c) (some k))
    (fuel i : ℕ) (cursor : Option γ) (after : Option κ) (h : opens i cursor after) :
    follow served fuel i cursor = (follow serve fuel i after).map (·.filterMap shown) := by
  induction fuel generalizing i cursor after with
  | zero => rfl
  | succ fuel ih =>
    obtain ⟨page, next, hpage, hserved, hlast, hmore⟩ := hstep i cursor after h
    rw [follow, follow, hpage, hserved]
    dsimp only
    cases hnext : page.next with
    | none => rw [hlast hnext]; rfl
    | some k =>
      obtain ⟨c, rfl, hopens⟩ := hmore k hnext
      dsimp only
      rw [ih (i + 1) (some c) (some k) hopens]
      cases follow serve fuel (i + 1) (some k) with
      | none => rfl
      | some rest => simp

variable [LinearOrder κ] {key : α → κ} {rows : List α}

def ordered (key : α → κ) (rows : List α) : List α :=
  rows.insertionSort fun a b => key a ≤ key b

def remaining (key : α → κ) (rows : List α) (after : Option κ) : List α :=
  rows.filter fun row => after.all (· < key row)

def fetch (key : α → κ) (rows : List α) (after : Option κ) (count : ℕ) : List α :=
  (ordered key (remaining key rows after)).take count

def pageOf (key : α → κ) (limit : ℕ) (fetched : List α) : Page α κ where
  items := fetched.take limit
  next := if limit < fetched.length then (fetched.take limit).getLast?.map key else none

def pageAfter (key : α → κ) (rows : List α) (limit : ℕ) (after : Option κ) : Page α κ :=
  pageOf key limit (fetch key rows after (limit + 1))

/-! ### The order -/

theorem mem_ordered {row : α} : row ∈ ordered key rows ↔ row ∈ rows :=
  List.mem_insertionSort _

@[simp] theorem length_ordered : (ordered key rows).length = rows.length :=
  List.length_insertionSort _ rows

theorem ordered_pairwise : (ordered key rows).Pairwise fun a b => key a ≤ key b := by
  have hsorted := @List.pairwise_insertionSort α (fun a b => key a ≤ key b) _
    ⟨fun a b => le_total (key a) (key b)⟩ ⟨fun _ _ _ => le_trans⟩ rows
  exact hsorted

/-- Rows of different keys stand in strict order. -/
theorem ordered_strict (hkeys : (rows.map key).Nodup) :
    (ordered key rows).Pairwise fun a b => key a < key b := by
  have hperm : ((ordered key rows).map key).Perm (rows.map key) :=
    (List.perm_insertionSort _ rows).map key
  have hne : (ordered key rows).Pairwise fun a b => key a ≠ key b :=
    List.pairwise_map.mp (hperm.nodup_iff.mpr hkeys)
  exact (ordered_pairwise.and hne).imp fun h => lt_of_le_of_ne h.1 h.2

theorem ordered_filter (hkeys : (rows.map key).Nodup) (p : α → Bool) :
    ordered key (rows.filter p) = (ordered key rows).filter p := by
  have hperm : (ordered key (rows.filter p)).Perm ((ordered key rows).filter p) :=
    (List.perm_insertionSort _ _).trans ((List.perm_insertionSort _ rows).symm.filter p)
  refine hperm.eq_of_pairwise ?_ ordered_pairwise (ordered_pairwise.filter p)
  intro a b ha hb hab hba
  have haRows : a ∈ rows := List.mem_of_mem_filter (mem_ordered.mp ha)
  have hbRows : b ∈ rows := mem_ordered.mp (List.mem_of_mem_filter hb)
  exact List.inj_on_of_nodup_map hkeys haRows hbRows (le_antisymm hab hba)

theorem fetch_eq (hkeys : (rows.map key).Nodup) (after : Option κ) (count : ℕ) :
    fetch key rows after count = (remaining key (ordered key rows) after).take count := by
  rw [fetch, remaining, ordered_filter hkeys]
  rfl

/-! ### One page -/

/-- After a row of a strictly ordered list come the rows behind it. -/
theorem remaining_split {before after : List α} {row : α}
    (hstrict : (before ++ row :: after).Pairwise fun a b => key a < key b) :
    remaining key (before ++ row :: after) (some (key row)) = after := by
  rw [List.pairwise_append, List.pairwise_cons] at hstrict
  obtain ⟨-, ⟨hafter, -⟩, hbefore⟩ := hstrict
  have hdropped : before.filter (fun r => decide (key row < key r)) = [] := by
    apply List.filter_eq_nil_iff.mpr
    intro r hr
    have hlt := hbefore r hr row (List.mem_cons_self ..)
    simp [not_lt.mpr hlt.le]
  have hkept : after.filter (fun r => decide (key row < key r)) = after := by
    apply List.filter_eq_self.mpr
    intro r hr
    simp [hafter r hr]
  simp only [remaining, Option.all_some, List.filter_append, hdropped, List.nil_append,
    List.filter_cons, lt_irrefl, decide_false, Bool.false_eq_true, if_false, hkept]

/-- What comes after a later key comes after an earlier one. -/
theorem remaining_remaining {after : Option κ} {k : κ} (h : after.all (· < k) = true) :
    remaining key (remaining key rows after) (some k) = remaining key rows (some k) := by
  unfold remaining
  rw [List.filter_filter]
  apply List.filter_congr
  intro row _
  cases after with
  | none => simp
  | some earlier =>
    have hearlier : earlier < k := by simpa using h
    by_cases hrow : k < key row
    · simp [hrow, hearlier.trans hrow]
    · simp [hrow]

/-- After the last of the first rows come the rows behind them. -/
theorem remaining_after_take (hkeys : (rows.map key).Nodup) (after : Option κ) {count : ℕ}
    {last : α}
    (hlast : ((remaining key (ordered key rows) after).take count).getLast? = some last) :
    remaining key (ordered key rows) (some (key last)) =
      (remaining key (ordered key rows) after).drop count := by
  have hstrict : (remaining key (ordered key rows) after).Pairwise fun a b => key a < key b :=
    (ordered_strict hkeys).filter _
  obtain ⟨before, hbefore⟩ : ∃ before,
      (remaining key (ordered key rows) after).take count = before ++ [last] :=
    ⟨_, (List.dropLast_append_getLast? last hlast).symm⟩
  have hsplit : remaining key (ordered key rows) after =
      before ++ last :: (remaining key (ordered key rows) after).drop count := by
    calc remaining key (ordered key rows) after
        = (remaining key (ordered key rows) after).take count ++
          (remaining key (ordered key rows) after).drop count := (List.take_append_drop ..).symm
      _ = _ := by rw [hbefore, List.append_assoc, List.singleton_append]
  have hmem : last ∈ remaining key (ordered key rows) after :=
    List.mem_of_mem_take (List.mem_of_getLast? hlast)
  have hafter : after.all (· < key last) = true := (List.mem_filter.mp hmem).2
  rw [hsplit] at hstrict
  have hbehind := remaining_split hstrict
  rw [← hsplit] at hbehind
  rw [← remaining_remaining hafter, hbehind]

/-- A page holds the next rows; when more are left, it names where they begin. -/
theorem pageAfter_spec (hkeys : (rows.map key).Nodup) {limit : ℕ} (hlimit : 1 ≤ limit)
    (after : Option κ) :
    let left := remaining key (ordered key rows) after
    (left.length ≤ limit ∧ pageAfter key rows limit after = ⟨left, none⟩) ∨
    ∃ k, pageAfter key rows limit after = ⟨left.take limit, some k⟩ ∧
      remaining key (ordered key rows) (some k) = left.drop limit ∧ limit < left.length := by
  intro left
  have hfetch : fetch key rows after (limit + 1) = left.take (limit + 1) := fetch_eq hkeys _ _
  have htake : (left.take (limit + 1)).take limit = left.take limit := by
    rw [List.take_take, Nat.min_eq_left (Nat.le_succ limit)]
  by_cases hshort : left.length ≤ limit
  · left
    have hall : left.take limit = left := List.take_of_length_le hshort
    have hlength : ¬ limit < (left.take (limit + 1)).length := by
      rw [List.length_take]
      omega
    refine ⟨hshort, ?_⟩
    rw [pageAfter, pageOf, hfetch, if_neg hlength, htake, hall]
  · right
    have hlong : limit < left.length := by omega
    have hlength : limit < (left.take (limit + 1)).length := by
      rw [List.length_take]
      omega
    have hne : left.take limit ≠ [] := by
      rw [← List.length_pos_iff, List.length_take]
      omega
    have hlast := List.getLast?_eq_some_getLast hne
    refine ⟨key ((left.take limit).getLast hne), ?_, ?_, hlong⟩
    · rw [pageAfter, pageOf, hfetch, if_pos hlength, htake, hlast, Option.map_some]
    · exact remaining_after_take hkeys after hlast

/-- Lists in strict order are equal when they have the same members. -/
theorem eq_of_strict {a b : List α} (ha : a.Pairwise fun x y => key x < key y)
    (hb : b.Pairwise fun x y => key x < key y) (h : ∀ x, x ∈ a ↔ x ∈ b) : a = b := by
  have hnodup : ∀ {l : List α}, l.Pairwise (fun x y => key x < key y) → l.Nodup := by
    intro l hl
    refine hl.imp ?_
    rintro x y hlt rfl
    exact lt_irrefl _ hlt
  have hperm := (List.perm_ext_iff_of_nodup (hnodup ha) (hnodup hb)).mpr h
  refine hperm.eq_of_pairwise ?_ ha hb
  intro x y _ _ hxy hyx
  exact absurd (hxy.trans hyx) (lt_irrefl _)

/-! ### All pages -/

theorem follow_remaining (hkeys : (rows.map key).Nodup) {limits : ℕ → ℕ}
    (hlimits : ∀ i, 1 ≤ limits i) {fuel : ℕ} (i : ℕ) (after : Option κ)
    (hfuel : (remaining key (ordered key rows) after).length < fuel) :
    follow (fun i after => some (pageAfter key rows (limits i) after)) fuel i after =
      some (remaining key (ordered key rows) after) := by
  induction fuel generalizing i after with
  | zero => omega
  | succ fuel ih =>
    rw [follow]
    rcases pageAfter_spec hkeys (hlimits i) after with ⟨-, hpage⟩ | ⟨k, hpage, hrest, hlong⟩
    · rw [hpage]
    · have hlimit := hlimits i
      have hshorter : (remaining key (ordered key rows) (some k)).length < fuel := by
        rw [hrest, List.length_drop]
        omega
      rw [hpage]
      dsimp only
      rw [ih (i + 1) (some k) hshorter, hrest, Option.map_some, List.take_append_drop]

/-- The pages together are the rows in their order, each once, and the last has no cursor. -/
theorem follow_exact (hkeys : (rows.map key).Nodup) {limits : ℕ → ℕ}
    (hlimits : ∀ i, 1 ≤ limits i) :
    follow (fun i after => some (pageAfter key rows (limits i) after)) (rows.length + 1) 0 none =
      some (ordered key rows) := by
  have hall : remaining key (ordered key rows) none = ordered key rows := by
    simp [remaining]
  have hfuel : (remaining key (ordered key rows) none).length < rows.length + 1 := by
    simp [hall]
  rw [follow_remaining hkeys hlimits 0 none hfuel, hall]

end Paging
