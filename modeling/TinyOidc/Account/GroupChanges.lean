import TinyOidc.Account.Groups

/-! The changes of a user's list of groups: what each makes of a name, that other names stay, and
that a propagation compares joined lists without harm. -/
namespace TinyOidc.Account
open TinyOidc.Util

/-! ### Changes of a list -/

/-- What a call is about to do to a user's list. -/
inductive GroupChange where
  | add (name : String)
  | remove (name : String)
  | rename (old new : String)
  deriving DecidableEq

namespace GroupChange

def names : GroupChange → List String
  | add name | remove name => [name]
  | rename old new => [old, new]

def renamed (old new : String) (groups : List String) : List String :=
  groups.map fun name => if name = old then new else name

/-- The list to write, when the change is not made yet. -/
def next : GroupChange → List String → Option (List String)
  | add name, groups => adding name groups
  | remove name, groups => removing name groups
  | rename old new, groups =>
      if renamed old new groups = groups then none else some (renamed old new groups)

def apply (c : GroupChange) (groups : List String) : List String := (c.next groups).getD groups

theorem apply_of_next_none {c : GroupChange} {groups : List String} (h : c.next groups = none) :
    c.apply groups = groups := by simp [apply, h]

theorem apply_of_next_some {c : GroupChange} {groups written : List String}
    (h : c.next groups = some written) : c.apply groups = written := by simp [apply, h]

def Lists (c : GroupChange) (groups : List String) (name : String) : Prop :=
  match c with
  | add added => name = added ∨ name ∈ groups
  | remove removed => name ≠ removed ∧ name ∈ groups
  | rename old new => name ∈ groups ∧ name ≠ old ∨ name = new ∧ old ∈ groups

theorem mem_renamed {old new name : String} {groups : List String} :
    name ∈ renamed old new groups ↔ name ∈ groups ∧ name ≠ old ∨ name = new ∧ old ∈ groups := by
  simp only [renamed, List.mem_map]
  constructor
  · rintro ⟨was, hwas, rfl⟩
    by_cases h : was = old
    · subst h
      simp [hwas]
    · simp [h, hwas]
  · rintro (⟨hname, hne⟩ | ⟨rfl, hold⟩)
    · exact ⟨name, hname, by simp [hne]⟩
    · exact ⟨old, hold, by simp⟩

theorem apply_rename (old new : String) (groups : List String) :
    (rename old new).apply groups = renamed old new groups := by
  by_cases h : renamed old new groups = groups
  · simp [apply, next, h]
  · simp [apply, next, h]

theorem mem_apply {c : GroupChange} {groups : List String} {name : String} :
    name ∈ c.apply groups ↔ c.Lists groups name := by
  cases c with
  | add added =>
    by_cases h : added ∈ groups
    · simp only [apply, next, adding, List.contains_iff_mem, h, if_true, Option.getD_none, Lists]
      constructor
      · exact .inr
      · rintro (rfl | hmem)
        · exact h
        · exact hmem
    · simp [apply, next, adding, h, Lists, or_comm]
  | remove removed =>
    by_cases h : removed ∈ groups
    · simp [apply, next, removing, h, Lists, and_comm]
    · simp only [apply, next, removing, List.contains_iff_mem, h, if_false, Option.getD_none,
        Lists]
      constructor
      · exact fun hmem => ⟨fun heq => h (heq ▸ hmem), hmem⟩
      · exact And.right
  | rename old new =>
    rw [apply_rename, mem_renamed]
    rfl

/-- Other groups stay as they are. -/
theorem mem_apply_of_notMem_names {c : GroupChange} {groups : List String} {name : String}
    (h : name ∉ c.names) : name ∈ c.apply groups ↔ name ∈ groups := by
  rw [mem_apply]
  cases c <;> simp_all [names, Lists]

/-- What a change makes of its groups depends on them only. -/
theorem mem_apply_congr {c : GroupChange} {groups groups' : List String}
    (h : ∀ name ∈ c.names, name ∈ groups ↔ name ∈ groups') {name : String}
    (hname : name ∈ c.names) : name ∈ c.apply groups ↔ name ∈ c.apply groups' := by
  rw [mem_apply, mem_apply]
  cases c with
  | add added => simp only [Lists, h name hname]
  | remove removed => simp only [Lists, h name hname]
  | rename old new => simp only [Lists, h name hname, h old (by simp [names])]

/-- A change that is made is not made again. -/
theorem next_of_applied {c : GroupChange} {groups groups' : List String}
    (h : ∀ name ∈ c.names, name ∈ groups' ↔ name ∈ c.apply groups) : c.next groups' = none := by
  cases c with
  | add added =>
    have hmem : added ∈ groups' := by simpa [mem_apply, Lists] using h added (by simp [names])
    simp [next, adding, hmem]
  | remove removed =>
    have hmem : removed ∉ groups' := by
      simpa [mem_apply, Lists] using h removed (by simp [names])
    simp [next, removing, hmem]
  | rename old new =>
    have hid : ∀ name ∈ groups', (if name = old then new else name) = name := by
      intro name hname
      by_cases heq : old = new
      · subst heq
        exact ite_eq_right_iff.mpr fun h => h.symm
      · have hold : old ∉ groups' := by
          simpa [mem_apply, Lists, heq] using h old (by simp [names])
        exact if_neg fun (h : name = old) => hold (h ▸ hname)
    have hsame : renamed old new groups' = groups' := by
      simp [renamed, List.map_congr_left hid]
    simp [next, hsame]

end GroupChange

/-! ### Joined lists -/

theorem length_joinLines (lines : List String) :
    (joinLines lines).length + 1 = (lines.map fun l => l.length + 1).sum +
      if lines = [] then 1 else 0 := by
  induction lines with
  | nil => rfl
  | cons line rest ih =>
    cases rest with
    | nil => simp [joinLines]
    | cons next rest =>
      have hrest : (joinLines (next :: rest)).length + 1 =
          ((next :: rest).map fun l => l.length + 1).sum := by simpa using ih
      have hline : (joinLines (line :: next :: rest)).length =
          line.length + 1 + (joinLines (next :: rest)).length := by
        have hbreak : "\n".length = 1 := rfl
        simp [joinLines, String.length_append, hbreak]
      rw [List.map_cons, List.sum_cons, hline]
      simp only [reduceCtorEq, if_false]
      omega

/-- A deletion that leaves the joined text alone deletes nothing. -/
theorem filter_of_joinLines_eq {lines : List String} {name : String} (hname : name.length ≠ 0)
    (h : joinLines (lines.filter (· != name)) = joinLines lines) :
    lines.filter (· != name) = lines := by
  have hweight : ∀ lines : List String, lines.filter (· != name) = lines ∨
      ((lines.filter (· != name)).map fun l => l.length + 1).sum + 1 <
        (lines.map fun l => l.length + 1).sum := by
    intro lines
    induction lines with
    | nil => exact .inl rfl
    | cons line rest ih =>
      by_cases heq : line = name
      · subst heq
        right
        simp only [bne_self_eq_false, Bool.false_eq_true, not_false_iff, List.filter_cons_of_neg,
          List.map_cons, List.sum_cons]
        rcases ih with ih | ih
        · rw [ih]
          omega
        · omega
      · simp only [bne_iff_ne, ne_eq, heq, not_false_iff, List.filter_cons_of_pos, List.map_cons,
          List.sum_cons, List.cons.injEq, true_and]
        rcases ih with ih | ih
        · exact .inl ih
        · right
          omega
  rcases hweight lines with hsame | hless
  · exact hsame
  · have hshort := length_joinLines (lines.filter (· != name))
    have hlong := length_joinLines lines
    rw [h] at hshort
    by_cases hnil : lines = []
    · rw [hnil]
      rfl
    · rw [if_neg hnil] at hlong
      split at hshort
      · omega
      · omega

/-- A rename that leaves the joined text alone renames nothing. -/
theorem renamed_of_joinLines_eq {lines : List String} {old new : String}
    (h : joinLines (GroupChange.renamed old new lines) = joinLines lines) :
    GroupChange.renamed old new lines = lines := by
  by_cases hlen : old.length = new.length
  · -- Lines of equal length: the two texts agree line by line.
    have hline : ∀ line : String, (if line = old then new else line).length = line.length := by
      intro line
      split
      · next heq => rw [heq, hlen]
      · rfl
    induction lines with
    | nil => rfl
    | cons line rest ih =>
      cases rest with
      | nil => simpa [GroupChange.renamed, joinLines] using h
      | cons next rest =>
        have hsplit : (if line = old then new else line) ++
            ("\n" ++ joinLines (GroupChange.renamed old new (next :: rest))) =
              line ++ ("\n" ++ joinLines (next :: rest)) := by
          simpa [GroupChange.renamed, joinLines, String.append_assoc] using h
        obtain ⟨hhead, htail⟩ := List.append_inj (by simpa using congrArg String.toList hsplit)
          (by simpa only [String.length_toList] using hline line)
        have hjoin : joinLines (GroupChange.renamed old new (next :: rest)) =
            joinLines (next :: rest) := String.toList_injective (List.cons.inj htail).2
        have hrest := ih hjoin
        have hhead' : (if line = old then new else line) = line := String.toList_injective hhead
        simp only [GroupChange.renamed, List.map_cons] at hrest ⊢
        rw [hhead', hrest]
  · -- Otherwise each line renamed changes the length.
    have hweight : ∀ lines : List String,
        ((GroupChange.renamed old new lines).map fun l => l.length + 1).sum +
            lines.count old * old.length =
          (lines.map fun l => l.length + 1).sum + lines.count old * new.length := by
      intro lines
      induction lines with
      | nil => simp [GroupChange.renamed]
      | cons line rest ih =>
        simp only [GroupChange.renamed, List.map_cons, List.sum_cons, List.count_cons] at ih ⊢
        by_cases heq : line = old
        · subst heq
          simp only [if_true, beq_self_eq_true, Nat.add_mul, Nat.one_mul]
          omega
        · simp only [heq, if_false, beq_iff_eq, Nat.add_zero]
          omega
    have hnew := length_joinLines (GroupChange.renamed old new lines)
    have hold := length_joinLines lines
    have hnil : GroupChange.renamed old new lines = [] ↔ lines = [] := by
      simp [GroupChange.renamed]
    have hsums := hweight lines
    rw [h] at hnew
    simp only [hnil] at hnew
    have hproducts : lines.count old * old.length = lines.count old * new.length := by omega
    have hcount : lines.count old = 0 := by
      by_contra hpos
      exact hlen (Nat.eq_of_mul_eq_mul_left (Nat.pos_of_ne_zero hpos) hproducts)
    have hid : ∀ line ∈ lines, (if line = old then new else line) = line :=
      fun line hline => if_neg fun (heq : line = old) =>
        List.count_eq_zero.mp hcount (heq ▸ hline)
    simp [GroupChange.renamed, List.map_congr_left hid]

def Rewrite.change : Rewrite → GroupChange
  | rename old new => .rename old.text new.text
  | drop name => .remove name.text

/-- What a propagation writes into a list is the change it is about. -/
theorem rewriting_apply (r : Rewrite) (groups : List String) :
    rewriting r.apply groups = r.change.next groups := by
  cases r with
  | rename old new =>
    have hiff : joinLines (GroupChange.renamed old.text new.text groups) = joinLines groups ↔
        GroupChange.renamed old.text new.text groups = groups :=
      ⟨renamed_of_joinLines_eq, fun h => by rw [h]⟩
    simp only [rewriting, Rewrite.change, GroupChange.next]
    exact if_congr hiff rfl rfl
  | drop name =>
    have hlength : name.text.length ≠ 0 := by
      rw [← String.length_toList]
      exact fun h => name.toList_ne_nil (List.length_eq_zero_iff.mp h)
    simp only [rewriting, Rewrite.apply, Rewrite.change, GroupChange.next, removing]
    by_cases hmem : name.text ∈ groups
    · have hne : joinLines (groups.filter (· != name.text)) ≠ joinLines groups := by
        intro h
        have hsame := filter_of_joinLines_eq hlength h
        rw [← hsame] at hmem
        simp at hmem
      simp [hne, hmem]
    · have hsame : groups.filter (· != name.text) = groups := by
        rw [List.filter_eq_self]
        intro line hline
        simpa using fun h : line = name.text => hmem (h ▸ hline)
      simp [hsame, hmem]

end TinyOidc.Account
