import Mathlib.Data.List.TakeWhile

/-! The text of a URI by its delimiters: what stands before the query, the query and the fragment.
A component may be there and empty, which is not the same as absent. -/
namespace UriText

/-- The text before the first `c`, and the text after it when there is one. -/
def cut (c : Char) (text : List Char) : List Char × Option (List Char) :=
  (text.takeWhile (· ≠ c), (text.dropWhile (· ≠ c)).tail?)

theorem cut_append {c : Char} {before after : List Char} (h : c ∉ before) :
    cut c (before ++ c :: after) = (before, some after) := by
  have hkeep : ∀ x ∈ before, (decide (x ≠ c)) = true := by
    intro x hx
    simp only [ne_eq, decide_eq_true_eq]
    rintro rfl
    exact h hx
  unfold cut
  rw [List.takeWhile_append_of_pos hkeep, List.dropWhile_append_of_pos hkeep]
  simp

theorem cut_of_not_mem {c : Char} {text : List Char} (h : c ∉ text) :
    cut c text = (text, none) := by
  have hkeep : ∀ x ∈ text, (decide (x ≠ c)) = true := by
    intro x hx
    simp only [ne_eq, decide_eq_true_eq]
    rintro rfl
    exact h hx
  unfold cut
  rw [List.takeWhile_eq_self_iff.mpr hkeep, List.dropWhile_eq_nil_iff.mpr hkeep]
  rfl

structure Parts where
  hier : List Char
  query : Option (List Char)
  fragment : Option (List Char)
  deriving DecidableEq, Repr

/-- A component behind its delimiter; nothing when absent. -/
def delimited (c : Char) : Option (List Char) → List Char
  | none => []
  | some text => c :: text

def Parts.text (p : Parts) : List Char :=
  p.hier ++ (delimited '?' p.query ++ delimited '#' p.fragment)

def parts (text : List Char) : Parts where
  hier := (cut '?' (cut '#' text).1).1
  query := (cut '?' (cut '#' text).1).2
  fragment := (cut '#' text).2

/-- The delimiters stand where they delimit. -/
structure Parts.Delimited (p : Parts) : Prop where
  hier : '?' ∉ p.hier ∧ '#' ∉ p.hier
  query : ∀ q, p.query = some q → '#' ∉ q

theorem cut_delimited {c : Char} {before : List Char} (after : Option (List Char))
    (h : c ∉ before) : cut c (before ++ delimited c after) = (before, after) := by
  cases after with
  | none =>
    rw [delimited, List.append_nil]
    exact cut_of_not_mem h
  | some after => exact cut_append h

theorem parts_text {p : Parts} (h : p.Delimited) : parts p.text = p := by
  have hquery : '#' ∉ delimited '?' p.query := by
    cases hq : p.query with
    | none => simp [delimited]
    | some q =>
      have hnone := h.query q hq
      simp [delimited, hnone]
  have hbefore : '#' ∉ p.hier ++ delimited '?' p.query := by
    simp only [List.mem_append, not_or]
    exact ⟨h.hier.2, hquery⟩
  have hcut : cut '#' p.text = (p.hier ++ delimited '?' p.query, p.fragment) := by
    rw [Parts.text, ← List.append_assoc]
    exact cut_delimited p.fragment hbefore
  unfold parts
  rw [hcut, cut_delimited p.query h.hier.1]

theorem cut_fst_not_mem (c : Char) (text : List Char) : c ∉ (cut c text).1 := by
  intro hmem
  have hkept := List.mem_takeWhile_imp hmem
  simp at hkept

theorem cut_text (c : Char) (text : List Char) :
    (cut c text).1 ++ delimited c (cut c text).2 = text := by
  induction text with
  | nil => rfl
  | cons a rest ih =>
    by_cases ha : a = c
    · simp [cut, ha, delimited]
    · have hcons : cut c (a :: rest) = (a :: (cut c rest).1, (cut c rest).2) := by
        simp [cut, ha]
      rw [hcons, List.cons_append, ih]

/-- A text is the text of its parts. -/
theorem text_parts (text : List Char) : (parts text).text = text := by
  unfold parts Parts.text
  rw [← List.append_assoc, cut_text, cut_text]

theorem delimited_parts (text : List Char) : (parts text).Delimited := by
  have hfragment := cut_fst_not_mem '#' text
  have hsplit := cut_text '?' (cut '#' text).1
  constructor
  · constructor
    · exact cut_fst_not_mem '?' _
    · intro hmem
      apply hfragment
      rw [← hsplit]
      exact List.mem_append_left _ hmem
  · intro q hq hmem
    have hq : (cut '?' (cut '#' text).1).2 = some q := hq
    apply hfragment
    rw [← hsplit, hq]
    simp [delimited, hmem]

theorem fragment_eq_none {text : List Char} : (parts text).fragment = none ↔ '#' ∉ text := by
  constructor
  · intro h hmem
    have hdelimited := delimited_parts text
    rw [← text_parts text, Parts.text, h] at hmem
    simp only [delimited, List.append_nil, List.mem_append] at hmem
    rcases hmem with hmem | hmem
    · exact hdelimited.hier.2 hmem
    · cases hq : (parts text).query with
      | none => simp [hq] at hmem
      | some q =>
        have hnone := hdelimited.query q hq
        simp [hq, hnone] at hmem
  · intro h
    exact congrArg Prod.snd (cut_of_not_mem h)

def addToQuery (form : List Char) : Option (List Char) → List Char
  | none => form
  | some query => query ++ '&' :: form

/-- A text without a fragment takes a parameter at its end. -/
theorem parts_append_query {text form : List Char} (h : '#' ∉ text) (hform : '#' ∉ form) :
    parts (text ++ (if text.contains '?' then '&' else '?') :: form) =
      { parts text with query := some (addToQuery form (parts text).query) } := by
  have hdelimited := delimited_parts text
  have hfragment := fragment_eq_none.mpr h
  have htext := text_parts text
  rw [Parts.text, hfragment] at htext
  have hnew : ({ parts text with query := some (addToQuery form (parts text).query) } :
      Parts).Delimited := by
    constructor
    · exact hdelimited.hier
    · intro q hq
      cases hquery : (parts text).query with
      | none =>
        have hq : q = form := by simpa [hquery, addToQuery] using hq.symm
        rw [hq]
        exact hform
      | some query =>
        have hq : q = query ++ '&' :: form := by simpa [hquery, addToQuery] using hq.symm
        have hnone := hdelimited.query query hquery
        rw [hq]
        simp [hnone, hform]
  rw [← parts_text hnew]
  congr 1
  cases hquery : (parts text).query with
  | none =>
    rw [hquery] at htext
    have hier : (parts text).hier = text := by simpa [delimited] using htext
    have hnone : '?' ∉ text := by
      rw [← hier]
      exact hdelimited.hier.1
    simp [Parts.text, addToQuery, hnone, hier, hfragment, delimited]
  | some query =>
    rw [hquery] at htext
    dsimp only [Parts.text, addToQuery]
    rw [hfragment]
    generalize (parts text).hier = hier at htext ⊢
    rw [← htext]
    simp [delimited]

end UriText
