import TinyOidc.Audit.Archive
import TinyOidc.Lib.UriText

/-! The days of an archive listing: what the texts of a day read back to, and that days, their
texts and the keys under their prefixes stand in one order. -/
namespace TinyOidc.Audit
open Calendar JsonText LexText

/-- A day of the years that four digits write. -/
def FourDigits (d : Day) : Prop := 1000 ≤ d.year ∧ d.year ≤ 9999

def stamp (before afterYear afterMonth tail : List Char) (d : Day) : List Char :=
  before ++ (fixed 4 d.year.natAbs ++ (afterYear ++ (fixed 2 d.month.natAbs ++
    (afterMonth ++ (fixed 2 d.date.natAbs ++ tail)))))

def dayPrefix (d : Day) : List Char :=
  stamp "audit/year=".toList "/month=".toList "/day=".toList ['/'] d

theorem date_le (d : Day) : 1 ≤ d.date ∧ d.date ≤ 31 := by
  have hleap := leapDay_range d.year
  have hdate := d.date_range
  unfold daysInMonth at hdate
  split at hdate
  · omega
  · split at hdate <;> omega

theorem intText_nonneg {n : ℤ} (h : 0 ≤ n) : intText n = Nat.toDigits 10 n.natAbs :=
  if_neg (by omega)

theorem pad_eq {n : ℤ} (h : 0 ≤ n ∧ n ≤ 99) : pad n = fixed 2 n.natAbs := by
  rw [pad, intText_nonneg h.1, padStart_toDigits (by omega) (by omega)]

theorem pad_month (d : Day) : pad d.month = fixed 2 d.month.natAbs := by
  have hmonth := d.month_range
  exact pad_eq (by omega)

theorem pad_date (d : Day) : pad d.date = fixed 2 d.date.natAbs := by
  have hdate := date_le d
  exact pad_eq (by omega)

section Texts
variable {d e : Day}

theorem yearText (hd : FourDigits d) : intText d.year = fixed 4 d.year.natAbs := by
  obtain ⟨hlow, hhigh⟩ := hd
  rw [intText_nonneg (by omega)]
  exact toDigits_eq_fixed (by omega) (by omega)

theorem isoYear_eq (hd : FourDigits d) : isoYear d.year = fixed 4 d.year.natAbs := by
  obtain ⟨hlow, hhigh⟩ := hd
  unfold isoYear
  rw [if_pos ⟨by omega, hhigh⟩, padStart_toDigits (by omega) (by omega)]

theorem toList_isoText (hd : FourDigits d) :
    (isoText d).toList = stamp [] ['-'] ['-'] [] d := by
  unfold isoText stamp
  rw [String.toList_ofList, isoYear_eq hd, pad_month, pad_date]
  have hdash : "-".toList = ['-'] := rfl
  rw [List.take_of_length_le (by simp [hdash]), hdash]
  simp

theorem isoText_parts (hd : FourDigits d) : (isoText d).toList.splitOn '-' =
    [fixed 4 d.year.natAbs, fixed 2 d.month.natAbs, fixed 2 d.date.natAbs] := by
  have hno : ∀ width n, '-' ∉ fixed width n :=
    fun width n h => absurd (fixed_isDigit '-' h) (by decide)
  have htext : (isoText d).toList = ['-'].intercalate
      [fixed 4 d.year.natAbs, fixed 2 d.month.natAbs, fixed 2 d.date.natAbs] := by
    rw [toList_isoText hd]
    simp [stamp, List.intercalate, List.intersperse]
  rw [htext]
  apply List.splitOn_intercalate
  · intro part hpart
    simp only [List.mem_cons, List.not_mem_nil, or_false] at hpart
    rcases hpart with rfl | rfl | rfl
    · exact hno _ _
    · exact hno _ _
    · exact hno _ _
  · simp

theorem archiveDayPrefix_isoText (hd : FourDigits d) :
    (archiveDayPrefix (isoText d)).toList = dayPrefix d := by
  have hslash : "/".toList = ['/'] := rfl
  unfold archiveDayPrefix dayPrefix stamp
  rw [isoText_parts hd, String.toList_ofList, hslash]
  simp only [List.getD_cons_zero, List.getD_cons_succ, List.append_assoc]

/-- `Date.UTC` of a day's text is the day. -/
theorem dateUtc_isoText (hd : FourDigits d) : dateUtc (dayParts (isoText d)) = d.number := by
  have hmonth := d.month_range
  have hdate := date_le d
  obtain ⟨hlow, hhigh⟩ := hd
  have hyearRead := @ofDigitChars_fixed 4 d.year.natAbs (by omega)
  have hmonthRead := @ofDigitChars_fixed 2 d.month.natAbs (by omega)
  have hdateRead := @ofDigitChars_fixed 2 d.date.natAbs (by omega)
  have hparts : dayParts (isoText d) = (d.year, d.month - 1, d.date) := by
    unfold dayParts
    rw [isoText_parts ⟨hlow, hhigh⟩]
    simp only [List.getD_cons_zero, List.getD_cons_succ, hyearRead, hmonthRead, hdateRead,
      Prod.mk.injEq]
    omega
  have hcarry : (d.month - 1) / 12 = 0 := by omega
  have hindex : (d.month - 1) % 12 + 1 = d.month := by omega
  have hcentury : ¬ (0 ≤ d.year ∧ d.year ≤ 99) := by omega
  rw [hparts]
  unfold dateUtc
  simp only [hcarry, hindex, hcentury, if_false, add_zero]
  rfl

theorem isDayText_isoText (hd : FourDigits d) : isDayText (isoText d) = true := by
  unfold isDayText
  rw [toList_isoText hd]
  simp [stamp, fixed]
  omega

/-- Texts that begin with days stand in the order of the days. -/
theorem stamp_lt (hd : FourDigits d) (he : FourDigits e) (h : d.number < e.number)
    (before afterYear afterMonth x y : List Char) :
    stamp before afterYear afterMonth x d < stamp before afterYear afterMonth y e := by
  have hmonth := e.month_range
  have hmonth' := d.month_range
  have hdate := date_le e
  have hdate' := date_le d
  unfold FourDigits at hd he
  unfold stamp
  rw [append_lt_append_iff]
  rcases Day.number_lt h with hyear | ⟨hyear, hmonthLt | ⟨hmonthEq, hdateLt⟩⟩
  · exact append_lt_append_of_lt (by simp) (fixed_lt (by omega) (by omega)) _ _
  · rw [hyear, append_lt_append_iff, append_lt_append_iff]
    exact append_lt_append_of_lt (by simp) (fixed_lt (by omega) (by omega)) _ _
  · rw [hyear, hmonthEq, append_lt_append_iff, append_lt_append_iff, append_lt_append_iff,
      append_lt_append_iff]
    exact append_lt_append_of_lt (by simp) (fixed_lt (by omega) (by omega)) _ _

theorem isoText_le (hd : FourDigits d) (he : FourDigits e) (h : d.number ≤ e.number) :
    ¬ isoText e < isoText d := by
  rw [String.lt_iff_toList_lt, toList_isoText hd, toList_isoText he]
  rcases Int.lt_or_eq_of_le h with hlt | heq
  · exact not_lt.mpr (stamp_lt hd he hlt _ _ _ _ _).le
  · rw [Day.number_injective heq]
    exact lt_irrefl _

theorem dayPrefix_append (d : Day) (x : List Char) : dayPrefix d ++ x =
    stamp "audit/year=".toList "/month=".toList "/day=".toList ('/' :: x) d := by
  unfold dayPrefix stamp
  simp only [List.append_assoc, List.singleton_append]

/-- The keys of an earlier day come before those of a later one. -/
theorem dayPrefix_lt (hd : FourDigits d) (he : FourDigits e) (h : d.number < e.number)
    (x y : List Char) : dayPrefix d ++ x < dayPrefix e ++ y := by
  rw [dayPrefix_append, dayPrefix_append]
  exact stamp_lt hd he h _ _ _ _ _

/-- A key is under the prefix of one day at most. -/
theorem dayPrefix_unique (hd : FourDigits d) (he : FourDigits e) {key : List Char}
    (hdKey : dayPrefix d <+: key) (heKey : dayPrefix e <+: key) : d = e := by
  obtain ⟨x, hx⟩ := hdKey
  obtain ⟨y, hy⟩ := heKey
  rcases lt_trichotomy d.number e.number with hlt | heq | hgt
  · have hless := dayPrefix_lt hd he hlt x y
    rw [hx, hy] at hless
    exact absurd hless (lt_irrefl _)
  · exact Day.number_injective heq
  · have hless := dayPrefix_lt he hd hgt y x
    rw [hx, hy] at hless
    exact absurd hless (lt_irrefl _)

/-- The segments of a key up to the hour's. -/
theorem toList_archiveKey {δ : Type} (first : AuditEvent δ) (attempt : String) :
    ∃ rest, (archiveKey first attempt).toList = "audit/year=".toList ++
      (intText (ofNumber (first.ts / secondsPerDay)).year ++ ("/month=".toList ++
        (fixed 2 (ofNumber (first.ts / secondsPerDay)).month.natAbs ++ ("/day=".toList ++
          (fixed 2 (ofNumber (first.ts / secondsPerDay)).date.natAbs ++ '/' :: rest))))) := by
  have hhour : "/hour=".toList = '/' :: "hour=".toList := rfl
  refine ⟨"hour=".toList ++ (pad (first.ts % secondsPerDay / 3600) ++ ("/".toList ++
    (first.id.toList ++ ("-".toList ++ (attempt.toList ++ ".ndjson.gz".toList))))), ?_⟩
  unfold archiveKey
  dsimp only
  rw [String.toList_ofList, pad_month, pad_date, hhour]
  simp only [List.append_assoc, List.cons_append]

/-- The key of a write is under the prefix of its first event's day. -/
theorem archiveKey_under {δ : Type} (first : AuditEvent δ) (attempt : String)
    (hday : FourDigits (ofNumber (first.ts / secondsPerDay))) :
    dayPrefix (ofNumber (first.ts / secondsPerDay)) <+: (archiveKey first attempt).toList := by
  obtain ⟨rest, hkey⟩ := toList_archiveKey first attempt
  rw [hkey, yearText hday]
  unfold dayPrefix stamp
  refine ⟨rest, ?_⟩
  simp only [List.append_assoc, List.singleton_append]

/-- The year of a key under the prefix of a day is the day's. -/
theorem archiveKey_year {δ : Type} {first : AuditEvent δ} {attempt : String} (he : FourDigits e)
    (h : dayPrefix e <+: (archiveKey first attempt).toList) :
    (ofNumber (first.ts / secondsPerDay)).year = e.year := by
  obtain ⟨tail, hunder⟩ := h
  obtain ⟨rest, hkey⟩ := toList_archiveKey first attempt
  have hmonth : "/month=".toList = '/' :: "month=".toList := rfl
  rw [hkey] at hunder
  unfold dayPrefix stamp at hunder
  generalize "audit/year=".toList = before at hunder
  rw [List.append_assoc, hmonth] at hunder
  have hyears := List.append_cancel_left hunder
  rw [List.append_assoc, List.cons_append, List.cons_append, List.cons_append] at hyears
  generalize (ofNumber (first.ts / secondsPerDay)).year = year at *
  have hdigits : '/' ∉ Nat.toDigits 10 year.natAbs := fun hslash =>
    absurd (Nat.isDigit_of_mem_toDigits (by omega) (by omega) hslash) (by decide)
  have hyear : '/' ∉ intText year := by
    unfold intText
    split
    · simpa using hdigits
    · exact hdigits
  have hfixed : '/' ∉ fixed 4 e.year.natAbs :=
    fun hslash => absurd (fixed_isDigit '/' hslash) (by decide)
  have hcut := congrArg (UriText.cut '/') hyears
  rw [UriText.cut_append hfixed, UriText.cut_append hyear, Prod.mk.injEq, ← yearText he] at hcut
  have htext := hcut.1.symm
  obtain ⟨hlow, hhigh⟩ := he
  rw [intText_nonneg (show 0 ≤ e.year by omega)] at htext
  unfold intText at htext
  split at htext
  · -- a sign is no digit
    have hsign : '-' ∈ Nat.toDigits 10 e.year.natAbs := by
      rw [← htext]
      exact List.mem_cons_self ..
    exact absurd (Nat.isDigit_of_mem_toDigits (by omega) (by omega) hsign) (by decide)
  · have hread := congrArg (Nat.ofDigitChars 10 · 0) htext
    simp only [Nat.ofDigitChars_ten_toDigits] at hread
    omega

/-- A key is under the prefix of its first event's day, and of no other. -/
theorem archiveKey_day {δ : Type} (first : AuditEvent δ) (attempt : String) (he : FourDigits e) :
    startsWith (archiveDayPrefix (isoText e)) (archiveKey first attempt) = true ↔
      e = ofNumber (first.ts / secondsPerDay) := by
  unfold startsWith
  rw [List.isPrefixOf_iff_prefix, archiveDayPrefix_isoText he]
  constructor
  · intro hunder
    have hyear := archiveKey_year he hunder
    have hday : FourDigits (ofNumber (first.ts / secondsPerDay)) := by
      unfold FourDigits at he ⊢
      rw [hyear]
      exact he
    exact dayPrefix_unique he hday hunder (archiveKey_under first attempt hday)
  · rintro rfl
    exact archiveKey_under first attempt he

end Texts

end TinyOidc.Audit
