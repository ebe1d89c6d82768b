import Mathlib
import TinyOidc.Admin.CompleteListings
import TinyOidc.Audit.ArchiveDays

/-! The pages of an archive listing together are the keys under the days' prefixes, once each and
in order, wherever R2 cuts its lists. -/
namespace TinyOidc.Audit
open Calendar JsonText LexText Paging
open TinyOidc.Admin

/-! ### What R2 promises -/

/-- The objects under a prefix and after `startAfter`, in the order of their keys, from a key on. -/
def objectsAfter (bucket : List R2Object) (keyPrefix : String) (startAfter after : Option String) :
    List R2Object :=
  remaining R2Object.key (ordered R2Object.key (bucket.filter fun o =>
    startsWith keyPrefix o.key && startAfter.all (· < o.key))) after

/-- The key behind which a cursor goes on, by the prefix and the `startAfter` of its lists. -/
abbrev Position := String → Option String → String → String

/-- The objects of a call, from where its cursor goes on. -/
def matching (bucket : List R2Object) (position : Position) (call : ListCall) :
    List R2Object :=
  objectsAfter bucket call.keyPrefix call.startAfter
    (call.cursor.map (position call.keyPrefix call.startAfter))

/-- The first of the objects, as many as R2 likes up to the limit: one at least while there are
any. The cursor of a truncated list goes on after its last object. -/
structure Answers (bucket : List R2Object) (position : Position) (call : ListCall)
    (answer : ListAnswer) : Prop where
  cut : ∃ count, count ≤ call.limit ∧
    answer.objects = (matching bucket position call).take count ∧
    (matching bucket position call ≠ [] → 1 ≤ count) ∧
    (answer.truncated = true ↔ count < (matching bucket position call).length)
  resumes : answer.truncated = true → ∀ last, answer.objects.getLast? = some last →
    position call.keyPrefix call.startAfter answer.cursor = last.key

def Lists (bucket : List R2Object) (r2 : R2) : Prop :=
  ∃ position, ∀ calls call, 1 ≤ call.limit →
    ∃ answer, r2 calls call = some answer ∧ Answers bucket position call answer

section Listing
variable {bucket : List R2Object} {position : Position} {r2 : R2}

/-- Behind the last of the first objects come the objects that are left. -/
theorem objectsAfter_drop (hkeys : (bucket.map R2Object.key).Nodup) {keyPrefix : String}
    {startAfter after : Option String} {count : ℕ} {last : R2Object}
    (hlast : ((objectsAfter bucket keyPrefix startAfter after).take count).getLast? = some last) :
    objectsAfter bucket keyPrefix startAfter (some last.key) =
      (objectsAfter bucket keyPrefix startAfter after).drop count :=
  remaining_after_take (hkeys.sublist (List.filter_sublist.map _)) after hlast

/-- The lists of one day collect its objects until the page is full. -/
theorem listDay_collects (hkeys : (bucket.map R2Object.key).Nodup)
    (hlists : ∀ calls call, 1 ≤ call.limit →
      ∃ answer, r2 calls call = some answer ∧ Answers bucket position call answer)
    {limit : ℕ} (keyPrefix : String) (after : Option String) {fuel : ℕ} (calls : ℕ)
    (cursor : Option String) {items : List ArchiveItem} (hitems : items.length ≤ limit)
    (hfuel : limit + 1 - items.length < fuel) :
    ∃ calls', listDay r2 limit keyPrefix after fuel calls cursor items =
      .ok (items ++ ((objectsAfter bucket keyPrefix (after.filter (startsWith keyPrefix))
        (cursor.map (position keyPrefix (after.filter (startsWith keyPrefix))))).take
          (limit + 1 - items.length)).map itemOf, calls') := by
  induction fuel generalizing calls cursor items with
  | zero => omega
  | succ fuel ih =>
    obtain ⟨answer, hanswer, ⟨count, hcount, hobjects, hnonempty, htruncated⟩, hresumes⟩ :=
      hlists calls
        { keyPrefix := keyPrefix
          limit := limit + 1 - items.length
          startAfter := after.filter (startsWith keyPrefix)
          cursor := cursor } (by dsimp only; omega)
    unfold matching at hobjects hnonempty htruncated
    dsimp only at hcount hobjects hnonempty htruncated
    generalize hleft : objectsAfter bucket keyPrefix (after.filter (startsWith keyPrefix))
      (cursor.map (position keyPrefix (after.filter (startsWith keyPrefix)))) = left at *
    rw [listDay, hanswer]
    dsimp only
    by_cases hmore : answer.truncated = true
    · have hcut := htruncated.mp hmore
      have hpositive : 1 ≤ count := hnonempty (List.ne_nil_of_length_pos (by omega))
      have hlength : answer.objects.length = count := by
        rw [hobjects, List.length_take]
        omega
      by_cases hroom : (items ++ answer.objects.map itemOf).length ≤ limit
      · rw [if_pos (by simp only [hmore, hroom, decide_true, Bool.and_self])]
        have hne : left.take count ≠ [] := by
          rw [← hobjects]
          exact List.ne_nil_of_length_pos (by omega)
        have hlast := List.getLast?_eq_some_getLast hne
        have hposition := hresumes hmore _ (by rw [hobjects]; exact hlast)
        have hrest := @objectsAfter_drop bucket hkeys keyPrefix
          (after.filter (startsWith keyPrefix))
          (cursor.map (position keyPrefix (after.filter (startsWith keyPrefix)))) count _
          (by rw [hleft]; exact hlast)
        rw [hleft] at hrest
        rw [List.length_append, List.length_map, hlength] at hroom
        obtain ⟨calls', hlisted⟩ := @ih (calls + 1) (some answer.cursor)
          (items ++ answer.objects.map itemOf)
          (by rw [List.length_append, List.length_map, hlength]; exact hroom)
          (by rw [List.length_append, List.length_map, hlength]; omega)
        refine ⟨calls', ?_⟩
        rw [hlisted, Option.map_some, hposition, hrest, List.length_append, List.length_map,
          hlength, hobjects, List.append_assoc, ← List.map_append]
        have hsum : limit + 1 - items.length = count + (limit + 1 - (items.length + count)) := by
          omega
        rw [hsum, List.take_add]
      · rw [if_neg (by simp only [hroom, decide_false, Bool.and_false]; exact Bool.false_ne_true)]
        rw [List.length_append, List.length_map, hlength] at hroom
        have hfull : count = limit + 1 - items.length := by omega
        exact ⟨calls + 1, by rw [hobjects, hfull]⟩
    · have hall : left.length ≤ count := by
        by_contra hshort
        exact hmore (htruncated.mpr (by omega))
      rw [if_neg (by simp [hmore])]
      refine ⟨calls + 1, ?_⟩
      rw [hobjects, List.take_of_length_le hall, List.take_of_length_le (by omega)]

/-- What is listed of a day: nothing when it is wholly before the cursor's key. -/
def dayRest (bucket : List R2Object) (after : Option String) (day : String) : List R2Object :=
  let keyPrefix := archiveDayPrefix day
  if after.any fun key => keyPrefix ≤ key && !startsWith keyPrefix key then []
  else objectsAfter bucket keyPrefix (after.filter (startsWith keyPrefix)) none

/-- The lists of the days collect what is left of them until the page is full. -/
theorem listDays_collects (hkeys : (bucket.map R2Object.key).Nodup)
    (hlists : ∀ calls call, 1 ≤ call.limit →
      ∃ answer, r2 calls call = some answer ∧ Answers bucket position call answer)
    {limit : ℕ} (after : Option String) (days : List String) (calls : ℕ)
    {items : List ArchiveItem} (hitems : items.length ≤ limit) :
    listDays r2 limit after days calls items =
      .ok (items ++ ((days.flatMap (dayRest bucket after)).take
        (limit + 1 - items.length)).map itemOf) := by
  induction days generalizing calls items with
  | nil => simp [listDays]
  | cons day rest ih =>
    rw [listDays, List.flatMap_cons]
    by_cases hskip : (after.any fun key =>
        archiveDayPrefix day ≤ key && !startsWith (archiveDayPrefix day) key) = true
    · rw [if_pos hskip, ih calls hitems, dayRest, if_pos hskip, List.nil_append]
    · obtain ⟨calls', hday⟩ := listDay_collects hkeys hlists (archiveDayPrefix day) after calls
        none hitems (by omega : limit + 1 - items.length < limit + 2)
      rw [if_neg hskip, hday, dayRest, if_neg hskip, Option.map_none]
      dsimp only
      generalize objectsAfter bucket (archiveDayPrefix day)
        (after.filter (startsWith (archiveDayPrefix day))) none = left
      by_cases hfull : limit < (items ++ (left.take (limit + 1 - items.length)).map itemOf).length
      · rw [if_pos hfull]
        rw [List.length_append, List.length_map, List.length_take] at hfull
        have hlong : limit + 1 - items.length ≤ left.length := by omega
        rw [List.take_append_of_le_length hlong]
      · rw [if_neg hfull]
        rw [List.length_append, List.length_map, List.length_take] at hfull
        have hshort : left.length ≤ limit + 1 - items.length := by omega
        rw [List.take_of_length_le hshort, ih calls' (by
          rw [List.length_append, List.length_map]
          omega), List.length_append, List.length_map, List.append_assoc, ← List.map_append,
          List.take_append, List.take_of_length_le hshort]
        have hroom : limit + 1 - (items.length + left.length) =
            limit + 1 - items.length - left.length := by omega
        rw [hroom]

end Listing

/-! ### The days together -/

theorem startsWith_iff {keyPrefix key : String} :
    startsWith keyPrefix key = true ↔ keyPrefix.toList <+: key.toList := by
  rw [startsWith, List.isPrefixOf_iff_prefix]

/-- What is listed of a day is what comes after the cursor's key. -/
theorem mem_dayRest {bucket : List R2Object} {after : Option String} {day : String}
    {o : R2Object} : o ∈ dayRest bucket after day ↔
      o ∈ bucket ∧ startsWith (archiveDayPrefix day) o.key = true ∧
        after.all (· < o.key) = true := by
  have hplain : ∀ startAfter : Option String,
      o ∈ objectsAfter bucket (archiveDayPrefix day) startAfter none ↔
        o ∈ bucket ∧ startsWith (archiveDayPrefix day) o.key = true ∧
          startAfter.all (· < o.key) = true := by
    intro startAfter
    simp only [objectsAfter, remaining, List.mem_filter, mem_ordered, Bool.and_eq_true,
      Option.all_none, and_true]
  unfold dayRest
  dsimp only
  cases after with
  | none => simp only [Option.any_none, Bool.false_eq_true, if_false]; exact hplain none
  | some key =>
    by_cases hunder : startsWith (archiveDayPrefix day) key = true
    · simp only [Option.any_some, hunder, Bool.not_true, Bool.and_false, Bool.false_eq_true,
        if_false]
      have hfilter : (some key).filter (startsWith (archiveDayPrefix day)) = some key := by
        simp [Option.filter, hunder]
      rw [hfilter]
      exact hplain (some key)
    · have hnot : ¬ (archiveDayPrefix day).toList <+: key.toList :=
        fun h => hunder (startsWith_iff.mpr h)
      by_cases hle : archiveDayPrefix day ≤ key
      · -- every key of the day comes before the cursor's
        have hskip : (decide (archiveDayPrefix day ≤ key) &&
            !startsWith (archiveDayPrefix day) key) = true := by
          simp [hle, hunder]
        simp only [Option.any_some, hskip, if_true, List.not_mem_nil, false_iff]
        rintro ⟨-, hday, hafter⟩
        obtain ⟨x, hx⟩ := startsWith_iff.mp hday
        have hlt := append_lt_of_not_prefix (String.le_iff_toList_le.mp hle) hnot x
        rw [hx] at hlt
        have hkey : key.toList < o.key.toList := of_decide_eq_true hafter
        exact absurd (hlt.trans hkey) (lt_irrefl _)
      · -- the day is wholly after the cursor's key
        have hskip : (decide (archiveDayPrefix day ≤ key) &&
            !startsWith (archiveDayPrefix day) key) = false := by
          rw [decide_eq_false hle, Bool.false_and]
        have hfilter : (some key).filter (startsWith (archiveDayPrefix day)) = none := by
          simp [Option.filter, hunder]
        simp only [Option.any_some, hskip, Bool.false_eq_true, if_false]
        rw [hfilter, hplain none]
        constructor
        · rintro ⟨hstored, hday, -⟩
          obtain ⟨x, hx⟩ := startsWith_iff.mp hday
          have hbefore : key.toList < (archiveDayPrefix day).toList :=
            String.lt_iff_toList_lt.mp (not_le.mp hle)
          have hlt : key < o.key := by
            rw [String.lt_iff_toList_lt, ← hx]
            exact lt_of_lt_of_le hbefore (le_append _ x)
          exact ⟨hstored, hday, decide_eq_true hlt⟩
        · rintro ⟨hstored, hday, -⟩
          exact ⟨hstored, hday, rfl⟩

def daysBetween (first last : Day) : List Day :=
  (List.range (last.number + 1 - first.number).toNat).map fun i : ℕ => ofNumber (first.number + i)

theorem mem_daysBetween {first last d : Day} :
    d ∈ daysBetween first last ↔ first.number ≤ d.number ∧ d.number ≤ last.number := by
  simp only [daysBetween, List.mem_map, List.mem_range]
  constructor
  · rintro ⟨i, hi, rfl⟩
    rw [number_ofNumber]
    omega
  · rintro ⟨hfirst, hlast⟩
    refine ⟨(d.number - first.number).toNat, by omega, ?_⟩
    have hnumber : first.number + ((d.number - first.number).toNat : ℤ) = d.number := by omega
    rw [hnumber, d.ofNumber_number]

theorem daysBetween_pairwise (first last : Day) :
    (daysBetween first last).Pairwise fun d e => d.number < e.number := by
  refine List.pairwise_map.mpr (List.pairwise_lt_range.imp ?_)
  intro i j hij
  rw [number_ofNumber, number_ofNumber]
  omega

theorem daysUpTo_eq (last : ℤ) (room : ℕ) (n : ℤ) : daysUpTo last room n =
    ((List.range (min room (last + 1 - n).toNat)).map fun i : ℕ => ofNumber (n + i)).map
      isoText := by
  induction room generalizing n with
  | zero => simp [daysUpTo]
  | succ room ih =>
    rw [daysUpTo]
    by_cases hmore : n ≤ last
    · have hcount : min (room + 1) (last + 1 - n).toNat =
          min room (last + 1 - (n + 1)).toNat + 1 := by omega
      rw [if_pos hmore, ih, hcount, List.range_succ_eq_map]
      have hshift : ∀ i : ℕ, n + 1 + (i : ℤ) = n + ((i + 1 : ℕ) : ℤ) := by
        intro i
        omega
      simp [Function.comp_def, hshift]
    · have hcount : min (room + 1) (last + 1 - n).toNat = 0 := by omega
      rw [if_neg hmore, hcount]
      rfl

/-- The days of a listing of at most 31 days. -/
theorem days_of_listing {first last : Day} (hfirst : FourDigits first) (hlast : FourDigits last)
    (hspan : last.number - first.number < archiveMaxDays) :
    daysUpTo (dateUtc (dayParts (isoText last))) (archiveMaxDays + 1)
      (dateUtc (dayParts (isoText first))) = (daysBetween first last).map isoText := by
  have hmin : min (archiveMaxDays + 1) (last.number + 1 - first.number).toNat =
      (last.number + 1 - first.number).toNat := by omega
  rw [dateUtc_isoText hfirst, dateUtc_isoText hlast, daysUpTo_eq, hmin]
  rfl

theorem fourDigits_between {first last d : Day} (hfirst : FourDigits first)
    (hlast : FourDigits last) (hd : d ∈ daysBetween first last) : FourDigits d := by
  have hyear : ∀ {a b : Day}, a.number ≤ b.number → a.year ≤ b.year := by
    intro a b h
    rcases Int.lt_or_eq_of_le h with hlt | heq
    · rcases Day.number_lt hlt with hyear | ⟨hyear, -⟩
      · exact hyear.le
      · exact hyear.le
    · rw [Day.number_injective heq]
  obtain ⟨hlow, hhigh⟩ := mem_daysBetween.mp hd
  have hyearLow := hyear hlow
  have hyearHigh := hyear hhigh
  unfold FourDigits at *
  omega

structure UnderDays (bucket : List R2Object) (first last : Day) (o : R2Object) : Prop where
  stored : o ∈ bucket
  day : ∃ d : Day, first.number ≤ d.number ∧ d.number ≤ last.number ∧
    startsWith (archiveDayPrefix (isoText d)) o.key = true

def objectsOf (bucket : List R2Object) (first last : Day) : List R2Object :=
  bucket.filter fun o => (daysBetween first last).any fun d =>
    startsWith (archiveDayPrefix (isoText d)) o.key

theorem mem_objectsOf {bucket : List R2Object} {first last : Day} {o : R2Object} :
    o ∈ objectsOf bucket first last ↔ UnderDays bucket first last o := by
  simp only [objectsOf, List.mem_filter, List.any_eq_true, mem_daysBetween]
  constructor
  · rintro ⟨hstored, d, ⟨hlow, hhigh⟩, hday⟩
    exact ⟨hstored, d, hlow, hhigh, hday⟩
  · rintro ⟨hstored, d, hlow, hhigh, hday⟩
    exact ⟨hstored, d, ⟨hlow, hhigh⟩, hday⟩

/-- Day after day the rests are what is left of all their objects. -/
theorem flatMap_dayRest {bucket : List R2Object} (hkeys : (bucket.map R2Object.key).Nodup)
    {first last : Day} (hfirst : FourDigits first) (hlast : FourDigits last)
    (after : Option String) :
    ((daysBetween first last).map isoText).flatMap (dayRest bucket after) =
      remaining R2Object.key (ordered R2Object.key (objectsOf bucket first last)) after := by
  have hobjects : ((objectsOf bucket first last).map R2Object.key).Nodup :=
    hkeys.sublist (List.filter_sublist.map _)
  rw [List.flatMap_map]
  apply @eq_of_strict _ _ _ R2Object.key
  · rw [List.pairwise_flatMap]
    constructor
    · intro d _
      unfold dayRest
      dsimp only
      split
      · exact List.Pairwise.nil
      · exact (ordered_strict (hkeys.sublist (List.filter_sublist.map _))).filter _
    · refine (daysBetween_pairwise first last).imp_of_mem ?_
      intro d e hd he hlt x hx y hy
      have hxDay := startsWith_iff.mp (mem_dayRest.mp hx).2.1
      have hyDay := startsWith_iff.mp (mem_dayRest.mp hy).2.1
      rw [archiveDayPrefix_isoText (fourDigits_between hfirst hlast hd)] at hxDay
      rw [archiveDayPrefix_isoText (fourDigits_between hfirst hlast he)] at hyDay
      obtain ⟨xs, hxs⟩ := hxDay
      obtain ⟨ys, hys⟩ := hyDay
      rw [String.lt_iff_toList_lt, ← hxs, ← hys]
      exact dayPrefix_lt (fourDigits_between hfirst hlast hd) (fourDigits_between hfirst hlast he)
        hlt xs ys
  · exact (ordered_strict hobjects).filter _
  · intro o
    simp only [List.mem_flatMap, mem_dayRest, remaining, List.mem_filter, mem_ordered,
      mem_objectsOf]
    constructor
    · rintro ⟨d, hd, hstored, hday, hafter⟩
      obtain ⟨hlow, hhigh⟩ := mem_daysBetween.mp hd
      exact ⟨⟨hstored, d, hlow, hhigh, hday⟩, hafter⟩
    · rintro ⟨⟨hstored, d, hlow, hhigh, hday⟩, hafter⟩
      exact ⟨d, mem_daysBetween.mpr ⟨hlow, hhigh⟩, hstored, hday, hafter⟩

/-! ### Following the cursors -/

def objectKeyset (o : R2Object) : Keyset := ⟨0, o.key⟩

section Following
variable {bucket : List R2Object} {first last : Day} {query : ArchiveQuery}

/-- The lists of a page's days are the first objects after its cursor's key. -/
theorem listDays_fetch (hkeys : (bucket.map R2Object.key).Nodup) {r2 : R2}
    (hlists : Lists bucket r2) (hfirst : FourDigits first) (hlast : FourDigits last)
    (limit : ℕ) (after : Option String) :
    listDays r2 limit after ((daysBetween first last).map isoText) 0 [] =
      .ok ((fetch R2Object.key (objectsOf bucket first last) after (limit + 1)).map itemOf) := by
  obtain ⟨position, hanswers⟩ := hlists
  have hobjects : ((objectsOf bucket first last).map R2Object.key).Nodup :=
    hkeys.sublist (List.filter_sublist.map _)
  rw [listDays_collects hkeys hanswers after _ 0 (Nat.zero_le limit),
    flatMap_dayRest hkeys hfirst hlast, fetch_eq hobjects]
  rfl

theorem archivePage_page? (runtime : Runtime) (keys : CursorKeys) (now : ℤ)
    (hkeys : (bucket.map R2Object.key).Nodup) {r2 : R2} (hlists : Lists bucket r2)
    (hfirst : FourDigits first) (hlast : FourDigits last) (limit : ℕ) (after : Option String) :
    (archivePage runtime keys now r2 ((daysBetween first last).map isoText) limit after).page? =
      let listed := page (fetch R2Object.key (objectsOf bucket first last) after (limit + 1)) limit
        objectKeyset fun keyset => sealCursor runtime keys archiveListing keyset now
      some ⟨listed.items.filterMap (some ∘ itemOf), listed.next⟩ := by
  unfold archivePage
  rw [listDays_fetch hkeys hlists hfirst hlast]
  generalize fetch R2Object.key (objectsOf bucket first last) after (limit + 1) = rows
  dsimp only [ArchiveResponse.page?]
  rw [← List.map_take, List.getLast?_map, List.length_map, List.filterMap_eq_map]
  unfold page
  dsimp only
  cases (rows.take limit).getLast? with
  | none => simp
  | some last => rfl

theorem listArchiveHandler_serves (runtime : Runtime) (requests : ℕ → PageRequest)
    (hkeys : (bucket.map R2Object.key).Nodup) {r2 : ℕ → R2} (hlists : ∀ i, Lists bucket (r2 i))
    (hfirst : FourDigits first) (hlast : FourDigits last) (horder : first.number ≤ last.number)
    (hspan : last.number - first.number < archiveMaxDays) (hfrom : query.fromDay = isoText first)
    (hto : query.toDay.getD query.fromDay = isoText last) :
    Serves runtime archiveListing Keyset.id objectKeyset (some ∘ itemOf)
      (objectsOf bucket first last) requests fun i cursor =>
        (listArchiveHandler runtime (requests i).keys (requests i).now (r2 i)
          { query with limit := (requests i).limit, cursor := cursor }).page? := by
  intro i cursor
  have hdays := days_of_listing hfirst hlast hspan
  have hcount : ¬ archiveMaxDays < ((daysBetween first last).map isoText).length := by
    rw [List.length_map, daysBetween, List.length_map, List.length_range]
    omega
  have hguard : (!isDayText (isoText first) || !isDayText (isoText last) ||
      decide (isoText last < isoText first)) = false := by
    rw [isDayText_isoText hfirst, isDayText_isoText hlast,
      decide_eq_false (isoText_le hfirst hlast horder)]
    rfl
  have hpage := archivePage_page? runtime (requests i).keys (requests i).now hkeys (hlists i)
    hfirst hlast
  unfold listArchiveHandler paging
  dsimp only
  rw [hto, hfrom, hguard, hdays, if_neg Bool.false_ne_true, if_neg hcount]
  cases parseLimit (requests i).limit with
  | none => rfl
  | some limit =>
    cases cursor with
    | none => exact hpage limit none
    | some cursor =>
      dsimp only
      cases openCursor runtime (requests i).keys archiveListing cursor (requests i).now with
      | none => rfl
      | some keyset => exact hpage limit (some keyset.id)

theorem exact_objects (hkeys : (bucket.map R2Object.key).Nodup) :
    Exact (fun a b => a.key < b.key) (UnderDays bucket first last)
      (ordered R2Object.key (objectsOf bucket first last)) where
  ordered := ordered_strict (hkeys.sublist (List.filter_sublist.map _))
  mem _ := mem_ordered.trans mem_objectsOf

end Following

/-- Following the cursors of an archive listing shows the keys under its days, once each and in
order, and ends with a null cursor. A key is under the prefix of its event's day, and of no other
day. -/
theorem listArchive_complete (runtime : Runtime) (requests : ℕ → PageRequest)
    (hrequests : Requests requests) :
    (∀ (bucket : List R2Object) (r2 : ℕ → R2) (first last : Day) (query : ArchiveQuery),
      (bucket.map R2Object.key).Nodup → (∀ i, Lists bucket (r2 i)) →
      FourDigits first → FourDigits last → first.number ≤ last.number →
      last.number - first.number < archiveMaxDays →
      query.fromDay = isoText first → query.toDay.getD query.fromDay = isoText last →
      ∃ objects, Exact (fun a b => a.key < b.key) (UnderDays bucket first last) objects ∧
        ∃ fuel, follow (fun i cursor => (listArchiveHandler runtime (requests i).keys
          (requests i).now (r2 i)
          { query with limit := (requests i).limit, cursor := cursor }).page?) fuel 0 none =
            some (objects.map itemOf)) ∧
    ∀ (δ : Type) (first : AuditEvent δ) (attempt : String) (e : Day), FourDigits e →
      (startsWith (archiveDayPrefix (isoText e)) (archiveKey first attempt) = true ↔
        e = ofNumber (first.ts / secondsPerDay)) := by
  constructor
  · intro bucket r2 first last query hkeys hlists hfirst hlast horder hspan hfrom hto
    have hserves := listArchiveHandler_serves runtime requests hkeys hlists hfirst hlast horder
      hspan hfrom hto
    have hobjects : ((objectsOf bucket first last).map (Keyset.id ∘ objectKeyset)).Nodup :=
      hkeys.sublist (List.filter_sublist.map _)
    have hsafe : ∀ o ∈ objectsOf bucket first last,
        isSafeInteger (objectKeyset o).createdAt = true := by
      intro o _
      show isSafeInteger 0 = true
      decide
    have hfollow := follow_serves hserves hobjects hsafe hrequests
    rw [List.filterMap_eq_map] at hfollow
    exact ⟨_, exact_objects hkeys, _, hfollow⟩
  · intro δ first attempt e he
    exact archiveKey_day first attempt he

namespace ArchiveSample

def runtime : Runtime := ⟨fun key bytes => key ++ bytes, fun _ => []⟩

def keys : CursorKeys := ⟨fun version => if version = 7 then some [1, 2] else none, 7,
  ListingSample.keys.active_range, ListingSample.keys.active_known⟩

def requests (_ : ℕ) : PageRequest := ⟨keys, 100, some "1"⟩

theorem requests_admitted : Requests requests where
  limits _ := (by decide : (parseLimit (some "1")).isSome = true)
  clock _ := (by decide : isSafeInteger (100 + cursorTtlSeconds) = true)
  steps _ := (by decide : (100 : ℤ) < 100 + cursorTtlSeconds)
  kept _ := rfl

/-- Two objects of one day and one of the next. -/
def bucket : List R2Object :=
  [⟨"audit/year=2026/month=02/day=28/hour=23/a-1.ndjson.gz", 10, 1500⟩,
    ⟨"audit/year=2026/month=03/day=01/hour=00/c-1.ndjson.gz", 30, 3500⟩,
    ⟨"audit/year=2026/month=02/day=28/hour=23/b-1.ndjson.gz", 20, 2500⟩]

/-- One object to a list; the cursor is its key. -/
def r2 : R2 := fun _ call =>
  let left := matching bucket (fun _ _ cursor => cursor) call
  some
    { objects := left.take 1
      truncated := 1 < left.length
      cursor := ((left.take 1).getLast?.map R2Object.key).getD "" }

theorem r2_lists : Lists bucket r2 := by
  refine ⟨fun _ _ cursor => cursor,
    fun calls call hlimit => ⟨_, rfl, ⟨1, hlimit, rfl, fun _ => le_rfl, ?_⟩, ?_⟩⟩
  · simp only [decide_eq_true_eq]
  · intro _ last hlast
    dsimp only at hlast ⊢
    rw [hlast]
    rfl

def first : Day := ⟨2026, 2, 28, by decide, by decide⟩

def last : Day := ⟨2026, 3, 1, by decide, by decide⟩

def query : ArchiveQuery := ⟨"2026-02-28", some "2026-03-01", none, none⟩

def event : AuditEvent Unit :=
  ⟨"e1", "login", 1772323200, .success, "user", none, none, none, none, none, none, none, none,
    none, "r1", none, ()⟩

end ArchiveSample

theorem listArchive_complete_sample :
    (∃ objects, Exact (fun a b => a.key < b.key)
        (UnderDays ArchiveSample.bucket ArchiveSample.first ArchiveSample.last) objects ∧
      ∃ fuel, follow (fun i cursor => (listArchiveHandler ArchiveSample.runtime
        (ArchiveSample.requests i).keys (ArchiveSample.requests i).now ArchiveSample.r2
        { ArchiveSample.query with
          limit := (ArchiveSample.requests i).limit, cursor := cursor }).page?) fuel 0 none =
          some (objects.map itemOf)) ∧
    startsWith (archiveDayPrefix (isoText ArchiveSample.last))
      (archiveKey ArchiveSample.event "x") = true :=
  have hall := listArchive_complete ArchiveSample.runtime ArchiveSample.requests
    ArchiveSample.requests_admitted
  ⟨hall.1 ArchiveSample.bucket (fun _ => ArchiveSample.r2) ArchiveSample.first ArchiveSample.last
      ArchiveSample.query (by decide) (fun _ => ArchiveSample.r2_lists)
      (by unfold FourDigits; decide) (by unfold FourDigits; decide) (by decide)
      (by decide) (by decide) (by decide),
    (hall.2 Unit _ "x" ArchiveSample.last (by unfold FourDigits; decide)).mpr (by decide)⟩

end TinyOidc.Audit
