import TinyOidc.Admin.Pagination
import TinyOidc.Audit.Events
import TinyOidc.Lib.Calendar
import TinyOidc.Lib.LexText

/-! The keys of the audit archive (`src/audit/sink.ts`) and their listing, day by day and a page at
a time (`src/admin/audit-log.ts`). R2 cuts its lists where it likes. -/
namespace TinyOidc.Audit
open Calendar JsonText LexText Paging
open TinyOidc.Admin

/-! ### Keys -/

def secondsPerDay : ℤ := 86400

/-- `String(n).padStart(2, "0")`. -/
def pad (n : ℤ) : List Char := padStart 2 (intText n)

/-- The key of one write: time segments of the first event, its id and the attempt. -/
def archiveKey {δ : Type} (first : AuditEvent δ) (attempt : String) : String :=
  let day := ofNumber (first.ts / secondsPerDay)
  let hour := first.ts % secondsPerDay / 3600
  String.ofList ("audit/year=".toList ++ intText day.year ++ "/month=".toList ++ pad day.month ++
    "/day=".toList ++ pad day.date ++ "/hour=".toList ++ pad hour ++ "/".toList ++
    first.id.toList ++ "-".toList ++ attempt.toList ++ ".ndjson.gz".toList)

/-- The key prefix of one UTC day (`YYYY-MM-DD`) in the archive. -/
def archiveDayPrefix (day : String) : String :=
  let parts := day.toList.splitOn '-'
  let part (i : ℕ) : List Char := parts.getD i "undefined".toList
  String.ofList ("audit/year=".toList ++ part 0 ++ "/month=".toList ++ part 1 ++
    "/day=".toList ++ part 2 ++ "/".toList)

/-! ### Days -/

/-- The year of an ISO 8601 date: four digits, or a sign and six. -/
def isoYear (year : ℤ) : List Char :=
  if 0 ≤ year ∧ year ≤ 9999 then padStart 4 (Nat.toDigits 10 year.natAbs)
  else (if year < 0 then '-' else '+') :: padStart 6 (Nat.toDigits 10 year.natAbs)

/-- `toISOString().slice(0, 10)`. -/
def isoText (d : Day) : String :=
  String.ofList ((isoYear d.year ++ "-".toList ++ pad d.month ++ "-".toList ++ pad d.date).take 10)

/-- `/^\d{4}-\d{2}-\d{2}$/`. -/
def isDayText (text : String) : Bool :=
  match text.toList with
  | [a, b, c, d, '-', e, f, '-', g, h] => [a, b, c, d, e, f, g, h].all Char.isDigit
  | _ => false

/-- `day.split("-").map(Number)`, the month counted from zero. -/
def dayParts (day : String) : ℤ × ℤ × ℤ :=
  let parts := day.toList.splitOn '-'
  let part (i : ℕ) : ℤ := Nat.ofDigitChars 10 (parts.getD i []) 0
  (part 0, part 1 - 1, part 2)

/-- `Date.UTC`, in days: a year of two digits is of the twentieth century, months and dates beyond
their range carry over. -/
def dateUtc : ℤ × ℤ × ℤ → ℤ
  | (year, month, date) =>
    let year := (if 0 ≤ year ∧ year ≤ 99 then 1900 + year else year) + month / 12
    dayFromYear year + monthStart (leapDay year) (month % 12 + 1) + (date - 1)

def archiveMaxDays : ℕ := 31

def daysUpTo (last : ℤ) : ℕ → ℤ → List String
  | 0, _ => []
  | room + 1, n => if n ≤ last then isoText (ofNumber n) :: daysUpTo last room (n + 1) else []

/-! ### Listing the bucket -/

/-- An object; `uploaded` in milliseconds. -/
structure R2Object where
  key : String
  size : ℕ
  uploaded : ℤ
  deriving DecidableEq, Repr

structure ArchiveItem where
  key : String
  size : ℕ
  uploaded : ℤ
  deriving DecidableEq, Repr

def itemOf (object : R2Object) : ArchiveItem := ⟨object.key, object.size, object.uploaded / 1000⟩

structure ListCall where
  keyPrefix : String
  limit : ℕ
  startAfter : Option String
  cursor : Option String
  deriving DecidableEq, Repr

structure ListAnswer where
  objects : List R2Object
  truncated : Bool
  cursor : String
  deriving DecidableEq, Repr

/-- The answer to the calls of a request, by their number; `none` when a call throws. -/
abbrev R2 := ℕ → ListCall → Option ListAnswer

def startsWith (keyPrefix key : String) : Bool := keyPrefix.toList.isPrefixOf key.toList

inductive ListFailure where
  | threw | looping
  deriving DecidableEq, Repr

/-- The lists of one day, until one is not truncated or the page is full. -/
def listDay (r2 : R2) (limit : ℕ) (keyPrefix : String) (after : Option String) :
    ℕ → ℕ → Option String → List ArchiveItem → Except ListFailure (List ArchiveItem × ℕ)
  | 0, _, _, _ => .error .looping
  | fuel + 1, calls, listCursor, items =>
    match r2 calls
        { keyPrefix := keyPrefix
          limit := limit + 1 - items.length
          startAfter := after.filter (startsWith keyPrefix)
          cursor := listCursor } with
    | none => .error .threw
    | some listed =>
      let items := items ++ listed.objects.map itemOf
      if listed.truncated && items.length ≤ limit then
        listDay r2 limit keyPrefix after fuel (calls + 1) (some listed.cursor) items
      else .ok (items, calls + 1)

/-- The lists of the days; those wholly before the cursor's key are done. -/
def listDays (r2 : R2) (limit : ℕ) (after : Option String) :
    List String → ℕ → List ArchiveItem → Except ListFailure (List ArchiveItem)
  | [], _, items => .ok items
  | day :: rest, calls, items =>
    let keyPrefix := archiveDayPrefix day
    if after.any fun key => keyPrefix ≤ key && !startsWith keyPrefix key then
      listDays r2 limit after rest calls items
    else
      match listDay r2 limit keyPrefix after (limit + 2) calls none items with
      | .error failure => .error failure
      | .ok (items, calls) =>
        if limit < items.length then .ok items else listDays r2 limit after rest calls items

structure ArchiveQuery where
  fromDay : String
  toDay : Option String
  limit : Option String
  cursor : Option String
  deriving DecidableEq, Repr

inductive ArchiveResponse where
  | listed (page : Page ArchiveItem String) (first last : Option String)
  | error (status : ℕ) (code description : String)
  | looping
  deriving DecidableEq, Repr

def refused (description : String) : ArchiveResponse := .error 400 "invalid_request" description

def archiveListing : String := "archive"

def archivePage (runtime : Runtime) (keys : CursorKeys) (now : ℤ) (r2 : R2) (days : List String)
    (limit : ℕ) (after : Option String) : ArchiveResponse :=
  match listDays r2 limit after days 0 [] with
  | .error .threw => .error 503 "temporarily_unavailable" "archive unavailable"
  | .error .looping => .looping
  | .ok items =>
    let shown := items.take limit
    let next := if limit < items.length then shown.getLast?.map fun (last : ArchiveItem) =>
      sealCursor runtime keys archiveListing ⟨0, last.key⟩ now else none
    .listed ⟨shown, next⟩ days.head? days.getLast?

/-- `GET /admin/audit/archive`, once the schema has parsed the query. -/
def listArchiveHandler (runtime : Runtime) (keys : CursorKeys) (now : ℤ) (r2 : R2)
    (query : ArchiveQuery) : ArchiveResponse :=
  let toDay := query.toDay.getD query.fromDay
  if !isDayText query.fromDay || !isDayText toDay || toDay < query.fromDay then
    refused "from and to must be days in order"
  else
    let days := daysUpTo (dateUtc (dayParts toDay)) (archiveMaxDays + 1)
      (dateUtc (dayParts query.fromDay))
    if archiveMaxDays < days.length then refused "at most 31 days per listing"
    else
      match parseLimit query.limit with
      | none => refused "limit must be 1–200"
      | some limit =>
        match query.cursor with
        | none => archivePage runtime keys now r2 days limit none
        | some cursor =>
          match openCursor runtime keys archiveListing cursor now with
          | none => refused "invalid cursor"
          | some keyset => archivePage runtime keys now r2 days limit (some keyset.id)

def ArchiveResponse.page? : ArchiveResponse → Option (Page ArchiveItem String)
  | .listed page _ _ => some page
  | _ => none

end TinyOidc.Audit
