import TinyOidc.Lib.JsonText
import TinyOidc.Lib.Paging
import TinyOidc.User.Schema
import TinyOidc.Util.Base64Url

/-! Keyset pagination (`src/admin/pagination.ts`): a page goes on after `(created_at, id)` of the
last item of the page before it. The cursor that says where is signed, names its listing and
expires after an hour. -/
namespace TinyOidc.Admin
open TinyOidc.User (Bytes)
open TinyOidc.Util JsonText Paging

def defaultLimit : ℕ := 50

def maxLimit : ℕ := 200

def cursorTtlSeconds : ℤ := 3600

def macBytes : ℕ := 16

structure Keyset where
  createdAt : ℤ
  id : String
  deriving DecidableEq, Repr

/-- Keys of cursors by version; `parseMasterKeys` has checked the active one. -/
structure CursorKeys where
  hmacKey : ℕ → Option Bytes
  active : ℕ
  active_range : 1 ≤ active ∧ active ≤ 255
  active_known : (hmacKey active).isSome = true

/-- HMAC-SHA256, and what `TextDecoder` makes of bytes that are not UTF-8. -/
structure Runtime where
  hmacSha256 : Bytes → Bytes → Bytes
  replaced : Bytes → List Char

def utf8 (text : List Char) : Bytes := (String.ofList text).toUTF8.data.toList

/-- `TextDecoder.decode`: a byte order mark in front is dropped. -/
def textDecode (runtime : Runtime) (bytes : Bytes) : List Char :=
  match String.fromUTF8? ⟨bytes.toArray⟩ with
  | none => runtime.replaced bytes
  | some text =>
    if text.toList.head? = some (Char.ofNat 0xFEFF) then text.toList.tail else text.toList

def mac (runtime : Runtime) (keys : CursorKeys) (version : ℕ) (payload : String) : Option Bytes :=
  (keys.hmacKey version).map fun key =>
    (runtime.hmacSha256 key (utf8 payload.toList)).take macBytes

def payloadText (listing : String) (keyset : Keyset) (expiresAt : ℤ) : List Char :=
  arrayText [.text listing.toList, .int keyset.createdAt, .text keyset.id.toList, .int expiresAt]

/-- `<key version>.<payload>.<mac>`. -/
def sealCursor (runtime : Runtime) (keys : CursorKeys) (listing : String) (keyset : Keyset)
    (now : ℤ) : String :=
  let payload := encodeBase64Url (utf8 (payloadText listing keyset (now + cursorTtlSeconds)))
  let tag := (mac runtime keys keys.active payload).getD []
  String.ofList (['.'].intercalate
    [Nat.toDigits 10 keys.active, payload.toList, (encodeBase64Url tag).toList])

/-- A number that `z.number().int()` admits. -/
def isSafeInteger (n : ℤ) : Bool := -9007199254740991 ≤ n && n ≤ 9007199254740991

/-- `parseJson` on `CursorPayload`: owner, created at, id, expires at. -/
def parsePayload (text : List Char) : Option (String × ℤ × String × ℤ) :=
  match readArray 4 text with
  | some [.text owner, .number createdAt, .text id, .number expiresAt] => do
    let createdAt ← createdAt.toInt?.filter isSafeInteger
    let expiresAt ← expiresAt.toInt?.filter isSafeInteger
    return (String.ofList owner, createdAt, String.ofList id, expiresAt)
  | _ => none

/-- `decodeBase64Url` throws on no text. -/
def decoded (text : List Char) : Option Bytes :=
  match decodeBase64Url (String.ofList text) with
  | .ok bytes => bytes
  | .error _ => none

/-- The keyset a cursor names, or `none` for a forged, foreign, malformed or expired one. -/
def openCursor (runtime : Runtime) (keys : CursorKeys) (listing cursor : String) (now : ℤ) :
    Option Keyset :=
  match cursor.toList.splitOn '.' with
  | [version, payload, tag] =>
    if !(1 ≤ version.length && version.length ≤ 3 && version.all Char.isDigit) then none
    else do
      let presented ← decoded tag
      let bytes ← decoded payload
      let expected ← mac runtime keys (Nat.ofDigitChars 10 version 0) (String.ofList payload)
      if presented ≠ expected then none
      else
        let (owner, createdAt, id, expiresAt) ← parsePayload (textDecode runtime bytes)
        if owner ≠ listing ∨ expiresAt ≤ now then none else some ⟨createdAt, id⟩
  | _ => none

/-- `limit` as an integer in 1..200; `none` when the parameter is malformed. -/
def parseLimit : Option String → Option ℕ
  | none => some defaultLimit
  | some raw =>
    let digits := raw.toList
    if 1 ≤ digits.length ∧ digits.length ≤ 3 ∧ digits.all Char.isDigit = true then
      (some (Nat.ofDigitChars 10 digits 0)).filter fun limit => 1 ≤ limit && limit ≤ maxLimit
    else none

/-- The page of `limit + 1` fetched rows: the extra row, if present, means there is more, and the
cursor names the last row returned. -/
def page {ρ : Type} (rows : List ρ) (limit : ℕ) (keysetOf : ρ → Keyset)
    (sealKeyset : Keyset → String) : Page ρ String :=
  let items := rows.take limit
  match items.getLast? with
  | none => ⟨items, none⟩
  | some last => ⟨items, if limit < rows.length then some (sealKeyset (keysetOf last)) else none⟩

inductive ListResponse (β : Type) where
  | listed (page : Page β String)
  | error (status : ℕ) (code description : String)
  deriving DecidableEq, Repr

def badRequest {β : Type} (description : String) : ListResponse β :=
  .error 400 "invalid_request" description

def unavailable {β : Type} (description : String) : ListResponse β :=
  .error 503 "temporarily_unavailable" description

def ListResponse.page? {β : Type} : ListResponse β → Option (Page β String)
  | .listed page => some page
  | .error _ _ _ => none

/-- `limit` and `cursor` of a listing, or the 400 that refuses them. -/
def paging {β : Type} (runtime : Runtime) (keys : CursorKeys) (listing : String)
    (limit cursor : Option String) (now : ℤ) (serve : ℕ → Option Keyset → ListResponse β) :
    ListResponse β :=
  match parseLimit limit with
  | none => badRequest "limit must be 1..200"
  | some limit =>
    match cursor with
    | none => serve limit none
    | some cursor =>
      match openCursor runtime keys listing cursor now with
      | none => badRequest "cursor is not valid"
      | some after => serve limit (some after)

/-! ### A sealed cursor opens -/

theorem decoded_encodeBase64Url (bytes : Bytes) :
    decoded (encodeBase64Url bytes).toList = some bytes := by
  have hdecodes := decodeBase64Url_eq_some.mpr (rfl : encodeBase64Url bytes = encodeBase64Url bytes)
  unfold decoded
  rw [String.ofList_toList, hdecodes]

theorem textDecode_utf8 (runtime : Runtime) {text : List Char}
    (hbom : text.head? ≠ some (Char.ofNat 0xFEFF)) : textDecode runtime (utf8 text) = text := by
  have hbytes : (⟨(utf8 text).toArray⟩ : ByteArray) = (String.ofList text).toUTF8 := by
    rw [utf8, Array.toArray_toList]
  have hvalid : (String.ofList text).toUTF8.IsValidUTF8 := (String.ofList text).isValidUTF8
  have hread : String.fromUTF8? (String.ofList text).toUTF8 = some (String.ofList text) := by
    unfold String.fromUTF8?
    rw [dif_pos hvalid]
    rfl
  unfold textDecode
  rw [hbytes, hread]
  simp only [String.toList_ofList, hbom, if_false]

theorem parsePayload_payloadText {listing : String} {keyset : Keyset} {expiresAt : ℤ}
    (hcreated : isSafeInteger keyset.createdAt = true) (hexpires : isSafeInteger expiresAt = true) :
    parsePayload (payloadText listing keyset expiresAt) =
      some (listing, keyset.createdAt, keyset.id, expiresAt) := by
  have hread := readArray_arrayText
    [.text listing.toList, .int keyset.createdAt, .text keyset.id.toList, .int expiresAt]
  unfold parsePayload payloadText
  simp only [List.length_cons, List.length_nil] at hread
  rw [hread]
  simp [Item.scalar, hcreated, hexpires, Option.filter]

/-- The version of a key has one to three digits. -/
theorem version_digits {version : ℕ} (h : 1 ≤ version ∧ version ≤ 255) :
    1 ≤ (Nat.toDigits 10 version).length ∧ (Nat.toDigits 10 version).length ≤ 3 := by
  constructor
  · exact Nat.length_toDigits_pos
  · rw [Nat.length_toDigits_le_iff (by omega) (by omega)]
    omega

theorem encoded_no_dot (bytes : Bytes) : '.' ∉ (encodeBase64Url bytes).toList := by
  rw [toList_encodeBase64Url]
  intro hdot
  obtain ⟨n, hn, heq⟩ := List.mem_map.mp hdot
  have hchar := (sextetChar_spec (ByteText.sextet_lt hn)).1
  rw [heq] at hchar
  exact absurd hchar (by decide)

theorem splitOn_cursor (version : ℕ) (payload tag : Bytes) :
    (['.'].intercalate [Nat.toDigits 10 version, (encodeBase64Url payload).toList,
      (encodeBase64Url tag).toList]).splitOn '.' =
      [Nat.toDigits 10 version, (encodeBase64Url payload).toList,
        (encodeBase64Url tag).toList] := by
  have hversion : '.' ∉ Nat.toDigits 10 version := by
    intro hdot
    exact absurd (Nat.isDigit_of_mem_toDigits (by omega) (by omega) hdot) (by decide)
  apply List.splitOn_intercalate
  · intro part hpart
    simp only [List.mem_cons, List.not_mem_nil, or_false] at hpart
    rcases hpart with rfl | rfl | rfl
    · exact hversion
    · exact encoded_no_dot payload
    · exact encoded_no_dot tag
  · simp

section Sealed
variable (runtime : Runtime) {keys keys' : CursorKeys} {listing other : String} {keyset : Keyset}
  {now later : ℤ}

/-- A sealed cursor opens to its keyset for its own listing until it expires, as long as the key
it was sealed with is held. -/
theorem openCursor_sealCursor (hkept : keys'.hmacKey keys.active = keys.hmacKey keys.active)
    (hcreated : isSafeInteger keyset.createdAt = true)
    (hexpires : isSafeInteger (now + cursorTtlSeconds) = true) :
    openCursor runtime keys' other (sealCursor runtime keys listing keyset now) later =
      if listing = other ∧ later < now + cursorTtlSeconds then some keyset else none := by
  have hversion : ∀ c ∈ Nat.toDigits 10 keys.active, c.isDigit = true :=
    fun c hc => Nat.isDigit_of_mem_toDigits (by omega) (by omega) hc
  obtain ⟨hlong, hshort⟩ := version_digits keys.active_range
  obtain ⟨key, hkey⟩ := Option.isSome_iff_exists.mp keys.active_known
  have hmac : ∀ payload, mac runtime keys' keys.active payload =
      some ((mac runtime keys keys.active payload).getD []) := by
    intro payload
    rw [mac, mac, hkept, hkey]
    rfl
  have hbom : (payloadText listing keyset (now + cursorTtlSeconds)).head? ≠
      some (Char.ofNat 0xFEFF) := by
    simp only [payloadText, arrayText, List.head?_cons, ne_eq, Option.some.injEq]
    decide
  have hpayload := @parsePayload_payloadText listing keyset _ hcreated hexpires
  rw [← textDecode_utf8 runtime hbom] at hpayload
  unfold openCursor sealCursor
  dsimp only
  rw [String.toList_ofList, splitOn_cursor]
  generalize utf8 (payloadText listing keyset (now + cursorTtlSeconds)) = bytes at hpayload
  dsimp only
  simp only [hlong, hshort, List.all_eq_true.mpr hversion, decide_true, Bool.and_self,
    Bool.not_true, Bool.false_eq_true, if_false, decoded_encodeBase64Url,
    Nat.ofDigitChars_ten_toDigits, String.ofList_toList, hmac, hpayload, Option.bind_eq_bind,
    Option.bind_some, ne_eq, not_true_eq_false]
  by_cases hlisting : listing = other
  · by_cases hlater : later < now + cursorTtlSeconds
    · rw [if_neg (by simp [hlisting, hlater]), if_pos ⟨hlisting, hlater⟩]
    · rw [if_pos (.inr (not_lt.mp hlater)), if_neg (by simp [hlater])]
  · rw [if_pos (.inl hlisting), if_neg (by simp [hlisting])]

end Sealed

/-! ### Following the cursors -/

structure PageRequest where
  keys : CursorKeys
  now : ℤ
  limit : Option String

/-- Requests with limits that are admitted, each less than an hour after the one before and with
the key of its cursor still held. -/
structure Requests (requests : ℕ → PageRequest) : Prop where
  limits : ∀ i, (parseLimit (requests i).limit).isSome = true
  clock : ∀ i, isSafeInteger ((requests i).now + cursorTtlSeconds) = true
  steps : ∀ i, (requests (i + 1)).now < (requests i).now + cursorTtlSeconds
  kept : ∀ i, (requests (i + 1)).keys.hmacKey (requests i).keys.active =
    (requests i).keys.hmacKey (requests i).keys.active

theorem parseLimit_pos {raw : Option String} {limit : ℕ} (h : parseLimit raw = some limit) :
    1 ≤ limit := by
  unfold parseLimit at h
  split at h
  · cases h
    decide
  · dsimp only at h
    split at h
    · obtain ⟨-, hrange⟩ := Option.filter_eq_some_iff.mp h
      simp only [Bool.and_eq_true, decide_eq_true_eq] at hrange
      exact hrange.1
    · cases h

/-- The source's page names the keyset of the row whose key the page of the order names. -/
theorem page_eq {ρ κ : Type} {rows : List ρ} {limit : ℕ} {keysetOf : ρ → Keyset}
    (keyOf : Keyset → κ) (sealKeyset : Keyset → String) :
    (page rows limit keysetOf sealKeyset).items = (pageOf (keyOf ∘ keysetOf) limit rows).items ∧
      ((pageOf (keyOf ∘ keysetOf) limit rows).next = none →
        (page rows limit keysetOf sealKeyset).next = none) ∧
      ∀ k, (pageOf (keyOf ∘ keysetOf) limit rows).next = some k → ∃ row ∈ rows,
        keyOf (keysetOf row) = k ∧
        (page rows limit keysetOf sealKeyset).next = some (sealKeyset (keysetOf row)) := by
  unfold page pageOf
  dsimp only
  cases hlast : (rows.take limit).getLast? with
  | none => simp
  | some last =>
    have hmem : last ∈ rows := List.mem_of_mem_take (List.mem_of_getLast? hlast)
    by_cases hmore : limit < rows.length
    · simp only [hmore, if_true, Option.map_some, reduceCtorEq, false_imp_iff, true_and,
        Option.some.injEq]
      rintro k rfl
      exact ⟨last, hmem, rfl, rfl⟩
    · simp [hmore]

section Following
variable {ρ β κ : Type} [LinearOrder κ] {keyOf : Keyset → κ} {keysetOf : ρ → Keyset}
  {shown : ρ → Option β} {rows : List ρ} {requests : ℕ → PageRequest}

/-- Pages through the rows in the order of their keysets. -/
def Serves (runtime : Runtime) (listing : String) (keyOf : Keyset → κ) (keysetOf : ρ → Keyset)
    (shown : ρ → Option β) (rows : List ρ) (requests : ℕ → PageRequest)
    (served : ℕ → Option String → Option (Page β String)) : Prop :=
  ∀ i cursor, served i cursor =
    (paging runtime (requests i).keys listing (requests i).limit cursor (requests i).now
      fun limit after =>
        let listed := page (fetch (keyOf ∘ keysetOf) rows (after.map keyOf) (limit + 1)) limit
          keysetOf fun keyset =>
            sealCursor runtime (requests i).keys listing keyset (requests i).now
        ListResponse.listed ⟨listed.items.filterMap shown, listed.next⟩).page?

def Opens (runtime : Runtime) (listing : String) (keyOf : Keyset → κ)
    (requests : ℕ → PageRequest) (i : ℕ) (cursor : Option String) (after : Option κ) : Prop :=
  (cursor = none ∧ after = none) ∨ ∃ text keyset, cursor = some text ∧
    after = some (keyOf keyset) ∧
    openCursor runtime (requests i).keys listing text (requests i).now = some keyset

omit [LinearOrder κ] in
theorem paging_opens {runtime : Runtime} {listing : String} {limit i : ℕ} {cursor : Option String}
    {after : Option κ} (hlimit : parseLimit (requests i).limit = some limit)
    (hopens : Opens runtime listing keyOf requests i cursor after) :
    ∃ keyset : Option Keyset, after = keyset.map keyOf ∧
      ∀ serve : ℕ → Option Keyset → ListResponse β,
        paging runtime (requests i).keys listing (requests i).limit cursor (requests i).now serve =
          serve limit keyset := by
  rcases hopens with ⟨rfl, rfl⟩ | ⟨text, keyset, rfl, rfl, hopen⟩
  · exact ⟨none, rfl, fun serve => by rw [paging, hlimit]⟩
  · exact ⟨some keyset, rfl, fun serve => by rw [paging, hlimit]; dsimp only; rw [hopen]⟩

/-- A page is the page of the order, and its cursor opens to the key that goes on. -/
theorem serves_step {runtime : Runtime} {listing : String}
    {served : ℕ → Option String → Option (Page β String)}
    (hserves : Serves runtime listing keyOf keysetOf shown rows requests served)
    (hsafe : ∀ row ∈ rows, isSafeInteger (keysetOf row).createdAt = true)
    (hrequests : Requests requests) {limits : ℕ → ℕ}
    (hlimits : ∀ i, parseLimit (requests i).limit = some (limits i)) (i : ℕ)
    (cursor : Option String) (after : Option κ)
    (hopens : Opens runtime listing keyOf requests i cursor after) :
    ∃ page next, some (pageAfter (keyOf ∘ keysetOf) rows (limits i) after) = some page ∧
      served i cursor = some ⟨page.items.filterMap shown, next⟩ ∧
      (page.next = none → next = none) ∧
      ∀ k, page.next = some k → ∃ c, next = some c ∧
        Opens runtime listing keyOf requests (i + 1) (some c) (some k) := by
  obtain ⟨keyset, rfl, hpaging⟩ := @paging_opens β _ keyOf _ runtime listing _ i cursor after
    (hlimits i) hopens
  obtain ⟨hitems, hlast, hmore⟩ := @page_eq ρ κ
    (fetch (keyOf ∘ keysetOf) rows (keyset.map keyOf) (limits i + 1)) (limits i) keysetOf keyOf
    fun keyset => sealCursor runtime (requests i).keys listing keyset (requests i).now
  refine ⟨_, _, rfl, ?_, hlast, ?_⟩
  · rw [hserves, hpaging]
    dsimp only [ListResponse.page?]
    rw [hitems]
    rfl
  · intro k hk
    obtain ⟨row, hrow, rfl, hnext⟩ := hmore k hk
    have hstored : row ∈ rows :=
      List.mem_of_mem_filter (mem_ordered.mp (List.mem_of_mem_take hrow))
    refine ⟨_, hnext, .inr ⟨_, keysetOf row, rfl, rfl, ?_⟩⟩
    rw [openCursor_sealCursor runtime (hrequests.kept i) (hsafe row hstored) (hrequests.clock i),
      if_pos ⟨rfl, hrequests.steps i⟩]

/-- Following the cursors from the first page shows the rows in their order, each once, and ends
with a null cursor. -/
theorem follow_serves {runtime : Runtime} {listing : String}
    {served : ℕ → Option String → Option (Page β String)}
    (hserves : Serves runtime listing keyOf keysetOf shown rows requests served)
    (hkeys : (rows.map (keyOf ∘ keysetOf)).Nodup)
    (hsafe : ∀ row ∈ rows, isSafeInteger (keysetOf row).createdAt = true)
    (hrequests : Requests requests) :
    follow served (rows.length + 1) 0 none =
      some ((ordered (keyOf ∘ keysetOf) rows).filterMap shown) := by
  have hparsed : ∀ i, ∃ limit, parseLimit (requests i).limit = some limit :=
    fun i => Option.isSome_iff_exists.mp (hrequests.limits i)
  choose limits hlimits using hparsed
  have hpositive : ∀ i, 1 ≤ limits i := fun i => parseLimit_pos (hlimits i)
  have hstep := serves_step hserves hsafe hrequests hlimits
  rw [follow_refines hstep _ _ _ none (.inl ⟨rfl, rfl⟩), follow_exact hkeys hpositive]
  rfl

end Following

end TinyOidc.Admin
