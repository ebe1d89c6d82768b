import TinyOidc.Util.Base64Url

/-! The codec of UUIDs (`src/crypto/uuid.ts`): the sixteen bytes of a lowercase UUID, and back. -/
namespace TinyOidc.Util
open ByteText

def hexAlphabet : List Char := "0123456789abcdef".toList

def hexChar (n : ℕ) : Char := hexAlphabet.getD n '0'

def hexValue (c : Char) : ℕ := hexAlphabet.idxOf c

/-- The RFC 9562 text of 32 hexadecimal digits, in groups of 8, 4, 4, 4 and 12. -/
def hyphenated (digits : List Char) : List Char :=
  digits.take 8 ++ '-' :: ((digits.drop 8).take 4 ++ '-' :: ((digits.drop 12).take 4 ++
    '-' :: ((digits.drop 16).take 4 ++ '-' :: digits.drop 20)))

/-- `none` when the string is not a lowercase UUID. -/
def uuidToBytes (uuid : String) : Option (List UInt8) :=
  if isUuid uuid then some (ofNibbles ((uuid.toList.filter (· ≠ '-')).map hexValue)) else none

def uuidText (bytes : List UInt8) : String :=
  String.ofList (hyphenated ((nibbles bytes).map hexChar))

/-- `UUID.ofInner` takes sixteen bytes. -/
def bytesToUuid (bytes : List UInt8) : Except Thrown String :=
  if bytes.length = 16 then .ok (uuidText bytes) else .error (.typeError "not 128-bit length")

/-! ### Digits -/

theorem hexChar_spec {n : ℕ} (h : n < 16) :
    isHexDigit (hexChar n) = true ∧ hexValue (hexChar n) = n := by
  have hall : ∀ m : Fin 16, isHexDigit (hexChar m) = true ∧ hexValue (hexChar m) = m := by
    decide
  exact hall ⟨n, h⟩

theorem isHexDigit_ascii {c : Char} (h : isHexDigit c = true) : c.toNat < 128 := by
  unfold isHexDigit at h
  simp only [Char.isDigit, Bool.or_eq_true, Bool.and_eq_true, decide_eq_true_eq,
    UInt32.le_iff_toNat_le, ge_iff_le] at h
  rcases h with h | h
  · have hle : c.val.toNat ≤ 57 := h.2
    show c.val.toNat < 128
    omega
  · have hle : c.toNat ≤ 102 := h.2
    omega

theorem isHexDigit_spec {c : Char} (h : isHexDigit c = true) :
    hexValue c < 16 ∧ hexChar (hexValue c) = c ∧ c ≠ '-' := by
  have hall : ∀ m : Fin 128, isHexDigit (Char.ofNat m) = true →
      hexValue (Char.ofNat m) < 16 ∧ hexChar (hexValue (Char.ofNat m)) = Char.ofNat m ∧
        Char.ofNat m ≠ '-' := by
    decide
  have hc := hall ⟨c.toNat, isHexDigit_ascii h⟩
  rw [Char.ofNat_toNat] at hc
  exact hc h

/-! ### UUIDs are the texts of sixteen bytes -/

/-- A UUID is the hyphenated text of 32 lowercase hexadecimal digits. -/
theorem isUuid_iff {value : String} : isUuid value = true ↔
    ∃ digits : List Char, digits.length = 32 ∧ (∀ c ∈ digits, isHexDigit c = true) ∧
      value.toList = hyphenated digits := by
  constructor
  · intro h
    unfold isUuid at h
    split at h
    · next a b c d e hsplit =>
      obtain ⟨hlengths, hhex⟩ := Bool.and_eq_true_iff.mp h
      have hlengths : a.length = 8 ∧ b.length = 4 ∧ c.length = 4 ∧ d.length = 4 ∧
          e.length = 12 := by simpa using hlengths
      obtain ⟨ha, hb, hc, hd, he⟩ := hlengths
      have hparts : ['-'].intercalate (value.toList.splitOn '-') = value.toList :=
        List.intercalate_splitOn '-'
      refine ⟨a ++ (b ++ (c ++ (d ++ e))), ?_, ?_, ?_⟩
      · simp only [List.length_append]
        omega
      · intro x hx
        have hgroups := List.all_eq_true.mp hhex
        simp only [List.mem_append] at hx
        rcases hx with hx | hx | hx | hx | hx
        · exact List.all_eq_true.mp (hgroups a (by simp)) x hx
        · exact List.all_eq_true.mp (hgroups b (by simp)) x hx
        · exact List.all_eq_true.mp (hgroups c (by simp)) x hx
        · exact List.all_eq_true.mp (hgroups d (by simp)) x hx
        · exact List.all_eq_true.mp (hgroups e (by simp)) x hx
      · rw [← hparts, hsplit]
        simp [hyphenated, List.intercalate, List.intersperse, List.drop_append,
          List.drop_eq_nil_of_le, ha, hb, hc, hd]
    · cases h
  · rintro ⟨digits, hlength, hhex, hvalue⟩
    have hhex' : ∀ group ∈ [digits.take 8, (digits.drop 8).take 4, (digits.drop 12).take 4,
        (digits.drop 16).take 4, digits.drop 20], ∀ c ∈ group, isHexDigit c = true := by
      intro group hgroup c hc
      apply hhex
      simp only [List.mem_cons, List.not_mem_nil, or_false] at hgroup
      rcases hgroup with rfl | rfl | rfl | rfl | rfl
      · exact List.mem_of_mem_take hc
      · exact List.mem_of_mem_drop (List.mem_of_mem_take hc)
      · exact List.mem_of_mem_drop (List.mem_of_mem_take hc)
      · exact List.mem_of_mem_drop (List.mem_of_mem_take hc)
      · exact List.mem_of_mem_drop hc
    have hjoin : value.toList = ['-'].intercalate [digits.take 8, (digits.drop 8).take 4,
        (digits.drop 12).take 4, (digits.drop 16).take 4, digits.drop 20] := by
      rw [hvalue]
      simp [hyphenated, List.intercalate, List.intersperse]
    have hsplit : value.toList.splitOn '-' = [digits.take 8, (digits.drop 8).take 4,
        (digits.drop 12).take 4, (digits.drop 16).take 4, digits.drop 20] := by
      rw [hjoin]
      apply List.splitOn_intercalate
      · intro group hgroup hmem
        exact (isHexDigit_spec (hhex' group hgroup '-' hmem)).2.2 rfl
      · simp
    unfold isUuid
    rw [hsplit]
    simp only [Bool.and_eq_true]
    constructor
    · simp [hlength]
    · apply List.all_eq_true.mpr
      intro group hgroup
      exact List.all_eq_true.mpr (hhex' group hgroup)

/-- The digits of a hyphenated text. -/
theorem filter_hyphenated {digits : List Char} (h : ∀ c ∈ digits, isHexDigit c = true) :
    (hyphenated digits).filter (· ≠ '-') = digits := by
  have hkept : ∀ part : List Char, (∀ c ∈ part, c ∈ digits) → part.filter (· ≠ '-') = part := by
    intro part hpart
    apply List.filter_eq_self.mpr
    intro c hc
    simpa using (isHexDigit_spec (h c (hpart c hc))).2.2
  have hfirst := hkept (digits.take 8) fun c hc => List.mem_of_mem_take hc
  have hsecond := hkept ((digits.drop 8).take 4)
    fun c hc => List.mem_of_mem_drop (List.mem_of_mem_take hc)
  have hthird := hkept ((digits.drop 12).take 4)
    fun c hc => List.mem_of_mem_drop (List.mem_of_mem_take hc)
  have hfourth := hkept ((digits.drop 16).take 4)
    fun c hc => List.mem_of_mem_drop (List.mem_of_mem_take hc)
  have hlast := hkept (digits.drop 20) fun c hc => List.mem_of_mem_drop hc
  have hjoin : digits.take 8 ++ ((digits.drop 8).take 4 ++ ((digits.drop 12).take 4 ++
      ((digits.drop 16).take 4 ++ digits.drop 20))) = digits := by
    have h16 : (digits.drop 16).take 4 ++ digits.drop 20 = digits.drop 16 := by
      rw [← List.drop_drop (i := 4) (j := 16), List.take_append_drop]
    have h12 : (digits.drop 12).take 4 ++ digits.drop 16 = digits.drop 12 := by
      rw [← List.drop_drop (i := 4) (j := 12), List.take_append_drop]
    have h8 : (digits.drop 8).take 4 ++ digits.drop 12 = digits.drop 8 := by
      rw [← List.drop_drop (i := 4) (j := 8), List.take_append_drop]
    rw [h16, h12, h8, List.take_append_drop]
  unfold hyphenated
  simp only [List.filter_append, List.filter_cons, hfirst, hsecond, hthird, hfourth, hlast]
  simpa using hjoin

theorem uuidText_isUuid {bytes : List UInt8} (h : bytes.length = 16) :
    isUuid (uuidText bytes) = true := by
  apply isUuid_iff.mpr
  refine ⟨(nibbles bytes).map hexChar, ?_, ?_, ?_⟩
  · rw [List.length_map, length_nibbles, h]
  · intro c hc
    obtain ⟨n, hn, rfl⟩ := List.mem_map.mp hc
    exact (hexChar_spec (nibble_lt hn)).1
  · rw [uuidText, String.toList_ofList]

/-- The bytes of a UUID are sixteen, and their text is the UUID. -/
theorem bytesToUuid_uuidToBytes {id : String} (h : isUuid id = true) :
    ∃ bytes, uuidToBytes id = some bytes ∧ bytes.length = 16 ∧ bytesToUuid bytes = .ok id := by
  obtain ⟨digits, hlength, hhex, hvalue⟩ := isUuid_iff.mp h
  have hfilter : id.toList.filter (· ≠ '-') = digits := by
    rw [hvalue]
    exact filter_hyphenated hhex
  have hsmall : ∀ n ∈ digits.map hexValue, n < 16 := by
    intro n hn
    obtain ⟨c, hc, rfl⟩ := List.mem_map.mp hn
    exact (isHexDigit_spec (hhex c hc)).1
  have hsixteen : (ofNibbles (digits.map hexValue)).length = 16 := by
    rw [length_ofNibbles, List.length_map, hlength]
  have hdigits : (nibbles (ofNibbles (digits.map hexValue))).map hexChar = digits := by
    have hback : ∀ c ∈ digits, (hexChar ∘ hexValue) c = c := by
      intro c hc
      exact (isHexDigit_spec (hhex c hc)).2.1
    have heven : (digits.map hexValue).length % 2 = 0 := by
      rw [List.length_map, hlength]
    rw [nibbles_ofNibbles heven hsmall, List.map_map, List.map_congr_left hback, List.map_id']
  refine ⟨ofNibbles (digits.map hexValue), ?_, hsixteen, ?_⟩
  · rw [uuidToBytes, if_pos h, hfilter]
  · rw [bytesToUuid, if_pos hsixteen, uuidText, hdigits, ← hvalue, String.ofList_toList]

/-- Sixteen bytes are the bytes of their text. -/
theorem uuidToBytes_bytesToUuid {bytes : List UInt8} (h : bytes.length = 16) :
    bytesToUuid bytes = .ok (uuidText bytes) ∧ uuidToBytes (uuidText bytes) = some bytes := by
  constructor
  · exact if_pos h
  · have hhex : ∀ c ∈ (nibbles bytes).map hexChar, isHexDigit c = true := by
      intro c hc
      obtain ⟨n, hn, rfl⟩ := List.mem_map.mp hc
      exact (hexChar_spec (nibble_lt hn)).1
    have hvalues : ((nibbles bytes).map hexChar).map hexValue = nibbles bytes := by
      have hback : ∀ n ∈ nibbles bytes, (hexValue ∘ hexChar) n = id n := by
        intro n hn
        exact (hexChar_spec (nibble_lt hn)).2
      rw [List.map_map, List.map_congr_left hback, List.map_id]
    rw [uuidToBytes, if_pos (uuidText_isUuid h), uuidText, String.toList_ofList,
      filter_hyphenated hhex, hvalues, ofNibbles_nibbles]

end TinyOidc.Util
