import Mathlib.Data.List.GetD
import TinyOidc.Lib.ByteText
import TinyOidc.Util.Text

/-! Decoding base64url (`src/util/base64url.ts`), strict: what decodes is exactly what encodes. -/
namespace TinyOidc.Util
open ByteText

inductive Thrown where
  | invalidCharacter
  | rangeError (message : String)
  | typeError (message : String)
  deriving DecidableEq, Repr

/-! ### `atob` -/

def isAsciiSpace (c : Char) : Bool :=
  c == ' ' || c == '\t' || c == '\n' || c == '\r' || c.toNat == 12

def base64Value (c : Char) : ℕ := base64Alphabet.idxOf c

/-- At most two pads are taken off. -/
def withoutPads (data : List Char) : List Char :=
  match data.reverse with
  | '=' :: '=' :: rest => rest.reverse
  | '=' :: rest => rest.reverse
  | _ => data

/-- The forgiving base64 decoding of the HTML standard. -/
def atob (text : List Char) : Except Thrown (List UInt8) :=
  let data := text.filter fun c => !isAsciiSpace c
  let body := if data.length % 4 = 0 then withoutPads data else data
  if body.length % 4 = 1 || !body.all base64Alphabet.contains then .error .invalidCharacter
  else .ok (octets (body.map base64Value))

/-! ### The decoder -/

/-- The class of `ALPHABET`. -/
def isUrlChar (c : Char) : Bool := c.isAlphanum || c == '_' || c == '-'

def plainChar (c : Char) : Char := if c = '-' then '+' else if c = '_' then '/' else c

/-- `none` when the text is not canonical base64url. -/
def decodeBase64Url (text : String) : Except Thrown (Option (List UInt8)) :=
  let chars := text.toList
  if !chars.all isUrlChar || chars.length % 4 == 1 then .ok none
  else
    match atob (chars.map plainChar ++ List.replicate ((4 - chars.length % 4) % 4) '=') with
    | .error e => .error e
    | .ok bytes => .ok (if encodeBase64Url bytes = text then some bytes else none)

/-! ### What it decodes -/

/-- The character of a group of six bits. -/
def sextetChar (n : ℕ) : Char := urlChar (base64Char n)

theorem base64Alphabet_eq : base64Alphabet =
    ['A', 'B', 'C', 'D', 'E', 'F', 'G', 'H', 'I', 'J', 'K', 'L', 'M', 'N', 'O', 'P', 'Q', 'R', 'S',
      'T', 'U', 'V', 'W', 'X', 'Y', 'Z', 'a', 'b', 'c', 'd', 'e', 'f', 'g', 'h', 'i', 'j', 'k', 'l',
      'm', 'n', 'o', 'p', 'q', 'r', 's', 't', 'u', 'v', 'w', 'x', 'y', 'z', '0', '1', '2', '3', '4',
      '5', '6', '7', '8', '9', '+', '/'] :=
  String.toList_ofList

theorem base64Alphabet_length : base64Alphabet.length = 64 := by
  rw [base64Alphabet_eq]
  rfl

/-- Where a character stands in the alphabet. -/
def base64Place (c : Char) : ℕ :=
  if c.isUpper then c.toNat - 65 else if c.isLower then c.toNat - 71
  else if c.isDigit then c.toNat + 4 else if c = '+' then 62 else 63

theorem base64Alphabet_nodup : base64Alphabet.Nodup := by
  have hplaces : base64Alphabet.map base64Place = List.range 64 := by
    rw [base64Alphabet_eq]
    decide
  exact List.Nodup.of_map base64Place (hplaces ▸ List.nodup_range)

theorem base64Alphabet_spec {c : Char} (h : c ∈ base64Alphabet) : isAsciiSpace c = false ∧
    c ≠ '=' ∧ isUrlChar (urlChar c) = true ∧ plainChar (urlChar c) = c ∧ urlChar c ≠ '=' := by
  -- over a `Bool` the evaluation does not nest
  have hall : base64Alphabet.all (fun c => !isAsciiSpace c && c != '=' && isUrlChar (urlChar c) &&
      plainChar (urlChar c) == c && urlChar c != '=') = true := by
    rw [base64Alphabet_eq]
    decide
  simpa [and_assoc] using List.all_eq_true.mp hall c h

theorem base64Char_mem {n : ℕ} (h : n < 64) : base64Char n ∈ base64Alphabet := by
  rw [base64Char, List.getD_eq_getElem _ _ (base64Alphabet_length.symm ▸ h)]
  exact List.getElem_mem _

theorem base64Value_base64Char {n : ℕ} (h : n < 64) : base64Value (base64Char n) = n := by
  have hlt : n < base64Alphabet.length := base64Alphabet_length.symm ▸ h
  rw [base64Value, base64Char, List.getD_eq_getElem _ _ hlt]
  exact base64Alphabet_nodup.idxOf_getElem n hlt

theorem sextetChar_spec {n : ℕ} (h : n < 64) :
    isUrlChar (sextetChar n) = true ∧ base64Value (plainChar (sextetChar n)) = n ∧
      sextetChar n ≠ '=' := by
  obtain ⟨-, -, hurl, hplain, hpad⟩ := base64Alphabet_spec (base64Char_mem h)
  refine ⟨hurl, ?_, hpad⟩
  rw [sextetChar, hplain, base64Value_base64Char h]

theorem urlChar_ascii {c : Char} (h : isUrlChar c = true) : c.toNat < 128 := by
  have hbound {lo hi : UInt32} (hc : c.val ≥ lo ∧ c.val ≤ hi) (hhi : hi.toNat < 128) :
      c.toNat < 128 := lt_of_le_of_lt (UInt32.le_iff_toNat_le.mp hc.2) hhi
  have hrange {lo hi : UInt32} (hc : (decide (c.val ≥ lo) && decide (c.val ≤ hi)) = true)
      (hhi : hi.toNat < 128) : c.toNat < 128 :=
    hbound (by simpa using hc) hhi
  unfold isUrlChar at h
  rw [Bool.or_eq_true, Bool.or_eq_true, beq_iff_eq, beq_iff_eq] at h
  rcases h with (h | rfl) | rfl
  · rcases (Bool.or_eq_true _ _).mp h with h | h
    · rcases (Bool.or_eq_true _ _).mp h with h | h
      · exact hbound (of_decide_eq_true h) (by decide)
      · exact hrange h (by decide)
    · exact hrange h (by decide)
  · decide
  · decide

theorem plainChar_mem {c : Char} (h : isUrlChar c = true) : plainChar c ∈ base64Alphabet := by
  have hplaces : ∀ n < 128, isUrlChar (Char.ofNat n) = true →
      base64Alphabet[base64Place (plainChar (Char.ofNat n))]? =
        some (plainChar (Char.ofNat n)) := by
    rw [base64Alphabet_eq]
    decide
  have hplace := hplaces c.toNat (urlChar_ascii h)
  rw [Char.ofNat_toNat] at hplace
  exact List.mem_of_getElem? (hplace h)

theorem plainChar_spec {c : Char} (h : isUrlChar c = true) :
    base64Alphabet.contains (plainChar c) = true ∧ isAsciiSpace (plainChar c) = false ∧
      plainChar c ≠ '=' := by
  obtain ⟨hspace, hpad, -⟩ := base64Alphabet_spec (plainChar_mem h)
  exact ⟨List.contains_iff_mem.mpr (plainChar_mem h), hspace, hpad⟩

theorem urlChar_pad : urlChar '=' = '=' := by decide

/-- The padded text of bytes: the characters of their groups, and pads. -/
theorem btoa_eq (bytes : List UInt8) : ∃ pads, (btoa bytes).map urlChar =
    (sextets bytes).map sextetChar ++ List.replicate pads '=' := by
  induction bytes using sextets.induct with
  | case1 => exact ⟨0, rfl⟩
  | case2 a => exact ⟨2, by simp [btoa, sextets, sextetChar, urlChar_pad, List.replicate]⟩
  | case3 a b => exact ⟨1, by simp [btoa, sextets, sextetChar, urlChar_pad, List.replicate]⟩
  | case4 a b c rest ih =>
    obtain ⟨pads, ih⟩ := ih
    refine ⟨pads, ?_⟩
    simp only [btoa, sextets, List.map_cons, ih, List.cons_append, sextetChar]

theorem rdropWhile_append_replicate {text : List Char} {c : Char} (h : ∀ d ∈ text, d ≠ c)
    (pads : ℕ) : (text ++ List.replicate pads c).rdropWhile (· == c) = text := by
  induction pads with
  | zero =>
    rw [List.replicate_zero, List.append_nil, List.rdropWhile_eq_self_iff]
    intro hne
    simpa using h _ (List.getLast_mem hne)
  | succ pads ih =>
    have hlast : text ++ List.replicate (pads + 1) c = (text ++ List.replicate pads c) ++ [c] := by
      rw [List.replicate_succ', List.append_assoc]
    rw [hlast, List.rdropWhile_concat_pos _ _ _ (by simp), ih]

/-- The unpadded text of bytes is the characters of their groups. -/
theorem toList_encodeBase64Url (bytes : List UInt8) :
    (encodeBase64Url bytes).toList = (sextets bytes).map sextetChar := by
  obtain ⟨pads, heq⟩ := btoa_eq bytes
  rw [encodeBase64Url, String.toList_ofList, heq]
  apply rdropWhile_append_replicate
  intro d hd
  obtain ⟨n, hn, rfl⟩ := List.mem_map.mp hd
  exact (sextetChar_spec (sextet_lt hn)).2.2

theorem withoutPads_of_ne {data : List Char} (h : ∀ c ∈ data, c ≠ '=') :
    withoutPads data = data := by
  unfold withoutPads
  split
  · next rest hdata =>
    exact absurd rfl (h '=' (List.mem_reverse.mp (hdata ▸ List.mem_cons_self)))
  · next rest hdata =>
    exact absurd rfl (h '=' (List.mem_reverse.mp (hdata ▸ List.mem_cons_self)))
  · rfl

theorem withoutPads_append {data : List Char} (h : ∀ c ∈ data, c ≠ '=') {pads : ℕ}
    (hpads : pads ≤ 2) : withoutPads (data ++ List.replicate pads '=') = data := by
  have hlt : pads = 0 ∨ pads = 1 ∨ pads = 2 := by omega
  rcases hlt with rfl | rfl | rfl
  · rw [List.replicate_zero, List.append_nil]
    exact withoutPads_of_ne h
  · unfold withoutPads
    rw [List.reverse_append]
    cases hdata : data.reverse with
    | nil =>
      simp only [List.reverse_eq_nil_iff.mp hdata]
      rfl
    | cons c rest =>
      have hc : c ≠ '=' := h c (List.mem_reverse.mp (hdata ▸ List.mem_cons_self))
      show (match '=' :: c :: rest with
        | '=' :: '=' :: rest => rest.reverse
        | '=' :: rest => rest.reverse
        | _ => _) = data
      split
      · next heq =>
        cases heq
        exact absurd rfl hc
      · next heq =>
        cases heq
        rw [← hdata, List.reverse_reverse]
      · next _ hnot => exact absurd rfl (hnot (c :: rest))
  · unfold withoutPads
    rw [List.reverse_append]
    show data.reverse.reverse = data
    exact List.reverse_reverse data

/-- Padded groups decode. -/
theorem atob_padded {text : List Char} (hmod : text.length % 4 ≠ 1)
    (htext : ∀ c ∈ text, base64Alphabet.contains c = true ∧ isAsciiSpace c = false ∧ c ≠ '=') :
    atob (text ++ List.replicate ((4 - text.length % 4) % 4) '=') =
      .ok (octets (text.map base64Value)) := by
  have hdata : (text ++ List.replicate ((4 - text.length % 4) % 4) '=').filter
      (fun c => !isAsciiSpace c) = text ++ List.replicate ((4 - text.length % 4) % 4) '=' := by
    apply List.filter_eq_self.mpr
    intro c hc
    rcases List.mem_append.mp hc with hc | hc
    · simp [(htext c hc).2.1]
    · rw [List.eq_of_mem_replicate hc]
      rfl
  have hlength : (text ++ List.replicate ((4 - text.length % 4) % 4) '=').length % 4 = 0 := by
    rw [List.length_append, List.length_replicate]
    omega
  have hbody : withoutPads (text ++ List.replicate ((4 - text.length % 4) % 4) '=') = text :=
    withoutPads_append (fun c hc => (htext c hc).2.2) (by omega)
  unfold atob
  simp only [hdata, hlength, if_true, hbody]
  apply if_neg
  have hall : text.all base64Alphabet.contains = true :=
    List.all_eq_true.mpr fun c hc => (htext c hc).1
  simp [hmod, hall]

theorem btoa_padded (bytes : List UInt8) :
    btoa bytes = (sextets bytes).map base64Char ++
      List.replicate ((4 - ((sextets bytes).map base64Char).length % 4) % 4) '=' := by
  induction bytes using sextets.induct with
  | case1 => rfl
  | case2 a => simp [btoa, sextets, List.replicate]
  | case3 a b => simp [btoa, sextets]
  | case4 a b c rest ih =>
    have hpads : (((sextets rest).map base64Char).length + 1 + 1 + 1 + 1) % 4 =
        ((sextets rest).map base64Char).length % 4 := by omega
    simp only [btoa, sextets, List.map_cons, List.cons_append, List.length_cons, hpads]
    rw [← ih]

/-- What encodes is what decodes. -/
theorem atob_btoa (bytes : List UInt8) : atob (btoa bytes) = .ok bytes := by
  have hsextet : ∀ n ∈ sextets bytes, n < 64 := fun n hn => sextet_lt hn
  have hmod : ((sextets bytes).map base64Char).length % 4 ≠ 1 := by
    rw [List.length_map]
    exact length_sextets_mod bytes
  have htext : ∀ c ∈ (sextets bytes).map base64Char,
      base64Alphabet.contains c = true ∧ isAsciiSpace c = false ∧ c ≠ '=' := by
    intro c hc
    obtain ⟨n, hn, rfl⟩ := List.mem_map.mp hc
    have hmem := base64Char_mem (hsextet n hn)
    obtain ⟨hspace, hpad, -⟩ := base64Alphabet_spec hmem
    exact ⟨List.contains_iff_mem.mpr hmem, hspace, hpad⟩
  have hvalues : ((sextets bytes).map base64Char).map base64Value = sextets bytes := by
    have hback : ∀ n ∈ sextets bytes, (base64Value ∘ base64Char) n = id n := by
      intro n hn
      rw [Function.comp_apply, base64Value_base64Char (hsextet n hn), id]
    rw [List.map_map, List.map_congr_left hback, List.map_id]
  rw [btoa_padded, atob_padded hmod htext, hvalues, octets_sextets]

/-- A text of the alphabet, of a length that bytes have, is decoded; the result counts when it
encodes as the text. -/
theorem decodeBase64Url_eq {text : String} (hchars : text.toList.all isUrlChar = true)
    (hmod : text.toList.length % 4 ≠ 1) :
    decodeBase64Url text =
      .ok (if encodeBase64Url (octets (text.toList.map fun c => base64Value (plainChar c))) = text
        then some (octets (text.toList.map fun c => base64Value (plainChar c))) else none) := by
  have hatob := @atob_padded (text.toList.map plainChar)
    (by simpa using hmod) (by
      intro c hc
      obtain ⟨d, hd, rfl⟩ := List.mem_map.mp hc
      exact plainChar_spec (List.all_eq_true.mp hchars d hd))
  rw [List.length_map, List.map_map] at hatob
  unfold decodeBase64Url
  simp only [hchars, Bool.not_true, Bool.false_or, beq_iff_eq, hmod, if_false, hatob]
  rfl

/-- It never throws. -/
theorem decodeBase64Url_ok (text : String) : ∃ bytes, decodeBase64Url text = .ok bytes := by
  by_cases hchars : text.toList.all isUrlChar = true
  · by_cases hmod : text.toList.length % 4 = 1
    · exact ⟨none, by simp [decodeBase64Url, hmod]⟩
    · exact ⟨_, decodeBase64Url_eq hchars hmod⟩
  · exact ⟨none, by simp [decodeBase64Url, hchars]⟩

/-- What decodes is what encodes, and to the same bytes. -/
theorem decodeBase64Url_eq_some {text : String} {bytes : List UInt8} :
    decodeBase64Url text = .ok (some bytes) ↔ text = encodeBase64Url bytes := by
  constructor
  · intro h
    by_cases hchars : text.toList.all isUrlChar = true
    · by_cases hmod : text.toList.length % 4 = 1
      · simp [decodeBase64Url, hmod] at h
      · rw [decodeBase64Url_eq hchars hmod] at h
        split at h
        · next hcanonical =>
          cases h
          exact hcanonical.symm
        · cases h
    · simp [decodeBase64Url, hchars] at h
  · rintro rfl
    have htext := toList_encodeBase64Url bytes
    have hchars : (encodeBase64Url bytes).toList.all isUrlChar = true := by
      rw [htext]
      apply List.all_eq_true.mpr
      intro c hc
      obtain ⟨n, hn, rfl⟩ := List.mem_map.mp hc
      exact (sextetChar_spec (sextet_lt hn)).1
    have hmod : (encodeBase64Url bytes).toList.length % 4 ≠ 1 := by
      rw [htext, List.length_map]
      exact length_sextets_mod bytes
    have hoctets : octets ((encodeBase64Url bytes).toList.map
        fun c => base64Value (plainChar c)) = bytes := by
      have hvalues : (encodeBase64Url bytes).toList.map (fun c => base64Value (plainChar c)) =
          sextets bytes := by
        have hback : ∀ n ∈ sextets bytes,
            ((fun c => base64Value (plainChar c)) ∘ sextetChar) n = id n := by
          intro n hn
          rw [Function.comp_apply, (sextetChar_spec (sextet_lt hn)).2.1, id]
        rw [htext, List.map_map, List.map_congr_left hback, List.map_id]
      rw [hvalues, octets_sextets]
    rw [decodeBase64Url_eq hchars hmod, hoctets, if_pos rfl]

/-- base64url is a bijection onto its canonical texts, and decoding is its inverse. -/
theorem decodeBase64Url_inverse :
    (∀ bytes, decodeBase64Url (encodeBase64Url bytes) = .ok (some bytes)) ∧
      ∀ text, ∃ result, decodeBase64Url text = .ok result ∧
        (result.isSome = true ↔ ∃ bytes, text = encodeBase64Url bytes) ∧
        ∀ bytes, text = encodeBase64Url bytes → result = some bytes := by
  refine ⟨fun bytes => decodeBase64Url_eq_some.mpr rfl, fun text => ?_⟩
  obtain ⟨result, hresult⟩ := decodeBase64Url_ok text
  have hiff : ∀ bytes, result = some bytes ↔ text = encodeBase64Url bytes := by
    intro bytes
    rw [← decodeBase64Url_eq_some, hresult, Except.ok.injEq]
  refine ⟨result, hresult, ?_, fun bytes htext => (hiff bytes).mpr htext⟩
  rw [Option.isSome_iff_exists]
  exact exists_congr hiff

theorem encodeBase64Url_injective {a b : List UInt8} (h : encodeBase64Url a = encodeBase64Url b) :
    a = b := by
  have ha := decodeBase64Url_eq_some.mpr (rfl : encodeBase64Url a = encodeBase64Url a)
  rw [decodeBase64Url_eq_some.mpr h] at ha
  cases ha
  rfl

end TinyOidc.Util
