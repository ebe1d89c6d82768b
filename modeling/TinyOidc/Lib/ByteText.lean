import Mathlib.Data.List.Basic

/-! Bytes written out in smaller digits: two hexadecimal digits a byte, and the groups of six bits
of base64. Reading the digits back gives the bytes; digits that stand for bytes are read back as
they were written. -/
namespace ByteText

/-! ### Hexadecimal digits -/

/-- The two halves of each byte, the high one first. -/
def nibbles : List UInt8 → List ℕ
  | [] => []
  | b :: rest => b.toNat / 16 :: b.toNat % 16 :: nibbles rest

def ofNibbles : List ℕ → List UInt8
  | p :: q :: rest => UInt8.ofNat (16 * p + q) :: ofNibbles rest
  | _ => []

@[simp] theorem length_nibbles (bytes : List UInt8) :
    (nibbles bytes).length = 2 * bytes.length := by
  induction bytes with
  | nil => rfl
  | cons b rest ih =>
    simp only [nibbles, List.length_cons, ih]
    omega

theorem nibble_lt {bytes : List UInt8} {n : ℕ} (h : n ∈ nibbles bytes) : n < 16 := by
  induction bytes with
  | nil => cases h
  | cons b rest ih =>
    have hb := b.toNat_lt
    simp only [nibbles, List.mem_cons] at h
    rcases h with rfl | rfl | h
    · omega
    · omega
    · exact ih h

theorem ofNibbles_nibbles (bytes : List UInt8) : ofNibbles (nibbles bytes) = bytes := by
  induction bytes with
  | nil => rfl
  | cons b rest ih =>
    have hb : 16 * (b.toNat / 16) + b.toNat % 16 = b.toNat := by omega
    simp only [nibbles, ofNibbles, hb, ih, UInt8.ofNat_toNat]

theorem length_ofNibbles (digits : List ℕ) :
    (ofNibbles digits).length = digits.length / 2 := by
  induction digits using ofNibbles.induct with
  | case1 p q rest ih =>
    simp only [ofNibbles, List.length_cons, ih]
    omega
  | case2 digits hshort =>
    cases digits with
    | nil => rfl
    | cons p rest =>
      cases rest with
      | nil => simp [ofNibbles]
      | cons q rest => exact absurd rfl (hshort p q rest)

theorem nibbles_ofNibbles {digits : List ℕ} (heven : digits.length % 2 = 0)
    (hdigits : ∀ n ∈ digits, n < 16) : nibbles (ofNibbles digits) = digits := by
  induction digits using ofNibbles.induct with
  | case1 p q rest ih =>
    have hp := hdigits p (by simp)
    have hq := hdigits q (by simp)
    have hbyte : (UInt8.ofNat (16 * p + q)).toNat = 16 * p + q := by
      rw [UInt8.toNat_ofNat']
      omega
    have hrest := ih (by simp only [List.length_cons] at heven; omega)
      fun n hn => hdigits n (by simp [hn])
    have hhigh : (16 * p + q) / 16 = p := by omega
    have hlow : (16 * p + q) % 16 = q := by omega
    simp only [ofNibbles, nibbles, hbyte, hhigh, hlow, hrest]
  | case2 digits hshort =>
    cases digits with
    | nil => rfl
    | cons p rest =>
      cases rest with
      | nil => simp at heven
      | cons q rest => exact absurd rfl (hshort p q rest)

/-- The value of a hexadecimal digit in either letter case. -/
def hexValue (c : Char) : Option ℕ :=
  if c.isDigit then some (c.toNat - '0'.toNat)
  else if 'a' ≤ c ∧ c ≤ 'f' then some (c.toNat - 'a'.toNat + 10)
  else if 'A' ≤ c ∧ c ≤ 'F' then some (c.toNat - 'A'.toNat + 10)
  else none

/-! ### Groups of six bits -/

/-- Three bytes are four groups; one or two left over are filled up with zero bits. -/
def sextets : List UInt8 → List ℕ
  | [] => []
  | [a] => [a.toNat / 4, a.toNat % 4 * 16]
  | [a, b] => [a.toNat / 4, a.toNat % 4 * 16 + b.toNat / 16, b.toNat % 16 * 4]
  | a :: b :: c :: rest =>
    a.toNat / 4 :: (a.toNat % 4 * 16 + b.toNat / 16) :: (b.toNat % 16 * 4 + c.toNat / 64) ::
      c.toNat % 64 :: sextets rest

/-- The bytes that groups stand for; bits left over are dropped. -/
def octets : List ℕ → List UInt8
  | p :: q :: r :: s :: rest =>
    UInt8.ofNat (p * 4 + q / 16) :: UInt8.ofNat (q % 16 * 16 + r / 4) ::
      UInt8.ofNat (r % 4 * 64 + s) :: octets rest
  | [p, q, r] => [UInt8.ofNat (p * 4 + q / 16), UInt8.ofNat (q % 16 * 16 + r / 4)]
  | [p, q] => [UInt8.ofNat (p * 4 + q / 16)]
  | _ => []

theorem sextet_lt {bytes : List UInt8} {n : ℕ} (h : n ∈ sextets bytes) : n < 64 := by
  induction bytes using sextets.induct with
  | case1 => cases h
  | case2 a =>
    have ha := a.toNat_lt
    simp only [sextets, List.mem_cons, List.not_mem_nil, or_false] at h
    omega
  | case3 a b =>
    have ha := a.toNat_lt
    have hb := b.toNat_lt
    simp only [sextets, List.mem_cons, List.not_mem_nil, or_false] at h
    omega
  | case4 a b c rest ih =>
    have ha := a.toNat_lt
    have hb := b.toNat_lt
    have hc := c.toNat_lt
    simp only [sextets, List.mem_cons] at h
    rcases h with rfl | rfl | rfl | rfl | h
    · omega
    · omega
    · omega
    · omega
    · exact ih h

/-- Every group tells at least two bits, so no text of groups ends after a single one. -/
theorem length_sextets (bytes : List UInt8) :
    (sextets bytes).length = (8 * bytes.length + 5) / 6 := by
  induction bytes using sextets.induct with
  | case1 => rfl
  | case2 a => simp [sextets]
  | case3 a b => simp [sextets]
  | case4 a b c rest ih =>
    simp only [sextets, List.length_cons, ih]
    omega

theorem length_sextets_mod (bytes : List UInt8) : (sextets bytes).length % 4 ≠ 1 := by
  rw [length_sextets]
  omega

theorem octets_sextets (bytes : List UInt8) : octets (sextets bytes) = bytes := by
  induction bytes using sextets.induct with
  | case1 => rfl
  | case2 a =>
    have ha := a.toNat_lt
    have hbyte : a.toNat / 4 * 4 + a.toNat % 4 * 16 / 16 = a.toNat := by omega
    simp only [sextets, octets, hbyte, UInt8.ofNat_toNat]
  | case3 a b =>
    have ha := a.toNat_lt
    have hb := b.toNat_lt
    have hfirst : a.toNat / 4 * 4 + (a.toNat % 4 * 16 + b.toNat / 16) / 16 = a.toNat := by omega
    have hsecond : (a.toNat % 4 * 16 + b.toNat / 16) % 16 * 16 + b.toNat % 16 * 4 / 4 =
        b.toNat := by omega
    simp only [sextets, octets, hfirst, hsecond, UInt8.ofNat_toNat]
  | case4 a b c rest ih =>
    have ha := a.toNat_lt
    have hb := b.toNat_lt
    have hc := c.toNat_lt
    have hfirst : a.toNat / 4 * 4 + (a.toNat % 4 * 16 + b.toNat / 16) / 16 = a.toNat := by omega
    have hsecond : (a.toNat % 4 * 16 + b.toNat / 16) % 16 * 16 +
        (b.toNat % 16 * 4 + c.toNat / 64) / 4 = b.toNat := by omega
    have hthird : (b.toNat % 16 * 4 + c.toNat / 64) % 4 * 64 + c.toNat % 64 = c.toNat := by omega
    simp only [sextets, octets, hfirst, hsecond, hthird, UInt8.ofNat_toNat, ih]

end ByteText
