import TinyOidc.Lib.LexText
import TinyOidc.Lib.Lists
import TinyOidc.Util.Uuid
import Mathlib.Data.Nat.Digits.Lemmas

/-! The key of a rate limit by IP (`src/router/rate-limit.ts`): IPv6 addresses are counted by
their /64, whichever way they are written. -/
namespace TinyOidc.Router
open LexText Util
open Lists (map_eq_map_iff mem_intercalate modifyHead_self)

/-- `text.split("::")`. -/
def splitDouble : List Char → List (List Char)
  | [] => [[]]
  | ':' :: ':' :: rest => [] :: splitDouble rest
  | c :: rest => (splitDouble rest).modifyHead (c :: ·)

/-- The groups of one side of the compression; an empty side has none. -/
def groupsOf (side : List Char) : List (List Char) :=
  if side.length > 0 then side.splitOn ':' else []

/-- A group as the key has it. -/
def padGroup (group : List Char) : List Char := padStart 4 (group.map Char.toLower)

/-- The key of an address, given the header `CF-Connecting-IP`. -/
def ipKey (header : Option String) : String :=
  let ip := header.getD "0.0.0.0"
  if !ip.toList.contains ':' then ip
  else
    let parts := splitDouble ip.toList
    let headParts := groupsOf (parts.headD [])
    let tailParts := groupsOf (parts[1]?.getD [])
    let zeros := List.replicate (8 - headParts.length - tailParts.length) ['0']
    let groups := headParts ++ zeros ++ tailParts
    String.ofList ([':'].intercalate ((groups.take 4).map padGroup) ++ "::/64".toList)

/-! ### Addresses and their texts -/

/-- One to four hexadecimal digits in either letter case. -/
structure IsGroup (group : List Char) : Prop where
  pos : 0 < group.length
  short : group.length ≤ 4
  digits : ∀ c ∈ group, isHexDigit c.toLower = true

instance (group : List Char) : Decidable (IsGroup group) :=
  decidable_of_iff (0 < group.length ∧ group.length ≤ 4 ∧
      (group.all fun c => isHexDigit c.toLower) = true)
    ⟨fun h => ⟨h.1, h.2.1, List.all_eq_true.mp h.2.2⟩,
      fun h => ⟨h.pos, h.short, List.all_eq_true.mpr h.digits⟩⟩

def groupValue (group : List Char) : ℕ :=
  Nat.ofDigits 16 (group.reverse.map fun c => hexValue c.toLower)

/-- The number of an address, from its groups of sixteen bits. -/
def address (groups : List ℕ) : ℕ := Nat.ofDigits 65536 groups.reverse

/-- What a text in hexadecimal groups denotes: eight groups, or fewer with one `::` for the zero
groups that are left out. -/
inductive Denotes (text : String) : List ℕ → Prop where
  | full (groups : List (List Char)) (hgroups : ∀ g ∈ groups, IsGroup g)
      (hlength : groups.length = 8) (htext : text.toList = [':'].intercalate groups) :
      Denotes text (groups.map groupValue)
  | compressed (before after : List (List Char)) (hbefore : ∀ g ∈ before, IsGroup g)
      (hafter : ∀ g ∈ after, IsGroup g) (hlength : before.length + after.length ≤ 7)
      (htext : text.toList =
        [':'].intercalate before ++ ':' :: ':' :: [':'].intercalate after) :
      Denotes text (before.map groupValue ++
        List.replicate (8 - before.length - after.length) 0 ++ after.map groupValue)

/-- A dotted decimal text. -/
def IsIpv4 (text : String) : Prop :=
  ∃ parts : List (List Char), parts.length = 4 ∧ text.toList = ['.'].intercalate parts ∧
    ∀ p ∈ parts, 0 < p.length ∧ (∀ c ∈ p, c.isDigit = true) ∧
      Nat.ofDigits 10 (p.reverse.map fun c => c.toNat - 48) < 256

/-! ### Groups -/

theorem isHexDigit_ne_colon {c : Char} (h : isHexDigit c = true) : c ≠ ':' := by
  rintro rfl
  revert h
  decide

theorem IsGroup.colon_not_mem {g : List Char} (h : IsGroup g) : ':' ∉ g := fun hmem =>
  isHexDigit_ne_colon (h.digits ':' hmem) (by decide)

theorem isGroup_zero : IsGroup ['0'] := by decide

theorem hexValue_inj {c d : Char} (hc : isHexDigit c = true) (hd : isHexDigit d = true)
    (h : hexValue c = hexValue d) : c = d := by
  rw [← (isHexDigit_spec hc).2.1, ← (isHexDigit_spec hd).2.1, h]

/-- A padded group is four lowercase digits of the same value. -/
theorem IsGroup.padGroup_spec {g : List Char} (h : IsGroup g) : (padGroup g).length = 4 ∧
    (∀ c ∈ padGroup g, isHexDigit c = true) ∧
      Nat.ofDigits 16 ((padGroup g).reverse.map hexValue) = groupValue g := by
  have hshort := h.short
  refine ⟨?_, ?_, ?_⟩
  · rw [padGroup, padStart, List.length_append, List.length_replicate, List.length_map]
    omega
  · intro c hc
    rcases List.mem_append.mp hc with hc | hc
    · rw [List.eq_of_mem_replicate hc]
      decide
    · obtain ⟨d, hd, rfl⟩ := List.mem_map.mp hc
      exact h.digits d hd
  · have hzero : hexValue '0' = 0 := by decide
    rw [padGroup, padStart, List.reverse_append, List.reverse_replicate, List.map_append,
      List.map_replicate, hzero, Nat.ofDigits_append_replicate_zero, ← List.map_reverse,
      List.map_map]
    rfl

theorem IsGroup.groupValue_lt {g : List Char} (h : IsGroup g) : groupValue g < 65536 := by
  have hdigits : ∀ d ∈ g.reverse.map fun c => hexValue c.toLower, d < 16 := by
    intro d hd
    obtain ⟨c, hc, rfl⟩ := List.mem_map.mp hd
    exact (isHexDigit_spec (h.digits c (List.mem_reverse.mp hc))).1
  have hlt := Nat.ofDigits_lt_base_pow_length (by decide : 1 < 16) hdigits
  rw [List.length_map, List.length_reverse] at hlt
  have hpow : 16 ^ g.length ≤ 16 ^ 4 := Nat.pow_le_pow_right (by decide) h.short
  exact hlt.trans_le hpow

/-- Two groups are padded to one text exactly when they have one value. -/
theorem padGroup_eq_iff {g g' : List Char} (h : IsGroup g) (h' : IsGroup g') :
    padGroup g = padGroup g' ↔ groupValue g = groupValue g' := by
  obtain ⟨hlength, hdigits, hvalue⟩ := h.padGroup_spec
  obtain ⟨hlength', hdigits', hvalue'⟩ := h'.padGroup_spec
  constructor
  · intro heq
    rw [← hvalue, ← hvalue', heq]
  · intro heq
    have hlt : ∀ t : List Char, (∀ c ∈ t, isHexDigit c = true) →
        ∀ d ∈ t.reverse.map hexValue, d < 16 := by
      intro t ht d hd
      obtain ⟨c, hc, rfl⟩ := List.mem_map.mp hd
      exact (isHexDigit_spec (ht c (List.mem_reverse.mp hc))).1
    rw [← hvalue, ← hvalue'] at heq
    have hmaps := Nat.ofDigits_inj_of_len_eq (by decide : 1 < 16) (by simp [hlength, hlength'])
      (hlt _ hdigits) (hlt _ hdigits') heq
    rw [List.map_reverse, List.map_reverse, List.reverse_inj] at hmaps
    have hsame := (map_eq_map_iff (f := id) fun c hc d hd =>
      ⟨congrArg hexValue, hexValue_inj (hdigits c hc) (hdigits' d hd)⟩).mpr hmaps
    rwa [List.map_id, List.map_id] at hsame

/-! ### Splitting -/

/-- The split passes over a group. -/
theorem splitDouble_append {g : List Char} (hg : ':' ∉ g) (rest : List Char) :
    splitDouble (g ++ rest) = (splitDouble rest).modifyHead (g ++ ·) := by
  induction g with
  | nil => exact (modifyHead_self _).symm
  | cons c g ih =>
    have hc : c ≠ ':' := fun h => hg (h ▸ List.mem_cons_self)
    have hstep : splitDouble (c :: (g ++ rest)) =
      (splitDouble (g ++ rest)).modifyHead (c :: ·) := by
      rw [splitDouble]
      rintro rest' rfl
      exact absurd rfl hc
    rw [List.cons_append, hstep, ih fun h => hg (List.mem_cons_of_mem _ h),
      List.modifyHead_modifyHead]
    rfl

/-- The split passes over a colon between two groups. -/
theorem splitDouble_colon {g : List Char} (hg : ':' ∉ g) (hpos : 0 < g.length) (rest : List Char) :
    splitDouble (':' :: (g ++ rest)) = (splitDouble (g ++ rest)).modifyHead (':' :: ·) := by
  cases g with
  | nil => cases hpos
  | cons c g =>
    have hc : c ≠ ':' := fun h => hg (h ▸ List.mem_cons_self)
    rw [List.cons_append, splitDouble]
    intro rest' _ heq
    exact hc (List.cons.inj heq).1

theorem splitDouble_groups {groups : List (List Char)} (h : ∀ g ∈ groups, IsGroup g)
    (rest : List Char) : splitDouble ([':'].intercalate groups ++ rest) =
      (splitDouble rest).modifyHead ([':'].intercalate groups ++ ·) := by
  induction groups with
  | nil => exact (modifyHead_self _).symm
  | cons g groups ih =>
    have hg := h g List.mem_cons_self
    cases groups with
    | nil =>
      have hone : [':'].intercalate [g] = g := by simp [List.intercalate]
      rw [hone]
      exact splitDouble_append hg.colon_not_mem rest
    | cons g' groups =>
      have hcons : [':'].intercalate (g :: g' :: groups) =
          g ++ ':' :: [':'].intercalate (g' :: groups) := by
        rw [List.intercalate_cons_cons, List.append_assoc, List.singleton_append]
      have hbegins : ∃ more, [':'].intercalate (g' :: groups) = g' ++ more := by
        cases groups with
        | nil => exact ⟨[], by simp [List.intercalate]⟩
        | cons g'' groups => exact ⟨_, by simp [List.intercalate]; rfl⟩
      obtain ⟨more, hmore⟩ := hbegins
      have hg' := h g' (by simp)
      have hcolon : splitDouble (':' :: ([':'].intercalate (g' :: groups) ++ rest)) =
          (splitDouble ([':'].intercalate (g' :: groups) ++ rest)).modifyHead (':' :: ·) := by
        rw [hmore, List.append_assoc]
        exact splitDouble_colon hg'.colon_not_mem hg'.pos _
      rw [hcons, List.append_assoc, List.cons_append, splitDouble_append hg.colon_not_mem, hcolon,
        ih fun x hx => h x (List.mem_cons_of_mem _ hx), List.modifyHead_modifyHead,
        List.modifyHead_modifyHead]
      congr 1
      funext part
      simp

theorem groupsOf_intercalate {groups : List (List Char)} (h : ∀ g ∈ groups, IsGroup g) :
    groupsOf ([':'].intercalate groups) = groups := by
  cases groups with
  | nil => rfl
  | cons g groups =>
    have hpos : ([':'].intercalate (g :: groups)).length > 0 := by
      have hg := (h g List.mem_cons_self).pos
      cases groups with
      | nil => simpa [List.intercalate] using hg
      | cons g' groups =>
        simp only [List.intercalate, List.intersperse, List.flatten_cons, List.length_append]
        omega
    rw [groupsOf, if_pos hpos]
    exact List.splitOn_intercalate ':' (fun x hx => (h x hx).colon_not_mem) (by simp)

/-! ### The key -/

/-- The key of eight groups. -/
def prefixKey (groups : List (List Char)) : String :=
  String.ofList ([':'].intercalate ((groups.take 4).map padGroup) ++ "::/64".toList)

/-- The key of a text from the groups on the two sides of its split. -/
theorem ipKey_of_split {text : String} {before after : List (List Char)}
    (hbefore : ∀ g ∈ before, IsGroup g) (hafter : ∀ g ∈ after, IsGroup g)
    (hcolon : ':' ∈ text.toList)
    (hhead : (splitDouble text.toList).headD [] = [':'].intercalate before)
    (htail : (splitDouble text.toList)[1]?.getD [] = [':'].intercalate after) :
    ipKey (some text) =
      prefixKey (before ++ List.replicate (8 - before.length - after.length) ['0'] ++ after) := by
  have hcontains : text.toList.contains ':' = true := List.contains_iff_mem.mpr hcolon
  unfold ipKey prefixKey
  simp only [Option.getD_some, hcontains, Bool.not_true, Bool.false_eq_true, if_false, hhead,
    htail, groupsOf_intercalate hbefore, groupsOf_intercalate hafter]

/-- A text that denotes an address has the key of eight groups with the values it denotes. -/
theorem Denotes.key {text : String} {values : List ℕ} (h : Denotes text values) :
    ∃ groups : List (List Char), (∀ g ∈ groups, IsGroup g) ∧ groups.length = 8 ∧
      groups.map groupValue = values ∧ ipKey (some text) = prefixKey groups := by
  cases h with
  | full groups hgroups hlength htext =>
    refine ⟨groups, hgroups, hlength, rfl, ?_⟩
    have hsplit : splitDouble text.toList = [text.toList] := by
      have hgroups' := splitDouble_groups hgroups []
      rw [List.append_nil] at hgroups'
      rw [htext, hgroups', splitDouble, List.modifyHead_cons, List.append_nil]
    have hcolon : ':' ∈ text.toList := by
      match groups, hlength with
      | g :: g' :: groups, _ => simp [htext, List.intercalate]
    have hnone : ∀ g ∈ ([] : List (List Char)), IsGroup g := by simp
    have hkey := ipKey_of_split hgroups hnone hcolon (by rw [hsplit]; exact htext)
      (by rw [hsplit]; rfl)
    simpa [hlength] using hkey
  | compressed before after hbefore hafter hlength htext =>
    refine ⟨before ++ List.replicate (8 - before.length - after.length) ['0'] ++ after, ?_, ?_, ?_,
      ?_⟩
    · intro g hg
      rcases List.mem_append.mp hg with hg | hg
      · rcases List.mem_append.mp hg with hg | hg
        · exact hbefore g hg
        · rw [List.eq_of_mem_replicate hg]
          exact isGroup_zero
      · exact hafter g hg
    · simp only [List.length_append, List.length_replicate]
      omega
    · have hzero : groupValue ['0'] = 0 := by decide
      rw [List.map_append, List.map_append, List.map_replicate, hzero]
    · have hsplit : splitDouble text.toList =
          [[':'].intercalate before, [':'].intercalate after] := by
        have hafter' := splitDouble_groups hafter []
        rw [List.append_nil] at hafter'
        rw [htext, splitDouble_groups hbefore, splitDouble, hafter', splitDouble,
          List.modifyHead_cons, List.modifyHead_cons, List.append_nil, List.append_nil]
      have hcolon : ':' ∈ text.toList := by
        rw [htext]
        simp
      exact ipKey_of_split hbefore hafter hcolon (by rw [hsplit]; rfl) (by rw [hsplit]; rfl)

/-- Eight groups have one key with others exactly when their first four have the same values. -/
theorem prefixKey_eq_iff {groups groups' : List (List Char)} (h : ∀ g ∈ groups, IsGroup g)
    (h' : ∀ g ∈ groups', IsGroup g) (hlength : groups.length = 8) (hlength' : groups'.length = 8) :
    prefixKey groups = prefixKey groups' ↔
      (groups.map groupValue).take 4 = (groups'.map groupValue).take 4 := by
  have hcolon : ∀ gs : List (List Char), (∀ g ∈ gs, IsGroup g) →
      ∀ t ∈ (gs.take 4).map padGroup, ':' ∉ t := by
    intro gs hgs t ht hmem
    obtain ⟨g, hg, rfl⟩ := List.mem_map.mp ht
    have hdigit := (hgs g (List.mem_of_mem_take hg)).padGroup_spec.2.1 ':' hmem
    exact isHexDigit_ne_colon hdigit rfl
  have hne : ∀ gs : List (List Char), gs.length = 8 → (gs.take 4).map padGroup ≠ [] := by
    intro gs hgs hnil
    have hzero := congrArg List.length hnil
    simp [hgs] at hzero
  rw [← List.map_take, ← List.map_take, ← map_eq_map_iff fun g hg g' hg' =>
    padGroup_eq_iff (h g (List.mem_of_mem_take hg)) (h' g' (List.mem_of_mem_take hg'))]
  constructor
  · intro heq
    have hjoin := List.append_cancel_right (String.ofList_injective heq)
    rw [← List.splitOn_intercalate ':' (hcolon groups h) (hne groups hlength), hjoin,
      List.splitOn_intercalate ':' (hcolon groups' h') (hne groups' hlength')]
  · intro heq
    rw [prefixKey, prefixKey, heq]

/-! ### The upper half of an address -/

/-- The upper 64 bits of an address are its first four groups. -/
theorem address_div {values : List ℕ} (hlength : values.length = 8)
    (hlt : ∀ v ∈ values, v < 65536) : address values / 2 ^ 64 = address (values.take 4) := by
  have hlow :=
    Nat.ofDigits_lt_base_pow_length (by decide : 1 < 65536) (l := (values.drop 4).reverse)
    fun v hv => hlt v (List.mem_of_mem_drop (List.mem_reverse.mp hv))
  have hdrop : (values.drop 4).reverse.length = 4 := by simp [hlength]
  have hsplit : address values = Nat.ofDigits 65536 (values.drop 4).reverse +
      2 ^ 64 * address (values.take 4) := by
    rw [address, ← List.take_append_drop 4 values, List.reverse_append, Nat.ofDigits_append,
      List.take_append_drop, hdrop]
    rfl
  rw [hdrop] at hlow
  rw [hsplit, Nat.add_mul_div_left _ _ (by decide), Nat.div_eq_of_lt (by omega), zero_add]

theorem address_inj {values values' : List ℕ} (hlength : values.length = values'.length)
    (hlt : ∀ v ∈ values, v < 65536) (hlt' : ∀ v ∈ values', v < 65536) :
    address values = address values' ↔ values = values' := by
  refine ⟨fun h => ?_, congrArg address⟩
  have hreverse := Nat.ofDigits_inj_of_len_eq (by decide : 1 < 65536) (by simpa using hlength)
    (fun v hv => hlt v (List.mem_reverse.mp hv)) (fun v hv => hlt' v (List.mem_reverse.mp hv)) h
  exact List.reverse_inj.mp hreverse

theorem IsIpv4.colon_not_mem {text : String} (h : IsIpv4 text) : ':' ∉ text.toList := by
  obtain ⟨parts, -, htext, hparts⟩ := h
  intro hmem
  rw [htext] at hmem
  rcases mem_intercalate hmem with hdot | ⟨part, hpart, hcolon⟩
  · revert hdot
    decide
  · have hdigit := (hparts part hpart).2.1 ':' hcolon
    revert hdigit
    decide

/-- Texts of IPv6 addresses have one key exactly when the addresses agree in their upper 64 bits,
and none has the key of an IPv4 address. -/
theorem ipKey_eq_iff {a b : String} {x y : List ℕ} (ha : Denotes a x) (hb : Denotes b y) :
    (ipKey (some a) = ipKey (some b) ↔ address x / 2 ^ 64 = address y / 2 ^ 64) ∧
      ∀ v4, IsIpv4 v4 → ipKey (some a) ≠ ipKey (some v4) := by
  obtain ⟨groups, hgroups, hlength, rfl, hkey⟩ := ha.key
  obtain ⟨groups', hgroups', hlength', rfl, hkey'⟩ := hb.key
  have hlt : ∀ gs : List (List Char), (∀ g ∈ gs, IsGroup g) →
      ∀ v ∈ gs.map groupValue, v < 65536 := by
    intro gs hgs v hv
    obtain ⟨g, hg, rfl⟩ := List.mem_map.mp hv
    exact (hgs g hg).groupValue_lt
  constructor
  · rw [hkey, hkey', prefixKey_eq_iff hgroups hgroups' hlength hlength',
      address_div (by simpa using hlength) (hlt _ hgroups),
      address_div (by simpa using hlength') (hlt _ hgroups'),
      address_inj (by simp [hlength, hlength'])
        (fun v hv => hlt _ hgroups v (List.mem_of_mem_take hv))
        (fun v hv => hlt _ hgroups' v (List.mem_of_mem_take hv))]
  · intro v4 hv4 heq
    have hcontains : v4.toList.contains ':' = false := by
      simpa using hv4.colon_not_mem
    have hself : ipKey (some v4) = v4 := by
      unfold ipKey
      simp only [Option.getD_some, hcontains, Bool.not_false, if_true]
    have hmem : ':' ∈ (prefixKey groups).toList := by simp [prefixKey]
    rw [← hkey, heq, hself] at hmem
    exact hv4.colon_not_mem hmem

namespace Sample

theorem denotes_compressed : Denotes "2001:DB8::1" [0x2001, 0xDB8, 0, 0, 0, 0, 0, 1] :=
  .compressed [['2', '0', '0', '1'], ['D', 'B', '8']] [['1']] (by decide)
    (by decide) (by decide) (by decide)

theorem denotes_full : Denotes "2001:0db8:0:00:000:0:5:A" [0x2001, 0xDB8, 0, 0, 0, 0, 5, 10] :=
  .full [['2', '0', '0', '1'], ['0', 'd', 'b', '8'], ['0'], ['0', '0'], ['0', '0', '0'], ['0'],
    ['5'], ['A']] (by decide) (by decide) (by decide)

theorem ipKey_eq_iff_sample :
    (ipKey (some "2001:DB8::1") = ipKey (some "2001:0db8:0:00:000:0:5:A") ↔
      address [0x2001, 0xDB8, 0, 0, 0, 0, 0, 1] / 2 ^ 64 =
        address [0x2001, 0xDB8, 0, 0, 0, 0, 5, 10] / 2 ^ 64) ∧
      ∀ v4, IsIpv4 v4 → ipKey (some "2001:DB8::1") ≠ ipKey (some v4) :=
  ipKey_eq_iff denotes_compressed denotes_full

end Sample

end TinyOidc.Router
