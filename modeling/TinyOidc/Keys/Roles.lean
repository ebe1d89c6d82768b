import TinyOidc.Keys.Retirement
import TinyOidc.Lib.Lists

/-! The roles of the signing keys as a partition of the rows: what `deriveRoles` splits, what
`rolesByKid` reports, and the tie at the latest activation on which the two part. -/
namespace TinyOidc.Keys
open RowTable
open Lists (foldl_isSome lookup_eq_of_mem)

/-- The pairs the map is built from. -/
def rolesByKid (rows : List SigningKeyRow) (now : ℤ) : List (String × KeyRole) :=
  let signingAt := (deriveRoles rows now).signing.map (·.activatesAt)
  rows.map fun row => (row.kid, roleOf row now signingAt)

/-- What the map gives for a kid: a later pair replaces an earlier one. -/
def roleByKid (rows : List SigningKeyRow) (now : ℤ) (kid : String) : Option KeyRole :=
  (rolesByKid rows now).reverse.lookup kid

def KeyRoles.part (roles : KeyRoles) : KeyRole → List SigningKeyRow
  | .signing => roles.signing.toList
  | .next => roles.next
  | .verifying => roles.verifying
  | .retired => roles.retired

/-- The parts hold each row once, the map agrees with them, and every active row that does not
sign waits for its retirement. -/
structure RolesPartition (rows : List SigningKeyRow) (now : ℤ) : Prop where
  once : ∀ row ∈ rows, ∃ role, roleByKid rows now row.kid = some role ∧
    ∀ part, ((deriveRoles rows now).part part).count row = if part = role then 1 else 0
  signing : (rolesByKid rows now).countP (·.2 == .signing) =
    if rows.any (isActive now) then 1 else 0
  verifying : ∀ row ∈ rows, isActive now row = true → (deriveRoles rows now).signing ≠ some row →
    roleByKid rows now row.kid = some .verifying ∧ row ∈ (deriveRoles rows now).verifying ∧
      ∃ k, (deriveRoles rows now).signing = some k ∧ ∀ later retireAfter,
        retireAfter ≤ later - k.activatesAt →
          row ∈ retirable (deriveRoles rows now) later retireAfter

def OneLatest (rows : List SigningKeyRow) (now : ℤ) : Prop :=
  ∀ r ∈ rows, ∀ r' ∈ rows, isActive now r = true → isActive now r' = true →
    (∀ x ∈ rows, isActive now x = true → x.activatesAt ≤ r.activatesAt) →
      r'.activatesAt = r.activatesAt → r' = r

instance (rows : List SigningKeyRow) (now : ℤ) : Decidable (OneLatest rows now) :=
  inferInstanceAs (Decidable (∀ r ∈ rows, _))

variable {rows : List SigningKeyRow} {now : ℤ}

theorem isActive_iff {r : SigningKeyRow} :
    isActive now r = true ↔ r.retiredAt = none ∧ r.activatesAt ≤ now := by
  simp [isActive]

theorem signing_isSome : (deriveRoles rows now).signing.isSome = rows.any (isActive now) := by
  show (signingRow (rows.filter (isActive now))).isSome = _
  refine (foldl_isSome ?_ (rows.filter (isActive now)) none).trans ?_
  · intro best r
    cases best with
    | none => rfl
    | some b => by_cases hsup : supersedes r b <;> simp [hsup]
  · rw [Option.isSome_none, Bool.false_or, Bool.eq_iff_iff]
    simp

def roleIn (rows : List SigningKeyRow) (now : ℤ) (row : SigningKeyRow) : KeyRole :=
  roleOf row now ((deriveRoles rows now).signing.map (·.activatesAt))

theorem mem_part {role : KeyRole} (hrole : role ≠ .signing) (row : SigningKeyRow) :
    row ∈ (deriveRoles rows now).part role ↔ row ∈ rows ∧ roleIn rows now row = role := by
  cases role with
  | signing => exact absurd rfl hrole
  | next => simp [KeyRoles.part, deriveRoles, roleIn]
  | verifying => simp [KeyRoles.part, deriveRoles, roleIn]
  | retired => simp [KeyRoles.part, deriveRoles, roleIn]

theorem part_nodup (hrows : rows.Nodup) (role : KeyRole) :
    ((deriveRoles rows now).part role).Nodup := by
  cases role with
  | signing => exact (deriveRoles rows now).signing.toList_nodup
  | next => exact hrows.filter _
  | verifying => exact hrows.filter _
  | retired => exact hrows.filter _

/-- With distinct kids the map gives each row its own role. -/
theorem roleByKid_of_mem (hkids : (rows.map (·.kid)).Nodup) {row : SigningKeyRow}
    (hrow : row ∈ rows) : roleByKid rows now row.kid = some (roleIn rows now row) := by
  apply lookup_eq_of_mem
  · rw [List.map_reverse, List.nodup_reverse, rolesByKid, List.map_map]
    exact hkids
  · rw [List.mem_reverse]
    exact List.mem_map_of_mem hrow

theorem countP_signing :
    (rolesByKid rows now).countP (·.2 == .signing) =
      rows.countP fun row => roleIn rows now row == .signing := by
  rw [rolesByKid, List.countP_map]
  rfl

/-- An active row that activated as late as the signing one is shown as signing, another active
one as verifying. -/
theorem roleIn_of_active {k row : SigningKeyRow} (hk : (deriveRoles rows now).signing = some k)
    (hactive : isActive now row = true) : roleIn rows now row =
      if row.activatesAt < k.activatesAt then .verifying else .signing := by
  obtain ⟨hlive, hat⟩ := isActive_iff.mp hactive
  simp [roleIn, roleOf, hk, hlive, not_lt.mpr hat]

theorem roleIn_of_inactive (rows : List SigningKeyRow) {row : SigningKeyRow}
    (hactive : isActive now row = false) : roleIn rows now row = .retired ∨
      roleIn rows now row = .next := by
  unfold roleIn roleOf
  split
  · exact .inl rfl
  · next hlive =>
    have hlate : now < row.activatesAt := by
      by_contra hle
      have hrow : isActive now row = true :=
        isActive_iff.mpr ⟨by simpa using hlive, not_lt.mp hle⟩
      rw [hrow] at hactive
      cases hactive
    rw [if_pos hlate]
    exact .inr rfl

/-- Where no two active rows share the latest activation, the signing row is the only one with
the role. -/
theorem roleIn_signing_iff (h : OneLatest rows now) {row : SigningKeyRow} (hrow : row ∈ rows) :
    roleIn rows now row = .signing ↔ (deriveRoles rows now).signing = some row := by
  constructor
  · intro hrole
    cases hactive : isActive now row with
    | false =>
      rcases roleIn_of_inactive rows hactive with heq | heq
      · rw [heq] at hrole
        cases hrole
      · rw [heq] at hrole
        cases hrole
    | true =>
      have hsome : (deriveRoles rows now).signing.isSome := by
        rw [signing_isSome, List.any_eq_true]
        exact ⟨row, hrow, hactive⟩
      obtain ⟨k, hk⟩ := Option.isSome_iff_exists.mp hsome
      rw [roleIn_of_active hk hactive] at hrole
      obtain ⟨hmem, hlive, hat, hmax⟩ := signing_spec hk
      have hle := hmax row hrow (isActive_iff.mp hactive).1 (isActive_iff.mp hactive).2
      have hsame : row.activatesAt = k.activatesAt := by
        by_contra hne
        rw [if_pos (by omega)] at hrole
        cases hrole
      rw [hk, h k hmem row hrow (isActive_iff.mpr ⟨hlive, hat⟩) hactive
        (fun x hx hxa => hmax x hx (isActive_iff.mp hxa).1 (isActive_iff.mp hxa).2) hsame]
  · intro hk
    obtain ⟨-, hlive, hat, -⟩ := signing_spec hk
    rw [roleIn_of_active hk (isActive_iff.mpr ⟨hlive, hat⟩)]
    simp

theorem partition_of_oneLatest (hkids : (rows.map (·.kid)).Nodup) (h : OneLatest rows now) :
    RolesPartition rows now where
  once row hrow := by
    refine ⟨roleIn rows now row, roleByKid_of_mem hkids hrow, fun part => ?_⟩
    rw [(part_nodup (List.Nodup.of_map _ hkids) part).count]
    have hmem : row ∈ (deriveRoles rows now).part part ↔ part = roleIn rows now row := by
      by_cases hpart : part = .signing
      · subst hpart
        rw [eq_comm, roleIn_signing_iff h hrow]
        exact Option.mem_toList
      · rw [mem_part hpart]
        exact ⟨fun hr => hr.2.symm, fun heq => ⟨hrow, heq.symm⟩⟩
    simp only [hmem]
  signing := by
    rw [countP_signing, ← signing_isSome]
    have hcount : rows.countP (fun row => roleIn rows now row == .signing) =
        rows.countP fun row => (deriveRoles rows now).signing == some row := by
      apply List.countP_congr
      intro row hrow
      rw [beq_iff_eq, beq_iff_eq]
      exact roleIn_signing_iff h hrow
    rw [hcount]
    cases hk : (deriveRoles rows now).signing with
    | none => simp
    | some k =>
      have hone := List.count_eq_one_of_mem (List.Nodup.of_map _ hkids) (signing_spec hk).1
      rw [List.count_eq_countP] at hone
      simpa [eq_comm, BEq.comm] using hone
  verifying row hrow hactive hother := by
    have hsome : (deriveRoles rows now).signing.isSome := by
      rw [signing_isSome, List.any_eq_true]
      exact ⟨row, hrow, hactive⟩
    obtain ⟨k, hk⟩ := Option.isSome_iff_exists.mp hsome
    have hrole : roleIn rows now row = .verifying := by
      have hnot := mt (roleIn_signing_iff h hrow).mp hother
      rw [roleIn_of_active hk hactive] at hnot ⊢
      split at hnot
      · next hlt => rw [if_pos hlt]
      · exact absurd rfl hnot
    have hverifying : row ∈ (deriveRoles rows now).verifying :=
      (mem_part (by decide : KeyRole.verifying ≠ .signing) row).mpr ⟨hrow, hrole⟩
    refine ⟨(roleByKid_of_mem hkids hrow).trans (congrArg some hrole), hverifying, k, hk, ?_⟩
    intro later retireAfter hlong
    rw [retirable, hk, Option.any_some, if_pos (decide_eq_true hlong)]
    exact hverifying

/-- With distinct kids the roles partition the rows exactly when no two active rows share the
latest activation: of two that do, one is in no part, shown as signing and never retired. -/
theorem rolesPartition_iff (hkids : (rows.map (·.kid)).Nodup) :
    RolesPartition rows now ↔ OneLatest rows now := by
  refine ⟨?_, partition_of_oneLatest hkids⟩
  intro h r hr r' hr' hactive hactive' hlatest hsame
  have hsigns : ∀ x ∈ rows, isActive now x = true → x.activatesAt = r.activatesAt →
      (deriveRoles rows now).signing = some x := by
    intro x hx hxa hxat
    by_contra hother
    obtain ⟨-, hverifying, -⟩ := h.verifying x hx hxa hother
    obtain ⟨-, k, hk, hlt⟩ := mem_verifying hverifying
    obtain ⟨hmem, hlive, hat, -⟩ := signing_spec hk
    have hle := hlatest k hmem (isActive_iff.mpr ⟨hlive, hat⟩)
    omega
  exact Option.some.inj ((hsigns r' hr' hactive' hsame).symm.trans (hsigns r hr hactive rfl))

namespace Sample

/-- A retired key, one that verifies, the one that signs, and the next. -/
def oneOfEach : KeyTable :=
  ⟨[{ newRow (sampleKey "a") 100 100 with privateJwkEnc := none, retiredAt := some 350 },
    newRow (sampleKey "b") 200 150, newRow (sampleKey "c") 300 250,
    newRow (sampleKey "d") 500 400], by decide⟩

theorem rolesPartition_oneOfEach : RolesPartition oneOfEach.rows 400 ∧
    rolesByKid oneOfEach.rows 400 =
      [("a", .retired), ("b", .verifying), ("c", .signing), ("d", .next)] :=
  ⟨(rolesPartition_iff oneOfEach.nodup).mpr (by decide), by decide⟩

/-- The table after one rotation at 100 of a store with no key. -/
def rotatedOnce : KeyTable := ⟨[newRow (sampleKey "a") 100 100], by decide⟩

/-- The two keys after an immediate rotation in the same second. -/
def rotatedTwice : KeyTable :=
  ⟨[newRow (sampleKey "a") 100 100, newRow (sampleKey "b") 100 100], by decide⟩

/-- Two immediate rotations in one second: the first key is in no part, and the map shows two
signing keys. -/
theorem rotatedTwice_not_partition :
    rotateSigningKey rotatedOnce (sampleKey "b") 100 86400 true = some rotatedTwice ∧
      ¬ (∀ (rows : List SigningKeyRow) (now : ℤ), (rows.map (·.kid)).Nodup →
        RolesPartition rows now) ∧
      rolesByKid rotatedTwice.rows 100 = [("a", .signing), ("b", .signing)] ∧
      ∀ part, ((deriveRoles rotatedTwice.rows 100).part part).map (·.kid) =
        if part = .signing then ["b"] else [] := by
  refine ⟨rfl, ?_, by decide, fun part => by cases part <;> decide⟩
  intro hall
  have hone := (hall rotatedTwice.rows 100 rotatedTwice.nodup).signing
  revert hone
  decide

end Sample

end TinyOidc.Keys
