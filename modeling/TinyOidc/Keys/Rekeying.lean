import TinyOidc.Federation.Upstreams
import TinyOidc.Keys.Retirement
import TinyOidc.Lib.Worklist

/-! Sealing the private signing keys again under the active master key (`rekeySigningKeys` of
`src/crypto/keystore.ts`): what repeated calls come to. Rows that do not open stay in the list that
each call takes its rows from. -/
namespace TinyOidc.Crypto
open TinyOidc.User (Bytes)
open TinyOidc.Federation (isStaleBlob)

variable {cipher : Cipher} {keys : DerivedKeys} {blob : Option Bytes}

def opens (cipher : Cipher) (keys : DerivedKeys) (blob : Option Bytes) : Bool :=
  (blob.bind (openSecret cipher keys)).isSome

/-- What rekeying should make of a blob: one under the active version with the same plaintext, and
nothing of one that does not open. -/
def BlobRekeyed (cipher : Cipher) (keys : DerivedKeys) (blob blob' : Option Bytes) : Prop :=
  match blob.bind (openSecret cipher keys) with
  | some plaintext => ∃ b, blob' = some b ∧ sealedUnderVersion b = some keys.active ∧
      openSecret cipher keys b = some plaintext
  | none => blob' = blob

theorem isStaleBlob_sealSecret (nonce : Nonce) (plaintext : Bytes) :
    isStaleBlob keys (some (sealSecret cipher keys nonce plaintext)) = false := by
  simp [isStaleBlob, sealedUnderVersion_sealSecret]

theorem blobRekeyed_sealSecret {plaintext : Bytes} (nonce : Nonce)
    (h : blob.bind (openSecret cipher keys) = some plaintext) :
    BlobRekeyed cipher keys blob (some (sealSecret cipher keys nonce plaintext)) := by
  rw [BlobRekeyed, h]
  exact ⟨_, rfl, sealedUnderVersion_sealSecret cipher keys nonce plaintext,
    openSecret_sealSecret cipher keys nonce plaintext⟩

theorem BlobRekeyed.fresh {blob' : Option Bytes} (h : BlobRekeyed cipher keys blob blob') :
    (isStaleBlob keys blob' && opens cipher keys blob') = false := by
  unfold BlobRekeyed at h
  cases hopen : blob.bind (openSecret cipher keys) with
  | some plaintext =>
    rw [hopen] at h
    obtain ⟨b, rfl, hactive, -⟩ := h
    simp [isStaleBlob, hactive]
  | none =>
    rw [hopen] at h
    cases h
    simp [opens, hopen]

/-- A blob may stay as it is when it is under the active version or does not open. -/
theorem blobRekeyed_self_iff : BlobRekeyed cipher keys blob blob ↔
    (isStaleBlob keys blob && opens cipher keys blob) = false := by
  refine ⟨BlobRekeyed.fresh, fun h => ?_⟩
  unfold BlobRekeyed
  cases hopen : blob.bind (openSecret cipher keys) with
  | none => rfl
  | some plaintext =>
    obtain ⟨b, rfl, hb⟩ := Option.bind_eq_some_iff.mp hopen
    have hactive : sealedUnderVersion b = some keys.active := by
      simpa [isStaleBlob, opens, hb] using h
    exact ⟨b, rfl, hactive, hb⟩

end TinyOidc.Crypto

namespace TinyOidc.Keys
open RowTable TinyOidc.Crypto Worklist
open TinyOidc.User (Bytes)
open TinyOidc.Federation (isStaleBlob)

/-- `UPDATE signing_keys SET private_jwk_enc = ? WHERE kid = ? AND retired_at IS NULL`. -/
def updatePrivateJwkEnc (t : KeyTable) (kid : String) (enc : Bytes) : KeyTable :=
  t.updateWhere (fun r => r.kid == kid && r.retiredAt.isNone)
    (fun r => { r with privateJwkEnc := some enc }) fun _ => rfl

structure KeyRekey where
  rekeyed : List String
  unrecoverable : List String
  remaining : ℕ
  deriving DecidableEq, Repr

section Rekey
variable (cipher : Cipher) (keys : DerivedKeys)

def rekeyRow (nonces : String → Nonce) (state : KeyTable × KeyRekey) (row : SigningKeyRow) :
    KeyTable × KeyRekey :=
  let (t, report) := state
  match row.privateJwkEnc.bind (openSecret cipher keys) with
  | none => (t, { report with unrecoverable := report.unrecoverable ++ [row.kid] })
  | some plaintext =>
      (updatePrivateJwkEnc t row.kid (sealSecret cipher keys (nonces row.kid) plaintext),
        { report with rekeyed := report.rekeyed ++ [row.kid] })

def staleKeys (t : KeyTable) : List SigningKeyRow :=
  (listSigningKeys t).filter fun r => isStaleBlob keys r.privateJwkEnc

/-- Seals the first `limit` stale rows again. -/
def rekeySigningKeys (nonces : String → Nonce) (t : KeyTable) (limit : ℕ) : KeyTable × KeyRekey :=
  let rows := staleKeys keys t
  (rows.take limit).foldl (rekeyRow cipher keys nonces) (t, ⟨[], [], rows.length - limit⟩)

def keysAfter (nonces : ℕ → String → Nonce) (t : KeyTable) (limit : ℕ) : ℕ → KeyTable
  | 0 => t
  | n + 1 => (rekeySigningKeys cipher keys (nonces n) (keysAfter nonces t limit n) limit).1

/-! ### What rekeying is for -/

def KeyRekeyed (r r' : SigningKeyRow) : Prop :=
  r' = { r with privateJwkEnc := r'.privateJwkEnc } ∧
    BlobRekeyed cipher keys r.privateJwkEnc r'.privateJwkEnc

/-- Every key is as rekeying should leave it, and the report counts the openable ones still to
do. -/
structure KeysRekeyed (t t' : KeyTable) (report : KeyRekey) : Prop where
  rows : List.Forall₂ (KeyRekeyed cipher keys) (listSigningKeys t) (listSigningKeys t')
  remaining : report.remaining =
    (staleKeys keys t').countP fun r => opens cipher keys r.privateJwkEnc

/-- A row that the loop leaves as it is: it does not open, or the update passes it over. -/
def isStuckKey (r : SigningKeyRow) : Bool :=
  r.retiredAt.isSome || !opens cipher keys r.privateJwkEnc

/-- Every row that can be sealed again has fewer than `limit` stuck ones before it, no more than
`limit` are stuck, and none of them opens. -/
structure KeysInReach (t : KeyTable) (limit : ℕ) : Prop where
  inReach : InReach (isStuckKey cipher keys) limit (staleKeys keys t)
  stuck : (staleKeys keys t).countP (isStuckKey cipher keys) ≤ limit
  closed : ∀ r ∈ staleKeys keys t, isStuckKey cipher keys r = true →
    opens cipher keys r.privateJwkEnc = false

end Rekey

/-! ### One call -/

section Calls
variable {cipher : Cipher} {keys : DerivedKeys}

def resealedRow (cipher : Cipher) (keys : DerivedKeys) (nonces : String → Nonce)
    (r : SigningKeyRow) : SigningKeyRow :=
  match r.privateJwkEnc.bind (openSecret cipher keys) with
  | none => r
  | some plaintext =>
      if r.retiredAt.isSome then r
      else { r with privateJwkEnc := some (sealSecret cipher keys (nonces r.kid) plaintext) }

theorem resealedRow_columns (cipher : Cipher) (keys : DerivedKeys) (nonces : String → Nonce)
    (r : SigningKeyRow) :
    ∃ enc, resealedRow cipher keys nonces r = { r with privateJwkEnc := enc } := by
  unfold resealedRow
  split
  · exact ⟨_, rfl⟩
  · split
    · exact ⟨_, rfl⟩
    · exact ⟨_, rfl⟩

theorem resealedRow_kid (nonces : String → Nonce) (r : SigningKeyRow) :
    (resealedRow cipher keys nonces r).kid = r.kid := by
  obtain ⟨enc, henc⟩ := resealedRow_columns cipher keys nonces r
  rw [henc]

theorem rekeyRow_rows (cipher : Cipher) (keys : DerivedKeys) (nonces : String → Nonce)
    {t : KeyTable}
    (report : KeyRekey) {row : SigningKeyRow} (hrow : row ∈ t.rows) :
    (rekeyRow cipher keys nonces (t, report) row).1.rows =
      t.rows.map fun r => if r = row then resealedRow cipher keys nonces r else r := by
  unfold rekeyRow
  cases hopen : row.privateJwkEnc.bind (openSecret cipher keys) with
  | none =>
    have hsame : ∀ r ∈ t.rows, (if r = row then resealedRow cipher keys nonces r else r) = r := by
      intro r _
      split
      · next heq =>
        subst heq
        simp only [resealedRow, hopen]
      · rfl
    exact ((List.map_congr_left hsame).trans (List.map_id _)).symm
  | some plaintext =>
    apply List.map_congr_left
    intro r hr
    by_cases heq : r = row
    · subst heq
      cases hretired : r.retiredAt with
      | none => simp [resealedRow, hopen, hretired]
      | some at_ => simp [resealedRow, hopen, hretired]
    · have hkid : r.kid ≠ row.kid := fun hkid => heq (Table.eq_of_key_eq hr hrow hkid)
      simp [heq, hkid]

theorem foldl_rekeyRow_remaining (nonces : String → Nonce) (rows : List SigningKeyRow)
    (state : KeyTable × KeyRekey) :
    (rows.foldl (rekeyRow cipher keys nonces) state).2.remaining = state.2.remaining := by
  induction rows generalizing state with
  | nil => rfl
  | cons row rows ih =>
    rw [List.foldl_cons, ih]
    cases hopen : row.privateJwkEnc.bind (openSecret cipher keys) with
    | none => simp only [rekeyRow, hopen]
    | some plaintext => simp only [rekeyRow, hopen]

theorem foldl_rekeyRow_rows (cipher : Cipher) (keys : DerivedKeys) (nonces : String → Nonce)
    {rows : List SigningKeyRow} (hnodup : rows.Nodup) {t : KeyTable}
    (hrows : ∀ r ∈ rows, r ∈ t.rows) (report : KeyRekey) :
    (rows.foldl (rekeyRow cipher keys nonces) (t, report)).1.rows =
      t.rows.map fun r => if r ∈ rows then resealedRow cipher keys nonces r else r := by
  induction rows generalizing t report with
  | nil => simp
  | cons row rows ih =>
    obtain ⟨hnew, hnodup⟩ := List.nodup_cons.mp hnodup
    have hrow := hrows row List.mem_cons_self
    have hrest : ∀ r ∈ rows, r ∈ t.rows := fun r hr => hrows r (List.mem_cons_of_mem _ hr)
    obtain ⟨t', report', hstep⟩ : ∃ t' report',
        rekeyRow cipher keys nonces (t, report) row = (t', report') := ⟨_, _, rfl⟩
    have hfirst : t'.rows =
        t.rows.map fun r => if r = row then resealedRow cipher keys nonces row else r := by
      have hassigned := rekeyRow_rows cipher keys nonces report hrow
      rw [hstep] at hassigned
      rw [show t'.rows = _ from hassigned]
      apply List.map_congr_left
      intro r _
      split
      · next heq => rw [heq]
      · rfl
    rw [List.foldl_cons, hstep, ih hnodup (fun r hr => hfirst ▸ mem_assigned hnew hrest hr), hfirst,
      map_assigned hrow (resealedRow_kid nonces row) hnew hrest]
    apply List.map_congr_left
    intro r _
    by_cases heq : r = row
    · simp [heq]
    · simp [heq]

/-- The rows that a call takes its part of are rows of the table, each once. -/
theorem staleKeys_take (keys : DerivedKeys) (t : KeyTable) (limit : ℕ) :
    ((staleKeys keys t).take limit).Nodup ∧
      ∀ r ∈ (staleKeys keys t).take limit, r ∈ t.rows := by
  have hperm : (listSigningKeys t).Perm t.rows := List.perm_insertionSort rowLe t.rows
  have hnodup : (listSigningKeys t).Nodup := hperm.nodup_iff.mpr (List.Nodup.of_map _ t.nodup)
  refine ⟨(hnodup.filter _).sublist (List.take_sublist _ _), fun r hr => ?_⟩
  exact mem_listSigningKeys.mp (List.mem_of_mem_filter (List.mem_of_mem_take hr))

/-- A call assigns to the rows it takes, and the order of the listing stays. -/
theorem listSigningKeys_rekey (nonces : String → Nonce) (t : KeyTable) (limit : ℕ) :
    listSigningKeys (rekeySigningKeys cipher keys nonces t limit).1 =
      (listSigningKeys t).map fun r =>
        if r ∈ (staleKeys keys t).take limit then resealedRow cipher keys nonces r else r := by
  obtain ⟨hnodup, hrows⟩ := staleKeys_take keys t limit
  have hassigned := foldl_rekeyRow_rows cipher keys nonces hnodup hrows
    ⟨[], [], (staleKeys keys t).length - limit⟩
  unfold listSigningKeys
  rw [rekeySigningKeys, hassigned]
  symm
  apply List.map_insertionSort
  intro a _ b _
  have hcolumns : ∀ r : SigningKeyRow, ∃ enc,
      (if r ∈ (staleKeys keys t).take limit then resealedRow cipher keys nonces r else r) =
        { r with privateJwkEnc := enc } := by
    intro r
    split
    · exact resealedRow_columns cipher keys nonces r
    · exact ⟨_, rfl⟩
  obtain ⟨enc, ha⟩ := hcolumns a
  obtain ⟨enc', hb⟩ := hcolumns b
  rw [ha, hb]
  rfl

def ResealedKey (cipher : Cipher) (keys : DerivedKeys) (r r' : SigningKeyRow) : Prop :=
  ∃ nonce plaintext, r.privateJwkEnc.bind (openSecret cipher keys) = some plaintext ∧
    r' = { r with privateJwkEnc := some (sealSecret cipher keys nonce plaintext) }

theorem rekeySigningKeys_swept (nonces : String → Nonce) (t : KeyTable) (limit : ℕ) :
    Swept (fun r => isStaleBlob keys r.privateJwkEnc) (isStuckKey cipher keys)
      (ResealedKey cipher keys) limit (listSigningKeys t)
      (listSigningKeys (rekeySigningKeys cipher keys nonces t limit).1) := by
  have hperm : (listSigningKeys t).Perm t.rows := List.perm_insertionSort rowLe t.rows
  have hnodup : (listSigningKeys t).Nodup := hperm.nodup_iff.mpr (List.Nodup.of_map _ t.nodup)
  have hmap : (listSigningKeys (rekeySigningKeys cipher keys nonces t limit).1) =
      (listSigningKeys t).map fun r => if r ∈ (staleKeys keys t).take limit ∧
        isStuckKey cipher keys r = false then resealedRow cipher keys nonces r else r := by
    rw [listSigningKeys_rekey]
    apply List.map_congr_left
    intro r _
    cases hstuck : isStuckKey cipher keys r with
    | false => simp
    | true =>
      have hsame : resealedRow cipher keys nonces r = r := by
        unfold isStuckKey opens at hstuck
        unfold resealedRow
        cases hopen : r.privateJwkEnc.bind (openSecret cipher keys) with
        | none => rfl
        | some plaintext =>
          have hretired : r.retiredAt.isSome = true := by simpa [hopen] using hstuck
          simp [hretired]
      simp [hsame]
  rw [hmap]
  apply swept_of_map hnodup
  intro r _ hfree
  unfold isStuckKey opens at hfree
  obtain ⟨hlive, hopens⟩ := Bool.or_eq_false_iff.mp hfree
  obtain ⟨plaintext, hplaintext⟩ := Option.isSome_iff_exists.mp (by simpa using hopens)
  refine ⟨nonces r.kid, plaintext, hplaintext, ?_⟩
  simp [resealedRow, hplaintext, hlive]

theorem keys_judged : Judges (fun r => isStaleBlob keys r.privateJwkEnc) (isStuckKey cipher keys)
    (ResealedKey cipher keys) (KeyRekeyed cipher keys) where
  fresh r hr := ⟨rfl, blobRekeyed_self_iff.mpr (by rw [hr]; rfl)⟩
  fixed r r' _ _ hfixed := by
    obtain ⟨nonce, plaintext, hopen, rfl⟩ := hfixed
    exact ⟨rfl, blobRekeyed_sealSecret nonce hopen⟩
  unfixed r hstale hfree hgood := by
    have hopens : opens cipher keys r.privateJwkEnc = true := by
      simpa [isStuckKey] using (Bool.or_eq_false_iff.mp hfree).2
    have hclosed := blobRekeyed_self_iff.mp hgood.2
    simp [hstale, hopens] at hclosed

/-- Where every key is as it should be none is left to do. -/
theorem nothing_left {s s' : List SigningKeyRow}
    (h : List.Forall₂ (KeyRekeyed cipher keys) s s') :
    ((s'.filter fun r => isStaleBlob keys r.privateJwkEnc).countP fun r =>
      opens cipher keys r.privateJwkEnc) = 0 := by
  rw [List.countP_filter, List.countP_eq_zero]
  induction h with
  | nil => simp
  | cons hr _ ih =>
    intro x hx
    rcases List.mem_cons.mp hx with rfl | hx
    · have hfresh := hr.2.fresh
      simpa [Bool.and_comm] using hfresh
    · exact ih x hx

/-- Repeated calls seal all openable keys again exactly when those are all in reach. -/
theorem keysRekeyed_iff (cipher : Cipher) (keys : DerivedKeys) (nonces : ℕ → String → Nonce)
    (t : KeyTable) (limit : ℕ) :
    (∃ n, KeysRekeyed cipher keys t (keysAfter cipher keys nonces t limit (n + 1))
      (rekeySigningKeys cipher keys (nonces n) (keysAfter cipher keys nonces t limit n) limit).2) ↔
      KeysInReach cipher keys t limit := by
  have hsweeps : Sweeps (fun r => isStaleBlob keys r.privateJwkEnc) (isStuckKey cipher keys)
      (ResealedKey cipher keys) limit
      (fun n => listSigningKeys (keysAfter cipher keys nonces t limit n)) := by
    refine ⟨?_, fun n => rekeySigningKeys_swept (nonces n) _ limit⟩
    rintro r r' ⟨nonce, plaintext, -, rfl⟩
    exact isStaleBlob_sealSecret nonce plaintext
  have hcomplete := hsweeps.complete_iff keys_judged
  have hremaining : ∀ n, (rekeySigningKeys cipher keys (nonces n)
      (keysAfter cipher keys nonces t limit n) limit).2.remaining =
        (staleKeys keys (keysAfter cipher keys nonces t limit n)).length - limit :=
    fun n => foldl_rekeyRow_remaining (nonces n) _ _
  constructor
  · rintro ⟨n, hrows, hcount⟩
    have hnone : (staleKeys keys _).countP _ = 0 := nothing_left hrows
    rw [hremaining, hnone, staleKeys] at hcount
    obtain ⟨hreach, hstuck, hclosed⟩ := hcomplete.mp ⟨n, hrows, by omega⟩
    refine ⟨hreach, hstuck, fun r hr hstuckRow => ?_⟩
    obtain ⟨hmem, hstale⟩ := List.mem_filter.mp hr
    have hself := blobRekeyed_self_iff.mp (hclosed r hmem hstale hstuckRow).2
    simpa [hstale] using hself
  · rintro ⟨hreach, hstuck, hclosed⟩
    obtain ⟨n, hrows, hlength⟩ := hcomplete.mpr ⟨hreach, hstuck, fun r hr hstale hstuckRow =>
      ⟨rfl, blobRekeyed_self_iff.mpr (by
        simp [hclosed r (List.mem_filter.mpr ⟨hr, hstale⟩) hstuckRow])⟩⟩
    refine ⟨n, hrows, ?_⟩
    have hnone : (staleKeys keys _).countP _ = 0 := nothing_left hrows
    rw [hremaining, hnone, staleKeys]
    omega

end Calls

end TinyOidc.Keys
