import TinyOidc.Federation.Rekey
import TinyOidc.Keys.Rekeying

/-! What repeated rekeying comes to for the sealed material of upstreams (`rekeyUpstreams` of
`src/maintenance/run.ts`), where one record holds two blobs, and with it for all of the `rekey`
step: signing keys and upstreams. -/
namespace TinyOidc.Federation
open RowTable TinyOidc.Crypto Worklist
open TinyOidc.User (Bytes)
open Threads (Prog)

section Rekey
variable (cipher : Cipher) (keys : DerivedKeys)

/-- A statement of a call that nothing disturbs; each sealing draws its own nonce. -/
def execCall (nonces : ℕ → Nonce) (s : UpstreamTable × ℕ) (op : UpstreamOp) :
    (UpstreamTable × ℕ) × op.Answer :=
  let r := execUpstream cipher keys s.1 ⟨0, nonces s.2, .error ("", ""), .answers⟩ op
  ((r.1, s.2 + 1), r.2)

def rekeyCall (nonces : ℕ → Nonce) (t : UpstreamTable) (limit : ℕ) :
    UpstreamTable × UpstreamResponse :=
  let r := (rekeyUpstreams cipher keys limit).run (execCall cipher keys nonces) (t, 0)
  (r.1.1, r.2)

def upstreamsAfter (nonces : ℕ → ℕ → Nonce) (t : UpstreamTable) (limit : ℕ) : ℕ → UpstreamTable
  | 0 => t
  | n + 1 => (rekeyCall cipher keys (nonces n) (upstreamsAfter nonces t limit n) limit).1

/-! ### What rekeying is for -/

def blobs (u : Upstream) : List (Option Bytes) := [u.clientSecretEnc, u.clientJwkEnc]

def UpstreamRekeyed (u u' : Upstream) : Prop :=
  u' = withMaterial u'.clientSecretEnc u'.clientJwkEnc u ∧
    BlobRekeyed cipher keys u.clientSecretEnc u'.clientSecretEnc ∧
      BlobRekeyed cipher keys u.clientJwkEnc u'.clientJwkEnc

/-- The openable blobs that are still to be sealed again. -/
def leftToDo (t : UpstreamTable) : ℕ :=
  ((listSealedUpstreams t).flatMap blobs).countP fun b => isStaleBlob keys b && opens cipher keys b

/-- Every sealed record is as rekeying should leave it, and the report counts the openable blobs
still to do. -/
structure UpstreamsRekeyed (t t' : UpstreamTable) (response : UpstreamResponse) : Prop where
  rows : List.Forall₂ (UpstreamRekeyed cipher keys) (listSealedUpstreams t) (listSealedUpstreams t')
  remaining : ∃ rekeyed unrecoverable,
    response = .rekeyed rekeyed unrecoverable (leftToDo cipher keys t')

def isStaleUpstream (u : Upstream) : Bool :=
  isStaleBlob keys u.clientSecretEnc || isStaleBlob keys u.clientJwkEnc

def staleUpstreams (t : UpstreamTable) : List Upstream :=
  (listSealedUpstreams t).filter (isStaleUpstream keys)

/-- A record that the loop leaves as it is: a stale blob of it does not open. -/
def isLost (u : Upstream) : Bool :=
  (blobs u).any fun b => isStaleBlob keys b && !opens cipher keys b

/-- Every record that can be rekeyed has fewer than `limit` lost ones before it, no more than
`limit` are lost, and no lost one holds another stale blob that opens. -/
structure UpstreamsInReach (t : UpstreamTable) (limit : ℕ) : Prop where
  inReach : InReach (isLost cipher keys) limit (staleUpstreams keys t)
  lost : (staleUpstreams keys t).countP (isLost cipher keys) ≤ limit
  closed : ∀ u ∈ staleUpstreams keys t, isLost cipher keys u = true →
    ∀ b ∈ blobs u, (isStaleBlob keys b && opens cipher keys b) = false

end Rekey

/-! ### One call -/

section Calls
variable {cipher : Cipher} {keys : DerivedKeys}

/-- A stale blob has been opened and sealed again, another is as it was. -/
def Resealed (cipher : Cipher) (keys : DerivedKeys) (b b' : Option Bytes) : Prop :=
  (isStaleBlob keys b = false ∧ b' = b) ∨
    ∃ nonce plaintext, b.bind (openSecret cipher keys) = some plaintext ∧
      b' = some (sealSecret cipher keys nonce plaintext)

theorem Resealed.blobRekeyed {b b' : Option Bytes} (h : Resealed cipher keys b b') :
    BlobRekeyed cipher keys b b' := by
  rcases h with ⟨hfresh, rfl⟩ | ⟨nonce, plaintext, hopen, rfl⟩
  · exact blobRekeyed_self_iff.mpr (by rw [hfresh]; rfl)
  · exact blobRekeyed_sealSecret nonce hopen

theorem Resealed.fresh {b b' : Option Bytes} (h : Resealed cipher keys b b') :
    isStaleBlob keys b' = false := by
  rcases h with ⟨hfresh, rfl⟩ | ⟨nonce, plaintext, -, rfl⟩
  · exact hfresh
  · exact isStaleBlob_sealSecret nonce plaintext

theorem Resealed.isSome_eq {b b' : Option Bytes} (h : Resealed cipher keys b b') :
    b'.isSome = b.isSome := by
  rcases h with ⟨-, rfl⟩ | ⟨nonce, plaintext, hopen, rfl⟩
  · rfl
  · obtain ⟨blob, rfl, -⟩ := Option.bind_eq_some_iff.mp hopen
    rfl

def ResealedUpstream (cipher : Cipher) (keys : DerivedKeys) (u u' : Upstream) : Prop :=
  ∃ secret jwk, Resealed cipher keys u.clientSecretEnc secret ∧
    Resealed cipher keys u.clientJwkEnc jwk ∧ u' = withMaterial secret jwk u

/-- `reseal` draws at most one nonce and leaves the table alone; a blob that it loses is stale and
does not open. -/
theorem reseal_run (cipher : Cipher) (keys : DerivedKeys) (nonces : ℕ → Nonce) (b : Option Bytes)
    (t : UpstreamTable) (i : ℕ) :
    ∃ i' b', (reseal cipher keys b).run (execCall cipher keys nonces) (t, i) = ((t, i'), b') ∧
      (b.isSome && b'.isNone) = (isStaleBlob keys b && !opens cipher keys b) ∧
        ((isStaleBlob keys b && !opens cipher keys b) = false → Resealed cipher keys b b') := by
  cases b with
  | none => exact ⟨i, none, rfl, rfl, fun _ => .inl ⟨rfl, rfl⟩⟩
  | some blob =>
    cases hstale : isStaleBlob keys (some blob) with
    | false =>
      exact ⟨i, some blob, by simp [reseal, hstale], rfl, fun _ => .inl ⟨hstale, rfl⟩⟩
    | true =>
      cases hopen : openSecret cipher keys blob with
      | none =>
        exact ⟨i, none, by simp [reseal, hstale, hopen], by simp [opens, hopen],
          by simp [opens, hopen]⟩
      | some plaintext =>
        refine ⟨i + 1, some (sealSecret cipher keys (nonces i) plaintext), ?_, ?_, fun _ => ?_⟩
        · simp [reseal, hstale, hopen, perform, execCall, execUpstream]
        · simp [opens, hopen]
        · exact .inr ⟨nonces i, plaintext, hopen, rfl⟩

theorem updateUpstreamSecrets_rows {t : UpstreamTable} {u : Upstream} (hu : u ∈ t.rows)
    (secret jwk : Option Bytes) : (updateUpstreamSecrets t u.recordAlias secret jwk).rows =
      t.rows.map fun r => if r = u then withMaterial secret jwk u else r := by
  apply List.map_congr_left
  intro r hr
  by_cases heq : r = u
  · simp [heq]
  · have halias : r.recordAlias ≠ u.recordAlias := fun h => heq (Table.eq_of_key_eq hr hu h)
    simp [heq, halias]

/-- The loop over records of the table: it assigns to those that are not lost, all their stale
blobs sealed again. -/
theorem rekeyEach_run (cipher : Cipher) (keys : DerivedKeys) (nonces : ℕ → Nonce)
    {us : List Upstream} (hnodup : us.Nodup) (report : RekeyReport) {t : UpstreamTable}
    (hus : ∀ u ∈ us, u ∈ t.rows) (i : ℕ) :
    ∃ (g : Upstream → Upstream) (t' : UpstreamTable) (i' : ℕ) (report' : RekeyReport),
      (rekeyEach cipher keys report us).run (execCall cipher keys nonces) (t, i) =
        ((t', i'), some report') ∧
      t'.rows = (t.rows.map fun r => if r ∈ us then g r else r) ∧
      ∀ u ∈ us, (isLost cipher keys u = true ∧ g u = u) ∨
        (isLost cipher keys u = false ∧ ResealedUpstream cipher keys u (g u)) := by
  induction us generalizing report t i with
  | nil => exact ⟨id, t, i, report, rfl, by simp, by simp⟩
  | cons u us ih =>
    obtain ⟨hnew, hnodup⟩ := List.nodup_cons.mp hnodup
    have hu := hus u List.mem_cons_self
    have hrest : ∀ v ∈ us, v ∈ t.rows := fun v hv => hus v (List.mem_cons_of_mem _ hv)
    obtain ⟨i₁, secret, hsecret, hsecretLost, hsecretBlob⟩ :=
      reseal_run cipher keys nonces u.clientSecretEnc t i
    obtain ⟨i₂, jwk, hjwk, hjwkLost, hjwkBlob⟩ := reseal_run cipher keys nonces u.clientJwkEnc t i₁
    have hhead : (rekeyEach cipher keys report (u :: us)).run (execCall cipher keys nonces) (t, i) =
        (if (u.clientSecretEnc.isSome && secret.isNone) ||
          (u.clientJwkEnc.isSome && jwk.isNone) then
          (rekeyEach cipher keys { report with unrecoverable := report.unrecoverable + 1 } us).run
            (execCall cipher keys nonces) (t, i₂)
        else (rekeyEach cipher keys { report with rekeyed := report.rekeyed + 1 } us).run
          (execCall cipher keys nonces)
            (updateUpstreamSecrets t u.recordAlias secret jwk, i₂ + 1)) := by
      rw [rekeyEach, Prog.run_bind, hsecret, Prog.run_bind, hjwk]
      split
      · rfl
      · rfl
    have hlost : ((u.clientSecretEnc.isSome && secret.isNone) ||
        (u.clientJwkEnc.isSome && jwk.isNone)) = isLost cipher keys u := by
      rw [hsecretLost, hjwkLost]
      simp [isLost, blobs]
    rw [hhead, hlost]
    cases hl : isLost cipher keys u with
    | true =>
      simp only [if_true]
      obtain ⟨g, t', i', report', hrun, hrows, hbecame⟩ := ih hnodup
        { report with unrecoverable := report.unrecoverable + 1 } hrest i₂
      refine ⟨fun r => if r = u then u else g r, t', i', report', hrun, ?_, ?_⟩
      · rw [hrows]
        apply List.map_congr_left
        intro r _
        by_cases heq : r = u
        · subst heq
          simp [hnew]
        · simp [heq]
      · intro v hv
        by_cases heq : v = u
        · subst heq
          exact .inl ⟨hl, by simp⟩
        · simpa [heq] using hbecame v ((List.mem_cons.mp hv).resolve_left heq)
    | false =>
      simp only [Bool.false_eq_true, if_false]
      have hassigned := updateUpstreamSecrets_rows hu secret jwk
      obtain ⟨g, t', i', report', hrun, hrows, hbecame⟩ := ih hnodup
        { report with rekeyed := report.rekeyed + 1 }
        (fun v hv => hassigned ▸ mem_assigned hnew hrest hv) (i₂ + 1)
      refine ⟨fun r => if r = u then withMaterial secret jwk u else g r, t', i', report', hrun, ?_,
        ?_⟩
      · rw [hrows, hassigned]
        have halias : (withMaterial secret jwk u).recordAlias = u.recordAlias := rfl
        exact map_assigned hu halias hnew hrest g
      · intro v hv
        by_cases heq : v = u
        · subst heq
          have hkept := hlost.trans hl
          rw [hsecretLost, hjwkLost, Bool.or_eq_false_iff] at hkept
          exact .inr ⟨hl, secret, jwk, hsecretBlob hkept.1, hjwkBlob hkept.2, by simp⟩
        · simpa [heq] using hbecame v ((List.mem_cons.mp hv).resolve_left heq)

theorem listSealedUpstreams_perm (t : UpstreamTable) :
    (listSealedUpstreams t).Perm
      (t.rows.filter fun u => u.clientSecretEnc.isSome || u.clientJwkEnc.isSome) :=
  List.perm_insertionSort _ _

theorem listSealedUpstreams_nodup (t : UpstreamTable) : (listSealedUpstreams t).Nodup :=
  (listSealedUpstreams_perm t).nodup_iff.mpr ((List.Nodup.of_map _ t.nodup).filter _)

theorem mem_of_mem_listSealedUpstreams {t : UpstreamTable} {u : Upstream}
    (h : u ∈ listSealedUpstreams t) : u ∈ t.rows :=
  List.mem_of_mem_filter ((listSealedUpstreams_perm t).mem_iff.mp h)

/-- Assigning the sealed columns, empty where they were empty, keeps the listing in its order. -/
theorem listSealedUpstreams_map {t t' : UpstreamTable} {f : Upstream → Upstream}
    (hrows : t'.rows = t.rows.map f) (halias : ∀ u, (f u).recordAlias = u.recordAlias)
    (hsealed : ∀ u, ((f u).clientSecretEnc.isSome || (f u).clientJwkEnc.isSome) =
      (u.clientSecretEnc.isSome || u.clientJwkEnc.isSome)) :
    listSealedUpstreams t' = (listSealedUpstreams t).map f := by
  unfold listSealedUpstreams
  rw [hrows, List.filter_map]
  have hfilter : ((fun u : Upstream => u.clientSecretEnc.isSome || u.clientJwkEnc.isSome) ∘ f) =
      fun u => u.clientSecretEnc.isSome || u.clientJwkEnc.isSome := funext hsealed
  rw [hfilter]
  symm
  apply List.map_insertionSort
  intro a _ b _
  rw [halias, halias]

/-- A call answers with what it did and with the number of stale records beyond its limit, and the
listing has been swept. -/
theorem rekeyCall_spec (cipher : Cipher) (keys : DerivedKeys) (nonces : ℕ → Nonce)
    (t : UpstreamTable) (limit : ℕ) :
    (∃ rekeyed unrecoverable, (rekeyCall cipher keys nonces t limit).2 =
      .rekeyed rekeyed unrecoverable ((staleUpstreams keys t).length - limit)) ∧
    Swept (isStaleUpstream keys) (isLost cipher keys) (ResealedUpstream cipher keys) limit
      (listSealedUpstreams t) (listSealedUpstreams (rekeyCall cipher keys nonces t limit).1) := by
  have hnodup := listSealedUpstreams_nodup t
  have hpart : ((staleUpstreams keys t).take limit).Nodup :=
    (hnodup.filter _).sublist (List.take_sublist _ _)
  have hmem : ∀ u ∈ (staleUpstreams keys t).take limit, u ∈ t.rows := fun u hu =>
    mem_of_mem_listSealedUpstreams (List.mem_of_mem_filter (List.mem_of_mem_take hu))
  obtain ⟨g, t', i', report, hrun, hrows, hbecame⟩ :=
    rekeyEach_run cipher keys nonces hpart ⟨0, 0⟩ hmem 1
  have hcall : rekeyCall cipher keys nonces t limit = (t', .rekeyed report.rekeyed
      report.unrecoverable ((staleUpstreams keys t).length - limit)) := by
    have hlist : (perform .listSealedUpstreams).run (execCall cipher keys nonces) (t, 0) =
        ((t, 1), some (listSealedUpstreams t)) := rfl
    have heach : (rekeyEach cipher keys ⟨0, 0⟩ (((listSealedUpstreams t).filter fun u =>
        isStaleBlob keys u.clientSecretEnc || isStaleBlob keys u.clientJwkEnc).take limit)).run
          (execCall cipher keys nonces) (t, 1) = ((t', i'), some report) := hrun
    unfold rekeyCall rekeyUpstreams
    rw [Prog.run_bind, hlist, Prog.run_bind, heach]
    rfl
  have hstays : ∀ u, ((if u ∈ (staleUpstreams keys t).take limit then g u else u) = u) ∨
      ResealedUpstream cipher keys u
        (if u ∈ (staleUpstreams keys t).take limit then g u else u) := by
    intro u
    split
    · next hu =>
      rcases hbecame u hu with ⟨-, hsame⟩ | ⟨-, hresealed⟩
      · exact .inl hsame
      · exact .inr hresealed
    · exact .inl rfl
  refine ⟨⟨_, _, congrArg Prod.snd hcall⟩, ?_⟩
  rw [hcall, listSealedUpstreams_map hrows]
  · have hmap : ((listSealedUpstreams t).map fun u =>
        if u ∈ (staleUpstreams keys t).take limit then g u else u) =
        (listSealedUpstreams t).map fun u => if u ∈ (staleUpstreams keys t).take limit ∧
          isLost cipher keys u = false then g u else u := by
      apply List.map_congr_left
      intro u _
      by_cases hu : u ∈ (staleUpstreams keys t).take limit
      · rcases hbecame u hu with ⟨hlost, hsame⟩ | ⟨hlost, -⟩
        · simp [hsame]
        · simp [hlost]
      · simp [hu]
    rw [hmap]
    apply swept_of_map hnodup
    intro u hu hfree
    rcases hbecame u hu with ⟨hlost, -⟩ | ⟨-, hresealed⟩
    · rw [hfree] at hlost
      cases hlost
    · exact hresealed
  · intro u
    rcases hstays u with hsame | ⟨secret, jwk, -, -, heq⟩
    · rw [hsame]
    · rw [heq]
      rfl
  · intro u
    rcases hstays u with hsame | ⟨secret, jwk, hsecret, hjwk, heq⟩
    · rw [hsame]
    · rw [heq]
      show (secret.isSome || jwk.isSome) = _
      rw [hsecret.isSome_eq, hjwk.isSome_eq]

theorem isLost_iff {u : Upstream} : isLost cipher keys u = true ↔
    ∃ b ∈ blobs u, isStaleBlob keys b = true ∧ opens cipher keys b = false := by
  simp [isLost]

theorem blobs_rekeyed {u u' : Upstream} (h : UpstreamRekeyed cipher keys u u') :
    ∀ b ∈ blobs u', (isStaleBlob keys b && opens cipher keys b) = false := by
  intro b hb
  simp only [blobs, List.mem_cons, List.not_mem_nil, or_false] at hb
  rcases hb with rfl | rfl
  · exact h.2.1.fresh
  · exact h.2.2.fresh

theorem upstreamRekeyed_self_iff {u : Upstream} : UpstreamRekeyed cipher keys u u ↔
    ∀ b ∈ blobs u, (isStaleBlob keys b && opens cipher keys b) = false :=
  ⟨blobs_rekeyed, fun h => ⟨rfl, blobRekeyed_self_iff.mpr (h _ (by simp [blobs])),
    blobRekeyed_self_iff.mpr (h _ (by simp [blobs]))⟩⟩

theorem upstreams_judged : Judges (isStaleUpstream keys) (isLost cipher keys)
    (ResealedUpstream cipher keys) (UpstreamRekeyed cipher keys) where
  fresh u hu := by
    obtain ⟨hsecret, hjwk⟩ := Bool.or_eq_false_iff.mp hu
    apply upstreamRekeyed_self_iff.mpr
    simp [blobs, hsecret, hjwk]
  fixed u u' _ _ hfixed := by
    obtain ⟨secret, jwk, hsecret, hjwk, rfl⟩ := hfixed
    exact ⟨rfl, hsecret.blobRekeyed, hjwk.blobRekeyed⟩
  unfixed u hstale hkept hgood := by
    have hclosed := upstreamRekeyed_self_iff.mp hgood
    have hfound : ∃ b ∈ blobs u, isStaleBlob keys b = true := by
      simpa [blobs, isStaleUpstream] using hstale
    obtain ⟨b, hb, hstaleBlob⟩ := hfound
    have hopen : opens cipher keys b = false := by simpa [hstaleBlob] using hclosed b hb
    rw [isLost_iff.mpr ⟨b, hb, hstaleBlob, hopen⟩] at hkept
    cases hkept

/-- Where every record is as it should be no blob is left to do. -/
theorem leftToDo_eq_zero {s : List Upstream} {t : UpstreamTable}
    (h : List.Forall₂ (UpstreamRekeyed cipher keys) s (listSealedUpstreams t)) :
    leftToDo cipher keys t = 0 := by
  unfold leftToDo
  generalize listSealedUpstreams t = s' at h
  rw [List.countP_eq_zero]
  induction h with
  | nil => simp
  | cons hu _ ih =>
    intro b hb
    rw [List.flatMap_cons] at hb
    rcases List.mem_append.mp hb with hb | hb
    · simp [blobs_rekeyed hu b hb]
    · exact ih b hb

/-- Repeated calls seal all openable blobs again exactly when those are all in reach. -/
theorem upstreamsRekeyed_iff (cipher : Cipher) (keys : DerivedKeys) (nonces : ℕ → ℕ → Nonce)
    (t : UpstreamTable) (limit : ℕ) :
    (∃ n, UpstreamsRekeyed cipher keys t (upstreamsAfter cipher keys nonces t limit (n + 1))
      (rekeyCall cipher keys (nonces n) (upstreamsAfter cipher keys nonces t limit n) limit).2) ↔
      UpstreamsInReach cipher keys t limit := by
  have hsweeps : Sweeps (isStaleUpstream keys) (isLost cipher keys) (ResealedUpstream cipher keys)
      limit (fun n => listSealedUpstreams (upstreamsAfter cipher keys nonces t limit n)) := by
    refine ⟨?_, fun n => (rekeyCall_spec cipher keys (nonces n) _ limit).2⟩
    rintro u u' ⟨secret, jwk, hsecret, hjwk, rfl⟩
    exact Bool.or_eq_false_iff.mpr ⟨hsecret.fresh, hjwk.fresh⟩
  have hcomplete := hsweeps.complete_iff upstreams_judged
  constructor
  · rintro ⟨n, hrows, rekeyed, unrecoverable, hresponse⟩
    obtain ⟨rekeyed', unrecoverable', hcall⟩ :=
      (rekeyCall_spec cipher keys (nonces n) (upstreamsAfter cipher keys nonces t limit n) limit).1
    rw [hcall, leftToDo_eq_zero hrows, UpstreamResponse.rekeyed.injEq] at hresponse
    obtain ⟨hreach, hlost, hclosed⟩ :=
      hcomplete.mp ⟨n, hrows, Nat.sub_eq_zero_iff_le.mp hresponse.2.2⟩
    refine ⟨hreach, hlost, fun u hu hl => ?_⟩
    obtain ⟨hmem, hstale⟩ := List.mem_filter.mp hu
    exact upstreamRekeyed_self_iff.mp (hclosed u hmem hstale hl)
  · rintro ⟨hreach, hlost, hclosed⟩
    obtain ⟨n, hrows, hlength⟩ := hcomplete.mpr ⟨hreach, hlost, fun u hu hstale hl =>
      upstreamRekeyed_self_iff.mpr (hclosed u (List.mem_filter.mpr ⟨hu, hstale⟩) hl)⟩
    obtain ⟨rekeyed, unrecoverable, hcall⟩ :=
      (rekeyCall_spec cipher keys (nonces n) (upstreamsAfter cipher keys nonces t limit n) limit).1
    refine ⟨n, hrows, rekeyed, unrecoverable, ?_⟩
    rw [hcall, leftToDo_eq_zero hrows, show (staleUpstreams keys _).length - limit = 0 from
      Nat.sub_eq_zero_of_le hlength]

end Calls

open TinyOidc.Keys in
/-- Repeated calls of the two rekeyings, with no other writes, come to the state they are for
exactly when every row that they can seal again is in reach, the rows that they cannot are no more
than a call takes, and none of these holds a stale blob that opens. -/
theorem rekeyed_iff (cipher : Cipher) (keys : DerivedKeys) (keyNonces : ℕ → String → Nonce)
    (upstreamNonces : ℕ → ℕ → Nonce) (t : KeyTable) (u : UpstreamTable) (limit : ℕ) :
    ((∃ n, KeysRekeyed cipher keys t (keysAfter cipher keys keyNonces t limit (n + 1))
        (rekeySigningKeys cipher keys (keyNonces n)
          (keysAfter cipher keys keyNonces t limit n) limit).2) ↔
      KeysInReach cipher keys t limit) ∧
    ((∃ n, UpstreamsRekeyed cipher keys u
      (upstreamsAfter cipher keys upstreamNonces u limit (n + 1))
        (rekeyCall cipher keys (upstreamNonces n)
          (upstreamsAfter cipher keys upstreamNonces u limit n) limit).2) ↔
      UpstreamsInReach cipher keys u limit) :=
  ⟨keysRekeyed_iff cipher keys keyNonces t limit,
    upstreamsRekeyed_iff cipher keys upstreamNonces u limit⟩

namespace Sample
open TinyOidc.Keys

/-- The master keys from before, with a version that is no longer available. -/
def goneKeys : DerivedKeys := ⟨[3], 3, by decide⟩

def sealedKey (kid : String) (under : DerivedKeys) (activatesAt : ℤ) : SigningKeyRow :=
  ⟨kid, "jwk", some (sealSecret cipher under nonce [1]), 0, activatesAt, none⟩

/-- The key under the lost version stands first. -/
def keyTable : KeyTable := ⟨[sealedKey "lost" goneKeys 0, sealedKey "kept" oldKeys 1], by decide⟩

/-- With a limit of one row a call, the lost key is taken every time and the other never. -/
theorem kept_key_never_rekeyed :
    ¬ ∀ (cipher : Cipher) (keys : DerivedKeys) (nonces : ℕ → String → Nonce) (t : KeyTable)
      (limit : ℕ), 1 ≤ limit →
        ∃ n, KeysRekeyed cipher keys t (keysAfter cipher keys nonces t limit (n + 1))
          (rekeySigningKeys cipher keys (nonces n)
            (keysAfter cipher keys nonces t limit n) limit).2 := by
  intro hall
  have hreach := ((keysRekeyed_iff cipher keys (fun _ _ => nonce) keyTable 1).mp
    (hall cipher keys (fun _ _ => nonce) keyTable 1 (le_refl 1))).inReach
  have hlist : staleKeys keys keyTable =
      [sealedKey "lost" goneKeys 0] ++ sealedKey "kept" oldKeys 1 :: [] := by decide
  have hlt := hreach _ _ _ hlist (by decide)
  revert hlt
  decide

end Sample

end TinyOidc.Federation
