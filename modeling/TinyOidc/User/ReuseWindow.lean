import TinyOidc.User.Refresh

/-! How long a consumed refresh token is kept for reuse detection. A rotation and a touch purge
with the configured window; every other purging call passes the fixed grace of one day. -/
namespace TinyOidc.User
open RowTable

/-- The bounds the settings schema puts on `tokens.refresh_reuse_window`. -/
def ReuseWindowAllowed (w : ℤ) : Prop := 3600 ≤ w ∧ w ≤ 259200

instance (w : ℤ) : Decidable (ReuseWindowAllowed w) :=
  inferInstanceAs (Decidable (3600 ≤ w ∧ w ≤ 259200))

def windowOf : Call → Option ℤ
  | .touch _ reuseWindow => some reuseWindow
  | .rotateRefreshToken input => some input.reuseWindow
  | _ => none

/-- Every call that is given the configured window is given `w`. -/
def WindowIs (w : ℤ) (calls : List Call) : Prop := ∀ c ∈ calls, ∀ v, windowOf c = some v → v = w

/-- The family a refresh token is presented for: unrevoked, unexpired and of the presenting
client. -/
structure PresentedFamily (t : Tables) (input : RotateRefreshInput) (f : FamilyRow) : Prop where
  mem : f ∈ t.refreshFamilies.rows
  id : f.id = input.familyId
  unrevoked : f.revokedAt = none
  absolute : input.now < f.absoluteExpiresAt
  idle : input.now < f.idleExpiresAt
  client : f.clientId = input.client.clientId
  incarnation : f.clientCreatedAt = input.client.createdAt

/-- Reuse detection lasts the window `w`: a token consumed by a rotation and presented again no
later than `w` after it is answered as reuse, and its family dies. -/
def WindowHonoured (sha256 : String → Bytes) (w : ℤ) : Prop :=
  ∀ again mid first earlier,
    let before := mid ++ .rotateRefreshToken first :: earlier
    Fresh (history sha256 (.rotateRefreshToken again :: before)) →
    ClockMonotone (.rotateRefreshToken again :: before) →
    WindowIs w (.rotateRefreshToken again :: before) →
    rotationSucceeded (Machine.event (UserObject.call sha256) (after sha256 earlier)
      (.rotateRefreshToken first)) = some first →
    again.familyId = first.familyId → again.secretHash = first.secretHash →
    again.now ≤ first.now + w →
    ∀ f, PresentedFamily (after sha256 before).tables again f →
      (∃ clients, ((after sha256 before).call sha256 (.rotateRefreshToken again)).2 =
        .rotate (.fail .invalidGrant true clients)) ∧
      FamilyDead f.id (after sha256 (.rotateRefreshToken again :: before)).tables

/-! ### A consumed token is kept -/

/-- While the family is stored it is past serial `n`, its token of that serial is stored with
the secret, and the token that consumed it is not from before `time`. -/
structure KeptConsumed (id : String) (x : Bytes) (n : ℕ) (time : ℤ) (t : Tables) : Prop where
  kept : ∀ f ∈ t.refreshFamilies.rows, f.id = id → n < f.currentSerial ∧
    ∃ k ∈ t.refreshTokens.rows, k.familyId = id ∧ k.secretHash = x ∧ k.serial = n
  since : ∀ l ∈ t.refreshTokens.rows, l.familyId = id → l.serial = n + 1 → time ≤ l.createdAt

namespace KeptConsumed
variable {id : String} {x : Bytes} {n : ℕ} {time : ℤ} {t t' : Tables}

theorem congr (h : KeptConsumed id x n time t) (hf : t'.refreshFamilies = t.refreshFamilies)
    (hk : t'.refreshTokens = t.refreshTokens) : KeptConsumed id x n time t' := by
  refine ⟨?_, ?_⟩
  · rw [hf, hk]; exact h.kept
  · rw [hk]; exact h.since

theorem deleteFamilies (h : KeptConsumed id x n time t) (p : FamilyRow → Bool) :
    KeptConsumed id x n time (t.deleteFamilies p) where
  kept f hf hid := by
    obtain ⟨hf, hp⟩ := Table.mem_deleteWhere.mp hf
    obtain ⟨hlt, k, hk, hkid, hkx⟩ := h.kept f hf hid
    exact ⟨hlt, k, SerialsSound.mem_deleteFamilies hf hp hk (hkid.trans hid.symm), hkid, hkx⟩
  since l hl := h.since l (Table.deleteWhere_subset hl)

/-- A purge keeps the token as long as its limit is not after the consumption. -/
theorem purge (h : KeptConsumed id x n time t) {now w : ℤ} (hw : now - w ≤ time) :
    KeptConsumed id x n time (t.purge now w) := by
  have htok : KeptConsumed id x n time ((t.purgeCodes now).purgeTokens (now - w)) := by
    refine ⟨fun f hf hid => ?_, fun l hl => h.since l (Table.deleteWhere_subset hl)⟩
    obtain ⟨hlt, k, hk, hkid, hkx, hkn⟩ := h.kept f hf hid
    refine ⟨hlt, k, Table.mem_deleteWhere.mpr ⟨hk, ?_⟩, hkid, hkx, hkn⟩
    simp only [Tables.consumedBefore, List.any_eq_false, Bool.and_eq_true, beq_iff_eq,
      decide_eq_true_eq]
    rintro l hl ⟨⟨hlid, hlser⟩, hbefore⟩
    have hle := h.since l hl (hlid.trans hkid) (by rw [hlser, hkn])
    omega
  exact (htok.deleteFamilies (Tables.familyGone (now - purgeGraceSeconds))).congr rfl rfl

theorem change {e : CallEvent} (h : KeptConsumed id x n time t) (hc : Change e t t')
    (hopen : familyOpened e ≠ some id)
    (hpurge : ∀ now w, purgeOf e = some (now, w) → now - w ≤ time) :
    KeptConsumed id x n time t' := by
  cases hc with
  | aside hs => exact h.congr hs.families hs.tokens
  | writeUser _ => exact h.congr rfl rfl
  | clear _ => exact ⟨by simp [Tables.empty], by simp [Tables.empty]⟩
  | purge hp => exact h.purge (hpurge _ _ hp)
  | revokeSessions p now reason => exact h.congr rfl rfl
  | revokeFamilies p now reason =>
    refine ⟨fun f hf hid => ?_, h.since⟩
    obtain ⟨g, hg, ⟨_, rfl⟩ | ⟨_, rfl⟩⟩ := Table.exists_of_mem_update hf
    · exact h.kept f hg hid
    · exact h.kept g hg hid
  | dropFamily _ => exact h.deleteFamilies _
  | createSession hi _ _ =>
    obtain ⟨sessions, _, rfl⟩ := insertSession_ok hi
    exact h.congr rfl rfl
  | rotateSession _ _ hr =>
    rw [rotateSession_ok hr]
    exact h.congr rfl rfl
  | touchSession idleTtl _ _ _ =>
    obtain ⟨_, hf, hk⟩ := touchSession_sameBut t _ _ idleTtl
    exact h.congr hf hk
  | issueCode _ _ _ _ => exact h.congr rfl rfl
  | consumeCode now _ => exact h.congr rfl rfl
  | openFamily hf hk hid _ _ _ _ hc _ =>
    have hne : ∀ {f : FamilyRow}, familyOpened e = some f.id → f.id ≠ id := by
      rintro f hc rfl
      exact hopen hc
    refine ⟨fun f hm hfid => ?_, fun l hm hlid hser => ?_⟩
    · rcases (Table.mem_insert hf).mp hm with hm | rfl
      · obtain ⟨hlt, k, hkm, hk'⟩ := h.kept f hm hfid
        exact ⟨hlt, k, (Table.mem_insert hk).mpr (.inl hkm), hk'⟩
      · exact absurd hfid (hne hc)
    · rcases (Table.mem_insert hk).mp hm with hm | rfl
      · exact h.since l hm hlid hser
      · exact absurd (hid.symm.trans hlid) (hne hc)
  | @advanceFamily _ family _ _ _ hm _ ha _ =>
    obtain ⟨tokens, hk, rfl⟩ := advanceFamily_ok ha
    refine ⟨fun f hf hid => ?_, fun l hl hlid hser => ?_⟩
    · obtain ⟨g, hg, ⟨_, rfl⟩ | ⟨hp, rfl⟩⟩ := Table.exists_of_mem_update hf
      · obtain ⟨hlt, k, hkm, hk'⟩ := h.kept f hg hid
        exact ⟨hlt, k, (Table.mem_insert hk).mpr (.inl hkm), hk'⟩
      · obtain ⟨hlt, k, hkm, hk'⟩ := h.kept g hg hid
        have hgf : g = family := Table.eq_of_key_eq hg hm (beq_iff_eq.mp hp)
        refine ⟨?_, k, (Table.mem_insert hk).mpr (.inl hkm), hk'⟩
        rw [hgf] at hlt
        dsimp only
        omega
    · rcases (Table.mem_insert hk).mp hl with hl | rfl
      · exact h.since l hl hlid hser
      · have hlt := (h.kept family hm hlid).1
        dsimp only at hser
        omega

/-- What a rotation leaves of the token it redeems. -/
theorem of_rotated {user : UserRow} {input : RotateRefreshInput} {family : FamilyRow}
    {token : TokenRow} (hs : SerialsSound t) (h : Rotated t user input t' family token) :
    KeptConsumed input.familyId input.secretHash family.currentSerial input.now t' := by
  have hp := h.presented
  obtain ⟨advanced, hadv, rfl⟩ := h.written
  obtain ⟨hf, hk⟩ := touchBound_sameBut t advanced family input.now input.sessionIdleTtl
  obtain ⟨tokens, hins, rfl⟩ := advanceFamily_ok hadv
  refine congr (t := { t with
    refreshTokens := tokens
    refreshFamilies := t.refreshFamilies.updateWhere (·.id == family.id) _ _ }) ?_ hf hk
  refine ⟨fun f hm hid => ?_, fun l hl hlid hser => ?_⟩
  · obtain ⟨g, _, ⟨hne, rfl⟩ | ⟨_, rfl⟩⟩ := Table.exists_of_mem_update hm
    · simp [hid, hp.family_id] at hne
    · exact ⟨Nat.lt_succ_self _, token, (Table.mem_insert hins).mpr (.inl hp.token_mem),
        hp.token_family.trans hp.family_id, hp.secret, h.current⟩
  · rcases (Table.mem_insert hins).mp hl with hl | rfl
    · have hle := hs.serial_le hp.family_mem hl (hlid.trans hp.family_id.symm)
      omega
    · exact le_rfl

end KeptConsumed

/-! ### Runs with a window of at most a day -/

/-- Every purge of a run with window `w` uses `w` or one day, at a clock reading of the run. -/
theorem purgeOf_run {sha256 : String → Bytes} {c : Call} {calls : List Call} {w now v : ℤ}
    (hw : WindowIs w (c :: calls))
    (h : purgeOf (Machine.event (UserObject.call sha256) (after sha256 calls) c) = some (now, v)) :
    now ∈ (c :: calls).filterMap Call.now? ∧ (v = w ∨ v = purgeGraceSeconds) := by
  have hnow : ∀ {d : Call} {n : ℤ}, d ∈ c :: calls → d.now? = some n →
      n ∈ (c :: calls).filterMap Call.now? := fun hm hn => List.mem_filterMap.mpr ⟨_, hm, hn⟩
  have hc : c ∈ c :: calls := List.mem_cons_self
  have hexchange : ∀ {input : ExchangeCodeInput},
      exchangeRun (Machine.event (UserObject.call sha256) (after sha256 calls) c) = some input →
      .exchangeCode input ∈ c :: calls := by
    intro input hrun
    unfold exchangeRun at hrun
    dsimp only [Machine.event_input, Machine.event_pre] at hrun
    split at hrun
    · cases hrun
      exact hc
    next call =>
      split at hrun
      next input' user challenge hl =>
        cases hrun
        obtain ⟨later, earlier, _, rfl, _⟩ := suspended_exchange_after sha256 (mem_of_lookup hl)
        simp
      · cases hrun
    · cases hrun
  unfold purgeOf at h
  dsimp only [Machine.event_input] at h
  split at h
  · cases h
    exact ⟨hnow hc rfl, .inl (hw _ hc _ rfl)⟩
  · cases h
    exact ⟨hnow hc rfl, .inl (hw _ hc _ rfl)⟩
  · cases h
    exact ⟨hnow hc rfl, .inr rfl⟩
  · cases h
    exact ⟨hnow hc rfl, .inr rfl⟩
  · cases h
    exact ⟨hnow hc rfl, .inr rfl⟩
  · cases h
    exact ⟨hnow hc rfl, .inr rfl⟩
  · obtain ⟨input, hrun, he⟩ := Option.map_eq_some_iff.mp h
    obtain ⟨rfl, rfl⟩ := Prod.mk.inj he
    exact ⟨hnow (hexchange hrun) rfl, .inr rfl⟩

/-- A rotation leaves its token stored for as long as the run's clock is within a window of at
most a day. -/
theorem keptConsumed_rest {sha256 : String → Bytes} {earlier : List Call} {w : ℤ} {id : String}
    {x : Bytes} {n : ℕ} {time : ℤ} (hday : w ≤ purgeGraceSeconds) (later : List Call)
    (hf : Fresh (history sha256 (later ++ earlier))) (hw : WindowIs w (later ++ earlier))
    (hclock : ∀ now ∈ (later ++ earlier).filterMap Call.now?, now ≤ time + w)
    (hid : id ∈ (history sha256 earlier).filterMap familyOpened)
    (h : KeptConsumed id x n time (after sha256 earlier).tables) :
    KeptConsumed id x n time (after sha256 (later ++ earlier)).tables := by
  induction later with
  | nil => exact h
  | cons c later ih =>
    have hw' : WindowIs w (later ++ earlier) := fun d hd => hw d (List.mem_cons_of_mem _ hd)
    have hclock' : ∀ now ∈ (later ++ earlier).filterMap Call.now?, now ≤ time + w :=
      fun now hm => hclock now (mem_filterMap_cons.mpr (.inr hm))
    refine (call_changes sha256 _ c).preserves (fun _ _ hc h => h.change hc ?_ ?_)
      (ih hf.tail hw' hclock')
    · exact ne_of_nodup hf.families (history_subset_append sha256 later earlier) hid
    · intro now v hp
      obtain ⟨hm, hv⟩ := purgeOf_run hw hp
      have hle := hclock now hm
      rcases hv with rfl | rfl
      · omega
      · omega

/-- A family that is unexpired survives the purge of its own presentation. -/
theorem PresentedFamily.purged {o : UserObject} {input : RotateRefreshInput} {f : FamilyRow}
    (h : PresentedFamily o.tables input f) :
    PresentedFamily (purgedTables o input.now input.reuseWindow) input f := by
  refine ⟨?_, h.id, h.unrevoked, h.absolute, h.idle, h.client, h.incarnation⟩
  unfold purgedTables
  rw [purgeIfDue_tables]
  split
  · exact h.mem
  · refine Table.mem_deleteWhere.mpr ⟨h.mem, ?_⟩
    have habs := h.absolute
    have hidle := h.idle
    have habs' : ¬ f.absoluteExpiresAt < input.now - purgeGraceSeconds := by
      unfold purgeGraceSeconds; omega
    have hidle' : ¬ f.idleExpiresAt < input.now - purgeGraceSeconds := by
      unfold purgeGraceSeconds; omega
    simp [Tables.familyGone, h.unrevoked, habs', hidle']

theorem KeptConsumed.purged {o : UserObject} {id : String} {x : Bytes} {n : ℕ} {time now w : ℤ}
    (h : KeptConsumed id x n time o.tables) (hw : now - w ≤ time) :
    KeptConsumed id x n time (purgedTables o now w) := by
  unfold purgedTables
  rw [purgeIfDue_tables]
  split
  · exact h
  · exact h.purge hw

theorem windowHonoured_of_le_day (sha256 : String → Bytes) {w : ℤ}
    (hday : w ≤ purgeGraceSeconds) : WindowHonoured sha256 w := by
  intro again mid first earlier before hf hc hw hrot hid hx hnow f hp
  obtain ⟨_, user, family, token, _, hr⟩ := rotationSucceeded_commit hrot
  have hsound := SerialsSound.after_calls sha256 earlier
  have hpurged : SerialsSound
    (purgedTables (after sha256 earlier) first.now first.reuseWindow) := by
    unfold purgedTables
    rw [purgeIfDue_tables]
    split
    · exact hsound
    · exact hsound.purge _ _
  have hopened : first.familyId ∈ (history sha256 (.rotateRefreshToken first :: earlier)).filterMap
      familyOpened := by
    have hm := (stored_after sha256 earlier).families family
      (purgedTables_families_subset hr.presented.family_mem)
    rw [hr.presented.family_id] at hm
    exact mem_filterMap_cons.mpr (.inr hm)
  -- Every clock reading before the second presentation is within the window.
  have hclock : ∀ now ∈ before.filterMap Call.now?, now ≤ first.now + w := by
    intro now hm
    have hsorted : (again.now :: before.filterMap Call.now?).Pairwise
        (fun later earlier => earlier ≤ later) := hc
    exact ((List.pairwise_cons.mp hsorted).1 now hm).trans hnow
  have hkept := keptConsumed_rest hday mid hf.tail
    (fun c hm => hw c (List.mem_cons_of_mem _ hm)) hclock hopened
    (KeptConsumed.of_rotated hpurged hr)
  have hwindow : again.reuseWindow = w := hw _ List.mem_cons_self _ rfl
  have hpf := hp.purged
  obtain ⟨hlt, k, hk, hkid, hkx, hkn⟩ :=
    (hkept.purged (w := again.reuseWindow) (by rw [hwindow]; omega)).kept f hpf.mem
      (hpf.id.trans hid)
  have hreuse : ReusePresented (after sha256 before) again f :=
    ⟨k, ⟨hpf.mem, hpf.id, hpf.unrevoked, hpf.absolute, hpf.idle, hpf.client, hpf.incarnation, hk,
      hkid.trans (hid.symm.trans hpf.id.symm), hkx.trans hx.symm⟩, hkn ▸ hlt⟩
  obtain ⟨htables, hreply⟩ := hreuse.call (dormantEmpty_after sha256 before) sha256
  obtain ⟨clients, hcl⟩ := revokeReused_reply
    (purgedTables (after sha256 before) again.now again.reuseWindow) f again.now
  refine ⟨⟨clients, by rw [hreply, hcl]⟩, ?_⟩
  rw [after, Machine.after_cons, htables]
  exact revokeReused_familyDead _ f again.now

/-! ### Longer windows -/

/-- A family opened at 0, as an offline one. -/
def Sample.opened : List Call :=
  [Sample.exchange [1] 0 (some (Sample.refresh "f1" [5] true)),
    Sample.login "s1" [2] 0 (some (Sample.code [1])), Sample.init]

/-- Its token consumed at 0; a code exchange at 86401 purges. -/
def Sample.purgedLate (w : ℤ) : List Call :=
  [Sample.exchange [9] 86401 none] ++
    .rotateRefreshToken (Sample.rotation "f1" [5] [6] 0 w) :: Sample.opened

/-- The consumed token presented again at 86401. -/
def Sample.lateReuse (w : ℤ) : List Call :=
  .rotateRefreshToken (Sample.rotation "f1" [5] [7] 86401 w) :: Sample.purgedLate w

def codeVerifierOf : Call → Option String
  | .exchangeCode input => input.codeVerifier
  | _ => none

/-- Without a verifier nothing is hashed. -/
theorem call_of_no_verifier (sha256 sha256' : String → Bytes) (o : UserObject) {c : Call}
    (h : codeVerifierOf c = none) : o.call sha256 c = o.call sha256' c := by
  cases c with
  | exchangeCode input =>
    simp only [codeVerifierOf] at h
    simp [UserObject.call, UserObject.exchangeCode, h]
  | _ => rfl

theorem lateReuse_no_verifier (w : ℤ) : ∀ c ∈ Sample.lateReuse w, codeVerifierOf c = none := by
  intro c hc
  simp only [Sample.lateReuse, Sample.purgedLate, Sample.opened, List.mem_cons, List.cons_append,
    List.nil_append, List.not_mem_nil, or_false] at hc
  obtain rfl | rfl | rfl | rfl | rfl | rfl := hc <;> rfl

theorem lateReuse_history (sha256 : String → Bytes) (w : ℤ) :
    history sha256 (Sample.lateReuse w) = history Sample.sha256 (Sample.lateReuse w) :=
  (Machine.run_congr _
    (fun c hc o => call_of_no_verifier _ _ o (lateReuse_no_verifier w c hc)) _).2

theorem lateReuse_fresh (sha256 : String → Bytes) (w : ℤ) :
    Fresh (history sha256 (Sample.lateReuse w)) := by
  rw [lateReuse_history]
  have hs : (history Sample.sha256 (Sample.lateReuse w)).filterMap sessionCreated = ["s1"] := by rfl
  have hc : (history Sample.sha256 (Sample.lateReuse w)).filterMap codeIssued = [[1]] := by rfl
  have hf : (history Sample.sha256 (Sample.lateReuse w)).filterMap familyOpened = ["f1"] := by rfl
  have ht : (history Sample.sha256 (Sample.lateReuse w)).filterMap tokenIssued =
      [("f1", [6]), ("f1", [5])] := by rfl
  exact ⟨by rw [hs]; decide, by rw [hc]; decide, by rw [hf]; decide, by rw [ht]; decide⟩

theorem lateReuse_windowIs (w : ℤ) : WindowIs w (Sample.lateReuse w) := by
  intro c hc v hv
  simp only [Sample.lateReuse, Sample.purgedLate, Sample.opened, List.mem_cons, List.cons_append,
    List.nil_append, List.not_mem_nil, or_false] at hc
  obtain rfl | rfl | rfl | rfl | rfl | rfl := hc
  · exact (Option.some.inj hv).symm
  · cases hv
  · exact (Option.some.inj hv).symm
  · cases hv
  · cases hv
  · cases hv

theorem lateReuse_clock (w : ℤ) : ClockMonotone (Sample.lateReuse w) := by
  have hnow : (Sample.lateReuse w).filterMap Call.now? = [86401, 86401, 0, 0, 0, 0] := rfl
  unfold ClockMonotone
  rw [hnow]
  decide

/-- The family of `Sample.lateReuse` when its token is presented again. -/
def Sample.lateFamily : FamilyRow :=
  { id := "f1", clientId := "app", clientCreatedAt := 5, codeSecretHash := some [1]
    kind := .offline, sid := none, scope := ["openid", "offline_access"], authTime := 0
    amr := ["user", "hwk"], acr := "urn:tinyoidc:acr:passkey", createdAt := 0
    absoluteExpiresAt := 8640000, idleExpiresAt := 864000, currentSerial := 2, revokedAt := none
    revokeReason := none }

theorem purgedLate_after (sha256 : String → Bytes) (w : ℤ) :
    after sha256 (Sample.purgedLate w) = after Sample.sha256 (Sample.purgedLate w) :=
  (Machine.run_congr _ (fun c hc o => call_of_no_verifier _ _ o
    (lateReuse_no_verifier w c (List.mem_cons_of_mem _ hc))) _).1

theorem lateReuse_presented (sha256 : String → Bytes) (w : ℤ) :
    PresentedFamily (after sha256 (Sample.purgedLate w)).tables
      (Sample.rotation "f1" [5] [7] 86401 w) Sample.lateFamily := by
  rw [purgedLate_after]
  have hrows : (after Sample.sha256 (Sample.purgedLate w)).tables.refreshFamilies.rows =
      [Sample.lateFamily] := by rfl
  have habs : (86401 : ℤ) < 8640000 := by decide
  have hidle : (86401 : ℤ) < 864000 := by decide
  exact ⟨by rw [hrows]; simp, rfl, rfl, habs, hidle, rfl, rfl⟩

theorem opened_rotates (sha256 : String → Bytes) (w : ℤ) :
    rotationSucceeded (Machine.event (UserObject.call sha256) (after sha256 Sample.opened)
      (.rotateRefreshToken (Sample.rotation "f1" [5] [6] 0 w))) =
      some (Sample.rotation "f1" [5] [6] 0 w) := by
  have ha : after sha256 Sample.opened = after Sample.sha256 Sample.opened :=
    (Machine.run_congr _ (fun c hc o => call_of_no_verifier _ _ o (lateReuse_no_verifier w c (by
      simp [Sample.lateReuse, Sample.purgedLate, hc]))) _).1
  rw [ha]
  have hr : ((after Sample.sha256 Sample.opened).call sha256
      (.rotateRefreshToken (Sample.rotation "f1" [5] [6] 0 w))).2 =
      ((after Sample.sha256 Sample.opened).call Sample.sha256
        (.rotateRefreshToken (Sample.rotation "f1" [5] [6] 0 w))).2 := by
    rw [call_of_no_verifier sha256 Sample.sha256 _ rfl]
  unfold rotationSucceeded
  rw [Machine.event_reply, hr]
  rfl

theorem lateReuse_reply (sha256 : String → Bytes) (w : ℤ) :
    ((after sha256 (Sample.purgedLate w)).call sha256
      (.rotateRefreshToken (Sample.rotation "f1" [5] [7] 86401 w))).2 =
      .rotate (.fail .invalidGrant false none) := by
  rw [purgedLate_after, call_of_no_verifier sha256 Sample.sha256 _ rfl]
  rfl

/-- Beyond a day the window is cut short by the purge of another call. -/
theorem not_windowHonoured (sha256 : String → Bytes) {w : ℤ} (hw : purgeGraceSeconds < w) :
    ¬ WindowHonoured sha256 w := by
  intro h
  have hnow : (86401 : ℤ) ≤ 0 + w := by
    unfold purgeGraceSeconds at hw
    omega
  obtain ⟨⟨clients, hr⟩, _⟩ := h _ _ _ _ (lateReuse_fresh sha256 w) (lateReuse_clock w)
    (lateReuse_windowIs w) (opened_rotates sha256 w) rfl rfl hnow _ (lateReuse_presented sha256 w)
  have hplain := (lateReuse_reply sha256 w).symm.trans hr
  cases hplain

/-- Reuse detection lasts the configured window exactly when that is at most one day. -/
theorem window_honoured_iff_le_day (sha256 : String → Bytes) (w : ℤ) :
    WindowHonoured sha256 w ↔ w ≤ 86400 := by
  constructor
  · intro h
    by_contra hle
    exact not_windowHonoured sha256 (not_le.mp hle) h
  · exact windowHonoured_of_le_day sha256

/-- The longest window the schema admits is not honoured. -/
theorem window_not_honoured_three_days :
    ReuseWindowAllowed 259200 ∧ ¬ WindowHonoured Sample.sha256 259200 :=
  ⟨by decide, not_windowHonoured Sample.sha256 (by decide)⟩

end TinyOidc.User
