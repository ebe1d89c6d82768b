import TinyOidc.Lib.Ranking
import TinyOidc.User.Lifecycle
import TinyOidc.User.FamilyOrigins

/-! The cap on a client's refresh families. It is applied when a family is opened, at the time of
that exchange; a rotation only extends a live family, and time only ends them. -/
namespace TinyOidc.User
open RowTable TinyOidc.Util
open Tables (familyLive familyNewer)

/-! ### Live families -/

/-- The families of a client that are unrevoked and unexpired at a time. -/
def liveFamilies (t : Tables) (clientId : String) (now : ℤ) : List FamilyRow :=
  t.refreshFamilies.rows.filter (fun f => f.clientId == clientId && familyLive now f)

theorem mem_liveFamilies {t : Tables} {clientId : String} {now : ℤ} {f : FamilyRow} :
    f ∈ liveFamilies t clientId now ↔
      f ∈ t.refreshFamilies.rows ∧ f.clientId = clientId ∧ familyLive now f = true := by
  simp [liveFamilies]

theorem familyLive_iff {now : ℤ} {f : FamilyRow} : familyLive now f = true ↔
    f.revokedAt = none ∧ now < f.idleExpiresAt ∧ now < f.absoluteExpiresAt := by
  simp [familyLive, and_assoc]

/-- Time only ends families. -/
theorem familyLive_of_le {time now : ℤ} {f : FamilyRow} (h : familyLive now f = true)
    (hle : time ≤ now) : familyLive time f = true := by
  obtain ⟨hrevoked, hidle, habsolute⟩ := familyLive_iff.mp h
  exact familyLive_iff.mpr ⟨hrevoked, by omega, by omega⟩

/-- When every live family of a client was one before, by id, there are no more than before. -/
theorem length_liveFamilies_le {t t' : Tables} {clientId : String} {time now : ℤ}
    (h : ∀ f' ∈ liveFamilies t' clientId now,
      ∃ f ∈ liveFamilies t clientId time, f'.id = f.id) :
    (liveFamilies t' clientId now).length ≤ (liveFamilies t clientId time).length := by
  have hkeys : (liveFamilies t' clientId now).length ≤
      ((liveFamilies t clientId time).map (·.id)).length := by
    refine Table.length_filter_le_of_keys fun f' hf' hp => ?_
    obtain ⟨f, hf, hid⟩ := h f' (List.mem_filter.mpr ⟨hf', hp⟩)
    exact List.mem_map.mpr ⟨f, hf, hid.symm⟩
  simpa using hkeys

/-! ### The cap -/

theorem familyNewer_total (a b : FamilyRow) : familyNewer a b ∨ familyNewer b a := by
  unfold familyNewer
  rcases lt_trichotomy a.createdAt b.createdAt with hlt | heq | hgt
  · exact .inr (.inl hlt)
  · rcases String.le_total b.id a.id with hid | hid
    · exact .inl (.inr ⟨heq.symm, hid⟩)
    · exact .inr (.inr ⟨heq, hid⟩)
  · exact .inl (.inl hgt)

theorem familyNewer_trans {a b c : FamilyRow} (hab : familyNewer a b) (hbc : familyNewer b c) :
    familyNewer a c := by
  unfold familyNewer at *
  rcases hab with hab | ⟨hab, hid⟩
  · rcases hbc with hbc | ⟨hbc, -⟩
    · exact .inl (hbc.trans hab)
    · exact .inl (hbc ▸ hab)
  · rcases hbc with hbc | ⟨hbc, hid'⟩
    · exact .inl (hab ▸ hbc)
    · exact .inr ⟨hbc.trans hab, String.le_trans hid' hid⟩

instance : Std.Total familyNewer := ⟨familyNewer_total⟩

instance : IsTrans FamilyRow familyNewer := ⟨fun _ _ _ => familyNewer_trans⟩

theorem id_eq_of_newer {a b : FamilyRow} (hab : familyNewer a b) (hba : familyNewer b a) :
    a.id = b.id := by
  unfold familyNewer at hab hba
  rcases hab with hab | ⟨heq, hid⟩
  · rcases hba with hba | ⟨heq, -⟩ <;> omega
  · rcases hba with hba | ⟨-, hid'⟩
    · omega
    · exact String.le_antisymm hid' hid

/-- A live family of the client with twenty other live ones of it that are greater in
`(created_at, id)`. -/
def beyondNewest (families : List FamilyRow) (clientId : String) (now : ℤ) (f : FamilyRow) : Bool :=
  f.clientId == clientId && familyLive now f &&
    decide (maxRefreshFamiliesPerClient ≤ families.countP (fun g =>
      g.clientId == clientId && familyLive now g && decide (g ≠ f ∧ familyNewer g f)))

def capped (families : List FamilyRow) (clientId : String) (now : ℤ) (f : FamilyRow) : FamilyRow :=
  if beyondNewest families clientId now f then
    { f with revokedAt := some now, revokeReason := some "family_limit" }
  else f

theorem rank_liveFamilies (t : Tables) (clientId : String) (now : ℤ) (f : FamilyRow) :
    Ranking.rank familyNewer (liveFamilies t clientId now) f =
      t.refreshFamilies.rows.countP (fun g =>
        g.clientId == clientId && familyLive now g && decide (g ≠ f ∧ familyNewer g f)) := by
  unfold Ranking.rank liveFamilies
  rw [List.countP_filter]
  refine List.countP_congr fun g _ => ?_
  simp only [Bool.and_eq_true]
  tauto

/-- The ordered subquery names exactly the families beyond the newest ones. -/
theorem beyondLimit_contains {t : Tables} {clientId : String} {now : ℤ} {f : FamilyRow}
    (hf : f ∈ t.refreshFamilies.rows) :
    (t.familiesBeyondLimit clientId now).contains f.id =
      beyondNewest t.refreshFamilies.rows clientId now f := by
  have hnodup : (liveFamilies t clientId now).Nodup :=
    (List.Nodup.of_map _ t.refreshFamilies.nodup).filter _
  have hanti : ∀ a ∈ liveFamilies t clientId now, ∀ b ∈ liveFamilies t clientId now,
      familyNewer a b → familyNewer b a → a = b := fun a ha b hb hab hba =>
    Table.eq_of_key_eq (mem_liveFamilies.mp ha).1 (mem_liveFamilies.mp hb).1
      (id_eq_of_newer hab hba)
  have hdrop := Ranking.mem_drop_insertionSort_iff hnodup hanti maxRefreshFamiliesPerClient f
  have hids : (t.familiesBeyondLimit clientId now).contains f.id = true ↔
      f ∈ ((liveFamilies t clientId now).insertionSort familyNewer).drop
        maxRefreshFamiliesPerClient := by
    simp only [Tables.familiesBeyondLimit, List.contains_iff_mem, List.mem_map]
    constructor
    · rintro ⟨g, hg, hid⟩
      have hgm := (mem_liveFamilies.mp
        ((List.mem_insertionSort familyNewer).mp (List.mem_of_mem_drop hg))).1
      obtain rfl : g = f := Table.eq_of_key_eq hgm hf hid
      exact hg
    · intro h
      exact ⟨f, h, rfl⟩
  rw [Bool.eq_iff_iff, hids, hdrop, mem_liveFamilies, rank_liveFamilies]
  simp [beyondNewest, hf, and_assoc]

theorem limitFamilies_rows (t : Tables) (clientId : String) (now : ℤ) :
    (t.limitFamilies clientId now).refreshFamilies.rows =
      t.refreshFamilies.rows.map (capped t.refreshFamilies.rows clientId now) := by
  unfold Tables.limitFamilies
  refine List.map_congr_left fun f hf => ?_
  simp only [beyondLimit_contains hf, capped]

/-- After the cap its client holds no more live families than it allows. -/
theorem liveFamilies_limitFamilies (t : Tables) (clientId : String) (now : ℤ) :
    (liveFamilies (t.limitFamilies clientId now) clientId now).length ≤
      maxRefreshFamiliesPerClient := by
  have hkept : (liveFamilies (t.limitFamilies clientId now) clientId now).length ≤
      (((liveFamilies t clientId now).insertionSort familyNewer).take
        maxRefreshFamiliesPerClient |>.map (·.id)).length := by
    refine Table.length_filter_le_of_keys fun f' hf' hp => ?_
    obtain ⟨f, hf, ⟨hout, rfl⟩ | ⟨-, rfl⟩⟩ := Table.exists_of_mem_update hf'
    · simp only [Bool.and_eq_true, beq_iff_eq] at hp
      have hsorted : f' ∈ (liveFamilies t clientId now).insertionSort familyNewer :=
        (List.mem_insertionSort _).mpr (mem_liveFamilies.mpr ⟨hf, hp⟩)
      rw [← List.take_append_drop maxRefreshFamiliesPerClient
        ((liveFamilies t clientId now).insertionSort familyNewer)] at hsorted
      rcases List.mem_append.mp hsorted with htake | hdrop
      · exact List.mem_map.mpr ⟨f', htake, rfl⟩
      · have hnamed : f'.id ∈ t.familiesBeyondLimit clientId now :=
          List.mem_map.mpr ⟨f', hdrop, rfl⟩
        rw [List.contains_iff_mem.mpr hnamed] at hout
        cases hout
    · simp [familyLive] at hp
  refine hkept.trans ?_
  rw [List.length_map, List.length_take]
  exact Nat.min_le_left _ _

/-- The cap leaves the families of other clients, and revokes those it touches. -/
theorem mem_limitFamilies_live {t : Tables} {clientId other : String} {time now : ℤ}
    {f : FamilyRow} (h : f ∈ liveFamilies (t.limitFamilies clientId now) other time) :
    f ∈ liveFamilies t other time := by
  obtain ⟨hf, hclient, hlive⟩ := mem_liveFamilies.mp h
  obtain ⟨g, hg, ⟨-, rfl⟩ | ⟨-, rfl⟩⟩ := Table.exists_of_mem_update hf
  · exact mem_liveFamilies.mpr ⟨hg, hclient, hlive⟩
  · simp [familyLive] at hlive

/-! ### One step -/

/-- A later row of a family: its ends stay, but for the idle one when a token is issued for it. -/
structure FamilyRow.LaterLife (e : CallEvent) (f f' : FamilyRow) : Prop where
  id : f'.id = f.id
  client : f'.clientId = f.clientId
  absolute : f'.absoluteExpiresAt = f.absoluteExpiresAt
  unrevoked : f'.revokedAt = none → f.revokedAt = none
  idle : f'.idleExpiresAt = f.idleExpiresAt ∨ ∃ x, tokenIssued e = some (f.id, x)

theorem FamilyRow.LaterLife.refl (e : CallEvent) (f : FamilyRow) : f.LaterLife e f :=
  ⟨rfl, rfl, rfl, fun h => h, .inl rfl⟩

theorem FamilyRow.LaterLife.trans {e : CallEvent} {a b c : FamilyRow} (h : a.LaterLife e b)
    (h' : b.LaterLife e c) : a.LaterLife e c where
  id := h'.id.trans h.id
  client := h'.client.trans h.client
  absolute := h'.absolute.trans h.absolute
  unrevoked := h.unrevoked ∘ h'.unrevoked
  idle := by
    rcases h'.idle with hsame | ⟨x, hx⟩
    · rcases h.idle with hsame' | hissued
      · exact .inl (hsame.trans hsame')
      · exact .inr hissued
    · exact .inr ⟨x, h.id ▸ hx⟩

def LivesEvolve (e : CallEvent) (t t' : Tables) : Prop :=
  t.refreshFamilies.Evolves (FamilyRow.LaterLife e) (fun f => familyOpened e = some f.id)
    t'.refreshFamilies

theorem Change.livesEvolve {e : CallEvent} {t t' : Tables} (h : Change e t t') :
    LivesEvolve e t t' := by
  have hrefl := FamilyRow.LaterLife.refl e
  cases h with
  | aside h => exact .of_eq hrefl h.families
  | writeUser h => exact .refl hrefl
  | clear h => exact Table.evolves_empty
  | purge h => exact Table.evolves_deleteWhere hrefl _
  | revokeSessions p now reason => exact .refl hrefl
  | revokeFamilies p now reason =>
    refine Table.evolves_update hrefl rfl fun f hf => ⟨rfl, rfl, rfl, ?_, .inl rfl⟩
    intro hnone
    cases hnone
  | dropFamily id => exact Table.evolves_deleteWhere hrefl _
  | createSession h hc hg =>
    obtain ⟨sessions, _, rfl⟩ := insertSession_ok h
    exact .refl hrefl
  | rotateSession hr hm h =>
    rw [rotateSession_ok h]
    exact .refl hrefl
  | touchSession idleTtl hm hl hn => exact .of_eq hrefl (touchSession_sameBut _ _ _ _).2.1
  | issueCode h hn hs hc => exact .refl hrefl
  | consumeCode now hc => exact .refl hrefl
  | openFamily hf ht hid hs hu hcode hm hc hi => exact Table.evolves_insert hrefl hf hc
  | advanceFamily hm hu h hi =>
    obtain ⟨tokens, _, rfl⟩ := advanceFamily_ok h
    refine Table.evolves_update hrefl rfl fun f hf => ⟨rfl, rfl, rfl, fun h => h, .inr ?_⟩
    rw [beq_iff_eq] at hf
    exact ⟨_, hf ▸ hi⟩

theorem call_livesEvolve (sha256 : String → Bytes) (o : UserObject) (c : Call) :
    LivesEvolve (Machine.event (UserObject.call sha256) o c) o.tables
      (o.call sha256 c).1.tables := by
  have hchanges := call_changes sha256 o c
  generalize (o.call sha256 c).1.tables = t' at hchanges
  induction hchanges with
  | refl => exact .refl (FamilyRow.LaterLife.refl _)
  | tail _ hc ih => exact ih.trans .trans (fun hl hn => by rw [hl.id]; exact hn) hc.livesEvolve

theorem familyOpened_of_exchange {e : CallEvent} {input : ExchangeCodeInput} {r : RefreshInput}
    (h : exchangeSucceeded e = some input) (hr : input.refresh = some r) :
    familyOpened e = some r.familyId := by
  simp [familyOpened, h, hr]

/-- A step that opens no family issues tokens by rotation only. -/
theorem rotation_of_tokenIssued {e : CallEvent} {id : String} {x : Bytes}
    (hnone : familyOpened e = none) (h : tokenIssued e = some (id, x)) :
    ∃ input, rotationSucceeded e = some input ∧ input.familyId = id := by
  unfold tokenIssued at h
  split at h
  · next input hinput =>
    cases h
    exact ⟨input, hinput, rfl⟩
  · obtain ⟨input, hinput, hrefresh⟩ := Option.bind_eq_some_iff.mp h
    obtain ⟨r, hr, -⟩ := Option.map_eq_some_iff.mp hrefresh
    rw [familyOpened_of_exchange hinput hr] at hnone
    cases hnone

/-- A family live after a step that opens none was live before: at the same time, or at the time
of the rotation that extended it. -/
theorem live_before_step {sha256 : String → Bytes} {o : UserObject} {c : Call} {clientId : String}
    {n : ℤ} {f' : FamilyRow}
    (hnone : familyOpened (Machine.event (UserObject.call sha256) o c) = none)
    (h : f' ∈ liveFamilies (o.call sha256 c).1.tables clientId n) :
    ∃ f ∈ o.tables.refreshFamilies.rows, f'.id = f.id ∧ f.clientId = clientId ∧
      (familyLive n f = true ∨
        ∃ input, c = .rotateRefreshToken input ∧ familyLive input.now f = true) := by
  obtain ⟨hf', hclient, hlive⟩ := mem_liveFamilies.mp h
  obtain ⟨hrevoked, hidle, habsolute⟩ := familyLive_iff.mp hlive
  rcases call_livesEvolve sha256 o c f' hf' with ⟨f, hf, hlater⟩ | hopened
  · refine ⟨f, hf, hlater.id, hlater.client ▸ hclient, ?_⟩
    rcases hlater.idle with hsame | ⟨x, hissued⟩
    · refine .inl (familyLive_iff.mpr ⟨hlater.unrevoked hrevoked, ?_, ?_⟩)
      · rw [← hsame]
        exact hidle
      · rw [← hlater.absolute]
        exact habsolute
    · obtain ⟨input, hrotation, hid⟩ := rotation_of_tokenIssued hnone hissued
      obtain ⟨hc, user, family, token, -, hrotated⟩ := rotationSucceeded_commit hrotation
      have hp := hrotated.presented
      obtain rfl : family = f := Table.eq_of_key_eq (purgedTables_families_subset hp.family_mem) hf
        (hp.family_id.trans hid)
      exact .inr ⟨input, hc, familyLive_iff.mpr ⟨hp.unrevoked, hp.idle, hp.absolute⟩⟩
  · rw [hnone] at hopened
    cases hopened

/-- What an exchange that opens a family leaves: the rows with the new one, cut to the cap. -/
structure CapApplied (input : ExchangeCodeInput) (r : RefreshInput) (o o' : UserObject) : Prop where
  rows : ∃ family : FamilyRow, family.id = r.familyId ∧ family.clientId = input.client.clientId ∧
    family.createdAt = input.now ∧ family.revokedAt = none ∧
    let families := (purgedTables o input.now purgeGraceSeconds).refreshFamilies.rows ++ [family]
    o'.tables.refreshFamilies.rows =
      families.map (capped families input.client.clientId input.now)
  own : (liveFamilies o'.tables input.client.clientId input.now).length ≤
    maxRefreshFamiliesPerClient

/-- The tables an exchange that opens a family cuts to the cap. -/
theorem exchange_limited {sha256 : String → Bytes} {o : UserObject} {c : Call}
    {input : ExchangeCodeInput} {r : RefreshInput}
    (h : exchangeSucceeded (Machine.event (UserObject.call sha256) o c) = some input)
    (hr : input.refresh = some r) :
    ∃ (t : Tables) (family : FamilyRow), family.id = r.familyId ∧
      family.clientId = input.client.clientId ∧ family.createdAt = input.now ∧
      family.revokedAt = none ∧
      t.refreshFamilies.rows =
        (purgedTables o input.now purgeGraceSeconds).refreshFamilies.rows ++ [family] ∧
      (o.call sha256 c).1.tables = t.limitFamilies input.client.clientId input.now := by
  obtain ⟨user, challenge, code, session, -, -, hwrote, -⟩ := exchangeSucceeded_commit h
  simp only [ExchangeWrote, hr] at hwrote
  obtain ⟨families, tokens, hinsert, -, htables⟩ := openFamily_ok hwrote
  refine ⟨_, Tables.newFamilyRow input r code session, rfl, rfl, rfl, rfl, ?_, htables⟩
  unfold Table.insert at hinsert
  split at hinsert
  · cases hinsert
  · cases hinsert
    rfl

theorem exchange_capApplied {sha256 : String → Bytes} {o : UserObject} {c : Call}
    {input : ExchangeCodeInput} {r : RefreshInput}
    (h : exchangeSucceeded (Machine.event (UserObject.call sha256) o c) = some input)
    (hr : input.refresh = some r) : CapApplied input r o (o.call sha256 c).1 := by
  obtain ⟨t, family, hid, hclient, hcreated, hnone, hrows, htables⟩ := exchange_limited h hr
  constructor
  · refine ⟨family, hid, hclient, hcreated, hnone, ?_⟩
    dsimp only
    rw [htables, limitFamilies_rows, hrows]
  · rw [htables]
    exact liveFamilies_limitFamilies t _ _

/-- A family live after an exchange that opens one is that one, or was live before. -/
theorem live_before_exchange {sha256 : String → Bytes} {o : UserObject} {c : Call}
    {input : ExchangeCodeInput} {r : RefreshInput} {clientId : String} {n : ℤ} {f : FamilyRow}
    (h : exchangeSucceeded (Machine.event (UserObject.call sha256) o c) = some input)
    (hr : input.refresh = some r)
    (hf : f ∈ liveFamilies (o.call sha256 c).1.tables clientId n) :
    f ∈ liveFamilies o.tables clientId n ∨
      f.id = r.familyId ∧ f.clientId = input.client.clientId := by
  obtain ⟨t, family, hid, hclient, -, -, hrows, htables⟩ := exchange_limited h hr
  rw [htables] at hf
  obtain ⟨hmem, hfc, hlive⟩ := mem_liveFamilies.mp (mem_limitFamilies_live hf)
  rw [hrows] at hmem
  rcases List.mem_append.mp hmem with hold | hnew
  · exact .inl (mem_liveFamilies.mpr ⟨purgedTables_families_subset hold, hfc, hlive⟩)
  · rw [List.mem_singleton.mp hnew]
    exact .inr ⟨hid, hclient⟩

/-! ### Runs -/

/-- The time of an exchange is the reading of a call of the run, also when it was suspended. -/
theorem exchange_now_read {sha256 : String → Bytes} {calls : List Call} {c : Call}
    {input : ExchangeCodeInput}
    (h : exchangeSucceeded (Machine.event (UserObject.call sha256) (after sha256 calls) c) =
      some input) : input.now ∈ (c :: calls).filterMap Call.now? := by
  obtain ⟨user, challenge, hcommit⟩ := exchangeCommit_of_ok h
  have hrun := exchangeRun_of_commit hcommit
  unfold exchangeRun at hrun
  dsimp only [Machine.event_input, Machine.event_pre] at hrun
  split at hrun
  · cases hrun
    exact mem_filterMap_cons.mpr (.inl rfl)
  · split at hrun
    · next hlookup =>
      cases hrun
      obtain ⟨later, earlier, _, rfl, -⟩ := suspended_exchange_after sha256 (mem_of_lookup hlookup)
      refine List.mem_filterMap.mpr ⟨.exchangeCode input, ?_, rfl⟩
      simp
    · cases hrun
  · cases hrun

def readings (calls : List Call) : List ℤ := calls.filterMap Call.now?

theorem readings_le_of_clockMonotone {calls : List Call} {c : Call} {now : ℤ}
    (h : ClockMonotone (c :: calls)) (hc : c.now? = some now) : ∀ m ∈ readings calls, m ≤ now := by
  unfold ClockMonotone at h
  rw [List.filterMap_cons_some hc, List.pairwise_cons] at h
  exact h.1

theorem ClockMonotone.tail {calls : List Call} {c : Call} (h : ClockMonotone (c :: calls)) :
    ClockMonotone calls := by
  unfold ClockMonotone at *
  exact h.sublist ((List.sublist_cons_self c calls).filterMap _)

/-- No client holds more live families than the cap, at any time not before the run's clock. -/
theorem families_capped (sha256 : String → Bytes) {calls : List Call} (hclock : ClockMonotone calls)
    (clientId : String) (n : ℤ) (hn : ∀ m ∈ readings calls, m ≤ n) :
    (liveFamilies (after sha256 calls).tables clientId n).length ≤
      maxRefreshFamiliesPerClient := by
  induction calls generalizing n with
  | nil => exact Nat.zero_le _
  | cons c calls ih =>
    have hearlier : ∀ m ∈ readings calls, m ≤ n :=
      fun m hm => hn m (mem_filterMap_cons.mpr (.inr hm))
    cases hopened : familyOpened
      (Machine.event (UserObject.call sha256) (after sha256 calls) c) with
    | some id =>
      obtain ⟨input, hinput, hrefresh⟩ := Option.bind_eq_some_iff.mp hopened
      obtain ⟨r, hr, -⟩ := Option.map_eq_some_iff.mp hrefresh
      by_cases hclient : input.client.clientId = clientId
      · -- The cap was applied at the exchange's own time, which is not after `n`.
        have hown := (exchange_capApplied hinput hr).own
        rw [hclient] at hown
        refine (length_liveFamilies_le fun f hf => ⟨f, ?_, rfl⟩).trans hown
        obtain ⟨hmem, hfc, hlive⟩ := mem_liveFamilies.mp hf
        exact mem_liveFamilies.mpr ⟨hmem, hfc,
          familyLive_of_le hlive (hn _ (exchange_now_read hinput))⟩
      · refine (length_liveFamilies_le fun f hf => ⟨f, ?_, rfl⟩).trans (ih hclock.tail n hearlier)
        rcases live_before_exchange hinput hr hf with hold | ⟨-, hfc⟩
        · exact hold
        · exact absurd (hfc.symm.trans (mem_liveFamilies.mp hf).2.1) hclient
    | none =>
      by_cases hrotation : ∃ input, c = .rotateRefreshToken input
      · -- The rotated family was live at the reading of this call, which no earlier one is after.
        obtain ⟨input, rfl⟩ := hrotation
        have hnow : input.now ≤ n := hn _ (mem_filterMap_cons.mpr (.inl rfl))
        refine (length_liveFamilies_le fun f hf => ?_).trans
          (ih hclock.tail input.now (readings_le_of_clockMonotone hclock rfl))
        obtain ⟨g, hg, hid, hgc, hlive | ⟨input', hinput', hlive⟩⟩ := live_before_step hopened hf
        · exact ⟨g, mem_liveFamilies.mpr ⟨hg, hgc, familyLive_of_le hlive hnow⟩, hid⟩
        · cases hinput'
          exact ⟨g, mem_liveFamilies.mpr ⟨hg, hgc, hlive⟩, hid⟩
      · refine (length_liveFamilies_le fun f hf => ?_).trans (ih hclock.tail n hearlier)
        obtain ⟨g, hg, hid, hgc, hlive | ⟨input', hinput', -⟩⟩ := live_before_step hopened hf
        · exact ⟨g, mem_liveFamilies.mpr ⟨hg, hgc, hlive⟩, hid⟩
        · exact absurd ⟨input', hinput'⟩ hrotation

def FamilyEnded (time : ℤ) (id : String) (t : Tables) : Prop :=
  ∀ f ∈ t.refreshFamilies.rows, f.id = id → familyLive time f = false

/-- A family that has ended is not live again: a rotation needs it live, and the id is not used
for another. -/
theorem FamilyEnded.step {sha256 : String → Bytes} {o : UserObject} {c : Call} {time : ℤ}
    {id : String} (h : FamilyEnded time id o.tables)
    (hfresh : familyOpened (Machine.event (UserObject.call sha256) o c) ≠ some id)
    (htime : ∀ now, c.now? = some now → time ≤ now) :
    FamilyEnded time id (o.call sha256 c).1.tables := by
  intro f hf hid
  by_contra hlive
  rw [Bool.not_eq_false] at hlive
  have hmem : f ∈ liveFamilies (o.call sha256 c).1.tables f.clientId time :=
    mem_liveFamilies.mpr ⟨hf, rfl, hlive⟩
  cases hopened : familyOpened (Machine.event (UserObject.call sha256) o c) with
  | some opened =>
    obtain ⟨input, hinput, hrefresh⟩ := Option.bind_eq_some_iff.mp hopened
    obtain ⟨r, hr, -⟩ := Option.map_eq_some_iff.mp hrefresh
    rcases live_before_exchange hinput hr hmem with hold | ⟨hnew, -⟩
    · obtain ⟨hstored, -, hlive⟩ := mem_liveFamilies.mp hold
      rw [h f hstored hid] at hlive
      cases hlive
    · rw [familyOpened_of_exchange hinput hr, ← hnew, hid] at hfresh
      exact hfresh rfl
  | none =>
    obtain ⟨g, hg, hgid, -, hlive | ⟨input, rfl, hlive⟩⟩ := live_before_step hopened hmem
    · rw [h g hg (hgid.symm.trans hid)] at hlive
      cases hlive
    · have hlive := familyLive_of_le hlive (htime input.now rfl)
      rw [h g hg (hgid.symm.trans hid)] at hlive
      cases hlive

theorem familyEnded_after (sha256 : String → Bytes) {later earlier : List Call} {time : ℤ}
    {id : String} (hfresh : Fresh (history sha256 (later ++ earlier)))
    (htime : ∀ m ∈ readings later, time ≤ m)
    (hstored : id ∈ (history sha256 earlier).filterMap familyOpened)
    (h : FamilyEnded time id (after sha256 earlier).tables) :
    FamilyEnded time id (after sha256 (later ++ earlier)).tables := by
  induction later with
  | nil => exact h
  | cons c later ih =>
    have hpast : history sha256 earlier ⊆ history sha256 (later ++ earlier) := by
      rw [history, history, Machine.events_append]
      exact List.subset_append_right _ _
    refine (ih hfresh.tail fun m hm => htime m (mem_filterMap_cons.mpr (.inr hm))).step
      (ne_of_nodup hfresh.families hpast hstored) fun now hnow => ?_
    exact htime now (mem_filterMap_cons.mpr (.inl hnow))

structure FamilyCap (sha256 : String → Bytes) (calls : List Call) : Prop where
  /-- After every step no client holds more than the cap, at any time the clock has reached. -/
  capped : ∀ earlier, earlier <:+ calls → ∀ clientId n, (∀ m ∈ readings earlier, m ≤ n) →
    (liveFamilies (after sha256 earlier).tables clientId n).length ≤ maxRefreshFamiliesPerClient
  /-- An exchange that opens a family revokes exactly those beyond the newest. -/
  opened : ∀ e ∈ history sha256 calls, ∀ input r, exchangeSucceeded e = some input →
    input.refresh = some r → CapApplied input r e.pre (e.pre.call sha256 e.input).1
  /-- A family that has ended by the clock is not live again. -/
  ended : ∀ later earlier n, calls = later ++ earlier → (∀ m ∈ readings later, n ≤ m) →
    ∀ f ∈ (after sha256 earlier).tables.refreshFamilies.rows,
      f.idleExpiresAt ≤ n ∨ f.absoluteExpiresAt ≤ n →
      ∀ f' ∈ (after sha256 calls).tables.refreshFamilies.rows, f'.id = f.id →
        ∀ m, n ≤ m → familyLive m f' = false

theorem clockMonotone_of_suffix {earlier calls : List Call} (h : ClockMonotone calls)
    (hsuffix : earlier <:+ calls) : ClockMonotone earlier := by
  unfold ClockMonotone at *
  exact h.sublist (hsuffix.sublist.filterMap _)

/-- The cap holds in every run whose calls begin in the order of the clock and use fresh ids. -/
theorem familyCap_run (sha256 : String → Bytes) (calls : List Call)
    (hfresh : Fresh (history sha256 calls)) (hclock : ClockMonotone calls) :
    FamilyCap sha256 calls where
  capped earlier hsuffix clientId n hn :=
    families_capped sha256 (clockMonotone_of_suffix hclock hsuffix) clientId n hn
  opened e he input r hinput hr := by
    obtain ⟨later, c, earlier, -, rfl⟩ := Machine.exists_of_mem_events _ he
    exact exchange_capApplied hinput hr
  ended := by
    rintro later earlier n rfl htime f hf hexpired f' hf' hid m hm
    have hnow : FamilyEnded n f.id (after sha256 earlier).tables := by
      intro g hg hgid
      obtain rfl : g = f := Table.eq_of_key_eq hg hf hgid
      by_contra hlive
      obtain ⟨-, hidle, habsolute⟩ := familyLive_iff.mp (by simpa using hlive)
      omega
    have hlater := familyEnded_after sha256 hfresh htime
      ((stored_after sha256 earlier).families f hf) hnow f' hf' hid
    by_contra hlive
    rw [familyLive_of_le (by simpa using hlive) hm] at hlater
    cases hlater

namespace Sample

/-- Logins at `t`, `t - 1` and so on, whose codes open families that all expire at 101. -/
def expiringFamilies : List String → ℕ → List Call
  | [], _ => []
  | id :: ids, t =>
      .exchangeCode ⟨[t.toUInt8], client, "https://app.test/cb", none, t,
          some ⟨[t.toUInt8], id, true, 101 - t, 1000⟩⟩ ::
        login id [t.toUInt8] t (some (code [t.toUInt8])) :: expiringFamilies ids (t - 1)

/-- Twenty families of `app`, and one more that makes room for itself. -/
def crowded : List Call :=
  [exchange [201] 61 (some (refresh "z" [201] true)), login "y" [201] 61 (some (code [201]))] ++
  expiringFamilies ["t", "s", "r", "q", "p", "o", "n", "m", "l", "k", "j", "i", "h", "g", "f", "e",
    "d", "c", "b", "a"] 60 ++ [init]

def otherClient : ClientRef := ⟨"other", 5, true, none⟩

/-- Twenty families of `app`, a login for `other` whose exchange begins at 100 and waits for the
hash of its verifier, one more family of `app` at 101, and the end of that exchange. -/
def overtaken : List Call :=
  [.resumeExchange 0, exchange [201] 101 (some (refresh "z" [201] true)),
    login "y" [201] 101 (some (code [201])),
    .exchangeCode ⟨[200], otherClient, "https://app.test/cb", some verifier, 100,
      some (refresh "x" [200] true)⟩,
    login "w" [200] 100 (some { code [200] with
      clientId := "other"
      codeChallenge := some "E9Melhoa2OwvFrEMTJguCHaoeK1t8URWbuGJSstw-cM" })] ++
  expiringFamilies ["t", "s", "r", "q", "p", "o", "n", "m", "l", "k", "j", "i", "h", "g", "f", "e",
    "d", "c", "b", "a"] 60 ++ [init]

end Sample

theorem familyCap_run_sample : FamilyCap Sample.sha256 Sample.crowded ∧
    (liveFamilies (after Sample.sha256 (Sample.crowded.drop 2)).tables "app" 61).length = 20 ∧
    (liveFamilies (after Sample.sha256 Sample.crowded).tables "app" 61).length = 20 :=
  ⟨familyCap_run Sample.sha256 Sample.crowded (by decide +kernel) (by decide +kernel),
    by decide +kernel⟩

/-- After a successful exchange each client is within the cap at the time of that exchange. -/
def EachClientCapped (sha256 : String → Bytes) (calls : List Call) : Prop :=
  ∀ e ∈ history sha256 calls, ∀ input, exchangeSucceeded e = some input → ∀ clientId,
    (liveFamilies (e.pre.call sha256 e.input).1.tables clientId input.now).length ≤
      maxRefreshFamiliesPerClient

/-- A client other than the exchange's own can hold more at the time of that exchange, when a
later call opened a family before it was finished. -/
theorem eachClientCapped_overtaken :
    Fresh (history Sample.sha256 Sample.overtaken) ∧ ClockMonotone Sample.overtaken ∧
      ¬ EachClientCapped Sample.sha256 Sample.overtaken := by
  refine ⟨by decide +kernel, by decide +kernel, fun h => ?_⟩
  have hcapped := h _ List.mem_cons_self
    ⟨[200], Sample.otherClient, "https://app.test/cb", some Sample.verifier, 100,
      some (Sample.refresh "x" [200] true)⟩ (by decide +kernel) "app"
  revert hcapped
  decide +kernel

end TinyOidc.User
