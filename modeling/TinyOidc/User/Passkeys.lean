import TinyOidc.User.Beside

/-! The passkeys over a run of calls. While a row is stored only an accepted assertion writes its
counter, and the policy reads the row at that moment, whatever ran during the signature check. -/
namespace TinyOidc.User
open RowTable TinyOidc.Util

theorem insertIdentity_passkeys {t t' : Tables} {identity : NewIdentity} {now : ℤ}
    (h : UserObject.insertIdentity t identity now = .ok t') : t'.passkeys = t.passkeys := by
  unfold UserObject.insertIdentity at h
  split at h
  · cases h
  · split at h <;> cases h
    rfl

theorem insertIdentities_passkeys {now : ℤ} {t t' : Tables} {identities : List NewIdentity}
    (h : UserObject.insertIdentities now t identities = .ok t') : t'.passkeys = t.passkeys := by
  induction identities generalizing t with
  | nil =>
    cases h
    rfl
  | cons identity rest ih =>
    unfold UserObject.insertIdentities at h
    split at h
    · cases h
    · next t₁ h₁ => exact (ih h).trans (insertIdentity_passkeys h₁)

def touchesPasskeys : Call → Bool
  | .destroy | .addPasskey _ _ _ | .resumeAssertion _ _ | .removePasskey _ _
  | .renamePasskey _ _ => true
  | _ => false

theorem grantFor_passkeys (t : Tables) (client : ClientRef) :
    (t.grantFor client).1.passkeys = t.passkeys := by
  unfold Tables.grantFor
  repeat' split
  all_goals rfl

theorem consentCovered_passkeys (t : Tables) (input : AuthorizeWithSessionInput) :
    (UserObject.consentCovered t input).1.passkeys = t.passkeys := by
  unfold UserObject.consentCovered
  split
  · rfl
  · exact grantFor_passkeys t input.client

theorem authorizeWithSession_passkeys (o : UserObject) (input : AuthorizeWithSessionInput) :
    (o.authorizeWithSession input).1.tables.passkeys = o.tables.passkeys := by
  have hconsent := consentCovered_passkeys o.tables input
  unfold UserObject.authorizeWithSession UserObject.guarded
  split
  · rfl
  dsimp only
  split
  · rfl
  split_ifs
  · rfl
  · rfl
  · rfl
  · rfl
  · exact hconsent
  split
  · exact hconsent
  · split
    · rfl
    · next t hissued =>
      exact ((Tables.issueCodeRows_beside hissued).passkeys.trans
        (purgeIfDue_beside _ _ _).passkeys).trans hconsent

theorem call_passkeys_kept (sha256 : String → Bytes) (o : UserObject) {c : Call}
    (h : touchesPasskeys c = false) :
    (o.call sha256 c).1.tables.passkeys = o.tables.passkeys := by
  cases hbeside : touchesBeside c with
  | false => exact (call_beside sha256 o hbeside).passkeys
  | true =>
    cases c with
    | init p now identities =>
      unfold UserObject.call UserObject.init answered
      dsimp only
      repeat' split
      all_goals first | rfl | next hinsert => exact (insertIdentities_passkeys hinsert).trans rfl
    | authorizeWithSession input => exact authorizeWithSession_passkeys o input
    | grantConsent client scopes now =>
      unfold UserObject.call UserObject.grantConsent UserObject.guarded answered
      dsimp only
      split
      · rfl
      · exact grantFor_passkeys o.tables client
    | listGrants clients =>
      unfold UserObject.call UserObject.listGrants UserObject.guarded answered
      dsimp only
      split <;> rfl
    | revokeGrant clientId now =>
      unfold UserObject.call UserObject.revokeGrant UserObject.guarded answered
      dsimp only
      split <;> rfl
    | addIdentity identity now =>
      unfold UserObject.call UserObject.addIdentity UserObject.guarded answered
      dsimp only
      repeat' split
      all_goals first | rfl | next hinsert => exact insertIdentity_passkeys hinsert
    | touchIdentity issuer subject claims now =>
      unfold UserObject.call UserObject.touchIdentity UserObject.guarded answered
      dsimp only
      split <;> rfl
    | removeIdentity id actor =>
      unfold UserObject.call UserObject.removeIdentity UserObject.guarded answered
      dsimp only
      repeat' split
      all_goals rfl
    | _ => simp [touchesPasskeys, touchesBeside] at h hbeside

/-! ### One step -/

/-- The counter an assertion was accepted with, for the passkey `pid`. -/
def acceptedCounter (pid : String) (e : CallEvent) : Option ℕ :=
  match e.reply with
  | .assertion (.done (.ok _ passkey)) => if passkey.id = pid then some passkey.counter else none
  | _ => none

def assertionRefused (e : CallEvent) : Bool :=
  match e.reply with
  | .assertion (.done (.fail _)) | .assertion (.done (.regression _ _ _))
  | .assertion (.done (.thrown _)) => true
  | _ => false

def passkey? (o : UserObject) (pid : String) : Option PasskeyRow := o.tables.passkeys.find pid

/-- What a step does to a row that stays stored: the counter and the time of use are kept, or an
assertion the policy accepts writes them. -/
inductive PasskeyStep (pid : String) (row row' : PasskeyRow) (e : CallEvent) : Prop where
  | kept (accepted : acceptedCounter pid e = none) (counter : row'.counter = row.counter)
      (lastUsedAt : row'.lastUsedAt = row.lastUsedAt)
  | accepted (accepted : acceptedCounter pid e = some row'.counter)
      (policy : counterPolicy row.counter row'.counter = .accept)

theorem commitAssertion_cases {o o' : UserObject} {credentialId : String} {now : ℤ}
    {newCounter : ℕ} {r : AssertionOutcome}
    (h : o.commitAssertion credentialId now newCounter = (o', r)) :
    (o' = o ∧ ∀ p row, r ≠ .ok p row) ∨
      ∃ row user, row ∈ o.tables.passkeys.rows ∧ row.credentialId = credentialId ∧
        counterPolicy row.counter newCounter = .accept ∧
        r = .ok user { row with counter := newCounter, lastUsedAt := some now } ∧
        o'.tables.passkeys = o.tables.passkeys.updateWhere (·.id == row.id)
          (fun r => { r with counter := newCounter, lastUsedAt := some now }) (fun _ => rfl) := by
  unfold UserObject.commitAssertion at h
  split at h
  · next row user hrow huser =>
    split_ifs at h with hpolicy
    · cases h
      exact .inl ⟨rfl, fun _ _ => by simp⟩
    · cases h
      refine .inr ⟨row, _, List.mem_of_find?_eq_some hrow, ?_, ?_, rfl, rfl⟩
      · simpa using List.find?_some hrow
      · cases hp : counterPolicy row.counter newCounter with
        | accept => rfl
        | regression => exact absurd hp hpolicy
  · cases h
    exact .inl ⟨rfl, fun _ _ => by simp⟩

/-- The end of an assertion: it is refused and the passkeys stay, or it is accepted. -/
theorem resumeAssertion_cases {o o' : UserObject} {call : ℕ} {verified : Option ℕ}
    {r : Option AssertionOutcome} (h : o.resumeAssertion call verified = (o', r)) :
    (o'.tables.passkeys = o.tables.passkeys ∧ ∀ p row, r ≠ some (.ok p row)) ∨
      ∃ row user newCounter now, row ∈ o.tables.passkeys.rows ∧
        counterPolicy row.counter newCounter = .accept ∧
        r = some (.ok user { row with counter := newCounter, lastUsedAt := some now }) ∧
        o'.tables.passkeys = o.tables.passkeys.updateWhere (·.id == row.id)
          (fun r => { r with counter := newCounter, lastUsedAt := some now }) (fun _ => rfl) := by
  unfold UserObject.resumeAssertion at h
  split at h
  · dsimp only at h
    split at h
    · cases h
      exact .inl ⟨rfl, fun _ _ => by simp⟩
    · next newCounter =>
      split_ifs at h
      · cases h
        exact .inl ⟨rfl, fun _ _ => by simp⟩
      · obtain ⟨rfl, rfl⟩ := Prod.mk.inj h
        obtain ⟨hsame, hrefused⟩ | ⟨row, user, hrow, -, hpolicy, hreply, hwritten⟩ :=
          commitAssertion_cases (Prod.eta (UserObject.commitAssertion _ _ _ _)).symm
        · refine .inl ⟨by rw [hsame], fun p row heq => hrefused p row (Option.some.inj heq)⟩
        · exact .inr ⟨row, user, newCounter, _, hrow, hpolicy, by rw [hreply], hwritten⟩
  · cases h
    exact .inl ⟨rfl, fun _ _ => by simp⟩

theorem verifyAssertion_not_accepted (sha256 : String → Bytes) (o : UserObject) (pid : String)
    (credentialId : String) (now : ℤ) :
    acceptedCounter pid
      (Machine.event (UserObject.call sha256) o (.verifyAssertion credentialId now)) = none := by
  unfold acceptedCounter
  simp only [Machine.event_reply, UserObject.call, UserObject.verifyAssertion, UserObject.guarded,
    answered]
  cases o.guard with
  | error e => rfl
  | ok user =>
    dsimp only
    cases UserObject.passkeyByCredential o.tables credentialId <;> rfl

/-- Only the end of an assertion accepts one. -/
theorem acceptedCounter_eq_none (sha256 : String → Bytes) (o : UserObject) (pid : String) {c : Call}
    (h : ∀ call verified, c ≠ .resumeAssertion call verified) :
    acceptedCounter pid (Machine.event (UserObject.call sha256) o c) = none := by
  cases c with
  | resumeAssertion call verified => exact absurd rfl (h call verified)
  | verifyAssertion credentialId now => exact verifyAssertion_not_accepted sha256 o pid _ now
  | resumeExchange call =>
    unfold acceptedCounter
    simp only [Machine.event_reply, UserObject.call, answered]
    cases (o.resumeExchange call).2 <;> rfl
  | _ => rfl

theorem resumeAssertion_step (sha256 : String → Bytes) {o : UserObject} {pid : String}
    {row row' : PasskeyRow} (call : ℕ) (verified : Option ℕ) (hrow : passkey? o pid = some row)
    (hrow' : passkey? (o.call sha256 (.resumeAssertion call verified)).1 pid = some row') :
    PasskeyStep pid row row'
      (Machine.event (UserObject.call sha256) o (.resumeAssertion call verified)) := by
  have hcases := resumeAssertion_cases (Prod.eta (o.resumeAssertion call verified)).symm
  simp only [passkey?, UserObject.call, answered] at hrow'
  obtain ⟨hsame, hrefused⟩ | ⟨used, user, newCounter, now, hused, hpolicy, hreply, hwritten⟩ :=
    hcases
  · rw [hsame] at hrow'
    obtain rfl : row = row' := Option.some.inj (hrow.symm.trans hrow')
    refine .kept ?_ rfl rfl
    unfold acceptedCounter
    simp only [Machine.event_reply, UserObject.call, answered]
    cases hr : (o.resumeAssertion call verified).2 with
    | none => rfl
    | some outcome =>
      cases outcome with
      | ok p passkey => exact absurd hr (hrefused p passkey)
      | fail _ | regression _ _ _ | thrown _ => rfl
  · have hevent : acceptedCounter pid
        (Machine.event (UserObject.call sha256) o (.resumeAssertion call verified)) =
          if used.id = pid then some newCounter else none := by
      unfold acceptedCounter
      simp only [Machine.event_reply, UserObject.call, answered, hreply, assertionReply]
    rw [hwritten, Table.find_updateWhere, show o.tables.passkeys.find pid = some row from hrow,
      Option.map_some, Option.some.injEq] at hrow'
    obtain ⟨hmem, hkey⟩ := Table.find_eq_some.mp hrow
    by_cases hid : used.id = pid
    · obtain rfl : used = row := Table.eq_of_key_eq hused hmem (hid.trans hkey.symm)
      simp only [beq_self_eq_true, if_true] at hrow'
      subst hrow'
      exact .accepted (by simp [hevent, hid]) hpolicy
    · have hother : (row.id == used.id) = false := by
        rw [beq_eq_false_iff_ne]
        exact fun heq => hid (heq.symm.trans hkey)
      simp only [hother, Bool.false_eq_true, if_false] at hrow'
      subst hrow'
      exact .kept (by simp [hevent, hid]) rfl rfl

/-- One step on a row that is stored before and after it. -/
theorem passkey_step (sha256 : String → Bytes) {o : UserObject} {c : Call} {pid : String}
    {row row' : PasskeyRow} (hrow : passkey? o pid = some row)
    (hrow' : passkey? (o.call sha256 c).1 pid = some row') :
    PasskeyStep pid row row' (Machine.event (UserObject.call sha256) o c) := by
  have hkept : touchesPasskeys c = false →
      PasskeyStep pid row row' (Machine.event (UserObject.call sha256) o c) := by
    intro htouches
    rw [passkey?, call_passkeys_kept sha256 o htouches] at hrow'
    obtain rfl : row = row' := Option.some.inj (hrow.symm.trans hrow')
    refine .kept (acceptedCounter_eq_none sha256 o pid ?_) rfl rfl
    rintro call verified rfl
    cases htouches
  cases c with
  | resumeAssertion call verified => exact resumeAssertion_step sha256 call verified hrow hrow'
  | destroy =>
    simp [passkey?, UserObject.call, UserObject.destroy, Tables.empty, Table.find] at hrow'
  | addPasskey p now maxPerUser =>
    have hsame : row' = row := by
      simp only [passkey?, UserObject.call, answered, UserObject.addPasskey,
        UserObject.guarded] at hrow hrow'
      split at hrow'
      · exact Option.some.inj (hrow'.symm.trans hrow)
      split_ifs at hrow'
      · exact Option.some.inj (hrow'.symm.trans hrow)
      · exact Option.some.inj (hrow'.symm.trans hrow)
      split at hrow'
      · exact Option.some.inj (hrow'.symm.trans hrow)
      · next passkeys hinsert =>
        simp only [UserObject.store, Table.find_insert hinsert] at hrow'
        obtain ⟨hmem, hkey⟩ := Table.find_eq_some.mp hrow
        rw [if_neg fun heq => Table.key_notMem_of_insert hinsert row hmem (hkey.trans heq)] at hrow'
        exact Option.some.inj (hrow'.symm.trans hrow)
    subst hsame
    exact .kept (acceptedCounter_eq_none sha256 o pid (by simp)) rfl rfl
  | removePasskey id actor =>
    have hsame : row' = row := by
      simp only [passkey?, UserObject.call, answered, UserObject.removePasskey,
        UserObject.guarded] at hrow hrow'
      split at hrow'
      · exact Option.some.inj (hrow'.symm.trans hrow)
      split_ifs at hrow'
      · exact Option.some.inj (hrow'.symm.trans hrow)
      · exact Option.some.inj ((Table.find_of_find_deleteWhere hrow').1.symm.trans hrow)
    subst hsame
    exact .kept (acceptedCounter_eq_none sha256 o pid (by simp)) rfl rfl
  | renamePasskey id name =>
    have hsame : row'.counter = row.counter ∧ row'.lastUsedAt = row.lastUsedAt := by
      simp only [passkey?, UserObject.call, answered, UserObject.renamePasskey,
        UserObject.guarded] at hrow hrow'
      split at hrow'
      · simp [Option.some.inj (hrow'.symm.trans hrow)]
      · simp only [UserObject.store, Table.find_updateWhere, hrow, Option.map_some,
          Option.some.injEq] at hrow'
        subst hrow'
        split <;> exact ⟨rfl, rfl⟩
    exact .kept (acceptedCounter_eq_none sha256 o pid (by simp)) hsame.1 hsame.2
  | _ => exact hkept rfl

/-- A refused assertion leaves every passkey as it is. -/
theorem passkeys_of_refused (sha256 : String → Bytes) {o : UserObject} {c : Call}
    (h : assertionRefused (Machine.event (UserObject.call sha256) o c) = true) :
    (o.call sha256 c).1.tables.passkeys = o.tables.passkeys := by
  cases c with
  | resumeAssertion call verified =>
    have hcases := resumeAssertion_cases (Prod.eta (o.resumeAssertion call verified)).symm
    obtain ⟨hsame, -⟩ | ⟨used, user, newCounter, now, -, -, hreply, -⟩ := hcases
    · exact hsame
    · simp [assertionRefused, UserObject.call, answered, hreply, assertionReply] at h
  | verifyAssertion credentialId now => exact call_passkeys_kept sha256 o rfl
  | resumeExchange call => exact call_passkeys_kept sha256 o rfl
  | _ => simp [assertionRefused, UserObject.call, answered] at h

/-! ### While the row is stored -/

/-- The row `pid` is stored after `earlier` and after every step of `later`. -/
def StoredThroughout (sha256 : String → Bytes) (pid : String) (earlier : List Call) :
    List Call → Prop
  | [] => (passkey? (after sha256 earlier) pid).isSome
  | c :: later =>
      (passkey? (after sha256 (c :: later ++ earlier)) pid).isSome ∧
        StoredThroughout sha256 pid earlier later

instance decidableStoredThroughout (sha256 : String → Bytes) (pid : String) (earlier : List Call) :
    ∀ later, Decidable (StoredThroughout sha256 pid earlier later)
  | [] => inferInstanceAs (Decidable (_ = true))
  | _ :: later =>
      @instDecidableAnd _ _ (inferInstanceAs (Decidable (_ = true)))
        (decidableStoredThroughout sha256 pid earlier later)

theorem StoredThroughout.now {sha256 : String → Bytes} {pid : String} {earlier later : List Call}
    (h : StoredThroughout sha256 pid earlier later) :
    ∃ row, passkey? (after sha256 (later ++ earlier)) pid = some row := by
  cases later with
  | nil => exact Option.isSome_iff_exists.mp h
  | cons c later => exact Option.isSome_iff_exists.mp h.1

/-- The counters the assertions of `later` were accepted with, newest first. -/
def acceptedCounters (sha256 : String → Bytes) (pid : String) (earlier later : List Call) :
    List ℕ :=
  (Machine.events (UserObject.call sha256) (after sha256 earlier) later).filterMap
    (acceptedCounter pid)

/-- A later counter is greater, or both are the zero of an authenticator that keeps none. -/
def Advances (later earlier : ℕ) : Prop := earlier < later ∨ earlier = 0 ∧ later = 0

instance : DecidableRel Advances := fun later earlier =>
  inferInstanceAs (Decidable (earlier < later ∨ earlier = 0 ∧ later = 0))

theorem advances_of_accept {stored observed : ℕ} (h : counterPolicy stored observed = .accept) :
    Advances observed stored := by
  unfold counterPolicy at h
  split_ifs at h with hzero hless
  · exact .inr hzero
  · exact .inl hless

theorem Advances.le {later earlier : ℕ} (h : Advances later earlier) : earlier ≤ later := by
  unfold Advances at h
  omega

/-- The stored counter bounds what was accepted. -/
structure Counted (accepted : List ℕ) (start counter : ℕ) : Prop where
  start : start ≤ counter
  bound : ∀ n ∈ accepted, n ≤ counter
  increasing : accepted.Pairwise Advances

theorem Counted.step {accepted : List ℕ} {start : ℕ} {pid : String} {row row' : PasskeyRow}
    {e : CallEvent} (h : Counted accepted start row.counter) (hstep : PasskeyStep pid row row' e) :
    Counted ((acceptedCounter pid e).toList ++ accepted) start row'.counter := by
  cases hstep with
  | kept hnone hcounter _ =>
    rw [hnone, hcounter]
    exact h
  | accepted hsome hpolicy =>
    have hadvances := advances_of_accept hpolicy
    have hle := hadvances.le
    rw [hsome]
    constructor
    · exact h.start.trans hle
    · intro n hn
      rcases List.mem_cons.mp hn with rfl | hn
      · exact le_refl _
      · exact (h.bound n hn).trans hle
    · refine List.pairwise_cons.mpr ⟨fun n hn => ?_, h.increasing⟩
      have hn := h.bound n hn
      unfold Advances at hadvances ⊢
      omega

theorem counted_of_stored (sha256 : String → Bytes) {pid : String} {earlier later : List Call}
    (h : StoredThroughout sha256 pid earlier later) {start row : PasskeyRow}
    (hstart : passkey? (after sha256 earlier) pid = some start)
    (hrow : passkey? (after sha256 (later ++ earlier)) pid = some row) :
    Counted (acceptedCounters sha256 pid earlier later) start.counter row.counter := by
  induction later generalizing row with
  | nil =>
    obtain rfl : start = row := Option.some.inj (hstart.symm.trans hrow)
    exact ⟨le_refl _, by simp [acceptedCounters], by simp [acceptedCounters]⟩
  | cons c later ih =>
    obtain ⟨row₀, hrow₀⟩ := h.2.now
    have hafter : Machine.after (UserObject.call sha256) (after sha256 earlier) later =
        after sha256 (later ++ earlier) := (Machine.after_append _ _ _ _).symm
    have hstep := passkey_step sha256 (c := c) hrow₀ hrow
    have hcounted := (ih h.2 hrow₀).step hstep
    have hlist : acceptedCounters sha256 pid earlier (c :: later) =
        (acceptedCounter pid (Machine.event (UserObject.call sha256)
          (after sha256 (later ++ earlier)) c)).toList ++
            acceptedCounters sha256 pid earlier later := by
      unfold acceptedCounters
      rw [Machine.events_cons, hafter]
      cases hc : acceptedCounter pid
        (Machine.event (UserObject.call sha256) (after sha256 (later ++ earlier)) c) with
      | none => simp [List.filterMap_cons_none hc]
      | some n => simp [List.filterMap_cons_some hc]
    rw [hlist]
    exact hcounted

theorem nodup_of_advances {accepted : List ℕ} (h : accepted.Pairwise Advances) :
    (accepted.filter (· ≠ 0)).Nodup := by
  refine List.pairwise_filter.mpr (h.imp ?_)
  intro later earlier hadvances hlater hearlier heq
  simp only [ne_eq, decide_not, Bool.not_eq_eq_eq_not, Bool.not_true, decide_eq_false_iff_not]
    at hlater
  unfold Advances at hadvances
  omega

/-- While a passkey is stored its counter does not decrease, the accepted counters increase from
the first that is not zero and none of those is accepted twice, and a refused assertion writes
nothing. -/
theorem passkey_counter_advances (sha256 : String → Bytes) (pid : String)
    (earlier later : List Call) (start row : PasskeyRow)
    (hstored : StoredThroughout sha256 pid earlier later)
    (hstart : passkey? (after sha256 earlier) pid = some start)
    (hrow : passkey? (after sha256 (later ++ earlier)) pid = some row) :
    start.counter ≤ row.counter ∧
      (acceptedCounters sha256 pid earlier later).Pairwise Advances ∧
      ((acceptedCounters sha256 pid earlier later).filter (· ≠ 0)).Nodup ∧
      ∀ e ∈ Machine.events (UserObject.call sha256) (after sha256 earlier) later,
        assertionRefused e = true →
          (e.pre.call sha256 e.input).1.tables.passkeys = e.pre.tables.passkeys := by
  have hcounted := counted_of_stored sha256 hstored hstart hrow
  refine ⟨hcounted.start, hcounted.increasing, nodup_of_advances hcounted.increasing, ?_⟩
  intro e he hrefused
  obtain ⟨later', c, earlier', -, rfl⟩ := Machine.exists_of_mem_events _ he
  exact passkeys_of_refused sha256 hrefused

namespace Sample

def newPasskey (id credentialId : String) (counter : ℕ) : NewPasskey :=
  ⟨id, credentialId, [], -7, counter, [], none, false, false, none, .interaction⟩

/-- Two overlapping assertions of one passkey, then a third. -/
def assertions : List Call :=
  [.resumeAssertion 2 (some 9), .verifyAssertion "c1" 3, .resumeAssertion 0 (some 5),
    .resumeAssertion 1 (some 5), .verifyAssertion "c1" 2, .verifyAssertion "c1" 1]

end Sample

theorem passkey_counter_advances_sample :
    0 ≤ 9 ∧ [9, 5].Pairwise Advances ∧ ([9, 5].filter (· ≠ 0)).Nodup ∧
      ∀ e ∈ Machine.events (UserObject.call Sample.sha256)
          (after Sample.sha256 [.addPasskey (Sample.newPasskey "p1" "c1" 0) 0 10, Sample.init])
          Sample.assertions,
        assertionRefused e = true →
          (e.pre.call Sample.sha256 e.input).1.tables.passkeys = e.pre.tables.passkeys :=
  passkey_counter_advances Sample.sha256 "p1"
    [.addPasskey (Sample.newPasskey "p1" "c1" 0) 0 10, Sample.init] Sample.assertions
    (UserObject.passkeyRow (Sample.newPasskey "p1" "c1" 0) 0)
    { UserObject.passkeyRow (Sample.newPasskey "p1" "c1" 0) 0 with
      counter := 9, lastUsedAt := some 3 }
    (by decide) (by decide) (by decide)

end TinyOidc.User
