import TinyOidc.User.Origins

/-! An object's user row and what it stores: nothing is stored without a user, and a disabled
user has no unrevoked session. -/
namespace TinyOidc.User
open RowTable

structure CoreEmpty (t : Tables) : Prop where
  sessions : t.sessions.rows = []
  codes : t.authCodes.rows = []
  families : t.refreshFamilies.rows = []

/-- Without a user to log in, a change adds nothing to empty tables. -/
theorem CoreEmpty.change {e : CallEvent} {t t' : Tables} (h : CoreEmpty t) (hc : Change e t t')
    (hg : ∀ user, e.pre.guard ≠ .ok user) : CoreEmpty t' := by
  obtain ⟨hs, hk, hf⟩ := h
  cases hc with
  | aside h => exact ⟨h.sessions ▸ hs, h.codes ▸ hk, h.families ▸ hf⟩
  | writeUser _ => exact ⟨hs, hk, hf⟩
  | clear _ => exact ⟨rfl, rfl, rfl⟩
  | purge _ =>
    refine ⟨?_, ?_, ?_⟩
    · simp [Tables.purge, Tables.purgeChallenges, Tables.deleteSessions, Tables.deleteFamilies,
        Tables.purgeTokens, Tables.purgeCodes, Table.deleteWhere, hs]
    · simp [Tables.purge, Tables.purgeChallenges, Tables.deleteSessions, Tables.deleteFamilies,
        Tables.purgeTokens, Tables.purgeCodes, Table.deleteWhere, hk]
    · simp [Tables.purge, Tables.purgeChallenges, Tables.deleteSessions, Tables.deleteFamilies,
        Tables.purgeTokens, Tables.purgeCodes, Table.deleteWhere, hf]
  | revokeSessions p now reason =>
    exact ⟨by simp [Tables.revokeSessionsWhere, Table.updateWhere, hs], hk, hf⟩
  | revokeFamilies p now reason =>
    exact ⟨hs, hk, by simp [Tables.revokeFamiliesWhere, Table.updateWhere, hf]⟩
  | dropFamily id => exact ⟨hs, hk, by simp [Tables.deleteFamilies, Table.deleteWhere, hf]⟩
  | createSession _ _ hgu =>
    obtain ⟨user, hu, _⟩ := hgu
    exact absurd hu (hg user)
  | rotateSession _ hm _ => rw [hs] at hm; simp at hm
  | touchSession _ hm _ _ => rw [hs] at hm; simp at hm
  | issueCode _ _ hsid _ =>
    obtain ⟨s, hm, _⟩ := hsid
    rw [hs] at hm
    simp at hm
  | consumeCode now _ => exact ⟨hs, by simp [Tables.consumeCode, Table.updateWhere, hk], hf⟩
  | openFamily _ _ _ _ _ _ hm _ _ =>
    obtain ⟨c, hm, _⟩ := hm
    rw [hk] at hm
    simp at hm
  | advanceFamily hm _ _ _ => rw [hf] at hm; simp at hm

/-! ### The fields beside the tables -/

/-- The destroyed mark and the suspended calls are as before. -/
structure SameFields (o o' : UserObject) : Prop where
  destroyed : o'.destroyed = o.destroyed
  suspended : o'.suspended = o.suspended

/-- A call suspended by the step itself. -/
def Starts (sha256 : String → Bytes) (o : UserObject) : Call → Suspended → Prop
  | .exchangeCode input, call => ∃ user verifier, o.guard = .ok user ∧
      input.codeVerifier = some verifier ∧ pkceVerifier verifier = true ∧
      call = .exchange input user (Util.encodeBase64Url (sha256 verifier))
  | .verifyAssertion credentialId now, call => call = .assertion credentialId now
  | _, _ => False

/-- What a step does to the fields beside the tables: only `destroy` marks the object, and a
suspended call was suspended before or starts here. -/
structure CallFields (sha256 : String → Bytes) (o o' : UserObject) (c : Call) : Prop where
  destroyed : o'.destroyed = true → c = .destroy ∨ o.destroyed = true
  suspended : ∀ n call, (n, call) ∈ o'.suspended →
    (n, call) ∈ o.suspended ∨ n = o.nextCall ∧ Starts sha256 o c call

theorem SameFields.fields {sha256 : String → Bytes} {o o' : UserObject} (h : SameFields o o')
    (c : Call) : CallFields sha256 o o' c :=
  ⟨fun hd => .inr (h.destroyed ▸ hd), fun _ _ hm => .inl (h.suspended ▸ hm)⟩

theorem SameFields.answered {sha256 : String → Bytes} {α : Type} {o : UserObject}
    {reply : α → Reply} {r : UserObject × α} (h : SameFields o r.1) (c : Call) :
    CallFields sha256 o (answered reply r).1 c := h.fields c

theorem SameFields.refl (o : UserObject) : SameFields o o := ⟨rfl, rfl⟩

theorem SameFields.store (o : UserObject) (t : Tables) : SameFields o (o.store t) := ⟨rfl, rfl⟩

theorem guarded_sameFields {α : Type} {o : UserObject} {fail : UserDoError → α}
    {body : UserRow → UserObject × α} (h : ∀ user, SameFields o (body user).1) :
    SameFields o (o.guarded fail body).1 := by
  unfold UserObject.guarded
  split
  · exact .refl o
  · exact h _

theorem purgeIfDue_sameFields (o : UserObject) (now w : ℤ) :
    SameFields o (o.purgeIfDue now w) := by
  unfold UserObject.purgeIfDue
  split <;> exact ⟨rfl, rfl⟩

theorem purging_sameFields {α : Type} (o : UserObject) (now w : ℤ) (thrown : SqlError → α)
    (body : Tables → Except SqlError (Tables × α)) :
    SameFields o (o.purging now w thrown body).1 := by
  obtain ⟨hd, hs⟩ := purgeIfDue_sameFields o now w
  unfold UserObject.purging
  dsimp only
  split <;> exact ⟨hd, hs⟩

theorem init_sameFields (o : UserObject) (p : InitProfile) (now : ℤ)
    (identities : List NewIdentity) : SameFields o (o.init p now identities).1 := by
  unfold UserObject.init
  split
  · exact .refl o
  split
  · split <;> exact .refl o
  · split <;> exact ⟨rfl, rfl⟩

theorem authorizeWithSession_sameFields (o : UserObject) (input : AuthorizeWithSessionInput) :
    SameFields o (o.authorizeWithSession input).1 := by
  apply guarded_sameFields
  intro user
  split
  · exact .refl o
  · split_ifs
    · exact .refl o
    · exact .refl o
    · exact .refl o
    · exact .refl o
    · dsimp only
      split_ifs
      · exact .store o _
      · split
        · exact .store o _
        · obtain ⟨hd, hs⟩ := purgeIfDue_sameFields
            (o.store (UserObject.consentCovered o.tables input).1) input.now purgeGraceSeconds
          split <;> exact ⟨hd, hs⟩

theorem suspend_fields {sha256 : String → Bytes} {o : UserObject} {c : Call} {call : Suspended}
    (h : Starts sha256 o c call) : CallFields sha256 o (o.suspend call) c := by
  refine ⟨fun hd => .inr hd, fun n x hm => ?_⟩
  rcases List.mem_cons.mp hm with he | hm
  · obtain ⟨rfl, rfl⟩ := Prod.mk.inj he
    exact .inr ⟨rfl, h⟩
  · exact .inl hm

theorem exchangeCode_fields (sha256 : String → Bytes) (o : UserObject)
    (input : ExchangeCodeInput) :
    CallFields sha256 o (o.exchangeCode sha256 input).1 (.exchangeCode input) := by
  unfold UserObject.exchangeCode
  split
  · exact (SameFields.refl o).fields _
  next user hu =>
    split
    next verifier hv =>
      obtain ⟨hv, hp⟩ := Option.filter_eq_some_iff.mp hv
      exact suspend_fields ⟨user, verifier, hu, hv, hp, rfl⟩
    · exact (purging_sameFields o _ _ _ _).fields _

theorem mem_of_resumed {o : UserObject} {call : ℕ} {o' : UserObject}
    (h : o'.suspended = o.suspended.filter (fun c => c.1 != call)) :
    ∀ n s, (n, s) ∈ o'.suspended → (n, s) ∈ o.suspended := by
  intro n s hm
  rw [h] at hm
  exact (List.mem_filter.mp hm).1

theorem resumeExchange_fields (sha256 : String → Bytes) (o : UserObject) (call : ℕ) :
    CallFields sha256 o (o.resumeExchange call).1 (.resumeExchange call) := by
  unfold UserObject.resumeExchange
  split
  next input user challenge hl =>
    dsimp only
    set rest : UserObject := { o with suspended := o.suspended.filter (fun c => c.1 != call) }
      with hrest
    split
    · obtain ⟨hd, hs⟩ := purgeIfDue_sameFields rest input.now purgeGraceSeconds
      exact ⟨fun h => .inr (hd.symm.trans h), fun n s hm => .inl (mem_of_resumed hs n s hm)⟩
    · obtain ⟨hd, hs⟩ := purging_sameFields rest input.now purgeGraceSeconds
        ExchangeOutcome.thrown (fun t => t.exchangeTransaction user (some challenge) input)
      exact ⟨fun h => .inr (hd.symm.trans h), fun n s hm => .inl (mem_of_resumed hs n s hm)⟩
  · exact (SameFields.refl o).fields _

theorem resumeAssertion_fields (sha256 : String → Bytes) (o : UserObject) (call : ℕ)
    (verified : Option ℕ) :
    CallFields sha256 o (o.resumeAssertion call verified).1 (.resumeAssertion call verified) := by
  have hrest : ∀ t : Tables, CallFields sha256 o
      ({ o with suspended := o.suspended.filter (fun c => c.1 != call) }.store t)
      (.resumeAssertion call verified) :=
    fun t => ⟨fun h => .inr h, fun n s hm => .inl (mem_of_resumed rfl n s hm)⟩
  unfold UserObject.resumeAssertion
  split
  · dsimp only
    split
    · exact hrest _
    · split
      · exact hrest _
      · unfold UserObject.commitAssertion
        split
        · split
          · exact hrest _
          · exact hrest _
        · exact hrest _
  · exact (SameFields.refl o).fields _

theorem verifyAssertion_fields (sha256 : String → Bytes) (o : UserObject) (credentialId : String)
    (now : ℤ) :
    CallFields sha256 o (o.verifyAssertion credentialId now).1
      (.verifyAssertion credentialId now) := by
  unfold UserObject.verifyAssertion UserObject.guarded
  split
  · exact (SameFields.refl o).fields _
  · split
    · exact (SameFields.refl o).fields _
    · exact suspend_fields rfl

theorem call_fields (sha256 : String → Bytes) (o : UserObject) (c : Call) :
    CallFields sha256 o (o.call sha256 c).1 c := by
  cases c with
  | init p now identities => exact (init_sameFields o p now identities).fields _
  | destroy => exact ⟨fun _ => .inl rfl, fun _ _ hm => .inl hm⟩
  | evict => exact ⟨by simp [UserObject.call, UserObject.evict, UserObject.fresh],
      by simp [UserObject.call, UserObject.evict, UserObject.fresh]⟩
  | touch now w =>
    apply SameFields.answered
    exact guarded_sameFields fun _ => purgeIfDue_sameFields o now w
  | authorizeWithSession input => exact (authorizeWithSession_sameFields o input).fields _
  | exchangeCode input => exact exchangeCode_fields sha256 o input
  | resumeExchange call => exact resumeExchange_fields sha256 o call
  | resumeAssertion call verified => exact resumeAssertion_fields sha256 o call verified
  | verifyAssertion credentialId now => exact verifyAssertion_fields sha256 o credentialId now
  | finalizeLogin input =>
    apply SameFields.answered
    apply guarded_sameFields
    intro user
    split_ifs
    · exact .refl o
    · exact .refl o
    · exact .refl o
    · exact purging_sameFields o _ _ _ _
  | revokeSession _ _ _ | revokeSessions _ _ _ | rotateRefreshToken _ =>
    apply SameFields.answered
    exact guarded_sameFields fun _ => purging_sameFields o _ _ _ _
  | setDisabled disabledAt now =>
    apply SameFields.answered
    apply guarded_sameFields
    intro user
    dsimp only
    split <;> exact .store o _
  | getSession _ _ _ | revokeFamilyById _ _ _ _ | addPasskey _ _ _ | addIdentity _ _ =>
    apply SameFields.answered
    apply guarded_sameFields
    intro user
    repeat' split
    all_goals exact ⟨rfl, rfl⟩
  | countPasskeyAttempt _ | removePasskey _ _ | removeIdentity _ _ =>
    apply SameFields.answered
    apply guarded_sameFields
    intro user
    dsimp only
    repeat' split
    all_goals exact ⟨rfl, rfl⟩
  | getProfile | setGroups _ _ | listSessions _ | putChallenge _ _ _ | takeChallenge _ _
  | revokeAll _ _ | revokeSessionFamiliesOfClient _ _ _ | revokeFamiliesOfClient _ _ _
  | listFamilies _ | grantConsent _ _ _ | grantClientIds | listGrants _ | revokeGrant _ _
  | listPasskeys | renamePasskey _ _ | touchIdentity _ _ _ _ | listIdentities
  | updateProfile _ _ =>
    apply SameFields.answered
    exact guarded_sameFields fun _ => ⟨rfl, rfl⟩

theorem mem_of_lookup {α β : Type} [BEq α] [LawfulBEq α] {l : List (α × β)} {a : α} {b : β}
    (h : l.lookup a = some b) : (a, b) ∈ l := by
  obtain ⟨l₁, l₂, rfl, _⟩ := List.lookup_eq_some_iff.mp h
  simp

/-- A suspended exchange was started by a call of the run, which read the user row and hashed
the verifier it holds. -/
theorem suspended_exchange_after (sha256 : String → Bytes) {calls : List Call} {n : ℕ}
    {input : ExchangeCodeInput} {user : UserRow} {challenge : String}
    (h : (n, .exchange input user challenge) ∈ (after sha256 calls).suspended) :
    ∃ later earlier verifier, calls = later ++ .exchangeCode input :: earlier ∧
      (after sha256 earlier).guard = .ok user ∧ input.codeVerifier = some verifier ∧
      pkceVerifier verifier = true ∧ challenge = Util.encodeBase64Url (sha256 verifier) := by
  induction calls with
  | nil => simp [UserObject.fresh] at h
  | cons c calls ih =>
    rcases (call_fields sha256 (after sha256 calls) c).suspended n _ h with hold | ⟨_, hstart⟩
    · obtain ⟨later, earlier, verifier, rfl, hrest⟩ := ih hold
      exact ⟨c :: later, earlier, verifier, rfl, hrest⟩
    · unfold Starts at hstart
      split at hstart
      · obtain ⟨user', verifier, hg, hv, hp, he⟩ := hstart
        cases he
        exact ⟨[], calls, verifier, rfl, hg, hv, hp, rfl⟩
      · cases hstart
      · exact hstart.elim

/-! ### Objects without a user -/

/-- A user row stays until the object is destroyed. -/
theorem Change.user_isSome {e : CallEvent} {t t' : Tables} (h : Change e t t')
    (hu : t.user.isSome) : t'.user.isSome ∨ e.input = .destroy := by
  cases h with
  | aside h => exact .inl (h.user ▸ hu)
  | writeUser _ => exact .inl rfl
  | clear h => exact .inr h
  | createSession h _ _ =>
    obtain ⟨sessions, _, rfl⟩ := insertSession_ok h
    exact .inl hu
  | rotateSession _ _ h =>
    rw [rotateSession_ok h]
    exact .inl hu
  | touchSession idleTtl _ _ _ =>
    unfold Tables.touchSession
    split <;> exact .inl hu
  | advanceFamily _ _ h _ =>
    obtain ⟨tokens, _, rfl⟩ := advanceFamily_ok h
    exact .inl hu
  | purge _ | revokeSessions _ _ _ | revokeFamilies _ _ _ | dropFamily _ | issueCode _ _ _ _
  | consumeCode _ _ | openFamily _ _ _ _ _ _ _ _ _ => exact .inl hu

theorem call_user_isSome (sha256 : String → Bytes) {o : UserObject} {c : Call}
    (hu : o.tables.user.isSome) (hc : c ≠ .destroy) :
    (o.call sha256 c).1.tables.user.isSome := by
  refine (call_changes sha256 o c).preserves (P := fun t => t.user.isSome) ?_ hu
  intro t t' hch hu
  exact (hch.user_isSome hu).resolve_right hc

/-- An object that was destroyed, or has no user, stores no session, code or family. -/
def DormantEmpty (o : UserObject) : Prop :=
  o.destroyed = true ∨ o.tables.user = none → CoreEmpty o.tables

theorem DormantEmpty.step {sha256 : String → Bytes} {o : UserObject} (h : DormantEmpty o)
    (c : Call) : DormantEmpty (o.call sha256 c).1 := by
  intro hpost
  by_cases hc : c = .destroy
  · subst hc
    exact ⟨rfl, rfl, rfl⟩
  have hpre : o.destroyed = true ∨ o.tables.user = none := by
    rcases hpost with hd | hu
    · exact .inl (((call_fields sha256 o c).destroyed hd).resolve_left hc)
    · refine .inr ?_
      by_contra hne
      have hs := call_user_isSome sha256 (Option.isSome_iff_ne_none.mpr hne) hc
      rw [hu] at hs
      cases hs
  have hg : ∀ user, o.guard ≠ .ok user := by
    intro user hok
    obtain ⟨hd, hu⟩ := guard_ok hok
    rcases hpre with hd' | hu'
    · rw [hd] at hd'; cases hd'
    · rw [hu] at hu'; cases hu'
  exact (call_changes sha256 o c).preserves (fun _ _ hch h => h.change hch hg) (h hpre)

theorem dormantEmpty_after (sha256 : String → Bytes) (calls : List Call) :
    DormantEmpty (after sha256 calls) :=
  Machine.after_invariant _ (fun _ c h => h.step c)
    (fun _ => ⟨rfl, rfl, rfl⟩ : DormantEmpty .fresh) calls

theorem guard_of_not_coreEmpty {o : UserObject} (h : DormantEmpty o)
    (hne : ¬ CoreEmpty o.tables) : ∃ user, o.guard = .ok user ∧ o.tables.user = some user := by
  unfold UserObject.guard
  cases hd : o.destroyed with
  | true => exact absurd (h (.inl hd)) hne
  | false =>
    cases hu : o.tables.user with
    | none => exact absurd (h (.inr hu)) hne
    | some user => exact ⟨user, rfl, rfl⟩

end TinyOidc.User
