import TinyOidc.User.Changes

/-! What a call that succeeded found in the tables and wrote. -/
namespace TinyOidc.User
open RowTable

theorem purgeIfDue_tables (o : UserObject) (now w : ℤ) :
    (o.purgeIfDue now w).tables =
      if o.lastPurgeAt.any (fun last => now - last < purgeIntervalSeconds) then o.tables
      else o.tables.purge now w := by
  unfold UserObject.purgeIfDue
  split <;> rfl

def purgedTables (o : UserObject) (now w : ℤ) : Tables := (o.purgeIfDue now w).tables

theorem purgedTables_resumed (o : UserObject) (suspended : List (ℕ × Suspended)) (now w : ℤ) :
    purgedTables { o with suspended := suspended } now w = purgedTables o now w := by
  unfold purgedTables
  rw [purgeIfDue_tables, purgeIfDue_tables]

/-- The rows of a purged table are among those before. -/
theorem purgedTables_subset (o : UserObject) (now w : ℤ) :
    (purgedTables o now w).sessions.rows ⊆ o.tables.sessions.rows ∧
    (purgedTables o now w).authCodes.rows ⊆ o.tables.authCodes.rows ∧
    (purgedTables o now w).refreshFamilies.rows ⊆ o.tables.refreshFamilies.rows ∧
    (purgedTables o now w).refreshTokens.rows ⊆ o.tables.refreshTokens.rows := by
  unfold purgedTables
  rw [purgeIfDue_tables]
  split
  · exact ⟨fun _ h => h, fun _ h => h, fun _ h => h, fun _ h => h⟩
  · exact ⟨Table.deleteWhere_subset, Table.deleteWhere_subset, Table.deleteWhere_subset,
      fun _ h => Table.deleteWhere_subset (Table.deleteWhere_subset h)⟩

theorem purgedTables_sessions_subset {o : UserObject} {now w : ℤ} :
    (purgedTables o now w).sessions.rows ⊆ o.tables.sessions.rows :=
  (purgedTables_subset o now w).1

theorem purgedTables_codes_subset {o : UserObject} {now w : ℤ} :
    (purgedTables o now w).authCodes.rows ⊆ o.tables.authCodes.rows :=
  (purgedTables_subset o now w).2.1

theorem purgedTables_families_subset {o : UserObject} {now w : ℤ} :
    (purgedTables o now w).refreshFamilies.rows ⊆ o.tables.refreshFamilies.rows :=
  (purgedTables_subset o now w).2.2.1

theorem purgedTables_tokens_subset {o : UserObject} {now w : ℤ} :
    (purgedTables o now w).refreshTokens.rows ⊆ o.tables.refreshTokens.rows :=
  (purgedTables_subset o now w).2.2.2

theorem revokeReused_reply (t : Tables) (family : FamilyRow) (now : ℤ) :
    ∃ clients, (t.revokeReused family now).2 = .fail .invalidGrant true clients := by
  unfold Tables.revokeReused
  dsimp only
  split <;> exact ⟨_, rfl⟩

/-- A successful rotation. -/
theorem rotationSucceeded_commit {sha256 : String → Bytes} {o : UserObject} {c : Call}
    {input : RotateRefreshInput}
    (h : rotationSucceeded (Machine.event (UserObject.call sha256) o c) = some input) :
    c = .rotateRefreshToken input ∧ ∃ user family token, o.guard = .ok user ∧
      Rotated (purgedTables o input.now input.reuseWindow) user input
        (o.call sha256 c).1.tables family token := by
  unfold rotationSucceeded at h
  split at h
  next input' grant serial kind hc hr =>
    cases h
    cases hc
    refine ⟨rfl, ?_⟩
    simp only [Machine.event_reply, UserObject.call, answered, Reply.rotate.injEq] at hr
    unfold UserObject.call answered
    dsimp only
    generalize hx : o.rotateRefreshToken input = x at hr ⊢
    obtain ⟨o', r⟩ := x
    obtain ⟨_, err, rfl⟩ | ⟨user, hu, hb⟩ := guarded_cases hx
    · cases hr
    · obtain ⟨t, a, ht, hp⟩ | ⟨err, _, hp⟩ := purging_cases o input.now input.reuseWindow
        RotateOutcome.thrown (fun t => t.rotateTransaction user input)
      · rw [hp] at hb
        cases hb
        subst hr
        obtain ⟨_, e, he⟩ | ⟨_, _, he⟩ | ⟨f, k, _, _, he⟩ | ⟨f, k, g, hrot, _⟩ :=
          rotateTransaction_cases ht
        · cases he
        · cases he
        · obtain ⟨clients, hcl⟩ := revokeReused_reply (purgedTables o input.now input.reuseWindow) f
            input.now
          rw [purgedTables, he] at hcl
          cases hcl
        · exact ⟨user, f, k, hu, hrot⟩
      · rw [hp] at hb
        cases hb
        cases hr
  · cases h

theorem tokenRedeemed_commit {sha256 : String → Bytes} {o : UserObject} {c : Call} {id : String}
    {x : Bytes} (h : tokenRedeemed (Machine.event (UserObject.call sha256) o c) = some (id, x)) :
    ∃ input user family token, input.familyId = id ∧ c = .rotateRefreshToken input ∧
      Rotated (purgedTables o input.now input.reuseWindow) user input
        (o.call sha256 c).1.tables family token := by
  obtain ⟨input, hi, hk⟩ := Option.map_eq_some_iff.mp h
  obtain ⟨hc, user, family, token, _, hrot⟩ := rotationSucceeded_commit hi
  exact ⟨input, user, family, token, (Prod.mk.inj hk).1, hc, hrot⟩

/-- What the transaction of an exchange runs with: the user row, the hashed verifier and the
input. A step that suspends, refuses at the guard or finds the object destroyed runs none. -/
def exchangeCommit (e : CallEvent) : Option (UserRow × Option String × ExchangeCodeInput) :=
  match e.input with
  | .exchangeCode input =>
      match e.pre.guard, input.codeVerifier.filter pkceVerifier with
      | .ok user, none => some (user, none, input)
      | _, _ => none
  | .resumeExchange call =>
      match e.pre.suspended.lookup call with
      | some (.exchange input user expectedChallenge) =>
          if e.pre.destroyed then none else some (user, some expectedChallenge, input)
      | _ => none
  | _ => none

/-- The transaction commits, or throws and leaves the tables. -/
theorem exchangeCommit_cases {sha256 : String → Bytes} {o : UserObject} {c : Call}
    {user : UserRow} {challenge : Option String} {input : ExchangeCodeInput}
    (h : exchangeCommit (Machine.event (UserObject.call sha256) o c) =
      some (user, challenge, input)) :
    (∃ r, (purgedTables o input.now purgeGraceSeconds).exchangeTransaction user challenge input =
        .ok ((o.call sha256 c).1.tables, r) ∧
      (o.call sha256 c).2 = .exchange (.done r)) ∨
    ∃ err, (purgedTables o input.now purgeGraceSeconds).exchangeTransaction user challenge input =
        .error err ∧
      (o.call sha256 c).1.tables = o.tables ∧
      (o.call sha256 c).2 = .exchange (.done (.thrown err)) := by
  unfold exchangeCommit at h
  dsimp only [Machine.event_input, Machine.event_pre] at h
  split at h
  next input' =>
    split at h
    next user' hg hv =>
      cases h
      have hcall : o.call sha256 (.exchangeCode input) =
          ((o.commitExchange user none input).1,
            .exchange (.done (o.commitExchange user none input).2)) := by
        simp [UserObject.call, answered, UserObject.exchangeCode, hg, hv]
      rw [hcall]
      obtain ⟨t, a, ht, hp⟩ | ⟨err, ht, hp⟩ := purging_cases o input.now purgeGraceSeconds
        ExchangeOutcome.thrown (fun t => t.exchangeTransaction user none input)
      · rw [UserObject.commitExchange, hp]
        exact .inl ⟨a, ht, rfl⟩
      · rw [UserObject.commitExchange, hp]
        exact .inr ⟨err, ht, rfl, rfl⟩
    · cases h
  next call =>
    split at h
    next input' user' challenge' hl =>
      rcases ite_eq_iff.mp h with ⟨_, h⟩ | ⟨hd, h⟩
      · cases h
      cases h
      set rest : UserObject :=
        { o with suspended := o.suspended.filter (fun c => c.1 != call) } with hrest
      have hcall : o.call sha256 (.resumeExchange call) =
          ((rest.commitExchange user (some challenge') input).1,
            .exchange (.done (rest.commitExchange user (some challenge') input).2)) := by
        simp [UserObject.call, answered, UserObject.resumeExchange, hl, hd, exchangeReply, hrest]
      rw [hcall]
      rw [← purgedTables_resumed o (o.suspended.filter (fun c => c.1 != call))]
      obtain ⟨t, a, ht, hp⟩ | ⟨err, ht, hp⟩ := purging_cases rest input.now purgeGraceSeconds
        ExchangeOutcome.thrown (fun t => t.exchangeTransaction user (some challenge') input)
      · rw [UserObject.commitExchange, hp]
        exact .inl ⟨a, ht, rfl⟩
      · rw [UserObject.commitExchange, hp]
        exact .inr ⟨err, ht, rfl, rfl⟩
    · cases h
  · cases h

theorem exchangeCommit_of_code {sha256 : String → Bytes} {o : UserObject} {user : UserRow}
    {input : ExchangeCodeInput} (hg : o.guard = .ok user)
    (hv : input.codeVerifier.filter pkceVerifier = none) :
    exchangeCommit (Machine.event (UserObject.call sha256) o (.exchangeCode input)) =
      some (user, none, input) := by
  simp [exchangeCommit, hg, hv]

theorem exchangeCommit_of_resume {sha256 : String → Bytes} {o : UserObject} {call : ℕ}
    {user : UserRow} {challenge : String} {input : ExchangeCodeInput}
    (hl : o.suspended.lookup call = some (.exchange input user challenge))
    (hd : ¬o.destroyed = true) :
    exchangeCommit (Machine.event (UserObject.call sha256) o (.resumeExchange call)) =
      some (user, some challenge, input) := by
  simp [exchangeCommit, hl, hd]

/-- An exchange that succeeded ran its transaction. -/
theorem exchangeCommit_of_ok {sha256 : String → Bytes} {o : UserObject} {c : Call}
    {input : ExchangeCodeInput}
    (h : exchangeSucceeded (Machine.event (UserObject.call sha256) o c) = some input) :
    ∃ user challenge, exchangeCommit (Machine.event (UserObject.call sha256) o c) =
      some (user, challenge, input) := by
  unfold exchangeSucceeded at h
  rcases ite_eq_iff.mp h with ⟨hok, h⟩ | ⟨_, h⟩
  swap
  · cases h
  unfold exchangeRun at h
  dsimp only [Machine.event_input, Machine.event_pre] at h
  split at h
  next input' =>
    cases h
    simp only [exchangeOk, Machine.event_reply, UserObject.call, answered,
      UserObject.exchangeCode] at hok
    cases hg : o.guard with
    | error err => simp [hg] at hok
    | ok user =>
      cases hv : input.codeVerifier.filter pkceVerifier with
      | some v => simp [hg, hv] at hok
      | none => exact ⟨user, none, exchangeCommit_of_code hg hv⟩
  next call =>
    split at h
    next input' user challenge hl =>
      cases h
      by_cases hd : o.destroyed = true
      · simp [exchangeOk, UserObject.call, answered, UserObject.resumeExchange, hl, hd,
          exchangeReply] at hok
      · exact ⟨user, some challenge, exchangeCommit_of_resume hl hd⟩
    · cases h
  · cases h

/-- A successful exchange: the code and session it found, and what it wrote. -/
theorem exchangeSucceeded_commit {sha256 : String → Bytes} {o : UserObject} {c : Call}
    {input : ExchangeCodeInput}
    (h : exchangeSucceeded (Machine.event (UserObject.call sha256) o c) = some input) :
    ∃ user challenge code session,
      exchangeCommit (Machine.event (UserObject.call sha256) o c) = some (user, challenge, input) ∧
      Exchangeable (purgedTables o input.now purgeGraceSeconds) user challenge input code session ∧
      ExchangeWrote (purgedTables o input.now purgeGraceSeconds) input code session
        (o.call sha256 c).1.tables ∧
      ∃ nonce familyId kind, (o.call sha256 c).2 = .exchange (.done (.ok
        (grantContext user code.scope (some code.sid) code.authTime code.amr code.acr)
        nonce familyId kind)) := by
  obtain ⟨user, challenge, hcommit⟩ := exchangeCommit_of_ok h
  have hok : exchangeOk (Machine.event (UserObject.call sha256) o c) = true := by
    unfold exchangeSucceeded at h
    by_contra hn
    rw [if_neg hn] at h
    cases h
  rcases exchangeCommit_cases hcommit with ⟨r, ht, hr⟩ | ⟨err, _, _, hr⟩
  · obtain ⟨_, err, rfl⟩ | ⟨_, _, _, _, _, rfl⟩ | ⟨code, session, nonce, fid, kind, hx, hw, rfl⟩ :=
      exchangeTransaction_cases ht
    · simp [exchangeOk, hr] at hok
    · simp [exchangeOk, hr] at hok
    · exact ⟨user, challenge, code, session, hcommit, hx, hw, nonce, fid, kind, hr⟩
  · simp [exchangeOk, hr] at hok

/-! ### Sessions -/

/-- A session that is read is live. -/
theorem getSession_ok {o : UserObject} {sid : String} {secretHash : Bytes} {now : ℤ}
    {a : SessionSnapshot × UserProfile} (h : (o.getSession sid secretHash now).2 = .ok a) :
    ∃ s, o.tables.liveSession sid secretHash now = some s := by
  generalize hx : o.getSession sid secretHash now = x at h
  obtain ⟨o', r⟩ := x
  obtain ⟨_, err, rfl⟩ | ⟨user, _, hb⟩ := guarded_cases hx
  · cases h
  · split at hb
    · cases hb; cases h
    next session hs => exact ⟨session, hs⟩

/-- Every answer of the session-hit path that is not a failure needs the session live. -/
theorem authorizeWithSession_ok {o : UserObject} {input : AuthorizeWithSessionInput}
    {a : Authorized} (h : (o.authorizeWithSession input).2 = .ok a) :
    ∃ s, o.tables.liveSession input.sid input.secretHash input.now = some s := by
  generalize hx : o.authorizeWithSession input = x at h
  obtain ⟨o', r⟩ := x
  obtain ⟨_, err, rfl⟩ | ⟨user, _, hb⟩ := guarded_cases hx
  · cases h
  · split at hb
    · cases hb; cases h
    next session hs => exact ⟨session, hs⟩

/-- A login that rotates a session finds it unrevoked and before its absolute expiry. -/
theorem finalizeLogin_rotate_ok {o : UserObject} {input : FinalizeLoginInput} {f : Finalized}
    {sid : String} {secretHash : Bytes} {auth : AuthContext}
    (hs : input.session = .rotate sid secretHash auth) (h : (o.finalizeLogin input).2 = .ok f) :
    ∃ s ∈ o.tables.sessions.rows, s.sid = sid ∧ s.revokedAt = none ∧
      input.now < s.absoluteExpiresAt := by
  generalize hx : o.finalizeLogin input = x at h
  obtain ⟨o', r⟩ := x
  obtain ⟨_, err, rfl⟩ | ⟨user, _, hb⟩ := guarded_cases hx
  · cases h
  rcases ite_eq_iff.mp hb with ⟨_, hb⟩ | ⟨_, hb⟩
  · cases hb; cases h
  rcases ite_eq_iff.mp hb with ⟨_, hb⟩ | ⟨_, hb⟩
  · cases hb; cases h
  rcases ite_eq_iff.mp hb with ⟨_, hb⟩ | ⟨_, hb⟩
  · cases hb; cases h
  obtain ⟨t, a, ht, hp⟩ | ⟨err, _, hp⟩ := purging_cases o input.now purgeGraceSeconds
    Outcome.thrown (fun t => UserObject.loginTransaction t user input)
  · rw [hp] at hb
    cases hb
    subst h
    simp only [UserObject.loginTransaction, hs] at ht
    split at ht
    · cases ht
    next existing hfind =>
      obtain ⟨hm, hk⟩ := Table.find_eq_some.mp hfind
      rcases ite_eq_iff.mp ht with ⟨_, ht⟩ | ⟨hlive, _⟩
      · cases ht
      rw [not_or, not_le] at hlive
      exact ⟨existing, purgedTables_sessions_subset hm, hk, by simpa using hlive.1, hlive.2⟩
  · rw [hp] at hb
    cases hb
    cases h

/-- A session that is read is live at the time of the call. -/
theorem sessionRead_live {sha256 : String → Bytes} {o : UserObject} {c : Call} {sid : String}
    (h : sessionRead (Machine.event (UserObject.call sha256) o c) = some sid) :
    ∃ s ∈ o.tables.sessions.rows, s.sid = sid ∧ ∃ now, c.now? = some now ∧ s.live now := by
  unfold sessionRead at h
  split at h
  next sid' secretHash now a hc hr =>
    cases h
    cases hc
    obtain ⟨s, hs⟩ := getSession_ok (Reply.session.inj hr)
    obtain ⟨hm, hk, _, hl⟩ := liveSession_eq_some hs
    exact ⟨s, hm, hk, now, rfl, hl⟩
  next input a hc hr =>
    cases h
    cases hc
    obtain ⟨s, hs⟩ := authorizeWithSession_ok (Reply.authorize.inj hr)
    obtain ⟨hm, hk, _, hl⟩ := liveSession_eq_some hs
    exact ⟨s, hm, hk, input.now, rfl, hl⟩
  · cases h

/-- A used session is stored and unrevoked. -/
theorem sessionUsed_unrevoked {sha256 : String → Bytes} {o : UserObject} {c : Call} {sid : String}
    (h : sessionUsed (Machine.event (UserObject.call sha256) o c) = some sid) :
    ∃ s ∈ o.tables.sessions.rows, s.sid = sid ∧ s.revokedAt = none := by
  unfold sessionUsed at h
  split at h
  next input f hc hr =>
    cases hc
    split at h
    · cases h
    next sid' secretHash auth hses =>
      cases h
      obtain ⟨s, hm, hk, hu, _⟩ := finalizeLogin_rotate_ok hses (Reply.login.inj hr)
      exact ⟨s, hm, hk, hu⟩
  · obtain ⟨s, hm, hk, now, _, hl⟩ := sessionRead_live h
    exact ⟨s, hm, hk, hl.1⟩

/-- A session-bound family rotates only with its session live. -/
theorem boundSessionLive_session {t : Tables} {f : FamilyRow} {now : ℤ} {sid : String}
    (h : t.boundSessionLive f now = true) (hs : f.sid = some sid) :
    ∃ s ∈ t.sessions.rows, s.sid = sid ∧ s.live now := by
  unfold Tables.boundSessionLive at h
  simp only [hs] at h
  split at h
  · cases h
  next s hfind =>
    obtain ⟨hm, hk⟩ := Table.find_eq_some.mp hfind
    simp only [Bool.and_eq_true, decide_eq_true_eq] at h
    exact ⟨s, hm, hk, by simpa using h.1.1, h.1.2, h.2⟩

end TinyOidc.User
