import TinyOidc.User.Commits
import TinyOidc.User.Lifecycle

/-! Authorization codes: single use, what a successful exchange was checked against, replay, and
the user row an exchange reads before its `await`. -/
namespace TinyOidc.User
open RowTable

/-! ### Single use -/

/-- An exchanged code was issued, and its row, while stored, is consumed. -/
def ExchangedConsumed (h : List CallEvent) (t : Tables) : Prop :=
  ∀ x ∈ h.filterMap codeExchanged, x ∈ h.filterMap codeIssued ∧
    ∀ c ∈ t.authCodes.rows, c.secretHash = x → c.consumedAt.isSome

theorem ExchangeWrote.consumed {t t' : Tables} {input : ExchangeCodeInput} {code : CodeRow}
    {session : SessionRow} (h : ExchangeWrote t input code session t') :
    ∀ c ∈ t'.authCodes.rows, c.secretHash = input.secretHash → c.consumedAt.isSome := by
  have hcodes : t'.authCodes = (t.consumeCode input.secretHash input.now).authCodes := by
    unfold ExchangeWrote at h
    split at h
    · rw [h]
    · obtain ⟨families, tokens, _, _, rfl⟩ := openFamily_ok h
      rfl
  intro c hc hx
  rw [hcodes] at hc
  obtain ⟨g, _, ⟨hne, rfl⟩ | ⟨_, rfl⟩⟩ := Table.exists_of_mem_update hc
  · simp [hx] at hne
  · rfl

theorem exchanged_once_step {sha256 : String → Bytes} {h : List CallEvent} {o : UserObject}
    (c : Call) (hf : Fresh (Machine.event (UserObject.call sha256) o c :: h))
    (hst : Stored h o.tables) (hc : ExchangedConsumed h o.tables)
    (hn : (h.filterMap codeExchanged).Nodup) :
    ExchangedConsumed (Machine.event (UserObject.call sha256) o c :: h)
        (o.call sha256 c).1.tables ∧
      ((Machine.event (UserObject.call sha256) o c :: h).filterMap codeExchanged).Nodup := by
  have hold : ∀ x ∈ h.filterMap codeExchanged,
      x ∈ (Machine.event (UserObject.call sha256) o c :: h).filterMap codeIssued ∧
      ∀ k ∈ (o.call sha256 c).1.tables.authCodes.rows, k.secretHash = x → k.consumedAt.isSome := by
    intro x hx
    obtain ⟨hi, hcons⟩ := hc x hx
    refine ⟨mem_filterMap_cons.mpr (.inr hi), ?_⟩
    refine (call_evolves sha256 o c).codes.forall ?_ ?_ hcons
    · intro k k' hl hp hk
      rw [hl.row] at hk
      exact hl.consumed (hp hk)
    · intro k hnew hk
      exact absurd (hk ▸ hnew) (ne_of_nodup hf.codes (fun _ h => h) hi)
  cases he : codeExchanged (Machine.event (UserObject.call sha256) o c) with
  | none =>
    unfold ExchangedConsumed
    rw [List.filterMap_cons_none he]
    exact ⟨hold, hn⟩
  | some x =>
    obtain ⟨input, hin, rfl⟩ := Option.map_eq_some_iff.mp he
    obtain ⟨user, challenge, code, session, _, hx, hw, _⟩ := exchangeSucceeded_commit hin
    have hmem := purgedTables_codes_subset hx.code_mem
    unfold ExchangedConsumed
    rw [List.filterMap_cons_some he]
    constructor
    · intro y hy
      rcases List.mem_cons.mp hy with rfl | hy
      · refine ⟨mem_filterMap_cons.mpr (.inr ?_), hw.consumed⟩
        rw [← hx.secret]
        exact hst.codes code hmem
      · exact hold y hy
    · refine List.nodup_cons.mpr ⟨fun hm => ?_, hn⟩
      have hcons := (hc _ hm).2 code hmem hx.secret
      rw [hx.unconsumed] at hcons
      cases hcons

theorem exchanged_once_after (sha256 : String → Bytes) (calls : List Call)
    (hf : Fresh (history sha256 calls)) :
    ExchangedConsumed (history sha256 calls) (after sha256 calls).tables ∧
      ((history sha256 calls).filterMap codeExchanged).Nodup := by
  induction calls with
  | nil => exact ⟨by simp [ExchangedConsumed], by simp⟩
  | cons c calls ih =>
    obtain ⟨hc, hn⟩ := ih hf.tail
    exact exchanged_once_step c hf (stored_after sha256 calls) hc hn

/-! ### What a success was checked against -/

/-- RFC 7636: a code with a challenge needs the well-formed verifier that hashes to it; a code
without one is redeemed without a verifier. -/
def PkceSatisfied (sha256 : String → Bytes) (code : CodeRow) (verifier : Option String) : Prop :=
  match code.codeChallenge with
  | none => verifier = none
  | some challenge => ∃ v, verifier = some v ∧ pkceVerifier v = true ∧
      Util.encodeBase64Url (sha256 v) = challenge

structure Redeemable (sha256 : String → Bytes) (t : Tables) (input : ExchangeCodeInput)
    (code : CodeRow) (session : SessionRow) : Prop where
  code_mem : code ∈ t.authCodes.rows
  secret : code.secretHash = input.secretHash
  client : code.clientId = input.client.clientId
  redirect : code.redirectUri = input.redirectUri
  unexpired : input.now < code.expiresAt
  session_mem : session ∈ t.sessions.rows
  session_sid : session.sid = code.sid
  session_unrevoked : session.revokedAt = none
  pkce : PkceSatisfied sha256 code input.codeVerifier

/-- The challenge a transaction compares with is the hash of the verifier its call presented. -/
theorem exchangeCommit_challenge {sha256 : String → Bytes} {calls : List Call} {c : Call}
    {user : UserRow} {challenge : String} {input : ExchangeCodeInput}
    (h : exchangeCommit (Machine.event (UserObject.call sha256) (after sha256 calls) c) =
      some (user, some challenge, input)) :
    ∃ v, input.codeVerifier = some v ∧ pkceVerifier v = true ∧
      Util.encodeBase64Url (sha256 v) = challenge := by
  unfold exchangeCommit at h
  dsimp only [Machine.event_input, Machine.event_pre] at h
  split at h
  · split at h
    · cases h
    · cases h
  next call =>
    split at h
    next input' user' challenge' hl =>
      rcases ite_eq_iff.mp h with ⟨_, h⟩ | ⟨_, h⟩
      · cases h
      cases h
      obtain ⟨_, _, v, _, _, hv, hp, hch⟩ :=
        suspended_exchange_after sha256 (mem_of_lookup hl)
      exact ⟨v, hv, hp, hch.symm⟩
    · cases h
  · cases h

theorem pkceSatisfied_of_commit {sha256 : String → Bytes} {calls : List Call} {c : Call}
    {user : UserRow} {challenge : Option String} {input : ExchangeCodeInput} {code : CodeRow}
    (h : exchangeCommit (Machine.event (UserObject.call sha256) (after sha256 calls) c) =
      some (user, challenge, input))
    (hc : Tables.challengeRefused code challenge input.codeVerifier = false) :
    PkceSatisfied sha256 code input.codeVerifier := by
  unfold PkceSatisfied
  unfold Tables.challengeRefused at hc
  cases hcode : code.codeChallenge with
  | none => simpa [hcode] using hc
  | some stored =>
    have heq : challenge = some stored := by simpa [hcode] using hc
    subst heq
    exact exchangeCommit_challenge h

/-! ### Replay -/

theorem exchangeTransaction_replay {t : Tables} (user : UserRow) (challenge : Option String)
    {input : ExchangeCodeInput} {code : CodeRow} (hm : code ∈ t.authCodes.rows)
    (hx : code.secretHash = input.secretHash) (hc : code.consumedAt.isSome) :
    t.exchangeTransaction user challenge input =
      .ok (t.revokeFamiliesWhere (fun f => f.codeSecretHash == some input.secretHash) input.now
        "code_replay", .fail .invalidGrant true) := by
  have hfind : t.authCodes.find input.secretHash = some code := Table.find_eq_some.mpr ⟨hm, hx⟩
  simp [Tables.exchangeTransaction, hfind, hc]

/-- An answered exchange of a stored code ran its transaction. -/
theorem exchangeCommit_of_stored {sha256 : String → Bytes} {o : UserObject} {c : Call}
    {input : ExchangeCodeInput} {r : ExchangeOutcome} (hd : DormantEmpty o)
    (hrun : exchangeRun (Machine.event (UserObject.call sha256) o c) = some input)
    (hr : (o.call sha256 c).2 = .exchange (.done r)) (hne : o.tables.authCodes.rows ≠ []) :
    ∃ user challenge, exchangeCommit (Machine.event (UserObject.call sha256) o c) =
      some (user, challenge, input) := by
  obtain ⟨user, hg, _⟩ := guard_of_not_coreEmpty hd (fun h => hne h.codes)
  unfold exchangeRun at hrun
  dsimp only [Machine.event_input, Machine.event_pre] at hrun
  split at hrun
  · cases hrun
    cases hv : input.codeVerifier.filter pkceVerifier with
    | none => exact ⟨user, none, exchangeCommit_of_code hg hv⟩
    | some v => simp [UserObject.call, answered, UserObject.exchangeCode, hg, hv] at hr
  · split at hrun
    next user' challenge hl =>
      cases hrun
      have hdes : ¬o.destroyed = true := by simp [(guard_ok hg).1]
      exact ⟨user', some challenge, exchangeCommit_of_resume hl hdes⟩
    · cases hrun
  · cases hrun

/-- A stored family was opened by the exchange of the code it names. -/
def OpenedFrom (h : List CallEvent) (t : Tables) : Prop :=
  ∀ f ∈ t.refreshFamilies.rows,
    ∃ e ∈ h, familyOpened e = some f.id ∧ codeExchanged e = f.codeSecretHash

theorem openedFrom_after (sha256 : String → Bytes) (calls : List Call) :
    OpenedFrom (history sha256 calls) (after sha256 calls).tables := by
  induction calls with
  | nil => exact fun f hf => absurd hf (by simp [UserObject.fresh, Tables.empty])
  | cons c calls ih =>
    refine (call_evolves sha256 _ c).families.forall ?_ ?_ ?_
    · rintro f f' hl ⟨e, he, hid, hcode⟩
      exact ⟨e, he, hl.id ▸ hid, hl.code ▸ hcode⟩
    · rintro f ⟨hid, hcode⟩
      exact ⟨_, List.mem_cons_self, hid, hcode.symm⟩
    · intro f hf
      obtain ⟨e, he, hfrom⟩ := ih f hf
      exact ⟨e, List.mem_cons_of_mem _ he, hfrom⟩

theorem eq_of_nodup_filterMap {α β : Type} {f : α → Option β} {l : List α}
    (h : (l.filterMap f).Nodup) {a a' : α} {b : β} (ha : a ∈ l) (ha' : a' ∈ l)
    (hf : f a = some b) (hf' : f a' = some b) : a = a' := by
  induction l with
  | nil => simp at ha
  | cons x l ih =>
    rcases List.mem_cons.mp ha with heq | hl
    · subst heq
      rcases List.mem_cons.mp ha' with heq' | hl'
      · exact heq'.symm
      · exact absurd (List.mem_filterMap.mpr ⟨a', hl', hf'⟩) (notMem_of_nodup h hf)
    · rcases List.mem_cons.mp ha' with heq' | hl'
      · subst heq'
        exact absurd (List.mem_filterMap.mpr ⟨a, hl, hf⟩) (notMem_of_nodup h hf')
      · exact ih (nodup_filterMap_tail h) hl hl'

/-- A consumed code presented while it is stored kills the families opened from it. -/
theorem replay_kills_families {sha256 : String → Bytes} {c : Call} {earlier : List Call}
    {input : ExchangeCodeInput} {r : ExchangeOutcome} {code : CodeRow}
    (hf : Fresh (history sha256 earlier))
    (hrun : exchangeRun (Machine.event (UserObject.call sha256) (after sha256 earlier) c) =
      some input)
    (hr : ((after sha256 earlier).call sha256 c).2 = .exchange (.done r))
    (hm : code ∈ (purgedTables (after sha256 earlier) input.now purgeGraceSeconds).authCodes.rows)
    (hx : code.secretHash = input.secretHash) (hc : code.consumedAt.isSome) :
    r = .fail .invalidGrant true ∧
    ∀ e ∈ history sha256 earlier, ∀ id, codeExchanged e = some input.secretHash →
      familyOpened e = some id → FamilyDead id (after sha256 (c :: earlier)).tables := by
  have hne : (after sha256 earlier).tables.authCodes.rows ≠ [] :=
    List.ne_nil_of_mem (purgedTables_codes_subset hm)
  obtain ⟨user, challenge, hcommit⟩ :=
    exchangeCommit_of_stored (dormantEmpty_after sha256 earlier) hrun hr hne
  have ht := exchangeTransaction_replay user challenge hm hx hc
  rcases exchangeCommit_cases hcommit with ⟨r', ht', hr'⟩ | ⟨err, ht', _⟩
  swap
  · rw [ht] at ht'
    cases ht'
  rw [ht] at ht'
  obtain ⟨htables, rfl⟩ := Prod.mk.inj (Except.ok.inj ht')
  refine ⟨by rw [hr] at hr'; cases hr'; rfl, ?_⟩
  intro e he id hcode hopen f hfm hid
  rw [after, Machine.after_cons, ← htables] at hfm
  obtain ⟨g, hg, hgid, hrev⟩ := mem_revokeFamiliesWhere hfm
  refine hrev (.inl ?_)
  obtain ⟨e', he', hopen', hcode'⟩ :=
    openedFrom_after sha256 earlier g (purgedTables_families_subset hg)
  have hsame : e' = e :=
    eq_of_nodup_filterMap hf.families he' he (hopen'.trans (by rw [hgid, hid])) hopen
  rw [← hcode', hsame, hcode]
  exact beq_self_eq_true _

/-- Authorization codes are single use and bound: in every run with fresh secrets a code is
exchanged at most once; a success was presented with the stored client, redirect URI and PKCE
verifier, in time and for an unrevoked session; and a consumed code presented while it is stored
kills the families opened from it. -/
theorem codes_single_use_and_bound (sha256 : String → Bytes) (calls : List Call)
    (hf : Fresh (history sha256 calls)) :
    ((history sha256 calls).filterMap codeExchanged).Nodup ∧
    ∀ later c earlier input, calls = later ++ c :: earlier →
      (exchangeSucceeded (Machine.event (UserObject.call sha256) (after sha256 earlier) c) =
          some input →
        ∃ code session, Redeemable sha256
          (purgedTables (after sha256 earlier) input.now purgeGraceSeconds) input code session) ∧
      ∀ r code, exchangeRun (Machine.event (UserObject.call sha256) (after sha256 earlier) c) =
          some input →
        ((after sha256 earlier).call sha256 c).2 = .exchange (.done r) →
        code ∈ (purgedTables (after sha256 earlier) input.now purgeGraceSeconds).authCodes.rows →
        code.secretHash = input.secretHash → code.consumedAt.isSome →
        r = .fail .invalidGrant true ∧
        ∀ e ∈ history sha256 earlier, ∀ id, codeExchanged e = some input.secretHash →
          familyOpened e = some id → FamilyDead id (after sha256 (c :: earlier)).tables := by
  refine ⟨(exchanged_once_after sha256 calls hf).2, ?_⟩
  rintro later c earlier input rfl
  constructor
  · intro hs
    obtain ⟨user, challenge, code, session, hcommit, hx, _, _⟩ := exchangeSucceeded_commit hs
    exact ⟨code, session, hx.code_mem, hx.secret, hx.client, hx.redirect, hx.unexpired,
      hx.session_mem, hx.session_sid, hx.session_unrevoked,
      pkceSatisfied_of_commit hcommit hx.challenge⟩
  · intro r code hrun hr hm hx hc
    exact replay_kills_families (fresh_of_append hf).tail hrun hr hm hx hc

/-- A code bound to the challenge of `Sample.verifier`. -/
def Sample.boundCode (secretHash : Bytes) : CodeInput :=
  { Sample.code secretHash with
    codeChallenge := some "E9Melhoa2OwvFrEMTJguCHaoeK1t8URWbuGJSstw-cM" }

def Sample.verifiedExchange (secretHash : Bytes) (now : ℤ) (client : ClientRef)
    (refresh : Option RefreshInput) : ExchangeCodeInput :=
  ⟨secretHash, client, "https://app.test/cb", some Sample.verifier, now, refresh⟩

/-- Two exchanges of one code, both suspended before the first commits. -/
def Sample.exchangedOnce : List Call :=
  [.resumeExchange 0,
    .exchangeCode (Sample.verifiedExchange [1] 11 Sample.client
      (some (Sample.refresh "f2" [6] false))),
    .exchangeCode (Sample.verifiedExchange [1] 10 Sample.client
      (some (Sample.refresh "f1" [5] false))),
    Sample.login "s1" [2] 0 (some (Sample.boundCode [1])), Sample.init]

/-- The second of them is a replay, which kills the family of the first. -/
theorem codes_single_use_and_bound_sample :
    Fresh (history Sample.sha256 (.resumeExchange 1 :: Sample.exchangedOnce)) ∧
    FamilyDead "f1" (after Sample.sha256 (.resumeExchange 1 :: Sample.exchangedOnce)).tables := by
  have hf : Fresh (history Sample.sha256 (.resumeExchange 1 :: Sample.exchangedOnce)) := by decide
  obtain ⟨_, hcodes⟩ := codes_single_use_and_bound Sample.sha256 _ hf
  obtain ⟨_, hreplay⟩ := hcodes [] (.resumeExchange 1) Sample.exchangedOnce
    (Sample.verifiedExchange [1] 11 Sample.client (some (Sample.refresh "f2" [6] false))) rfl
  obtain ⟨_, hdead⟩ := hreplay (.fail .invalidGrant true)
    { secretHash := [1], clientId := "app", redirectUri := "https://app.test/cb"
      scope := ["openid", "offline_access"], nonce := none
      codeChallenge := some "E9Melhoa2OwvFrEMTJguCHaoeK1t8URWbuGJSstw-cM", sid := "s1"
      authTime := 0, amr := ["user", "hwk"], acr := "urn:tinyoidc:acr:passkey", createdAt := 0
      expiresAt := 60, consumedAt := some 10 }
    (by decide) (by decide) (by decide) (by decide) (by decide)
  exact ⟨hf, hdead _ List.mem_cons_self "f1" (by decide) (by decide)⟩

/-! ### The user an exchange is checked against -/

/-- What an exchange should have checked of the user stored when its transaction runs; the
transaction itself writes no user row. -/
def ChecksStoredUser (t : Tables) (input : ExchangeCodeInput) (grant : GrantContext) : Prop :=
  ∃ user, t.user = some user ∧ user.disabledAt = none ∧ allowed user input.client = true ∧
    (∀ code ∈ t.authCodes.rows, code.secretHash = input.secretHash →
      adminAllowed user code.scope = true) ∧
    grant.profile = profile user

theorem profile_injective : Function.Injective profile := by
  intro a b h
  cases a
  cases b
  simp only [profile, UserProfile.mk.injEq] at h
  simp only [UserRow.mk.injEq]
  exact h

/-- The user row of a transaction is the one stored when its call started. -/
theorem exchangeCommit_user {sha256 : String → Bytes} {calls : List Call} {c : Call}
    {user : UserRow} {challenge : Option String} {input : ExchangeCodeInput}
    (h : exchangeCommit (Machine.event (UserObject.call sha256) (after sha256 calls) c) =
      some (user, challenge, input)) :
    ∃ later earlier, c :: calls = later ++ .exchangeCode input :: earlier ∧
      (after sha256 earlier).tables.user = some user := by
  unfold exchangeCommit at h
  dsimp only [Machine.event_input, Machine.event_pre] at h
  split at h
  · split at h
    next user' hg _ =>
      cases h
      exact ⟨[], calls, rfl, (guard_ok hg).2⟩
    · cases h
  next call =>
    split at h
    next input' user' challenge' hl =>
      rcases ite_eq_iff.mp h with ⟨_, h⟩ | ⟨_, h⟩
      · cases h
      cases h
      obtain ⟨later, earlier, _, rfl, hg, _⟩ := suspended_exchange_after sha256 (mem_of_lookup hl)
      exact ⟨.resumeExchange call :: later, earlier, rfl, (guard_ok hg).2⟩
    · cases h
  · cases h

/-- A successful exchange satisfies the checks of the stored user exactly when the stored row
is still the one its call read before it hashed the verifier. -/
theorem exchange_checks_stored_user_iff (sha256 : String → Bytes) (calls : List Call) (c : Call)
    (input : ExchangeCodeInput) (grant : GrantContext) (nonce familyId : Option String)
    (kind : Option FamilyKind)
    (hs : exchangeSucceeded (Machine.event (UserObject.call sha256) (after sha256 calls) c) =
      some input)
    (hr : ((after sha256 calls).call sha256 c).2 =
      .exchange (.done (.ok grant nonce familyId kind))) :
    ∃ user challenge,
      exchangeCommit (Machine.event (UserObject.call sha256) (after sha256 calls) c) =
        some (user, challenge, input) ∧
      (∃ later earlier, c :: calls = later ++ .exchangeCode input :: earlier ∧
        (after sha256 earlier).tables.user = some user) ∧
      (ChecksStoredUser (after sha256 calls).tables input grant ↔
        (after sha256 calls).tables.user = some user) := by
  obtain ⟨user, challenge, code, session, hcommit, hx, _, _, _, _, hreply⟩ :=
    exchangeSucceeded_commit hs
  rw [hr] at hreply
  cases hreply
  refine ⟨user, challenge, hcommit, exchangeCommit_user hcommit, ?_, ?_⟩
  · rintro ⟨stored, hstored, _, _, _, hprofile⟩
    rw [hstored, ← profile_injective hprofile]
  · intro hstored
    refine ⟨user, hstored, hx.enabled, hx.groups, ?_, rfl⟩
    intro code' hm hsecret
    rw [Table.eq_of_key_eq hm (purgedTables_codes_subset hx.code_mem)
      (hsecret.trans hx.secret.symm)]
    exact hx.admin

def Sample.staffClient : ClientRef := { Sample.client with allowedGroups := some ["staff"] }

def Sample.staffInput : ExchangeCodeInput := Sample.verifiedExchange [1] 10 Sample.staffClient none

/-- A member of `staff` logs in, and the exchange of the code waits for the verifier's hash. -/
def Sample.staffSuspended : List Call :=
  [.exchangeCode Sample.staffInput, Sample.login "s1" [2] 0 (some (Sample.boundCode [1])),
    .init ⟨"u1", none, none, false, none, ["staff"]⟩ 0 []]

def Sample.staffGrant : GrantContext :=
  { sub := "u1", scope := ["openid", "offline_access"], sid := some "s1", authTime := 0
    amr := ["user", "hwk"], acr := "urn:tinyoidc:acr:passkey"
    profile := ⟨"u1", none, none, false, none, ["staff"], none, 0, 0⟩ }

theorem exchange_checks_stored_user_sample :
    ChecksStoredUser (after Sample.sha256 Sample.staffSuspended).tables Sample.staffInput
      Sample.staffGrant := by
  obtain ⟨user, challenge, hcommit, _, hiff⟩ := exchange_checks_stored_user_iff Sample.sha256
    Sample.staffSuspended (.resumeExchange 0) Sample.staffInput Sample.staffGrant none none none
    (by decide) (by decide)
  have huser : some (user, challenge, Sample.staffInput) =
      some (⟨"u1", none, none, false, none, ["staff"], none, 0, 0⟩,
        some "E9Melhoa2OwvFrEMTJguCHaoeK1t8URWbuGJSstw-cM", Sample.staffInput) :=
    hcommit.symm.trans (by decide)
  cases huser
  exact hiff.mpr (by decide)

/-- The user leaves `staff` during the wait; the exchange still succeeds for a `staff` client. -/
theorem exchange_after_leaving_group :
    exchangeSucceeded (Machine.event (UserObject.call Sample.sha256)
      (after Sample.sha256 (.setGroups [] 11 :: Sample.staffSuspended)) (.resumeExchange 0)) =
        some Sample.staffInput ∧
    ((after Sample.sha256 (.setGroups [] 11 :: Sample.staffSuspended)).call Sample.sha256
      (.resumeExchange 0)).2 = .exchange (.done (.ok Sample.staffGrant none none none)) ∧
    ¬ ChecksStoredUser (after Sample.sha256 (.setGroups [] 11 :: Sample.staffSuspended)).tables
      Sample.staffInput Sample.staffGrant := by
  refine ⟨by decide, by decide, ?_⟩
  rintro ⟨user, hstored, _, hallowed, _⟩
  have huser : (after Sample.sha256 (.setGroups [] 11 :: Sample.staffSuspended)).tables.user =
      some ⟨"u1", none, none, false, none, [], none, 0, 11⟩ := by decide
  rw [huser] at hstored
  cases hstored
  revert hallowed
  decide

end TinyOidc.User
