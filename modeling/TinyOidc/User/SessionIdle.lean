import TinyOidc.User.Expiry

/-! The idle expiry of a session: it is set by the creation, by a rotation of the secret and by a
touch, which is made at most once a minute, and it is always the last sight of the session plus its
idle lifetime, cut at the absolute expiry. -/
namespace TinyOidc.User
open RowTable

/-- A use of a session that counts for its idle expiry, with the idle lifetime of the call. -/
structure SessionUse where
  sid : String
  now : ℤ
  idleTtl : ℤ
  deriving DecidableEq, Repr

/-- A session created or its secret rotated, a code issued under it, or a refresh token bound to it
rotated. -/
def sessionUse (e : CallEvent) : Option SessionUse :=
  match e.input, e.reply with
  | .finalizeLogin input, .login (.ok _) =>
      match input.session with
      | .create session => some ⟨session.sid, input.now, session.idleTtl⟩
      | .rotate sid _ _ => some ⟨sid, input.now, input.sessionIdleTtl⟩
  | .authorizeWithSession input, .authorize (.ok a) =>
      if a.outcome = .authorized ∧ input.code.isSome then
        some ⟨input.sid, input.now, input.sessionIdleTtl⟩
      else none
  | .rotateRefreshToken input, .rotate (.ok grant _ _) =>
      grant.sid.map fun sid => ⟨sid, input.now, input.sessionIdleTtl⟩
  | _, _ => none

/-- Every use of the session in the run gives it the same idle lifetime. -/
def ConstantTtl (sha256 : String → Bytes) (calls : List Call) (sid : String) (ttl : ℤ) : Prop :=
  ∀ use ∈ (history sha256 calls).filterMap sessionUse, use.sid = sid → use.idleTtl = ttl

instance (sha256 : String → Bytes) (calls : List Call) (sid : String) (ttl : ℤ) :
    Decidable (ConstantTtl sha256 calls sid ttl) :=
  inferInstanceAs (Decidable (∀ use ∈ (history sha256 calls).filterMap sessionUse, _))

/-! ### What a call does to the times -/

/-- The row of the session it was, with the same times. -/
structure SameTimes (r r' : SessionRow) : Prop where
  sid : r'.sid = r.sid
  lastSeen : r'.lastSeenAt = r.lastSeenAt
  idle : r'.idleExpiresAt = r.idleExpiresAt
  absolute : r'.absoluteExpiresAt = r.absoluteExpiresAt

/-- Every session was there before, with the same times. -/
def KeepsTimes (t t' : Tables) : Prop :=
  ∀ r' ∈ t'.sessions.rows, ∃ r ∈ t.sessions.rows, SameTimes r r'

theorem KeepsTimes.of_subset {t t' : Tables} (h : t'.sessions.rows ⊆ t.sessions.rows) :
    KeepsTimes t t' := fun r' hr' => ⟨r', h hr', ⟨rfl, rfl, rfl, rfl⟩⟩

theorem KeepsTimes.of_eq {t t' : Tables} (h : t'.sessions = t.sessions) : KeepsTimes t t' :=
  .of_subset (by rw [h]; exact List.Subset.refl _)

theorem KeepsTimes.refl (t : Tables) : KeepsTimes t t := .of_eq rfl

theorem KeepsTimes.trans {t t' t'' : Tables} (h : KeepsTimes t t') (h' : KeepsTimes t' t'') :
    KeepsTimes t t'' := by
  intro r'' hr''
  obtain ⟨r', hr', hsame'⟩ := h' r'' hr''
  obtain ⟨r, hr, hsame⟩ := h r' hr'
  exact ⟨r, hr, hsame'.sid.trans hsame.sid, hsame'.lastSeen.trans hsame.lastSeen,
    hsame'.idle.trans hsame.idle, hsame'.absolute.trans hsame.absolute⟩

theorem keepsTimes_purgeIfDue (o : UserObject) (now w : ℤ) :
    KeepsTimes o.tables (o.purgeIfDue now w).tables := .of_subset purgedTables_sessions_subset

theorem keepsTimes_revokeSessionRows (t : Tables) (sid : String) (now : ℤ) (reason : String) :
    KeepsTimes t (t.revokeSessionRows sid now reason).1 := by
  intro r' hr'
  obtain ⟨r, hr, ⟨-, rfl⟩ | ⟨-, rfl⟩⟩ := Table.exists_of_mem_update hr'
  · exact ⟨r', hr, rfl, rfl, rfl, rfl⟩
  · exact ⟨r, hr, rfl, rfl, rfl, rfl⟩

theorem keepsTimes_revokeEach (now : ℤ) (reason : String) (sids : List String) (t : Tables) :
    KeepsTimes t (Tables.revokeEach now reason t sids).1 := by
  induction sids generalizing t with
  | nil => exact .refl t
  | cons sid sids ih => exact (keepsTimes_revokeSessionRows t sid now reason).trans (ih _)

theorem keepsTimes_revokeReused (t : Tables) (family : FamilyRow) (now : ℤ) :
    KeepsTimes t (t.revokeReused family now).1 := by
  unfold Tables.revokeReused
  dsimp only
  split
  · exact .of_eq rfl
  · have hfamily : KeepsTimes t (t.revokeFamily family.id now "reuse") := .of_eq rfl
    exact hfamily.trans (keepsTimes_revokeSessionRows _ _ now _)

theorem keepsTimes_guarded {α : Type} {o : UserObject} {fail : UserDoError → α}
    {body : UserRow → UserObject × α} (h : ∀ user, KeepsTimes o.tables (body user).1.tables) :
    KeepsTimes o.tables (o.guarded fail body).1.tables := by
  unfold UserObject.guarded
  split
  · exact .refl _
  · exact h _

theorem keepsTimes_purging {α : Type} {o : UserObject} {now w : ℤ} {thrown : SqlError → α}
    {body : Tables → Except SqlError (Tables × α)}
    (h : ∀ t t' a, body t = .ok (t', a) → KeepsTimes t t') :
    KeepsTimes o.tables (o.purging now w thrown body).1.tables := by
  rcases purging_cases o now w thrown body with ⟨t, a, hbody, hpurging⟩ | ⟨err, -, hpurging⟩
  · rw [hpurging]
    exact (keepsTimes_purgeIfDue o now w).trans (h _ t a hbody)
  · rw [hpurging]
    exact .refl _

theorem keepsTimes_exchange {t t' : Tables} {user : UserRow} {expectedChallenge : Option String}
    {input : ExchangeCodeInput} {r : ExchangeOutcome}
    (h : t.exchangeTransaction user expectedChallenge input = .ok (t', r)) : KeepsTimes t t' := by
  obtain ⟨rfl, -⟩ | ⟨-, -, -, -, rfl, -⟩ | ⟨code, session, -, -, -, -, hwrote, -⟩ :=
    exchangeTransaction_cases h
  · exact .refl t'
  · exact .of_eq rfl
  · unfold ExchangeWrote at hwrote
    split at hwrote
    · exact .of_eq (by rw [hwrote]; rfl)
    · obtain ⟨families, tokens, -, -, rfl⟩ := openFamily_ok hwrote
      exact .of_eq rfl

theorem keepsTimes_commitExchange (o : UserObject) (user : UserRow)
    (expectedChallenge : Option String) (input : ExchangeCodeInput) :
    KeepsTimes o.tables (o.commitExchange user expectedChallenge input).1.tables :=
  keepsTimes_purging fun _ _ _ h => keepsTimes_exchange h

/-- A call other than the three that use sessions keeps their times. -/
theorem call_keepsTimes (sha256 : String → Bytes) (o : UserObject) {c : Call}
    (hlogin : ∀ input, c ≠ .finalizeLogin input)
    (hauthorize : ∀ input, c ≠ .authorizeWithSession input)
    (hrotate : ∀ input, c ≠ .rotateRefreshToken input) :
    KeepsTimes o.tables (o.call sha256 c).1.tables := by
  cases c with
  | init p now identities =>
    show KeepsTimes o.tables (o.init p now identities).1.tables
    unfold UserObject.init
    split_ifs
    · exact .refl _
    · split
      · split_ifs <;> exact .refl _
      · split
        · exact .refl _
        · next t ht => exact .of_eq (insertIdentities_sameCore ht).sessions
  | destroy => exact .of_subset (List.nil_subset _)
  | evict => exact .refl _
  | getProfile => exact keepsTimes_guarded fun _ => .refl _
  | setGroups groups now => exact keepsTimes_guarded fun _ => .of_eq rfl
  | setDisabled disabledAt now =>
    apply keepsTimes_guarded
    intro user
    cases disabledAt with
    | none => exact .of_eq rfl
    | some since =>
      let t :=
        { o.tables with user := some { user with disabledAt := some since, updatedAt := now } }
      have hstart : KeepsTimes o.tables t := .of_eq rfl
      exact hstart.trans ((keepsTimes_revokeEach now "disabled" _ t).trans (.of_eq rfl))
  | touch now reuseWindow =>
    exact keepsTimes_guarded fun _ => keepsTimes_purgeIfDue o now reuseWindow
  | authorizeWithSession input => exact absurd rfl (hauthorize input)
  | finalizeLogin input => exact absurd rfl (hlogin input)
  | rotateRefreshToken input => exact absurd rfl (hrotate input)
  | getSession sid secretHash now =>
    apply keepsTimes_guarded
    intro user
    split
    · exact .refl _
    · split <;> exact .refl _
  | revokeSession sid now reason =>
    apply keepsTimes_guarded
    intro user
    apply keepsTimes_purging
    intro t t' a h
    split at h
    · cases h; exact .refl _
    · split_ifs at h
      · cases h; exact .refl _
      · cases h; exact keepsTimes_revokeSessionRows t sid now reason
  | listSessions now => exact keepsTimes_guarded fun _ => .refl _
  | revokeSessions except now reason =>
    apply keepsTimes_guarded
    intro user
    apply keepsTimes_purging
    intro t t' a h
    cases h
    exact keepsTimes_revokeEach now reason _ t
  | countPasskeyAttempt now =>
    apply keepsTimes_guarded
    intro user
    dsimp only
    split_ifs <;> exact .of_eq rfl
  | putChallenge key value expiresAt => exact keepsTimes_guarded fun _ => .of_eq rfl
  | takeChallenge key now => exact keepsTimes_guarded fun _ => .of_eq rfl
  | revokeAll now reason =>
    exact keepsTimes_guarded fun _ => (keepsTimes_revokeEach now reason _ _).trans (.of_eq rfl)
  | exchangeCode input =>
    show KeepsTimes o.tables (o.exchangeCode sha256 input).1.tables
    unfold UserObject.exchangeCode
    split
    · exact .refl _
    · split
      · exact .refl _
      · exact keepsTimes_commitExchange o _ _ input
  | resumeExchange call =>
    show KeepsTimes o.tables (o.resumeExchange call).1.tables
    unfold UserObject.resumeExchange
    split
    · dsimp only
      split_ifs
      · exact .refl _
      · exact keepsTimes_commitExchange _ _ _ _
    · exact .refl _
  | revokeFamilyById familyId now reason clientId =>
    apply keepsTimes_guarded
    intro user
    split
    · exact .refl _
    · split_ifs <;> exact .of_eq rfl
  | revokeSessionFamiliesOfClient sid clientId now => exact keepsTimes_guarded fun _ => .of_eq rfl
  | revokeFamiliesOfClient clientId now reason => exact keepsTimes_guarded fun _ => .of_eq rfl
  | listFamilies now => exact keepsTimes_guarded fun _ => .refl _
  | grantConsent client scopes now =>
    exact keepsTimes_guarded fun _ => .of_eq (grantFor_sameCore o.tables client).sessions
  | grantClientIds => exact keepsTimes_guarded fun _ => .refl _
  | listGrants clients => exact keepsTimes_guarded fun _ => .of_eq rfl
  | revokeGrant clientId now => exact keepsTimes_guarded fun _ => .of_eq rfl
  | addPasskey passkey now maxPerUser =>
    apply keepsTimes_guarded
    intro user
    split_ifs
    · exact .refl _
    · exact .refl _
    · split <;> exact .of_eq rfl
  | verifyAssertion credentialId now =>
    apply keepsTimes_guarded
    intro user
    split <;> exact .refl _
  | resumeAssertion call verified =>
    exact .of_eq (resumeAssertion_sameCore o call verified).sessions
  | listPasskeys => exact keepsTimes_guarded fun _ => .refl _
  | removePasskey id actor =>
    apply keepsTimes_guarded
    intro user
    dsimp only
    split <;> exact .of_eq rfl
  | renamePasskey id name => exact keepsTimes_guarded fun _ => .of_eq rfl
  | addIdentity identity now =>
    apply keepsTimes_guarded
    intro user
    split_ifs
    · exact .refl _
    · split
      · exact .refl _
      · next t ht => exact .of_eq (insertIdentity_sameCore ht).sessions
  | touchIdentity issuer subject claims now => exact keepsTimes_guarded fun _ => .of_eq rfl
  | listIdentities => exact keepsTimes_guarded fun _ => .refl _
  | removeIdentity id actor =>
    apply keepsTimes_guarded
    intro user
    dsimp only
    split <;> exact .of_eq rfl
  | updateProfile patch now => exact keepsTimes_guarded fun _ => .of_eq rfl

/-! ### What a use does to the times -/

/-- The session as the use leaves it when it extends it. -/
structure Renewed (use : SessionUse) (r : SessionRow) : Prop where
  sid : r.sid = use.sid
  lastSeen : r.lastSeenAt = use.now
  idle : r.idleExpiresAt = min (use.now + use.idleTtl) r.absoluteExpiresAt

/-- The row keeps its times through the use: it is of another session, or was seen within the last
minute. -/
structure Unextended (use : SessionUse) (r r' : SessionRow) : Prop extends SameTimes r r' where
  recent : r.sid = use.sid → use.now - r.lastSeenAt < sessionTouchIntervalSeconds

/-- Every session was there before; the one in use is stored, renewed unless it was seen within the
last minute, and the others keep their times. -/
structure Prolongs (use : SessionUse) (t t' : Tables) : Prop where
  rows : ∀ r' ∈ t'.sessions.rows, ∃ r ∈ t.sessions.rows,
    Unextended use r r' ∨
      Renewed use r' ∧ r.sid = r'.sid ∧ r'.absoluteExpiresAt = r.absoluteExpiresAt
  stored : ∃ r' ∈ t'.sessions.rows, r'.sid = use.sid

theorem KeepsTimes.trans_prolongs {use : SessionUse} {t t' t'' : Tables} (h : KeepsTimes t t')
    (h' : Prolongs use t' t'') : Prolongs use t t'' := by
  refine ⟨?_, h'.stored⟩
  intro r'' hr''
  obtain ⟨r', hr', hstep⟩ := h'.rows r'' hr''
  obtain ⟨r, hr, hsame⟩ := h r' hr'
  refine ⟨r, hr, ?_⟩
  rcases hstep with hkept | ⟨hrenewed, hsid, habs⟩
  · have hrecent : r.sid = use.sid → use.now - r.lastSeenAt < sessionTouchIntervalSeconds := by
      rw [← hsame.sid, ← hsame.lastSeen]
      exact hkept.recent
    exact .inl ⟨⟨hkept.sid.trans hsame.sid, hkept.lastSeen.trans hsame.lastSeen,
      hkept.idle.trans hsame.idle, hkept.absolute.trans hsame.absolute⟩, hrecent⟩
  · exact .inr ⟨hrenewed, hsame.sid.symm.trans hsid, habs.trans hsame.absolute⟩

/-- An update of the row of one session that renews it. -/
theorem prolongs_update {t : Tables} {row : SessionRow} {now idleTtl : ℤ}
    {f : SessionRow → SessionRow} (hkey : ∀ r, (f r).sid = r.sid) (hrow : row ∈ t.sessions.rows)
    (hseen : ∀ r, (f r).lastSeenAt = now)
    (hidle : ∀ r, (f r).idleExpiresAt = min (now + idleTtl) row.absoluteExpiresAt)
    (habs : ∀ r, (f r).absoluteExpiresAt = r.absoluteExpiresAt) :
    Prolongs ⟨row.sid, now, idleTtl⟩ t
      { t with sessions := t.sessions.updateWhere (·.sid == row.sid) f hkey } := by
  refine ⟨?_, ?_⟩
  · intro r' hr'
    obtain ⟨r, hr, ⟨hne, rfl⟩ | ⟨hsid, rfl⟩⟩ := Table.exists_of_mem_update hr'
    · exact ⟨r', hr, .inl ⟨⟨rfl, rfl, rfl, rfl⟩, fun h => by simp [h] at hne⟩⟩
    · obtain rfl : r = row := Table.eq_of_key_eq hr hrow (beq_iff_eq.mp hsid)
      exact ⟨r, hr, .inr ⟨⟨hkey r, hseen r, by rw [hidle, habs]⟩, (hkey r).symm, habs r⟩⟩
  · have hwritten := Table.mem_updateWhere_of_mem (p := (·.sid == row.sid)) hkey hrow
    rw [if_pos (beq_self_eq_true row.sid)] at hwritten
    exact ⟨f row, hwritten, hkey row⟩

theorem touchSession_prolongs {t : Tables} {row : SessionRow} (hrow : row ∈ t.sessions.rows)
    (now idleTtl : ℤ) : Prolongs ⟨row.sid, now, idleTtl⟩ t (t.touchSession row now idleTtl) := by
  unfold Tables.touchSession
  split_ifs with hrecent
  · refine ⟨fun r hr => ⟨r, hr, .inl ⟨⟨rfl, rfl, rfl, rfl⟩, ?_⟩⟩, row, hrow, rfl⟩
    intro hsid
    rwa [Table.eq_of_key_eq hr hrow hsid]
  · exact prolongs_update _ hrow (fun _ => rfl) (fun _ => rfl) (fun _ => rfl)

theorem issueCodeRows_prolongs {t t' : Tables} {code : CodeInput} {session : SessionRow}
    {now ttl : ℤ} (hsession : session ∈ t.sessions.rows)
    (h : t.issueCodeRows code session now ttl = .ok t') :
    Prolongs ⟨session.sid, now, ttl⟩ t t' := by
  obtain ⟨codes, -, rfl⟩ := issueCodeRows_ok h
  let noted := ({ t with authCodes := codes }).noteClient session.sid code.clientId now
  have hnoted : KeepsTimes t noted := .of_eq rfl
  have hmem : session ∈ noted.sessions.rows := hsession
  exact hnoted.trans_prolongs (touchSession_prolongs hmem now ttl)

theorem rotateSession_prolongs {t t' : Tables} {existing : SessionRow} {secretHash : Bytes}
    {auth : AuthContext} {now ttl : ℤ} (hexisting : existing ∈ t.sessions.rows)
    (h : t.rotateSession existing secretHash auth now ttl = .ok t') :
    Prolongs ⟨existing.sid, now, ttl⟩ t t' := by
  rw [rotateSession_ok h]
  exact prolongs_update _ hexisting (fun _ => rfl) (fun _ => rfl) (fun _ => rfl)

/-- Once the row of the session is written, the rest of a login leaves it: the touch of the code
finds it just seen. -/
theorem finishLogin_sessions {t t' : Tables} {user : UserRow} {sid : String}
    {input : FinalizeLoginInput} {r : Outcome Finalized}
    (h : UserObject.finishLogin t user sid input = .ok (t', r))
    (hrecent : ∀ s ∈ t.sessions.rows, s.sid = sid → s.lastSeenAt = input.now) :
    t'.sessions = t.sessions := by
  unfold UserObject.finishLogin at h
  split at h
  · cases h; rfl
  next session hfind =>
    obtain ⟨hm, hk⟩ := Table.find_eq_some.mp hfind
    split at h
    · cases h
    next issued hiss =>
      cases h
      unfold UserObject.issueOptional at hiss
      split at hiss
      · cases hiss; rfl
      · obtain ⟨codes, -, rfl⟩ := issueCodeRows_ok hiss
        rw [touchSession_of_recent (hrecent session hm hk)]
        rfl

/-- The session-hit path issues a code and extends the session, or keeps the times. -/
theorem authorizeWithSession_times {o o' : UserObject} {input : AuthorizeWithSessionInput}
    {r : Outcome Authorized} (h : o.authorizeWithSession input = (o', r)) :
    (KeepsTimes o.tables o'.tables ∧
      ∀ a, r = .ok a → a.outcome = .authorized → input.code = none) ∨
    Prolongs ⟨input.sid, input.now, input.sessionIdleTtl⟩ o.tables o'.tables ∧
      ∃ a, r = .ok a ∧ a.outcome = .authorized ∧ input.code.isSome := by
  obtain ⟨hsame, hnone⟩ | ⟨user, session, code, a, hcode, hr, hout⟩ := authorizeWithSession_cases h
  · exact .inl ⟨.of_eq hsame.sessions, hnone⟩
  · obtain ⟨hm, hsid, -, hlive⟩ := liveSession_eq_some hcode.live
    have hconsent := consentCovered_sameCore o.tables input
    let covered := o.store (UserObject.consentCovered o.tables input).1
    have hcovered : KeepsTimes o.tables covered.tables := .of_eq hconsent.sessions
    have hpurged := hcovered.trans (keepsTimes_purgeIfDue covered input.now purgeGraceSeconds)
    have hsession : session ∈ (authorizeTables o input).sessions.rows := by
      apply mem_purgeIfDue_sessions_of_live _ hlive
      rw [UserObject.store, hconsent.sessions]
      exact hm
    have hprolongs := hpurged.trans_prolongs (issueCodeRows_prolongs hsession hcode.written)
    rw [hsid] at hprolongs
    exact .inr ⟨hprolongs, a, hr, hout, by simp [hcode.requested]⟩

/-- A rotation of a refresh token extends the session its family is bound to. -/
theorem Rotated.prolongs {t t' : Tables} {user : UserRow} {input : RotateRefreshInput}
    {family : FamilyRow} {token : TokenRow} (h : Rotated t user input t' family token)
    {sid : String}
    (hsid : family.sid = some sid) :
    Prolongs ⟨sid, input.now, input.sessionIdleTtl⟩ t t' := by
  obtain ⟨advanced, hadvanced, rfl⟩ := h.written
  have hsessions := advanceFamily_sessions hadvanced
  obtain ⟨session, hm, rfl, -⟩ := boundSessionLive_session h.bound hsid
  have hfind := Table.find_eq_some.mpr ⟨hm, rfl⟩
  simp only [Tables.touchBound, hsid, Option.bind_some, hfind]
  rw [← hsessions] at hm
  have hadvance : KeepsTimes t advanced := .of_eq hsessions
  exact hadvance.trans_prolongs (touchSession_prolongs hm _ _)

/-- A rotation of a token of no session keeps the times, as every refusal does. -/
theorem rotateTransaction_times {t t' : Tables} {user : UserRow} {input : RotateRefreshInput}
    {r : RotateOutcome} (h : t.rotateTransaction user input = .ok (t', r)) :
    (KeepsTimes t t' ∧ ∀ grant serial kind, r = .ok grant serial kind → grant.sid = none) ∨
    ∃ grant serial kind sid, r = .ok grant serial kind ∧ grant.sid = some sid ∧
      Prolongs ⟨sid, input.now, input.sessionIdleTtl⟩ t t' := by
  obtain ⟨rfl, err, rfl⟩ | ⟨-, rfl, rfl⟩ | ⟨family, token, -, -, hreused⟩ |
    ⟨family, token, scope, hrotated, rfl⟩ := rotateTransaction_cases h
  · exact .inl ⟨.refl t', by simp⟩
  · exact .inl ⟨.of_eq rfl, by simp⟩
  · obtain ⟨ended, hr⟩ := revokeReused_reply t family input.now
    rw [hreused] at hr
    have hkept := keepsTimes_revokeReused t family input.now
    rw [hreused] at hkept
    exact .inl ⟨hkept, fun _ _ _ hok => by cases hr.symm.trans hok⟩
  · cases hsid : family.sid with
    | none =>
      obtain ⟨advanced, hadvanced, rfl⟩ := hrotated.written
      simp only [Tables.touchBound, hsid, Option.bind_none]
      exact .inl ⟨.of_eq (advanceFamily_sessions hadvanced), by simp [grantContext]⟩
    | some sid => exact .inr ⟨_, _, _, sid, rfl, rfl, hrotated.prolongs hsid⟩

/-- Every session was there before, and is another than the one created, which is stored. -/
structure Creates (use : SessionUse) (t t' : Tables) : Prop where
  rows : ∀ r' ∈ t'.sessions.rows, Renewed use r' ∨ r' ∈ t.sessions.rows ∧ r'.sid ≠ use.sid
  stored : ∃ r' ∈ t'.sessions.rows, r'.sid = use.sid

theorem insertSession_creates {t t' : Tables} {input : NewSession} {now : ℤ}
    (h : t.insertSession input now = .ok t') : Creates ⟨input.sid, now, input.idleTtl⟩ t t' := by
  obtain ⟨sessions, hinsert, rfl⟩ := insertSession_ok h
  have hnew := Table.key_notMem_of_insert hinsert
  refine ⟨?_, _, (Table.mem_insert hinsert).mpr (.inr rfl), rfl⟩
  intro r' hr'
  rcases (Table.mem_insert hinsert).mp hr' with hold | rfl
  · exact .inr ⟨hold, hnew r' hold⟩
  · exact .inl ⟨rfl, rfl, rfl⟩

theorem createTransaction_creates {t t' : Tables} {user : UserRow} {input : FinalizeLoginInput}
    {r : Outcome Finalized} {session : NewSession} (hsession : input.session = .create session)
    (h : UserObject.loginTransaction t user input = .ok (t', r)) :
    Creates ⟨session.sid, input.now, session.idleTtl⟩ t t' ∧ ∃ f, r = .ok f := by
  simp only [UserObject.loginTransaction, hsession] at h
  split at h
  · cases h
  next created hcreated =>
    have hcreates := insertSession_creates hcreated
    have hsessions : t'.sessions = created.sessions := by
      apply finishLogin_sessions h
      intro s hs hsid
      rcases hcreates.rows s hs with hrenewed | ⟨-, hother⟩
      · exact hrenewed.lastSeen
      · exact absurd hsid hother
    exact ⟨⟨hsessions ▸ hcreates.rows, hsessions ▸ hcreates.stored⟩,
      finishLogin_succeeds h hcreates.stored⟩

/-- A login that rotates a session refuses or extends it. -/
theorem rotateLogin_times {t t' : Tables} {user : UserRow} {input : FinalizeLoginInput}
    {r : Outcome Finalized} {sid : String} {secretHash : Bytes} {auth : AuthContext}
    (hsession : input.session = .rotate sid secretHash auth)
    (h : UserObject.loginTransaction t user input = .ok (t', r)) :
    (t' = t ∧ ∀ f, r ≠ .ok f) ∨
      Prolongs ⟨sid, input.now, input.sessionIdleTtl⟩ t t' ∧ ∃ f, r = .ok f := by
  simp only [UserObject.loginTransaction, hsession] at h
  split at h
  · cases h; exact .inl ⟨rfl, by simp⟩
  next existing hfind =>
    obtain ⟨hm, rfl⟩ := Table.find_eq_some.mp hfind
    rcases ite_eq_iff.mp h with ⟨-, h⟩ | ⟨-, h⟩
    · cases h; exact .inl ⟨rfl, by simp⟩
    split at h
    · cases h
    next rotated hrotated =>
      have hprolongs := rotateSession_prolongs hm hrotated
      have hsessions : t'.sessions = rotated.sessions := by
        apply finishLogin_sessions h
        intro s hs hsid
        rw [rotateSession_ok hrotated] at hs
        obtain ⟨r, -, ⟨hother, rfl⟩ | ⟨-, rfl⟩⟩ := Table.exists_of_mem_update hs
        · simp [hsid] at hother
        · rfl
      exact .inr ⟨⟨hsessions ▸ hprolongs.rows, hsessions ▸ hprolongs.stored⟩,
        finishLogin_succeeds h hprolongs.stored⟩

/-! ### What a call does to the times -/

inductive Timed (e : CallEvent) (t : Tables) (r' : SessionRow) : Prop
  | kept {r : SessionRow} (hr : r ∈ t.sessions.rows) (hsame : SameTimes r r')
      (hrecent : ∀ use, sessionUse e = some use → r.sid = use.sid →
        use.now - r.lastSeenAt < sessionTouchIntervalSeconds)
  | extended {r : SessionRow} {use : SessionUse} (hr : r ∈ t.sessions.rows)
      (huse : sessionUse e = some use) (hrenewed : Renewed use r') (hsid : r.sid = r'.sid)
      (habs : r'.absoluteExpiresAt = r.absoluteExpiresAt)
  | created {use : SessionUse} (huse : sessionUse e = some use) (hrenewed : Renewed use r')
      (hcreated : sessionCreated e = some r'.sid)

structure TimesStep (e : CallEvent) (t t' : Tables) : Prop where
  rows : ∀ r' ∈ t'.sessions.rows, Timed e t r'
  stored : ∀ use, sessionUse e = some use → ∃ r' ∈ t'.sessions.rows, r'.sid = use.sid

theorem KeepsTimes.step {e : CallEvent} {t t' : Tables} (h : KeepsTimes t t')
    (hnone : sessionUse e = none) : TimesStep e t t' := by
  constructor
  · intro r' hr'
    obtain ⟨r, hr, hsame⟩ := h r' hr'
    exact .kept hr hsame (by simp [hnone])
  · simp [hnone]

theorem Prolongs.step {e : CallEvent} {use : SessionUse} {t t' : Tables} (h : Prolongs use t t')
    (huse : sessionUse e = some use) : TimesStep e t t' := by
  constructor
  · intro r' hr'
    obtain ⟨r, hr, hkept | ⟨hrenewed, hsid, habs⟩⟩ := h.rows r' hr'
    · refine .kept hr hkept.toSameTimes ?_
      intro use' huse'
      cases huse.symm.trans huse'
      exact hkept.recent
    · exact .extended hr huse hrenewed hsid habs
  · intro use' huse'
    cases huse.symm.trans huse'
    exact h.stored

theorem Creates.step {e : CallEvent} {use : SessionUse} {t t' t'' : Tables}
    (h : Creates use t' t'') (hkeeps : KeepsTimes t t') (huse : sessionUse e = some use)
    (hcreated : sessionCreated e = some use.sid) : TimesStep e t t'' := by
  constructor
  · intro r' hr'
    rcases h.rows r' hr' with hrenewed | ⟨hold, hother⟩
    · exact .created huse hrenewed (by rw [hcreated, hrenewed.sid])
    · obtain ⟨r, hr, hsame⟩ := hkeeps r' hold
      refine .kept hr hsame ?_
      intro use' huse'
      cases huse.symm.trans huse'
      intro hsid
      exact absurd (hsame.sid.trans hsid) hother
  · intro use' huse'
    cases huse.symm.trans huse'
    exact h.stored

/-- A login that is not refused ran its transaction on the purged tables. -/
theorem finalizeLogin_cases {o o' : UserObject} {input : FinalizeLoginInput}
    {r : Outcome Finalized} (h : o.finalizeLogin input = (o', r)) :
    (o'.tables = o.tables ∧ ∀ f, r ≠ .ok f) ∨ ∃ user,
      UserObject.loginTransaction (purgedTables o input.now purgeGraceSeconds) user input =
        .ok (o'.tables, r) := by
  obtain ⟨rfl, err, rfl⟩ | ⟨user, -, hbody⟩ := guarded_cases h
  · exact .inl ⟨rfl, by simp⟩
  rcases ite_eq_iff.mp hbody with ⟨-, hbody⟩ | ⟨-, hbody⟩
  · cases hbody; exact .inl ⟨rfl, by simp⟩
  rcases ite_eq_iff.mp hbody with ⟨-, hbody⟩ | ⟨-, hbody⟩
  · cases hbody; exact .inl ⟨rfl, by simp⟩
  rcases ite_eq_iff.mp hbody with ⟨-, hbody⟩ | ⟨-, hbody⟩
  · cases hbody; exact .inl ⟨rfl, by simp⟩
  obtain ⟨t, a, ht, hp⟩ | ⟨err, -, hp⟩ := purging_cases o input.now purgeGraceSeconds
    Outcome.thrown (fun t => UserObject.loginTransaction t user input)
  · rw [hp] at hbody
    cases hbody
    exact .inr ⟨user, ht⟩
  · rw [hp] at hbody
    cases hbody
    exact .inl ⟨rfl, by simp⟩

theorem sessionUse_of_not_ok {e : CallEvent} {input : FinalizeLoginInput} {r : Outcome Finalized}
    (he : e.input = .finalizeLogin input) (hr : e.reply = .login r) (hfail : ∀ f, r ≠ .ok f) :
    sessionUse e = none := by
  cases r with
  | ok f => exact absurd rfl (hfail f)
  | fail err => simp [sessionUse, he, hr]
  | thrown err => simp [sessionUse, he, hr]

theorem finalizeLogin_timesStep {e : CallEvent} {o : UserObject} {input : FinalizeLoginInput}
    (he : e.input = .finalizeLogin input) (hr : e.reply = .login (o.finalizeLogin input).2) :
    TimesStep e o.tables (o.finalizeLogin input).1.tables := by
  generalize hx : o.finalizeLogin input = x at hr ⊢
  obtain ⟨o', r⟩ := x
  have hpurged := keepsTimes_purgeIfDue o input.now purgeGraceSeconds
  obtain ⟨hsame, hfail⟩ | ⟨user, ht⟩ := finalizeLogin_cases hx
  · exact (KeepsTimes.of_eq (by rw [hsame])).step (sessionUse_of_not_ok he hr hfail)
  cases hsession : input.session with
  | create session =>
    obtain ⟨hcreates, f, rfl⟩ := createTransaction_creates hsession ht
    exact hcreates.step hpurged (by simp [sessionUse, he, hr, hsession])
      (by simp [sessionCreated, he, hr, hsession])
  | rotate sid secretHash auth =>
    obtain ⟨hsame, hfail⟩ | ⟨hprolongs, f, rfl⟩ := rotateLogin_times hsession ht
    · exact (hpurged.trans (.of_eq (by rw [hsame]; rfl))).step (sessionUse_of_not_ok he hr hfail)
    · exact (hpurged.trans_prolongs hprolongs).step (by simp [sessionUse, he, hr, hsession])

theorem authorizeWithSession_timesStep {e : CallEvent} {o : UserObject}
    {input : AuthorizeWithSessionInput} (he : e.input = .authorizeWithSession input)
    (hr : e.reply = .authorize (o.authorizeWithSession input).2) :
    TimesStep e o.tables (o.authorizeWithSession input).1.tables := by
  generalize hx : o.authorizeWithSession input = x at hr ⊢
  obtain ⟨o', r⟩ := x
  obtain ⟨hkept, hnone⟩ | ⟨hprolongs, a, rfl, hout, hcode⟩ := authorizeWithSession_times hx
  · apply hkept.step
    cases r with
    | ok a =>
      have hissued : ¬ (a.outcome = .authorized ∧ input.code.isSome) := by
        rintro ⟨hout, hcode⟩
        simp [hnone a rfl hout] at hcode
      simp only [sessionUse, he, hr, if_neg hissued]
    | fail err => simp [sessionUse, he, hr]
    | thrown err => simp [sessionUse, he, hr]
  · exact hprolongs.step (by simp [sessionUse, he, hr, hout, hcode])

theorem rotateRefreshToken_timesStep {e : CallEvent} {o : UserObject} {input : RotateRefreshInput}
    (he : e.input = .rotateRefreshToken input)
    (hr : e.reply = .rotate (o.rotateRefreshToken input).2) :
    TimesStep e o.tables (o.rotateRefreshToken input).1.tables := by
  generalize hx : o.rotateRefreshToken input = x at hr ⊢
  obtain ⟨o', r⟩ := x
  obtain ⟨rfl, err, rfl⟩ | ⟨user, -, hbody⟩ := guarded_cases hx
  · exact (KeepsTimes.refl _).step (by simp [sessionUse, he, hr])
  have hpurged := keepsTimes_purgeIfDue o input.now input.reuseWindow
  obtain ⟨t, a, ht, hp⟩ | ⟨err, -, hp⟩ := purging_cases o input.now input.reuseWindow
    RotateOutcome.thrown (fun t => t.rotateTransaction user input)
  · rw [hp] at hbody
    cases hbody
    obtain ⟨hkept, hnone⟩ | ⟨grant, serial, kind, sid, rfl, hsid, hprolongs⟩ :=
      rotateTransaction_times ht
    · apply (hpurged.trans hkept).step
      cases r with
      | ok grant serial kind => simp [sessionUse, he, hr, hnone grant serial kind rfl]
      | fail err reuse ended => simp [sessionUse, he, hr]
      | thrown err => simp [sessionUse, he, hr]
    · exact (hpurged.trans_prolongs hprolongs).step (by simp [sessionUse, he, hr, hsid])
  · rw [hp] at hbody
    cases hbody
    exact (KeepsTimes.refl _).step (by simp [sessionUse, he, hr])

/-- What every call does to the times of the sessions. -/
theorem call_timesStep (sha256 : String → Bytes) (o : UserObject) (c : Call) :
    TimesStep (Machine.event (UserObject.call sha256) o c) o.tables
      (o.call sha256 c).1.tables := by
  by_cases huses : ∃ input, c = .finalizeLogin input
  · obtain ⟨input, rfl⟩ := huses
    exact finalizeLogin_timesStep rfl rfl
  by_cases hauth : ∃ input, c = .authorizeWithSession input
  · obtain ⟨input, rfl⟩ := hauth
    exact authorizeWithSession_timesStep rfl rfl
  by_cases hrot : ∃ input, c = .rotateRefreshToken input
  · obtain ⟨input, rfl⟩ := hrot
    exact rotateRefreshToken_timesStep rfl rfl
  apply (call_keepsTimes sha256 o (fun input h => huses ⟨input, h⟩)
    (fun input h => hauth ⟨input, h⟩)
    (fun input h => hrot ⟨input, h⟩)).step
  unfold sessionUse
  split
  next input f hc hr => exact absurd ⟨input, hc⟩ huses
  next input a hc hr => exact absurd ⟨input, hc⟩ hauth
  next input grant serial kind hc hr => exact absurd ⟨input, hc⟩ hrot
  · rfl

theorem sessionUse_now {e : CallEvent} {use : SessionUse} (h : sessionUse e = some use) :
    e.input.now? = some use.now := by
  unfold sessionUse at h
  split at h
  next input f he hr =>
    split at h <;>
    · cases h
      rw [he]
      rfl
  next input a he hr =>
    split_ifs at h
    cases h
    rw [he]
    rfl
  next input grant serial kind he hr =>
    obtain ⟨sid, -, rfl⟩ := Option.map_eq_some_iff.mp h
    rw [he]
    rfl
  · cases h

/-! ### Runs -/

section Runs

variable {sha256 : String → Bytes} {calls : List Call} {sid : String} {ttl : ℤ}

/-- Where the rows after one more call have their times from. -/
theorem timed_after {c : Call} {r : SessionRow}
    (hr : r ∈ (after sha256 (c :: calls)).tables.sessions.rows) :
    Timed (Machine.event (UserObject.call sha256) (after sha256 calls) c)
      (after sha256 calls).tables r :=
  (call_timesStep sha256 (after sha256 calls) c).rows r hr

theorem idle_le_absolute {r : SessionRow}
    (hr : r ∈ (after sha256 calls).tables.sessions.rows) :
    r.idleExpiresAt ≤ r.absoluteExpiresAt := by
  induction calls generalizing r with
  | nil => cases hr
  | cons c calls ih =>
    cases timed_after hr with
    | kept hr₀ hsame =>
      rw [hsame.idle, hsame.absolute]
      exact ih hr₀
    | extended _ _ hrenewed => exact hrenewed.idle.trans_le (min_le_right _ _)
    | created _ hrenewed => exact hrenewed.idle.trans_le (min_le_right _ _)

/-- A session was last seen at a reading of the run's clock. -/
theorem lastSeenAt_mem {r : SessionRow} (hr : r ∈ (after sha256 calls).tables.sessions.rows) :
    r.lastSeenAt ∈ calls.filterMap Call.now? := by
  induction calls generalizing r with
  | nil => cases hr
  | cons c calls ih =>
    have huse_mem : ∀ use,
        sessionUse (Machine.event (UserObject.call sha256) (after sha256 calls) c) = some use →
          use.now ∈ (c :: calls).filterMap Call.now? :=
      fun use huse => mem_filterMap_cons.mpr (.inl (sessionUse_now huse))
    cases timed_after hr with
    | kept hr₀ hsame =>
      rw [hsame.lastSeen]
      exact mem_filterMap_cons.mpr (.inr (ih hr₀))
    | extended _ huse hrenewed => exact hrenewed.lastSeen ▸ huse_mem _ huse
    | created huse hrenewed => exact hrenewed.lastSeen ▸ huse_mem _ huse

theorem ConstantTtl.tail {c : Call} (h : ConstantTtl sha256 (c :: calls) sid ttl) :
    ConstantTtl sha256 calls sid ttl :=
  fun use huse => h use (mem_filterMap_cons.mpr (.inr huse))

theorem ConstantTtl.head {c : Call} (h : ConstantTtl sha256 (c :: calls) sid ttl)
    {use : SessionUse}
    (huse : sessionUse (Machine.event (UserObject.call sha256) (after sha256 calls) c) = some use)
    (hsid : use.sid = sid) : use.idleTtl = ttl :=
  h use (mem_filterMap_cons.mpr (.inl huse)) hsid

theorem ConstantTtl.of_append {later : List Call}
    (h : ConstantTtl sha256 (later ++ calls) sid ttl) :
    ConstantTtl sha256 calls sid ttl := by
  induction later with
  | nil => exact h
  | cons c later ih => exact ih h.tail

/-- The idle expiry is the last sight of the session plus its idle lifetime, cut at the absolute
expiry. -/
theorem idleExpiresAt_eq (httl : ConstantTtl sha256 calls sid ttl) {r : SessionRow}
    (hr : r ∈ (after sha256 calls).tables.sessions.rows) (hsid : r.sid = sid) :
    r.idleExpiresAt = min (r.lastSeenAt + ttl) r.absoluteExpiresAt := by
  induction calls generalizing r with
  | nil => cases hr
  | cons c calls ih =>
    cases timed_after hr with
    | kept hr₀ hsame =>
      rw [hsame.idle, hsame.lastSeen, hsame.absolute]
      exact ih httl.tail hr₀ (hsame.sid.symm.trans hsid)
    | extended _ huse hrenewed =>
      rw [hrenewed.idle, hrenewed.lastSeen, httl.head huse (hrenewed.sid.symm.trans hsid)]
    | created huse hrenewed =>
      rw [hrenewed.idle, hrenewed.lastSeen, httl.head huse (hrenewed.sid.symm.trans hsid)]

theorem lastSeenAt_le_use {c : Call} (hclock : ClockMonotone (c :: calls)) {use : SessionUse}
    (huse : sessionUse (Machine.event (UserObject.call sha256) (after sha256 calls) c) = some use)
    {r : SessionRow} (hr : r ∈ (after sha256 calls).tables.sessions.rows) :
    r.lastSeenAt ≤ use.now := by
  have hnow : c.now? = some use.now := sessionUse_now huse
  unfold ClockMonotone at hclock
  rw [List.filterMap_cons_some hnow] at hclock
  exact (List.pairwise_cons.mp hclock).1 r.lastSeenAt (lastSeenAt_mem hr)

theorem ClockMonotone.of_append (later : List Call) (h : ClockMonotone (later ++ calls)) :
    ClockMonotone calls := by
  unfold ClockMonotone at h
  rw [List.filterMap_append] at h
  exact (List.pairwise_append.mp h).2.1

/-- The same session later: its absolute expiry is the same, and the other times have not gone
back. -/
structure LaterTimes (r r' : SessionRow) : Prop where
  sid : r'.sid = r.sid
  absolute : r'.absoluteExpiresAt = r.absoluteExpiresAt
  lastSeen : r.lastSeenAt ≤ r'.lastSeenAt
  idle : r.idleExpiresAt ≤ r'.idleExpiresAt

/-- One more call, which does not create the session, takes its row on. -/
theorem laterTimes_step {c : Call} (hclock : ClockMonotone (c :: calls))
    (httl : ConstantTtl sha256 (c :: calls) sid ttl)
    (hcreated : sessionCreated (Machine.event (UserObject.call sha256) (after sha256 calls) c) ≠
      some sid) {r' : SessionRow}
    (hr' : r' ∈ (after sha256 (c :: calls)).tables.sessions.rows) (hsid : r'.sid = sid) :
    ∃ r ∈ (after sha256 calls).tables.sessions.rows, LaterTimes r r' := by
  cases timed_after hr' with
  | kept hr hsame =>
    exact ⟨_, hr, hsame.sid, hsame.absolute, hsame.lastSeen.ge, hsame.idle.ge⟩
  | created _ _ hcreated' => exact absurd (hsid ▸ hcreated') hcreated
  | @extended r use hr huse hrenewed hkey habs =>
    have hseen : r.lastSeenAt ≤ r'.lastSeenAt := by
      rw [hrenewed.lastSeen]
      exact lastSeenAt_le_use hclock huse hr
    have hidle := idleExpiresAt_eq httl.tail hr (hkey.trans hsid)
    have hidle' := idleExpiresAt_eq httl hr' hsid
    refine ⟨r, hr, hkey.symm, habs, hseen, ?_⟩
    rw [hidle, hidle', habs]
    omega

/-- Over a run that does not create the session anew. -/
theorem laterTimes_run {later : List Call} (hclock : ClockMonotone (later ++ calls))
    (httl : ConstantTtl sha256 (later ++ calls) sid ttl)
    (hcreated : ∀ e ∈ Machine.events (UserObject.call sha256) (after sha256 calls) later,
      sessionCreated e ≠ some sid) {r' : SessionRow}
    (hr' : r' ∈ (after sha256 (later ++ calls)).tables.sessions.rows) (hsid : r'.sid = sid) :
    ∃ r ∈ (after sha256 calls).tables.sessions.rows, LaterTimes r r' := by
  induction later generalizing r' with
  | nil => exact ⟨r', hr', rfl, rfl, le_rfl, le_rfl⟩
  | cons c later ih =>
    rw [Machine.events_cons, List.forall_mem_cons] at hcreated
    have hhead := hcreated.1
    rw [← Machine.after_append] at hhead
    obtain ⟨r₁, hr₁, hlast⟩ := laterTimes_step hclock httl hhead hr' hsid
    obtain ⟨r, hr, hrest⟩ := ih (ClockMonotone.of_append [c] hclock) httl.tail
      hcreated.2 hr₁ (hlast.sid.symm.trans hsid)
    exact ⟨r, hr, hlast.sid.trans hrest.sid, hlast.absolute.trans hrest.absolute,
      hrest.lastSeen.trans hlast.lastSeen, hrest.idle.trans hlast.idle⟩

/-- Right after a use the session is stored, less than a minute short of its idle lifetime from the
use. -/
theorem idle_after_use {c : Call} (hclock : ClockMonotone (c :: calls))
    (httl : ConstantTtl sha256 (c :: calls) sid ttl) {use : SessionUse}
    (huse : sessionUse (Machine.event (UserObject.call sha256) (after sha256 calls) c) = some use)
    (hsid : use.sid = sid) :
    ∃ r ∈ (after sha256 (c :: calls)).tables.sessions.rows, r.sid = sid ∧
      min (use.now + ttl) r.absoluteExpiresAt - 59 ≤ r.idleExpiresAt ∧
      r.idleExpiresAt ≤ min (use.now + ttl) r.absoluteExpiresAt := by
  obtain ⟨r', hr', hkey⟩ := (call_timesStep sha256 (after sha256 calls) c).stored use huse
  have hidle := idleExpiresAt_eq httl hr' (hkey.trans hsid)
  refine ⟨r', hr', hkey.trans hsid, ?_⟩
  -- The row was seen at the use, or within the minute before it.
  have hseen : use.now - 59 ≤ r'.lastSeenAt ∧ r'.lastSeenAt ≤ use.now := by
    cases timed_after hr' with
    | @kept r hr hsame hrecent =>
      have hle := lastSeenAt_le_use hclock huse hr
      have hlt := hrecent use huse (hsame.sid.symm.trans hkey)
      rw [hsame.lastSeen]
      unfold sessionTouchIntervalSeconds at hlt
      omega
    | extended _ huse' hrenewed =>
      cases huse.symm.trans huse'
      rw [hrenewed.lastSeen]
      omega
    | created huse' hrenewed =>
      cases huse.symm.trans huse'
      rw [hrenewed.lastSeen]
      omega
  rw [hidle]
  omega

end Runs

/-- What a run promises of the idle expiry of the session `sid`. -/
structure IdleArithmetic (sha256 : String → Bytes) (calls : List Call) (sid : String) (ttl : ℤ) :
    Prop where
  capped : ∀ earlier, earlier <:+ calls → ∀ r ∈ (after sha256 earlier).tables.sessions.rows,
    r.sid = sid → r.idleExpiresAt ≤ r.absoluteExpiresAt
  /-- From one stored row to a later one, unless the session was created anew between them. -/
  advancing : ∀ later mid earlier, calls = later ++ (mid ++ earlier) →
    (∀ e ∈ Machine.events (UserObject.call sha256) (after sha256 earlier) mid,
      sessionCreated e ≠ some sid) →
    ∀ r ∈ (after sha256 earlier).tables.sessions.rows,
    ∀ r' ∈ (after sha256 (mid ++ earlier)).tables.sessions.rows, r.sid = sid → r'.sid = sid →
      LaterTimes r r'
  afterUse : ∀ later c earlier use, calls = later ++ c :: earlier →
    sessionUse (Machine.event (UserObject.call sha256) (after sha256 earlier) c) = some use →
    use.sid = sid →
    ∃ r ∈ (after sha256 (c :: earlier)).tables.sessions.rows, r.sid = sid ∧
      min (use.now + ttl) r.absoluteExpiresAt - 59 ≤ r.idleExpiresAt ∧
      r.idleExpiresAt ≤ min (use.now + ttl) r.absoluteExpiresAt

/-- A session may idle out less than a minute early, never late. -/
theorem session_idle_arithmetic (sha256 : String → Bytes) (calls : List Call) (sid : String)
    (ttl : ℤ) (hclock : ClockMonotone calls) (httl : ConstantTtl sha256 calls sid ttl) :
    IdleArithmetic sha256 calls sid ttl where
  capped := fun _ _ _ hr _ => idle_le_absolute hr
  advancing := by
    rintro later mid earlier rfl hcreated r hr r' hr' hsid hsid'
    obtain ⟨r₀, hr₀, hlater⟩ :=
      laterTimes_run (hclock.of_append _) httl.of_append hcreated hr' hsid'
    have hsame : r₀ = r := Table.eq_of_key_eq hr₀ hr (hlater.sid.symm.trans (hsid'.trans hsid.symm))
    exact hsame ▸ hlater
  afterUse := by
    rintro later c earlier use rfl huse hsid
    exact idle_after_use (hclock.of_append _) httl.of_append huse hsid

/-- A login, a code within a minute of it, and a later rotation of the secret. -/
def Sample.usedSession : List Call :=
  [Sample.relogin "s1" [3] 800,
    .authorizeWithSession ⟨"s1", [2], 30, Sample.client, ["openid"], false, false, none,
      some (Sample.code [9]), 900⟩,
    Sample.login "s1" [2] 0 none, Sample.init]

theorem session_idle_arithmetic_sample :
    (history Sample.sha256 Sample.usedSession).filterMap sessionUse =
        [⟨"s1", 800, 900⟩, ⟨"s1", 30, 900⟩, ⟨"s1", 0, 900⟩] ∧
      IdleArithmetic Sample.sha256 Sample.usedSession "s1" 900 :=
  ⟨by decide,
    session_idle_arithmetic Sample.sha256 Sample.usedSession "s1" 900 (by decide) (by decide)⟩

end TinyOidc.User
