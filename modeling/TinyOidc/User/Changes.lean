import Mathlib.Logic.Relation
import TinyOidc.User.Calls

/-! What a call can do to the tables. Every step of an object is a sequence of a few
changes, each with the conditions under which the code makes it; the invariants of the
object are proved of the changes and hold of every run by `call_changes`. -/
namespace TinyOidc.User
open RowTable

/-- The user row and the tables of sessions, codes, families and tokens are as before. -/
structure SameCore (t t' : Tables) : Prop where
  user : t'.user = t.user
  sessions : t'.sessions = t.sessions
  codes : t'.authCodes = t.authCodes
  families : t'.refreshFamilies = t.refreshFamilies
  tokens : t'.refreshTokens = t.refreshTokens

def SessionRow.live (s : SessionRow) (now : ℤ) : Prop :=
  s.revokedAt = none ∧ now < s.idleExpiresAt ∧ now < s.absoluteExpiresAt

/-- The time and window of the purge a step may run. -/
def purgeOf (e : CallEvent) : Option (ℤ × ℤ) :=
  match e.input with
  | .touch now reuseWindow => some (now, reuseWindow)
  | .rotateRefreshToken input => some (input.now, input.reuseWindow)
  | .authorizeWithSession input => some (input.now, purgeGraceSeconds)
  | .finalizeLogin input => some (input.now, purgeGraceSeconds)
  | .revokeSession _ now _ => some (now, purgeGraceSeconds)
  | .revokeSessions _ now _ => some (now, purgeGraceSeconds)
  | _ => (exchangeRun e).map (fun input => (input.now, purgeGraceSeconds))

/-- A login that passes the checks before its transaction. -/
def LoginAllowed (e : CallEvent) (input : FinalizeLoginInput) : Prop :=
  ∃ user, e.pre.guard = .ok user ∧ user.disabledAt = none ∧
    (input.client.any fun c => !allowed user c) = false ∧
    (input.code.any fun c => !adminAllowed user c.scope) = false

/-- The session row a login finds to rotate, after its purge: unrevoked and before its
absolute expiry. -/
structure RotateReached (e : CallEvent) (input : FinalizeLoginInput) (r : SessionRow) : Prop where
  call : e.input = .finalizeLogin input
  rotate : ∃ secretHash auth, input.session = .rotate r.sid secretHash auth
  allowed : LoginAllowed e input
  stored : r ∈ (e.pre.purgeIfDue input.now purgeGraceSeconds).tables.sessions.rows
  unrevoked : r.revokedAt = none
  absolute : input.now < r.absoluteExpiresAt

/-- The user row a step may write in place of another. -/
def UserWritten (e : CallEvent) (before : Option UserRow) (row : UserRow) : Prop :=
  match e.input with
  | .init p _ _ => before = none ∧ row.id = p.id ∧ row.disabledAt = none
  | .setGroups _ _ | .updateProfile _ _ =>
      ∃ old, before = some old ∧ row.id = old.id ∧ row.disabledAt = old.disabledAt
  | .setDisabled disabledAt _ =>
      ∃ old, before = some old ∧ row.id = old.id ∧ row.disabledAt = disabledAt
  | _ => False

inductive Change (e : CallEvent) : Tables → Tables → Prop
  | aside {t t' : Tables} (h : SameCore t t') : Change e t t'
  | writeUser {t : Tables} {row : UserRow} (h : UserWritten e t.user row) :
      Change e t { t with user := some row }
  | clear {t : Tables} (h : e.input = .destroy) : Change e t .empty
  | purge {t : Tables} {now reuseWindow : ℤ} (h : purgeOf e = some (now, reuseWindow)) :
      Change e t (t.purge now reuseWindow)
  | revokeSessions {t : Tables} (p : SessionRow → Bool) (now : ℤ) (reason : String) :
      Change e t (t.revokeSessionsWhere p now reason)
  | revokeFamilies {t : Tables} (p : FamilyRow → Bool) (now : ℤ) (reason : String) :
      Change e t (t.revokeFamiliesWhere p now reason)
  | dropFamily {t : Tables} (id : String) : Change e t (t.deleteFamilies (·.id == id))
  | createSession {t t' : Tables} {input : NewSession} {now : ℤ}
      (h : t.insertSession input now = .ok t') (hc : sessionCreated e = some input.sid)
      (hg : ∃ user, e.pre.guard = .ok user ∧ user.disabledAt = none) : Change e t t'
  | rotateSession {t t' : Tables} {existing : SessionRow} {secretHash : Bytes}
      {auth : AuthContext} {input : FinalizeLoginInput} (hr : RotateReached e input existing)
      (hm : existing ∈ t.sessions.rows)
      (h : t.rotateSession existing secretHash auth input.now input.sessionIdleTtl = .ok t') :
      Change e t t'
  | touchSession {t : Tables} {row : SessionRow} {now : ℤ} (idleTtl : ℤ)
      (hm : row ∈ t.sessions.rows) (hl : row.live now) (hn : e.input.now? = some now) :
      Change e t (t.touchSession row now idleTtl)
  | issueCode {t : Tables} {codes : Table CodeRow CodeRow.secretHash} {row : CodeRow}
      (h : t.authCodes.insert row = some codes) (hn : row.consumedAt = none)
      (hs : ∃ s ∈ t.sessions.rows, s.sid = row.sid)
      (hc : codeIssued e = some row.secretHash) : Change e t { t with authCodes := codes }
  | consumeCode {t : Tables} {secretHash : Bytes} (now : ℤ)
      (hc : codeExchanged e = some secretHash) : Change e t (t.consumeCode secretHash now)
  | openFamily {t : Tables} {families : Table FamilyRow FamilyRow.id}
      {tokens : Table TokenRow (fun r => (r.familyId, r.secretHash))}
      {family : FamilyRow} {token : TokenRow}
      (hf : t.refreshFamilies.insert family = some families)
      (ht : t.refreshTokens.insert token = some tokens)
      (hid : token.familyId = family.id) (hs : token.serial = family.currentSerial)
      (hu : family.revokedAt = none) (hcode : family.codeSecretHash = codeExchanged e)
      (hm : ∃ c ∈ t.authCodes.rows, codeExchanged e = some c.secretHash ∧
        ∀ sid, family.sid = some sid → sid = c.sid)
      (hc : familyOpened e = some family.id)
      (hi : tokenIssued e = some (family.id, token.secretHash)) :
      Change e t { t with refreshFamilies := families, refreshTokens := tokens }
  | advanceFamily {t t' : Tables} {family : FamilyRow} {newSecretHash : Bytes} {now idleTtl : ℤ}
      (hm : family ∈ t.refreshFamilies.rows) (hu : family.revokedAt = none)
      (h : t.advanceFamily family newSecretHash now idleTtl = .ok t')
      (hi : tokenIssued e = some (family.id, newSecretHash)) : Change e t t'

abbrev Changes (e : CallEvent) := Relation.ReflTransGen (Change e)

/-- What every change keeps, a step keeps. -/
theorem Changes.preserves {e : CallEvent} {P : Tables → Prop}
    (hP : ∀ t t', Change e t t' → P t → P t') {t t' : Tables} (h : Changes e t t') (ht : P t) :
    P t' := by
  induction h with
  | refl => exact ht
  | tail _ hc ih => exact hP _ _ hc ih

theorem Changes.aside {e : CallEvent} {t t' : Tables} (h : SameCore t t') : Changes e t t' :=
  .single (.aside h)

/-! ### The helpers' changes -/

theorem purgeIfDue_changes {e : CallEvent} (o : UserObject) {now w : ℤ}
    (h : purgeOf e = some (now, w)) : Changes e o.tables (o.purgeIfDue now w).tables := by
  unfold UserObject.purgeIfDue
  split
  · exact .refl
  · exact .single (.purge h)

theorem revokeSessionRows_changes (e : CallEvent) (t : Tables) (sid : String) (now : ℤ)
    (reason : String) : Changes e t (t.revokeSessionRows sid now reason).1 :=
  (Relation.ReflTransGen.single (.revokeSessions _ now reason)).tail (.revokeFamilies _ now reason)

theorem revokeEach_changes (e : CallEvent) (now : ℤ) (reason : String) (sids : List String) :
    ∀ t : Tables, Changes e t (Tables.revokeEach now reason t sids).1 := by
  induction sids with
  | nil => intro t; exact .refl
  | cons sid sids ih => intro t; exact (revokeSessionRows_changes e t sid now reason).trans (ih _)

theorem grantFor_sameCore (t : Tables) (client : ClientRef) : SameCore t (t.grantFor client).1 := by
  unfold Tables.grantFor
  split
  · exact ⟨rfl, rfl, rfl, rfl, rfl⟩
  · split <;> exact ⟨rfl, rfl, rfl, rfl, rfl⟩

theorem consentCovered_sameCore (t : Tables) (input : AuthorizeWithSessionInput) :
    SameCore t (UserObject.consentCovered t input).1 := by
  unfold UserObject.consentCovered
  split
  · exact ⟨rfl, rfl, rfl, rfl, rfl⟩
  · exact grantFor_sameCore t input.client

theorem liveSession_eq_some {t : Tables} {sid : String} {secretHash : Bytes} {now : ℤ}
    {row : SessionRow} (h : t.liveSession sid secretHash now = some row) :
    row ∈ t.sessions.rows ∧ row.sid = sid ∧ row.secretHash = secretHash ∧ row.live now := by
  unfold Tables.liveSession at h
  split at h
  · cases h
  · next row' hrow =>
    obtain ⟨hm, hk⟩ := Table.find_eq_some.mp hrow
    split_ifs at h with hr hs he
    cases h
    rw [not_or, not_le, not_le] at he
    exact ⟨hm, hk, not_not.mp hs, by simpa using hr, he.1, he.2⟩

/-- A session live at the time of a purge is not among the rows it deletes. -/
theorem mem_purge_sessions_of_live {t : Tables} {s : SessionRow} {now w : ℤ}
    (hm : s ∈ t.sessions.rows) (hl : s.live now) : s ∈ (t.purge now w).sessions.rows := by
  obtain ⟨hr, hi, ha⟩ := hl
  have hi' : ¬ s.idleExpiresAt < now - purgeGraceSeconds := by unfold purgeGraceSeconds; omega
  have ha' : ¬ s.absoluteExpiresAt < now - purgeGraceSeconds := by unfold purgeGraceSeconds; omega
  have hg : Tables.sessionGone (now - purgeGraceSeconds) s = false := by
    simp [Tables.sessionGone, hr, hi', ha']
  exact Table.mem_deleteWhere.mpr ⟨hm, hg⟩

theorem mem_purgeIfDue_sessions_of_live {o : UserObject} {s : SessionRow} {now w : ℤ}
    (hm : s ∈ o.tables.sessions.rows) (hl : s.live now) :
    s ∈ (o.purgeIfDue now w).tables.sessions.rows := by
  unfold UserObject.purgeIfDue
  split
  · exact hm
  · exact mem_purge_sessions_of_live hm hl

theorem touchSession_of_recent {t : Tables} {row : SessionRow} {now ttl : ℤ}
    (h : row.lastSeenAt = now) : t.touchSession row now ttl = t := by
  unfold Tables.touchSession
  rw [if_pos (by simp [h, sessionTouchIntervalSeconds])]

/-- Issuing a code is the insertion, the client's note and a touch of the session. -/
theorem issueCodeRows_ok {t t' : Tables} {code : CodeInput} {session : SessionRow} {now ttl : ℤ}
    (h : t.issueCodeRows code session now ttl = .ok t') :
    ∃ codes, t.authCodes.insert (Tables.codeRow code session now) = some codes ∧
      t' = (({ t with authCodes := codes }).noteClient session.sid code.clientId now).touchSession
        session now ttl := by
  unfold Tables.issueCodeRows at h
  split at h
  · cases h
  · next codes hc => exact ⟨codes, hc, by cases h; rfl⟩

theorem issueCodeRows_changes {e : CallEvent} {t t' : Tables} {code : CodeInput}
    {session : SessionRow} {now ttl : ℤ} (h : t.issueCodeRows code session now ttl = .ok t')
    (hc : codeIssued e = some code.secretHash) (hm : session ∈ t.sessions.rows)
    (ht : session.lastSeenAt = now ∨ session.live now ∧ e.input.now? = some now) :
    Changes e t t' := by
  obtain ⟨codes, hcodes, rfl⟩ := issueCodeRows_ok h
  have hcode : Change e t { t with authCodes := codes } :=
    .issueCode hcodes rfl ⟨session, hm, rfl⟩ hc
  have hins : Changes e t
      (({ t with authCodes := codes }).noteClient session.sid code.clientId now) :=
    (Relation.ReflTransGen.single hcode).tail (.aside ⟨rfl, rfl, rfl, rfl, rfl⟩)
  rcases ht with hr | ⟨hl, hn⟩
  · rwa [touchSession_of_recent hr]
  · exact hins.tail (.touchSession ttl hm hl hn)

/-! ### The long transactions -/

/-- A stored token presented with its family, which is unrevoked, unexpired and of the
presenting client's incarnation. -/
structure Presented (t : Tables) (input : RotateRefreshInput) (family : FamilyRow)
    (token : TokenRow) : Prop where
  family_mem : family ∈ t.refreshFamilies.rows
  family_id : family.id = input.familyId
  unrevoked : family.revokedAt = none
  absolute : input.now < family.absoluteExpiresAt
  idle : input.now < family.idleExpiresAt
  client : family.clientId = input.client.clientId
  incarnation : family.clientCreatedAt = input.client.createdAt
  token_mem : token ∈ t.refreshTokens.rows
  token_family : token.familyId = family.id
  secret : token.secretHash = input.secretHash

/-- The family a rotation presents is usable, but of an earlier client of the same id. -/
def StaleIncarnation (t : Tables) (input : RotateRefreshInput) : Prop :=
  ∃ family ∈ t.refreshFamilies.rows, family.id = input.familyId ∧ family.revokedAt = none ∧
    input.now < family.absoluteExpiresAt ∧ input.now < family.idleExpiresAt ∧
    family.clientId = input.client.clientId ∧ family.clientCreatedAt ≠ input.client.createdAt

/-- What a successful rotation found and wrote. -/
structure Rotated (t : Tables) (user : UserRow) (input : RotateRefreshInput) (t' : Tables)
    (family : FamilyRow) (token : TokenRow) : Prop where
  presented : Presented t input family token
  current : token.serial = family.currentSerial
  enabled : user.disabledAt = none
  bound : t.boundSessionLive family input.now = true
  written : ∃ advanced,
    t.advanceFamily family input.newSecretHash input.now input.idleTtl = .ok advanced ∧
      t' = t.touchBound family input.now input.sessionIdleTtl advanced

/-- Everything the transaction of a rotation can do. -/
theorem rotateTransaction_cases {t t' : Tables} {user : UserRow} {input : RotateRefreshInput}
    {r : RotateOutcome} (h : t.rotateTransaction user input = .ok (t', r)) :
    (t' = t ∧ ∃ e, r = .fail e false none) ∨
    (StaleIncarnation t input ∧ t' = t.deleteFamilies (·.id == input.familyId) ∧
      r = .fail .invalidGrant false none) ∨
    (∃ family token, Presented t input family token ∧ token.serial < family.currentSerial ∧
      t.revokeReused family input.now = (t', r)) ∨
    ∃ family token scope, Rotated t user input t' family token ∧
      r = .ok (grantContext user scope family.sid family.authTime family.amr family.acr)
        (family.currentSerial + 1) family.kind := by
  unfold Tables.rotateTransaction at h
  split at h
  · cases h; exact .inl ⟨rfl, _, rfl⟩
  next family hfind =>
    obtain ⟨hmem, hid⟩ := Table.find_eq_some.mp hfind
    rcases ite_eq_iff.mp h with ⟨_, h⟩ | ⟨hr, h⟩
    · cases h; exact .inl ⟨rfl, _, rfl⟩
    rcases ite_eq_iff.mp h with ⟨_, h⟩ | ⟨he, h⟩
    · cases h; exact .inl ⟨rfl, _, rfl⟩
    rw [not_or, not_le, not_le] at he
    rcases ite_eq_iff.mp h with ⟨_, h⟩ | ⟨hc, h⟩
    · cases h; exact .inl ⟨rfl, _, rfl⟩
    rcases ite_eq_iff.mp h with ⟨hstale, h⟩ | ⟨hi, h⟩
    · cases h
      exact .inr (.inl ⟨⟨family, hmem, hid, by simpa using hr, he.1, he.2, not_not.mp hc, hstale⟩,
        by rw [hid], rfl⟩)
    split at h
    · cases h; exact .inl ⟨rfl, _, rfl⟩
    next token htok =>
      obtain ⟨htm, htk⟩ := Table.find_eq_some.mp htok
      obtain ⟨htf, hts⟩ := Prod.mk.inj htk
      have hp : Presented t input family token :=
        ⟨hmem, hid, by simpa using hr, he.1, he.2, not_not.mp hc, not_not.mp hi, htm, htf, hts⟩
      rcases ite_eq_iff.mp h with ⟨hlt, h⟩ | ⟨_, h⟩
      · exact .inr (.inr (.inl ⟨family, token, hp, hlt, Except.ok.inj h⟩))
      rcases ite_eq_iff.mp h with ⟨_, h⟩ | ⟨hne, h⟩
      · cases h; exact .inl ⟨rfl, _, rfl⟩
      rcases ite_eq_iff.mp h with ⟨_, h⟩ | ⟨hd, h⟩
      · cases h; exact .inl ⟨rfl, _, rfl⟩
      rcases ite_eq_iff.mp h with ⟨_, h⟩ | ⟨_, h⟩
      · cases h; exact .inl ⟨rfl, _, rfl⟩
      rcases ite_eq_iff.mp h with ⟨_, h⟩ | ⟨hb, h⟩
      · cases h; exact .inl ⟨rfl, _, rfl⟩
      split at h
      · cases h; exact .inl ⟨rfl, _, rfl⟩
      rcases ite_eq_iff.mp h with ⟨_, h⟩ | ⟨_, h⟩
      · cases h; exact .inl ⟨rfl, _, rfl⟩
      split at h
      · cases h
      next advanced hadv =>
        cases h
        exact .inr (.inr (.inr ⟨family, token, _, ⟨hp, not_not.mp hne, by simpa using hd,
          by simpa using hb, advanced, hadv, rfl⟩, rfl⟩))

/-- What a successful exchange found. -/
structure Exchangeable (t : Tables) (user : UserRow) (expectedChallenge : Option String)
    (input : ExchangeCodeInput) (code : CodeRow) (session : SessionRow) : Prop where
  code_mem : code ∈ t.authCodes.rows
  secret : code.secretHash = input.secretHash
  unconsumed : code.consumedAt = none
  unexpired : input.now < code.expiresAt
  client : code.clientId = input.client.clientId
  redirect : code.redirectUri = input.redirectUri
  challenge : Tables.challengeRefused code expectedChallenge input.codeVerifier = false
  enabled : user.disabledAt = none
  groups : allowed user input.client = true
  admin : adminAllowed user code.scope = true
  session_mem : session ∈ t.sessions.rows
  session_sid : session.sid = code.sid
  session_unrevoked : session.revokedAt = none

def ExchangeWrote (t : Tables) (input : ExchangeCodeInput) (code : CodeRow)
    (session : SessionRow) (t' : Tables) : Prop :=
  match input.refresh with
  | none => t' = t.consumeCode input.secretHash input.now
  | some r => (t.consumeCode input.secretHash input.now).openFamily input r code session = .ok t'

/-- Everything the transaction of an exchange can do. -/
theorem exchangeTransaction_cases {t t' : Tables} {user : UserRow}
    {expectedChallenge : Option String} {input : ExchangeCodeInput} {r : ExchangeOutcome}
    (h : t.exchangeTransaction user expectedChallenge input = .ok (t', r)) :
    (t' = t ∧ ∃ e, r = .fail e false) ∨
    (∃ code ∈ t.authCodes.rows, code.secretHash = input.secretHash ∧ code.consumedAt.isSome ∧
      t' = t.revokeFamiliesWhere (fun f => f.codeSecretHash == some input.secretHash) input.now
        "code_replay" ∧ r = .fail .invalidGrant true) ∨
    ∃ code session nonce familyId kind,
      Exchangeable t user expectedChallenge input code session ∧
      ExchangeWrote t input code session t' ∧
      r = .ok (grantContext user code.scope (some code.sid) code.authTime code.amr code.acr)
        nonce familyId kind := by
  unfold Tables.exchangeTransaction at h
  split at h
  · cases h; exact .inl ⟨rfl, _, rfl⟩
  next code hfind =>
    obtain ⟨hmem, hhash⟩ := Table.find_eq_some.mp hfind
    rcases ite_eq_iff.mp h with ⟨hcons, h⟩ | ⟨hcons, h⟩
    · cases h; exact .inr (.inl ⟨code, hmem, hhash, hcons, rfl, rfl⟩)
    rcases ite_eq_iff.mp h with ⟨_, h⟩ | ⟨hexp, h⟩
    · cases h; exact .inl ⟨rfl, _, rfl⟩
    rcases ite_eq_iff.mp h with ⟨_, h⟩ | ⟨hcl, h⟩
    · cases h; exact .inl ⟨rfl, _, rfl⟩
    rcases ite_eq_iff.mp h with ⟨_, h⟩ | ⟨hred, h⟩
    · cases h; exact .inl ⟨rfl, _, rfl⟩
    rcases ite_eq_iff.mp h with ⟨_, h⟩ | ⟨hch, h⟩
    · cases h; exact .inl ⟨rfl, _, rfl⟩
    rcases ite_eq_iff.mp h with ⟨_, h⟩ | ⟨hd, h⟩
    · cases h; exact .inl ⟨rfl, _, rfl⟩
    rcases ite_eq_iff.mp h with ⟨_, h⟩ | ⟨hal, h⟩
    · cases h; exact .inl ⟨rfl, _, rfl⟩
    rcases ite_eq_iff.mp h with ⟨_, h⟩ | ⟨had, h⟩
    · cases h; exact .inl ⟨rfl, _, rfl⟩
    split at h
    · cases h; exact .inl ⟨rfl, _, rfl⟩
    next session hses =>
      obtain ⟨hsm, hsid⟩ := Table.find_eq_some.mp hses
      rcases ite_eq_iff.mp h with ⟨_, h⟩ | ⟨hrev, h⟩
      · cases h; exact .inl ⟨rfl, _, rfl⟩
      have hx : Exchangeable t user expectedChallenge input code session :=
        ⟨hmem, hhash, by simpa using hcons, not_le.mp hexp, not_not.mp hcl, not_not.mp hred,
          by simpa using hch, by simpa using hd, by simpa using hal, by simpa using had, hsm, hsid,
          by simpa using hrev⟩
      refine .inr (.inr ?_)
      dsimp only at h
      split at h
      next hno =>
        cases h
        exact ⟨code, session, _, _, _, hx, by simp [ExchangeWrote, hno], rfl⟩
      next ri hri =>
        split at h
        · cases h
        next opened hop =>
          cases h
          exact ⟨code, session, _, _, _, hx, by simpa [ExchangeWrote, hri] using hop, rfl⟩

/-- The cap revokes unrevoked families only, as every other revocation does. -/
theorem limitFamilies_eq (t : Tables) (clientId : String) (now : ℤ) :
    t.limitFamilies clientId now =
      t.revokeFamiliesWhere (fun f => (t.familiesBeyondLimit clientId now).contains f.id) now
        "family_limit" := by
  unfold Tables.limitFamilies Tables.revokeFamiliesWhere
  dsimp only
  congr 1
  apply Table.updateWhere_congr
  intro f hf
  cases hc : (t.familiesBeyondLimit clientId now).contains f.id with
  | false => rfl
  | true =>
    simp only [Tables.familiesBeyondLimit, List.contains_iff_mem, List.mem_map] at hc
    obtain ⟨g, hg, hid⟩ := hc
    have hg' := (List.mem_insertionSort Tables.familyNewer).mp (List.mem_of_mem_drop hg)
    obtain ⟨hgm, hgl⟩ := List.mem_filter.mp hg'
    rw [Bool.and_eq_true] at hgl
    have he : g = f := Table.eq_of_key_eq hgm hf hid
    subst he
    have hl := hgl.2
    simp only [Tables.familyLive, Bool.and_eq_true] at hl
    simp [hl.1.1]

/-- Opening a family inserts it with its first token, then applies the cap. -/
theorem openFamily_ok {t t' : Tables} {input : ExchangeCodeInput} {r : RefreshInput}
    {code : CodeRow} {session : SessionRow} (h : t.openFamily input r code session = .ok t') :
    ∃ families tokens,
      t.refreshFamilies.insert (Tables.newFamilyRow input r code session) = some families ∧
      t.refreshTokens.insert ⟨r.familyId, r.secretHash, 1, input.now⟩ = some tokens ∧
      t' = ({ t with refreshFamilies := families, refreshTokens := tokens }).limitFamilies
        input.client.clientId input.now := by
  unfold Tables.openFamily at h
  split at h
  · cases h
  next families hf =>
    split at h
    · cases h
    next tokens ht => exact ⟨families, tokens, hf, ht, by cases h; rfl⟩

theorem openFamily_changes {e : CallEvent} {t t' : Tables} {input : ExchangeCodeInput}
    {r : RefreshInput} {code : CodeRow} {session : SessionRow}
    (h : t.openFamily input r code session = .ok t')
    (hcode : codeExchanged e = some input.secretHash)
    (hm : ∃ c ∈ t.authCodes.rows, c.secretHash = input.secretHash ∧ c.sid = code.sid)
    (hc : familyOpened e = some r.familyId)
    (hi : tokenIssued e = some (r.familyId, r.secretHash)) : Changes e t t' := by
  obtain ⟨families, tokens, hf, ht, rfl⟩ := openFamily_ok h
  obtain ⟨c, hcm, hch, hcs⟩ := hm
  have hsid : ∀ sid, (Tables.newFamilyRow input r code session).sid = some sid → sid = c.sid := by
    intro sid hs
    rw [hcs]
    dsimp only [Tables.newFamilyRow] at hs
    split_ifs at hs
    exact (Option.some.inj hs).symm
  have hopen : Change e t { t with refreshFamilies := families, refreshTokens := tokens } :=
    .openFamily hf ht rfl rfl rfl hcode.symm ⟨c, hcm, by rw [hcode, hch], hsid⟩ hc hi
  rw [limitFamilies_eq]
  exact (Relation.ReflTransGen.single hopen).tail (.revokeFamilies _ _ _)

theorem touchBound_changes {e : CallEvent} {t bound : Tables} {family : FamilyRow}
    {now idleTtl : ℤ} (hs : bound.sessions = t.sessions)
    (hb : t.boundSessionLive family now = true) (hn : e.input.now? = some now) :
    Changes e bound (t.touchBound family now idleTtl bound) := by
  unfold Tables.touchBound
  split
  · exact .refl
  next session hfind =>
    obtain ⟨sid, hsid, hfind⟩ := Option.bind_eq_some_iff.mp hfind
    simp only [Tables.boundSessionLive, hsid, hfind, Bool.and_eq_true, decide_eq_true_eq] at hb
    have hm : session ∈ bound.sessions.rows := hs ▸ (Table.find_eq_some.mp hfind).1
    exact .single (.touchSession idleTtl hm ⟨by simpa using hb.1.1, hb.1.2, hb.2⟩ hn)

theorem advanceFamily_ok {t t' : Tables} {family : FamilyRow} {secret : Bytes}
    {now idleTtl : ℤ} (h : t.advanceFamily family secret now idleTtl = .ok t') :
    ∃ tokens, t.refreshTokens.insert ⟨family.id, secret, family.currentSerial + 1, now⟩ =
        some tokens ∧
      t' = { t with
        refreshTokens := tokens
        refreshFamilies := t.refreshFamilies.updateWhere (·.id == family.id)
          (fun f => { f with
            currentSerial := family.currentSerial + 1
            idleExpiresAt := min (now + idleTtl) family.absoluteExpiresAt })
          (fun _ => rfl) } := by
  unfold Tables.advanceFamily at h
  split at h
  · cases h
  next tokens ht => exact ⟨tokens, ht, by cases h; rfl⟩

theorem advanceFamily_sessions {t t' : Tables} {family : FamilyRow} {secret : Bytes}
    {now idleTtl : ℤ} (h : t.advanceFamily family secret now idleTtl = .ok t') :
    t'.sessions = t.sessions := by
  obtain ⟨tokens, _, rfl⟩ := advanceFamily_ok h
  rfl

theorem Rotated.changes {e : CallEvent} {t t' : Tables} {user : UserRow}
    {input : RotateRefreshInput} {family : FamilyRow} {token : TokenRow}
    (h : Rotated t user input t' family token) (hn : e.input.now? = some input.now)
    (hi : tokenIssued e = some (input.familyId, input.newSecretHash)) : Changes e t t' := by
  obtain ⟨advanced, hadv, rfl⟩ := h.written
  rw [← h.presented.family_id] at hi
  have hc : Change e t advanced :=
    .advanceFamily h.presented.family_mem h.presented.unrevoked hadv hi
  exact (Relation.ReflTransGen.single hc).trans
    (touchBound_changes (advanceFamily_sessions hadv) h.bound hn)

theorem revokeReused_changes (e : CallEvent) (t : Tables) (family : FamilyRow) (now : ℤ) :
    Changes e t (t.revokeReused family now).1 := by
  have hf : Changes e t (t.revokeFamily family.id now "reuse") := .single (.revokeFamilies _ _ _)
  unfold Tables.revokeReused
  dsimp only
  split
  · exact hf
  · exact hf.trans (revokeSessionRows_changes e _ _ now _)

theorem finishLogin_changes {e : CallEvent} {t t' : Tables} {user : UserRow} {sid : String}
    {input : FinalizeLoginInput} {r : Outcome Finalized}
    (h : UserObject.finishLogin t user sid input = .ok (t', r))
    (hrecent : ∀ s ∈ t.sessions.rows, s.sid = sid → s.lastSeenAt = input.now)
    (hc : ∀ f, r = .ok f → codeIssued e = input.code.map (·.secretHash)) : Changes e t t' := by
  unfold UserObject.finishLogin at h
  split at h
  · cases h; exact .refl
  next session hfind =>
    obtain ⟨hm, hk⟩ := Table.find_eq_some.mp hfind
    split at h
    · cases h
    next issued hiss =>
      cases h
      cases hcode : input.code with
      | none =>
        rw [hcode] at hiss
        cases hiss
        exact .refl
      | some code =>
        rw [hcode] at hiss
        have hci := hc _ rfl
        rw [hcode] at hci
        exact issueCodeRows_changes hiss hci hm (.inl (hrecent session hm hk))

/-- Once the session row is written, a login that does not throw succeeds. -/
theorem finishLogin_succeeds {t t' : Tables} {user : UserRow} {sid : String}
    {input : FinalizeLoginInput} {r : Outcome Finalized}
    (h : UserObject.finishLogin t user sid input = .ok (t', r))
    (hm : ∃ s ∈ t.sessions.rows, s.sid = sid) : ∃ f, r = .ok f := by
  obtain ⟨s, hs, hk⟩ := hm
  unfold UserObject.finishLogin at h
  rw [Table.find_eq_some.mpr ⟨hs, hk⟩] at h
  dsimp only at h
  split at h
  · cases h
  · cases h; exact ⟨_, rfl⟩

theorem insertSession_ok {t t' : Tables} {input : NewSession} {now : ℤ}
    (h : t.insertSession input now = .ok t') :
    ∃ sessions, t.sessions.insert (Tables.newSessionRow input now) = some sessions ∧
      t' = { t with sessions := sessions } := by
  unfold Tables.insertSession at h
  rcases ite_eq_iff.mp h with ⟨_, h⟩ | ⟨_, h⟩
  · cases h
  split at h
  · cases h
  next sessions hs => exact ⟨sessions, hs, by cases h; rfl⟩

theorem rotateSession_ok {t t' : Tables} {existing : SessionRow} {secretHash : Bytes}
    {auth : AuthContext} {now idleTtl : ℤ}
    (h : t.rotateSession existing secretHash auth now idleTtl = .ok t') :
    t' = { t with
      sessions := t.sessions.updateWhere (·.sid == existing.sid)
        (fun r => { r with
          secretHash := secretHash, authTime := auth.authTime, amr := auth.amr, acr := auth.acr
          upstream := auth.upstream, lastSeenAt := now
          idleExpiresAt := min (now + idleTtl) existing.absoluteExpiresAt })
        (fun _ => rfl) } := by
  unfold Tables.rotateSession at h
  rcases ite_eq_iff.mp h with ⟨_, h⟩ | ⟨_, h⟩
  · cases h
  · cases h; rfl

theorem loginTransaction_changes {e : CallEvent} {t t' : Tables} {user : UserRow}
    {input : FinalizeLoginInput} {r : Outcome Finalized}
    (h : UserObject.loginTransaction t user input = .ok (t', r))
    (he : e.input = .finalizeLogin input) (hr : e.reply = .login r) (hl : LoginAllowed e input)
    (ht : t = (e.pre.purgeIfDue input.now purgeGraceSeconds).tables) : Changes e t t' := by
  have hc : ∀ f, r = .ok f → codeIssued e = input.code.map (·.secretHash) := by
    rintro f rfl
    simp [codeIssued, he, hr]
  unfold UserObject.loginTransaction at h
  split at h
  next session hses =>
    split at h
    · cases h
    next created hins =>
      obtain ⟨sessions, hsessions, hcreated⟩ := insertSession_ok hins
      have hrow : ∀ s, s ∈ created.sessions.rows ↔
          s ∈ t.sessions.rows ∨ s = Tables.newSessionRow session input.now := by
        intro s
        rw [hcreated]
        exact Table.mem_insert hsessions
      obtain ⟨f, rfl⟩ := finishLogin_succeeds h ⟨_, (hrow _).mpr (.inr rfl), rfl⟩
      obtain ⟨user, hu, hd, _⟩ := hl
      have hchange : Change e t created :=
        .createSession hins (by simp [sessionCreated, he, hr, hses]) ⟨user, hu, hd⟩
      refine (Relation.ReflTransGen.single hchange).trans (finishLogin_changes h ?_ hc)
      intro s hs hsid
      rcases (hrow s).mp hs with hold | rfl
      · exact absurd hsid (Table.key_notMem_of_insert hsessions s hold)
      · rfl
  next sid secretHash auth hses =>
    split at h
    · cases h; exact .refl
    next existing hfind =>
      obtain ⟨hm, hk⟩ := Table.find_eq_some.mp hfind
      rcases ite_eq_iff.mp h with ⟨_, h⟩ | ⟨hlive, h⟩
      · cases h; exact .refl
      rw [not_or, not_le] at hlive
      split at h
      · cases h
      next rotated hrot =>
        have hreach : RotateReached e input existing :=
          ⟨he, ⟨secretHash, auth, hk ▸ hses⟩, hl, ht ▸ hm, by simpa using hlive.1, hlive.2⟩
        have hchange : Change e t rotated := .rotateSession hreach hm hrot
        refine (Relation.ReflTransGen.single hchange).trans (finishLogin_changes h ?_ hc)
        intro s hsm hsid
        rw [rotateSession_ok hrot] at hsm
        obtain ⟨s', _, ⟨hp, rfl⟩ | ⟨_, rfl⟩⟩ := Table.exists_of_mem_update hsm
        · simp [hsid, hk] at hp
        · rfl

/-! ### The methods -/

theorem guard_ok {o : UserObject} {user : UserRow} (h : o.guard = .ok user) :
    o.destroyed = false ∧ o.tables.user = some user := by
  unfold UserObject.guard at h
  split_ifs at h with hd
  split at h
  · cases h
  next row hrow =>
    cases h
    exact ⟨by simpa using hd, hrow⟩

/-- A guarded method refuses, or runs its body for the stored user. -/
theorem guarded_cases {α : Type} {o o' : UserObject} {fail : UserDoError → α}
    {body : UserRow → UserObject × α} {r : α} (h : o.guarded fail body = (o', r)) :
    (o' = o ∧ ∃ err, r = fail err) ∨ ∃ user, o.guard = .ok user ∧ body user = (o', r) := by
  unfold UserObject.guarded at h
  split at h
  next err _ => cases h; exact .inl ⟨rfl, err, rfl⟩
  next user hu => exact .inr ⟨user, hu, h⟩

theorem guarded_changes {e : CallEvent} {α : Type} {o : UserObject} {fail : UserDoError → α}
    {body : UserRow → UserObject × α}
    (h : ∀ user, o.guard = .ok user → o.guarded fail body = body user →
      Changes e o.tables (body user).1.tables) :
    Changes e o.tables (o.guarded fail body).1.tables := by
  generalize hx : o.guarded fail body = x at h ⊢
  obtain ⟨o', r⟩ := x
  obtain ⟨rfl, _⟩ | ⟨user, hu, hb⟩ := guarded_cases hx
  · exact .refl
  · have hc := h user hu hb.symm
    rwa [hb] at hc

/-- A purging transaction commits what its body did to the purged tables, or throws. -/
theorem purging_cases {α : Type} (o : UserObject) (now w : ℤ) (thrown : SqlError → α)
    (body : Tables → Except SqlError (Tables × α)) :
    (∃ t a, body (o.purgeIfDue now w).tables = .ok (t, a) ∧
      o.purging now w thrown body = ((o.purgeIfDue now w).store t, a)) ∨
    ∃ err, body (o.purgeIfDue now w).tables = .error err ∧
      o.purging now w thrown body = ((o.purgeIfDue now w).store o.tables, thrown err) := by
  unfold UserObject.purging
  dsimp only
  split
  next t a h => exact .inl ⟨t, a, h, rfl⟩
  next err h => exact .inr ⟨err, h, rfl⟩

theorem purging_changes {e : CallEvent} {α : Type} {o : UserObject} {now w : ℤ}
    {thrown : SqlError → α} {body : Tables → Except SqlError (Tables × α)}
    (hp : purgeOf e = some (now, w))
    (h : ∀ t t' a, t = (o.purgeIfDue now w).tables → body t = .ok (t', a) →
      (o.purging now w thrown body).2 = a → Changes e t t') :
    Changes e o.tables (o.purging now w thrown body).1.tables := by
  rcases purging_cases o now w thrown body with ⟨t, a, hb, hr⟩ | ⟨err, _, hr⟩
  · have hc := h _ t a rfl hb (by rw [hr])
    rw [hr]
    exact (purgeIfDue_changes o hp).trans hc
  · rw [hr]
    exact .refl

theorem insertIdentity_sameCore {t t' : Tables} {identity : NewIdentity} {now : ℤ}
    (h : UserObject.insertIdentity t identity now = .ok t') : SameCore t t' := by
  unfold UserObject.insertIdentity at h
  rcases ite_eq_iff.mp h with ⟨_, h⟩ | ⟨_, h⟩
  · cases h
  split at h
  · cases h
  · cases h; exact ⟨rfl, rfl, rfl, rfl, rfl⟩

theorem SameCore.trans {t t' t'' : Tables} (h : SameCore t t') (h' : SameCore t' t'') :
    SameCore t t'' :=
  ⟨h'.user.trans h.user, h'.sessions.trans h.sessions, h'.codes.trans h.codes,
    h'.families.trans h.families, h'.tokens.trans h.tokens⟩

theorem insertIdentities_sameCore {now : ℤ} {identities : List NewIdentity} :
    ∀ {t t' : Tables}, UserObject.insertIdentities now t identities = .ok t' → SameCore t t' := by
  induction identities with
  | nil =>
    intro t t' h
    cases h
    exact ⟨rfl, rfl, rfl, rfl, rfl⟩
  | cons identity rest ih =>
    intro t t' h
    unfold UserObject.insertIdentities at h
    split at h
    · cases h
    next t1 h1 => exact (insertIdentity_sameCore h1).trans (ih h)

theorem init_changes {e : CallEvent} {o : UserObject} {p : InitProfile} {now : ℤ}
    {identities : List NewIdentity} (he : e.input = .init p now identities) :
    Changes e o.tables (o.init p now identities).1.tables := by
  unfold UserObject.init
  split
  · exact .refl
  split
  · split <;> exact .refl
  next hnone =>
    split
    · exact .refl
    next t ht =>
      have hw : Change e o.tables
          { o.tables with user := some (UserObject.newUserRow p now) } :=
        .writeUser (by simp [UserWritten, he, hnone, UserObject.newUserRow])
      exact (Relation.ReflTransGen.single hw).tail (.aside (insertIdentities_sameCore ht))

/-- A method that only rewrites the user row. -/
theorem setUser_changes {e : CallEvent} {α : Type} {o : UserObject} {fail : UserDoError → α}
    {row : UserRow → UserRow} {reply : UserRow → α}
    (h : ∀ user, o.tables.user = some user → UserWritten e (some user) (row user)) :
    Changes e o.tables
      (o.guarded fail fun user => (o.setUser (row user), reply user)).1.tables := by
  apply guarded_changes
  intro user hu _
  have huser := (guard_ok hu).2
  exact .single (.writeUser (huser ▸ h user huser))

theorem setDisabled_changes {e : CallEvent} {o : UserObject} {disabledAt : Option ℤ} {now : ℤ}
    (he : e.input = .setDisabled disabledAt now) :
    Changes e o.tables (o.setDisabled disabledAt now).1.tables := by
  apply guarded_changes
  intro user hguard _
  have hw : Change e o.tables
      { o.tables with user := some { user with disabledAt := disabledAt, updatedAt := now } } :=
    .writeUser (by simp [UserWritten, he, (guard_ok hguard).2])
  have hu := Relation.ReflTransGen.single hw
  cases disabledAt with
  | none => exact hu
  | some at_ =>
    exact (hu.trans (revokeEach_changes e now "disabled" _ _)).tail (.revokeFamilies _ now _)

theorem revokeAll_changes (e : CallEvent) (o : UserObject) (now : ℤ) (reason : String) :
    Changes e o.tables (o.revokeAll now reason).1.tables := by
  apply guarded_changes
  intro user _ _
  exact (revokeEach_changes e now reason _ _).tail (.revokeFamilies _ now _)

def authorizeTables (o : UserObject) (input : AuthorizeWithSessionInput) : Tables :=
  ((o.store (UserObject.consentCovered o.tables input).1).purgeIfDue input.now
    purgeGraceSeconds).tables

/-- What the session-hit path checked before it issued a code, and what it wrote. -/
structure AuthorizedCode (o : UserObject) (input : AuthorizeWithSessionInput) (t' : Tables)
    (user : UserRow) (session : SessionRow) (code : CodeInput) : Prop where
  guard : o.guard = .ok user
  live : o.tables.liveSession input.sid input.secretHash input.now = some session
  enabled : user.disabledAt = none
  consent : (UserObject.consentCovered o.tables input).2 = true
  requested : input.code = some code
  written : (authorizeTables o input).issueCodeRows code session input.now input.sessionIdleTtl =
    .ok t'

/-- The session-hit path issues a code, or leaves the tables but for a stale grant. -/
theorem authorizeWithSession_cases {o o' : UserObject} {input : AuthorizeWithSessionInput}
    {r : Outcome Authorized} (h : o.authorizeWithSession input = (o', r)) :
    (SameCore o.tables o'.tables ∧
      ∀ a, r = .ok a → a.outcome = .authorized → input.code = none) ∨
    ∃ user session code a, AuthorizedCode o input o'.tables user session code ∧
      r = .ok a ∧ a.outcome = .authorized := by
  have hsame : SameCore o.tables o.tables := ⟨rfl, rfl, rfl, rfl, rfl⟩
  have hconsent := consentCovered_sameCore o.tables input
  unfold UserObject.authorizeWithSession at h
  obtain ⟨rfl, err, rfl⟩ | ⟨user, hu, h⟩ := guarded_cases h
  · exact .inl ⟨hsame, by simp⟩
  split at h
  · cases h; exact .inl ⟨hsame, by simp⟩
  next session hlive =>
    rcases ite_eq_iff.mp h with ⟨_, h⟩ | ⟨hd, h⟩
    · cases h; exact .inl ⟨hsame, by simp⟩
    rcases ite_eq_iff.mp h with ⟨_, h⟩ | ⟨_, h⟩
    · cases h; exact .inl ⟨hsame, by simp⟩
    rcases ite_eq_iff.mp h with ⟨_, h⟩ | ⟨_, h⟩
    · cases h; exact .inl ⟨hsame, by simp⟩
    rcases ite_eq_iff.mp h with ⟨_, h⟩ | ⟨_, h⟩
    · cases h; exact .inl ⟨hsame, by simp⟩
    rcases ite_eq_iff.mp h with ⟨_, h⟩ | ⟨hcov, h⟩
    · cases h; exact .inl ⟨hconsent, by simp⟩
    split at h
    next hcode => cases h; exact .inl ⟨hconsent, fun _ _ _ => hcode⟩
    next code hcode =>
      dsimp only at h
      split at h
      · cases h; exact .inl ⟨hsame, by simp⟩
      next t hiss =>
        cases h
        exact .inr ⟨user, session, code, _, ⟨hu, hlive, by simpa using hd, by simpa using hcov,
          hcode, hiss⟩, rfl, rfl⟩

theorem authorizeWithSession_changes {e : CallEvent} {o : UserObject}
    {input : AuthorizeWithSessionInput} (he : e.input = .authorizeWithSession input)
    (hr : e.reply = .authorize (o.authorizeWithSession input).2) :
    Changes e o.tables (o.authorizeWithSession input).1.tables := by
  generalize hx : o.authorizeWithSession input = x at hr ⊢
  obtain ⟨o', r⟩ := x
  obtain ⟨hs, _⟩ | ⟨user, session, code, a, hc, rfl, hout⟩ := authorizeWithSession_cases hx
  · exact .aside hs
  · obtain ⟨hm, _, _, hl⟩ := liveSession_eq_some hc.live
    have hgrants : Changes e o.tables (UserObject.consentCovered o.tables input).1 :=
      .aside (consentCovered_sameCore o.tables input)
    have hpurge : Changes e (UserObject.consentCovered o.tables input).1
        (authorizeTables o input) :=
      purgeIfDue_changes (o.store (UserObject.consentCovered o.tables input).1)
        (by simp [purgeOf, he])
    have hm' : session ∈ (authorizeTables o input).sessions.rows := by
      apply mem_purgeIfDue_sessions_of_live _ hl
      rw [UserObject.store, (consentCovered_sameCore o.tables input).sessions]
      exact hm
    have hi : codeIssued e = some code.secretHash := by
      simp [codeIssued, he, hr, hout, hc.requested]
    exact (hgrants.trans hpurge).trans
      (issueCodeRows_changes hc.written hi hm' (.inr ⟨hl, by simp [he, Call.now?]⟩))

theorem finalizeLogin_changes {e : CallEvent} {o : UserObject} {input : FinalizeLoginInput}
    (he : e.input = .finalizeLogin input) (hpre : e.pre = o)
    (hr : e.reply = .login (o.finalizeLogin input).2) :
    Changes e o.tables (o.finalizeLogin input).1.tables := by
  apply guarded_changes
  intro user hu hg
  change o.finalizeLogin input = _ at hg
  rw [hg] at hr
  split_ifs at hr ⊢ with hd hal had
  · exact .refl
  · exact .refl
  · exact .refl
  · apply purging_changes (by simp [purgeOf, he])
    rintro t t' a ht hb ha
    have hl : LoginAllowed e input :=
      ⟨user, hpre ▸ hu, by simpa using hd, by simpa using hal, by simpa using had⟩
    exact loginTransaction_changes hb he (by rw [hr, ha]) hl (hpre ▸ ht)

theorem revokeSession_changes {e : CallEvent} {o : UserObject} {sid : String} {now : ℤ}
    {reason : String} (he : e.input = .revokeSession sid now reason) :
    Changes e o.tables (o.revokeSession sid now reason).1.tables := by
  apply guarded_changes
  intro user _ _
  apply purging_changes (by simp [purgeOf, he])
  intro t t' a _ hb _
  split at hb
  · cases hb; exact .refl
  · rcases ite_eq_iff.mp hb with ⟨_, hb⟩ | ⟨_, hb⟩
    · cases hb; exact .refl
    · cases hb; exact revokeSessionRows_changes e t sid now reason

theorem revokeSessions_changes {e : CallEvent} {o : UserObject} {except : Option String}
    {now : ℤ} {reason : String} (he : e.input = .revokeSessions except now reason) :
    Changes e o.tables (o.revokeSessions except now reason).1.tables := by
  apply guarded_changes
  intro user _ _
  apply purging_changes (by simp [purgeOf, he])
  intro t t' a _ hb _
  cases hb
  exact revokeEach_changes e now reason _ t

theorem exchangeTransaction_changes {e : CallEvent} {t t' : Tables} {user : UserRow}
    {expectedChallenge : Option String} {input : ExchangeCodeInput} {r : ExchangeOutcome}
    (h : t.exchangeTransaction user expectedChallenge input = .ok (t', r))
    (he : exchangeRun e = some input) (hn : rotationSucceeded e = none)
    (hr : e.reply = .exchange (.done r)) : Changes e t t' := by
  obtain ⟨rfl, _⟩ | ⟨_, _, _, _, rfl, _⟩ | ⟨code, session, nonce, fid, kind, hx, hw, rfl⟩ :=
    exchangeTransaction_cases h
  · exact .refl
  · exact .single (.revokeFamilies _ _ _)
  · have hs : exchangeSucceeded e = some input := by
      simp [exchangeSucceeded, exchangeOk, hr, he]
    have hc : codeExchanged e = some input.secretHash := by simp [codeExchanged, hs]
    have hconsume : Changes e t (t.consumeCode input.secretHash input.now) :=
      .single (.consumeCode input.now hc)
    unfold ExchangeWrote at hw
    split at hw
    · rwa [hw]
    next ri hri =>
      refine hconsume.trans (openFamily_changes hw hc ?_ ?_ ?_)
      · exact ⟨_, List.mem_map.mpr ⟨code, hx.code_mem, rfl⟩, by split <;> exact ⟨hx.secret, rfl⟩⟩
      · simp [familyOpened, hs, hri]
      · simp [tokenIssued, hn, hs, hri]

theorem commitExchange_changes {e : CallEvent} {o : UserObject} {user : UserRow}
    {expectedChallenge : Option String} {input : ExchangeCodeInput}
    (he : exchangeRun e = some input) (hn : rotationSucceeded e = none)
    (hp : purgeOf e = some (input.now, purgeGraceSeconds))
    (hr : e.reply = .exchange (.done (o.commitExchange user expectedChallenge input).2)) :
    Changes e o.tables (o.commitExchange user expectedChallenge input).1.tables := by
  apply purging_changes hp
  intro t t' a _ hb ha
  exact exchangeTransaction_changes hb he hn (by rw [hr, ← ha]; rfl)

theorem exchangeCode_changes {e : CallEvent} {sha256 : String → Bytes} {o : UserObject}
    {input : ExchangeCodeInput} (he : e.input = .exchangeCode input)
    (hr : e.reply = .exchange (o.exchangeCode sha256 input).2) :
    Changes e o.tables (o.exchangeCode sha256 input).1.tables := by
  unfold UserObject.exchangeCode at hr ⊢
  split
  · exact .refl
  next user hu =>
    rw [hu] at hr
    dsimp only at hr
    split
    · exact .refl
    next hv =>
      rw [hv] at hr
      exact commitExchange_changes (by simp [exchangeRun, he]) (by simp [rotationSucceeded, he])
        (by simp [purgeOf, exchangeRun, he]) hr

theorem resumeExchange_changes {e : CallEvent} {o : UserObject} {call : ℕ}
    (he : e.input = .resumeExchange call) (hpre : e.pre = o)
    (hr : e.reply = exchangeReply (o.resumeExchange call).2) :
    Changes e o.tables (o.resumeExchange call).1.tables := by
  unfold UserObject.resumeExchange at hr ⊢
  split
  next input user challenge hl =>
    rw [hl] at hr
    dsimp only at hr ⊢
    split_ifs at hr ⊢ with hd
    · exact .refl
    · exact commitExchange_changes (o := { o with suspended := _ })
        (by simp [exchangeRun, he, hpre, hl]) (by simp [rotationSucceeded, he])
        (by simp [purgeOf, exchangeRun, he, hpre, hl]) hr
  · exact .refl

theorem rotateRefreshToken_changes {e : CallEvent} {o : UserObject} {input : RotateRefreshInput}
    (he : e.input = .rotateRefreshToken input)
    (hr : e.reply = .rotate (o.rotateRefreshToken input).2) :
    Changes e o.tables (o.rotateRefreshToken input).1.tables := by
  apply guarded_changes
  intro user _ hg
  change o.rotateRefreshToken input = _ at hg
  rw [hg] at hr
  apply purging_changes (by simp [purgeOf, he])
  intro t t' a _ hb ha
  obtain ⟨rfl, _⟩ | ⟨-, rfl, _⟩ | ⟨family, token, _, _, hre⟩ |
    ⟨family, token, grant, hrot, rfl⟩ := rotateTransaction_cases hb
  · exact .refl
  · exact .single (.dropFamily _)
  · have hc := revokeReused_changes e t family input.now
    rwa [hre] at hc
  · rw [ha] at hr
    exact hrot.changes (by simp [he, Call.now?]) (by simp [tokenIssued, rotationSucceeded, he, hr])

theorem resumeAssertion_sameCore (o : UserObject) (call : ℕ) (verified : Option ℕ) :
    SameCore o.tables (o.resumeAssertion call verified).1.tables := by
  unfold UserObject.resumeAssertion
  split
  · dsimp only
    split
    · exact ⟨rfl, rfl, rfl, rfl, rfl⟩
    · split
      · exact ⟨rfl, rfl, rfl, rfl, rfl⟩
      · unfold UserObject.commitAssertion
        split
        · split <;> exact ⟨rfl, rfl, rfl, rfl, rfl⟩
        · exact ⟨rfl, rfl, rfl, rfl, rfl⟩
  · exact ⟨rfl, rfl, rfl, rfl, rfl⟩

/-- A method whose body leaves the core tables leaves them. -/
theorem guarded_aside {e : CallEvent} {α : Type} {o : UserObject} {fail : UserDoError → α}
    {body : UserRow → UserObject × α}
    (h : ∀ user, SameCore o.tables (body user).1.tables) :
    Changes e o.tables (o.guarded fail body).1.tables :=
  guarded_changes (fun user _ _ => .aside (h user))

theorem SameCore.refl (t : Tables) : SameCore t t := ⟨rfl, rfl, rfl, rfl, rfl⟩

/-- Every step of an object is a sequence of changes. -/
theorem call_changes (sha256 : String → Bytes) (o : UserObject) (c : Call) :
    Changes (Machine.event (UserObject.call sha256) o c) o.tables
      (o.call sha256 c).1.tables := by
  cases c with
  | init p now identities => exact init_changes rfl
  | destroy => exact .single (.clear rfl)
  | evict => exact .refl
  | getProfile => exact guarded_aside fun _ => .refl _
  | setGroups groups now => exact setUser_changes fun user _ => ⟨user, rfl, rfl, rfl⟩
  | setDisabled disabledAt now => exact setDisabled_changes rfl
  | touch now reuseWindow => exact guarded_changes fun _ _ _ => purgeIfDue_changes o rfl
  | authorizeWithSession input => exact authorizeWithSession_changes rfl rfl
  | finalizeLogin input => exact finalizeLogin_changes rfl rfl rfl
  | getSession sid secretHash now =>
    apply guarded_aside
    intro user
    split
    · exact .refl _
    · split <;> exact .refl _
  | revokeSession sid now reason => exact revokeSession_changes rfl
  | listSessions now => exact guarded_aside fun _ => .refl _
  | revokeSessions except now reason => exact revokeSessions_changes rfl
  | countPasskeyAttempt now =>
    apply guarded_aside
    intro user
    dsimp only
    split_ifs <;> exact ⟨rfl, rfl, rfl, rfl, rfl⟩
  | putChallenge key value expiresAt => exact guarded_aside fun _ => ⟨rfl, rfl, rfl, rfl, rfl⟩
  | takeChallenge key now => exact guarded_aside fun _ => ⟨rfl, rfl, rfl, rfl, rfl⟩
  | revokeAll now reason => exact revokeAll_changes _ o now reason
  | exchangeCode input => exact exchangeCode_changes rfl rfl
  | resumeExchange call => exact resumeExchange_changes rfl rfl rfl
  | rotateRefreshToken input => exact rotateRefreshToken_changes rfl rfl
  | revokeFamilyById familyId now reason clientId =>
    apply guarded_changes
    intro user _ _
    split
    · exact .refl
    · split_ifs
      · exact .refl
      · exact .refl
      · exact .single (.revokeFamilies _ _ _)
  | revokeSessionFamiliesOfClient sid clientId now =>
    exact guarded_changes fun _ _ _ => .single (.revokeFamilies _ _ _)
  | revokeFamiliesOfClient clientId now reason =>
    exact guarded_changes fun _ _ _ => .single (.revokeFamilies _ _ _)
  | listFamilies now => exact guarded_aside fun _ => .refl _
  | grantConsent client scopes now =>
    apply guarded_aside
    intro user
    obtain ⟨hu, hs, hc, hf, ht⟩ := grantFor_sameCore o.tables client
    exact ⟨hu, hs, hc, hf, ht⟩
  | grantClientIds => exact guarded_aside fun _ => .refl _
  | listGrants clients => exact guarded_aside fun _ => ⟨rfl, rfl, rfl, rfl, rfl⟩
  | revokeGrant clientId now =>
    apply guarded_changes
    intro user _ _
    have hg : Changes (Machine.event (UserObject.call sha256) o (.revokeGrant clientId now))
      o.tables
        { o.tables with grants := o.tables.grants.deleteWhere (·.clientId == clientId) } :=
      .aside ⟨rfl, rfl, rfl, rfl, rfl⟩
    exact hg.tail (.revokeFamilies _ _ _)
  | addPasskey passkey now maxPerUser =>
    apply guarded_aside
    intro user
    split_ifs
    · exact .refl _
    · exact .refl _
    · split <;> exact ⟨rfl, rfl, rfl, rfl, rfl⟩
  | verifyAssertion credentialId now =>
    apply guarded_aside
    intro user
    split <;> exact .refl _
  | resumeAssertion call verified => exact .aside (resumeAssertion_sameCore o call verified)
  | listPasskeys => exact guarded_aside fun _ => .refl _
  | removePasskey id actor =>
    apply guarded_aside
    intro user
    dsimp only
    split <;> exact ⟨rfl, rfl, rfl, rfl, rfl⟩
  | renamePasskey id name => exact guarded_aside fun _ => ⟨rfl, rfl, rfl, rfl, rfl⟩
  | addIdentity identity now =>
    apply guarded_aside
    intro user
    split_ifs
    · exact .refl _
    · split
      · exact .refl _
      next t ht =>
        exact insertIdentity_sameCore ht
  | touchIdentity issuer subject claims now =>
    exact guarded_aside fun _ => ⟨rfl, rfl, rfl, rfl, rfl⟩
  | listIdentities => exact guarded_aside fun _ => .refl _
  | removeIdentity id actor =>
    apply guarded_aside
    intro user
    dsimp only
    split <;> exact ⟨rfl, rfl, rfl, rfl, rfl⟩
  | updateProfile patch now => exact setUser_changes fun user _ => ⟨user, rfl, rfl, rfl⟩

end TinyOidc.User
