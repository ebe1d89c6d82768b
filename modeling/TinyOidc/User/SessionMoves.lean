import TinyOidc.User.Commits
import TinyOidc.User.Origins

/-! What a step does to the sessions and to the clients recorded under them. -/
namespace TinyOidc.User
open RowTable

/-- A step that ends sessions of `ended` only, creates at most the session `created` and records
at most the client `noted`. A client leaves with its session. -/
structure SessionMove (noted : Option (String × String)) (created : Option String)
    (ended : String → Prop) (t t' : Tables) : Prop where
  origin : ∀ s ∈ t'.sessions.rows, created = some s.sid ∨ ∃ old ∈ t.sessions.rows, old.sid = s.sid
  ends : ∀ s ∈ t'.sessions.rows, s.revokedAt.isSome →
    ended s.sid ∨ ∃ old ∈ t.sessions.rows, old.sid = s.sid ∧ old.revokedAt.isSome
  notes : ∀ c ∈ t'.sessionClients.rows,
    noted = some (c.sid, c.clientId) ∨ c ∈ t.sessionClients.rows
  keeps : ∀ c ∈ t.sessionClients.rows, c ∈ t'.sessionClients.rows ∨
    ∀ s ∈ t'.sessions.rows, s.sid = c.sid → created = some s.sid

namespace SessionMove
variable {noted : Option (String × String)} {created : Option String} {ended : String → Prop}
  {t t' t'' : Tables}

theorem of_eq (hsessions : t'.sessions = t.sessions)
    (hclients : t'.sessionClients = t.sessionClients) : SessionMove noted created ended t t' where
  origin s hs := .inr ⟨s, hsessions ▸ hs, rfl⟩
  ends s hs hr := .inr ⟨s, hsessions ▸ hs, rfl, hr⟩
  notes _ hc := .inr (hclients ▸ hc)
  keeps _ hc := .inl (hclients ▸ hc)

theorem refl (t : Tables) : SessionMove noted created ended t t := of_eq rfl rfl

theorem trans (h : SessionMove noted created ended t t')
    (h' : SessionMove noted created ended t' t'') : SessionMove noted created ended t t'' where
  origin s hs := by
    rcases h'.origin s hs with hnew | ⟨old, hold, hsid⟩
    · exact .inl hnew
    · rcases h.origin old hold with hnew | ⟨older, holder, hsid'⟩
      · exact .inl (hsid ▸ hnew)
      · exact .inr ⟨older, holder, hsid'.trans hsid⟩
  ends s hs hr := by
    rcases h'.ends s hs hr with hended | ⟨old, hold, hsid, hr'⟩
    · exact .inl hended
    · rcases h.ends old hold hr' with hended | ⟨older, holder, hsid', hr''⟩
      · exact .inl (hsid ▸ hended)
      · exact .inr ⟨older, holder, hsid'.trans hsid, hr''⟩
  notes c hc := by
    rcases h'.notes c hc with hnew | hold
    · exact .inl hnew
    · exact h.notes c hold
  keeps c hc := by
    rcases h.keeps c hc with hkept | hgone
    · exact h'.keeps c hkept
    · refine .inr fun s hs hsid => ?_
      rcases h'.origin s hs with hnew | ⟨old, hold, hsid'⟩
      · exact hnew
      · have hcreated := hgone old hold (hsid'.trans hsid)
        rwa [hsid'] at hcreated

/-- A deletion of sessions takes their clients along. -/
theorem deleteSessions (t : Tables) (p : SessionRow → Bool) :
    SessionMove noted created ended t (t.deleteSessions p) where
  origin s hs := .inr ⟨s, (Table.mem_deleteWhere.mp hs).1, rfl⟩
  ends s hs hr := .inr ⟨s, (Table.mem_deleteWhere.mp hs).1, rfl, hr⟩
  notes c hc := .inr (Table.mem_deleteWhere.mp hc).1
  keeps c hc := by
    by_cases hgone : t.sessions.rows.any (fun s => p s && s.sid == c.sid) = true
    · refine .inr fun s hs hsid => ?_
      obtain ⟨hm, hkept⟩ := Table.mem_deleteWhere.mp hs
      obtain ⟨r, hr, hp⟩ := List.any_eq_true.mp hgone
      rw [Bool.and_eq_true, beq_iff_eq] at hp
      have heq : r = s := Table.eq_of_key_eq hr hm (hp.2.trans hsid.symm)
      rw [← heq, hp.1] at hkept
      cases hkept
    · exact .inl (Table.mem_deleteWhere.mpr ⟨hc, by simpa using hgone⟩)

theorem purge (t : Tables) (now w : ℤ) : SessionMove noted created ended t (t.purge now w) := by
  let swept := ((t.purgeCodes now).purgeTokens (now - w)).deleteFamilies
    (Tables.familyGone (now - purgeGraceSeconds))
  have hswept : SessionMove noted created ended t swept := of_eq rfl rfl
  have hsessions : SessionMove noted created ended swept
      (swept.deleteSessions (Tables.sessionGone (now - purgeGraceSeconds))) :=
    deleteSessions swept _
  exact hswept.trans (hsessions.trans (of_eq rfl rfl))

theorem purgeIfDue (o : UserObject) (now w : ℤ) :
    SessionMove noted created ended o.tables (o.purgeIfDue now w).tables := by
  unfold UserObject.purgeIfDue
  split
  · exact refl _
  · exact purge _ now w

/-- An update of session rows that leaves their ids and revocations. -/
theorem updateSessions {p : SessionRow → Bool} {f : SessionRow → SessionRow}
    (hsid : ∀ s, (f s).sid = s.sid) (hrevoked : ∀ s, (f s).revokedAt = s.revokedAt)
    (hsessions : t'.sessions = t.sessions.updateWhere p f hsid)
    (hclients : t'.sessionClients = t.sessionClients) :
    SessionMove noted created ended t t' where
  origin s hs := by
    rw [hsessions] at hs
    obtain ⟨old, hold, ⟨-, heq⟩ | ⟨-, rfl⟩⟩ := Table.exists_of_mem_update hs
    · exact .inr ⟨old, hold, heq ▸ rfl⟩
    · exact .inr ⟨old, hold, (hsid old).symm⟩
  ends s hs hr := by
    rw [hsessions] at hs
    obtain ⟨old, hold, ⟨-, heq⟩ | ⟨-, rfl⟩⟩ := Table.exists_of_mem_update hs
    · exact .inr ⟨old, hold, heq ▸ rfl, heq ▸ hr⟩
    · exact .inr ⟨old, hold, (hsid old).symm, hrevoked old ▸ hr⟩
  notes c hc := .inr (hclients ▸ hc)
  keeps c hc := .inl (hclients ▸ hc)

theorem touchSession (t : Tables) (row : SessionRow) (now ttl : ℤ) :
    SessionMove noted created ended t (t.touchSession row now ttl) := by
  unfold Tables.touchSession
  split
  · exact refl t
  · exact updateSessions (p := (·.sid == row.sid))
      (f := fun r => { r with
        lastSeenAt := now, idleExpiresAt := min (now + ttl) row.absoluteExpiresAt })
      (fun _ => rfl) (fun _ => rfl) rfl rfl

theorem insertSession {input : NewSession} {now : ℤ} (h : t.insertSession input now = .ok t')
    (hcreated : created = some input.sid) : SessionMove noted created ended t t' := by
  obtain ⟨sessions, hinsert, rfl⟩ := insertSession_ok h
  refine ⟨fun s hs => ?_, fun s hs hr => ?_, fun c hc => .inr hc, fun c hc => .inl hc⟩
  · rcases (Table.mem_insert hinsert).mp hs with hold | rfl
    · exact .inr ⟨s, hold, rfl⟩
    · exact .inl hcreated
  · rcases (Table.mem_insert hinsert).mp hs with hold | rfl
    · exact .inr ⟨s, hold, rfl, hr⟩
    · cases hr

theorem rotateSession {existing : SessionRow} {secretHash : Bytes} {auth : AuthContext}
    {now ttl : ℤ} (h : t.rotateSession existing secretHash auth now ttl = .ok t') :
    SessionMove noted created ended t t' := by
  rw [rotateSession_ok h]
  exact updateSessions (p := (·.sid == existing.sid))
    (f := fun r => { r with
      secretHash := secretHash, authTime := auth.authTime, amr := auth.amr, acr := auth.acr
      upstream := auth.upstream, lastSeenAt := now
      idleExpiresAt := min (now + ttl) existing.absoluteExpiresAt })
    (fun _ => rfl) (fun _ => rfl) rfl rfl

/-- A code records its client under the session. -/
theorem issueCodeRows {code : CodeInput} {session : SessionRow} {now ttl : ℤ}
    (h : t.issueCodeRows code session now ttl = .ok t')
    (hnoted : noted = some (session.sid, code.clientId)) :
    SessionMove noted created ended t t' := by
  obtain ⟨codes, -, rfl⟩ := issueCodeRows_ok h
  have hnote : SessionMove noted created ended t
      (({ t with authCodes := codes }).noteClient session.sid code.clientId now) := by
    refine ⟨fun s hs => .inr ⟨s, hs, rfl⟩, fun s hs hr => .inr ⟨s, hs, rfl, hr⟩, ?_, ?_⟩
    · intro c hc
      unfold Tables.noteClient at hc
      cases hinsert : t.sessionClients.insert ⟨session.sid, code.clientId, now⟩ with
      | none =>
        simp only [hinsert, Option.getD_none] at hc
        exact .inr hc
      | some clients =>
        simp only [hinsert, Option.getD_some] at hc
        rcases (Table.mem_insert hinsert).mp hc with hold | rfl
        · exact .inr hold
        · exact .inl hnoted
    · intro c hc
      refine .inl ?_
      unfold Tables.noteClient
      cases hinsert : t.sessionClients.insert ⟨session.sid, code.clientId, now⟩ with
      | none => simpa only [hinsert, Option.getD_none] using hc
      | some clients => exact (Table.mem_insert hinsert).mpr (.inl hc)
  exact hnote.trans (touchSession _ session now ttl)

theorem revokeSessionRows (t : Tables) {sid : String} (now : ℤ) (reason : String)
    (hended : ended sid) :
    SessionMove noted created ended t (t.revokeSessionRows sid now reason).1 := by
  refine ⟨fun s hs => ?_, fun s hs hr => ?_, fun c hc => .inr hc, fun c hc => .inl hc⟩
  · obtain ⟨old, hold, hsid, -⟩ := mem_revokeSessionsWhere (t := t) hs
    exact .inr ⟨old, hold, hsid⟩
  · obtain ⟨old, hold, ⟨-, heq⟩ | ⟨hp, rfl⟩⟩ := Table.exists_of_mem_update hs
    · exact .inr ⟨old, hold, heq ▸ rfl, heq ▸ hr⟩
    · rw [Bool.and_eq_true, beq_iff_eq] at hp
      have hsid : old.sid = sid := hp.1
      exact .inl (hsid.symm ▸ hended)

theorem revokeEach (now : ℤ) (reason : String) (t : Tables) {sids : List String}
    (hended : ∀ sid ∈ sids, ended sid) :
    SessionMove noted created ended t (Tables.revokeEach now reason t sids).1 := by
  induction sids generalizing t with
  | nil => exact refl t
  | cons sid sids ih =>
    exact (revokeSessionRows t now reason (hended sid List.mem_cons_self)).trans
      (ih _ fun sid' hsid' => hended sid' (List.mem_cons_of_mem _ hsid'))

end SessionMove

/-! ### The methods -/

section Methods
variable {noted : Option (String × String)} {created : Option String} {ended : String → Prop}
  {t t' : Tables} {o o' : UserObject}

theorem guarded_move {α : Type} {fail : UserDoError → α} {body : UserRow → UserObject × α}
    (h : ∀ user, o.guarded fail body = body user →
      SessionMove noted created ended o.tables (body user).1.tables) :
    SessionMove noted created ended o.tables (o.guarded fail body).1.tables := by
  generalize hx : o.guarded fail body = x at h ⊢
  obtain ⟨o', r⟩ := x
  obtain ⟨rfl, -⟩ | ⟨user, -, hbody⟩ := guarded_cases hx
  · exact .refl _
  · have hmove := h user hbody.symm
    rwa [hbody] at hmove

theorem purging_move {α : Type} {now w : ℤ} {thrown : SqlError → α}
    {body : Tables → Except SqlError (Tables × α)}
    (h : ∀ t t' a, body t = .ok (t', a) → (o.purging now w thrown body).2 = a →
      SessionMove noted created ended t t') :
    SessionMove noted created ended o.tables (o.purging now w thrown body).1.tables := by
  rcases purging_cases o now w thrown body with ⟨t, a, hbody, heq⟩ | ⟨err, -, heq⟩
  · have hmove := h _ t a hbody (by rw [heq])
    rw [heq]
    exact (SessionMove.purgeIfDue o now w).trans hmove
  · rw [heq]
    exact .refl _

theorem insertIdentity_clients {t t' : Tables} {identity : NewIdentity} {now : ℤ}
    (h : UserObject.insertIdentity t identity now = .ok t') :
    t'.sessionClients = t.sessionClients := by
  unfold UserObject.insertIdentity at h
  rcases ite_eq_iff.mp h with ⟨-, h⟩ | ⟨-, h⟩
  · cases h
  · split at h
    · cases h
    · cases h
      rfl

theorem insertIdentities_clients {now : ℤ} {identities : List NewIdentity} :
    ∀ {t t' : Tables}, UserObject.insertIdentities now t identities = .ok t' →
      t'.sessionClients = t.sessionClients := by
  induction identities with
  | nil =>
    intro t t' h
    cases h
    rfl
  | cons identity rest ih =>
    intro t t' h
    unfold UserObject.insertIdentities at h
    split at h
    · cases h
    · next inserted hinserted => exact (ih h).trans (insertIdentity_clients hinserted)

theorem init_move (o : UserObject) (p : InitProfile) (now : ℤ) (identities : List NewIdentity) :
    SessionMove noted created ended o.tables (o.init p now identities).1.tables := by
  unfold UserObject.init
  split
  · exact .refl _
  split
  · split <;> exact .refl _
  · split
    · exact .refl _
    · next inserted hinserted =>
      have hsame : SessionMove noted created ended
          { o.tables with user := some (UserObject.newUserRow p now) } inserted :=
        .of_eq (insertIdentities_sameCore hinserted).sessions (insertIdentities_clients hinserted)
      have hrow : SessionMove noted created ended o.tables
          { o.tables with user := some (UserObject.newUserRow p now) } := .of_eq rfl rfl
      exact hrow.trans hsame

theorem grantFor_clients (t : Tables) (client : ClientRef) :
    (t.grantFor client).1.sessionClients = t.sessionClients := by
  unfold Tables.grantFor
  split
  · rfl
  · split <;> rfl

theorem consentCovered_move (t : Tables) (input : AuthorizeWithSessionInput) :
    SessionMove noted created ended t (UserObject.consentCovered t input).1 := by
  refine .of_eq (consentCovered_sameCore t input).sessions ?_
  unfold UserObject.consentCovered
  split
  · rfl
  · exact grantFor_clients t input.client

theorem authorizeWithSession_move {input : AuthorizeWithSessionInput} {r : Outcome Authorized}
    (h : o.authorizeWithSession input = (o', r))
    (hnoted : ∀ a, r = .ok a → a.outcome = .authorized →
      noted = input.code.map fun code => (input.sid, code.clientId)) :
    SessionMove noted created ended o.tables o'.tables := by
  unfold UserObject.authorizeWithSession at h
  obtain ⟨rfl, -⟩ | ⟨user, -, h⟩ := guarded_cases h
  · exact .refl _
  split at h
  · cases h
    exact .refl _
  next session hlive =>
    have hsid := (liveSession_eq_some hlive).2.1
    rcases ite_eq_iff.mp h with ⟨-, h⟩ | ⟨-, h⟩
    · cases h
      exact .refl _
    rcases ite_eq_iff.mp h with ⟨-, h⟩ | ⟨-, h⟩
    · cases h
      exact .refl _
    rcases ite_eq_iff.mp h with ⟨-, h⟩ | ⟨-, h⟩
    · cases h
      exact .refl _
    rcases ite_eq_iff.mp h with ⟨-, h⟩ | ⟨-, h⟩
    · cases h
      exact .refl _
    rcases ite_eq_iff.mp h with ⟨-, h⟩ | ⟨-, h⟩
    · cases h
      exact consentCovered_move o.tables input
    split at h
    · cases h
      exact consentCovered_move o.tables input
    next code hcode =>
      dsimp only at h
      split at h
      · cases h
        exact .refl _
      next issued hissued =>
        cases h
        have hn : noted = some (session.sid, code.clientId) := by
          rw [hnoted _ rfl rfl, hcode, hsid]
          rfl
        have hpurge : SessionMove noted created ended (UserObject.consentCovered o.tables input).1
            ((o.store (UserObject.consentCovered o.tables input).1).purgeIfDue input.now
              purgeGraceSeconds).tables :=
          SessionMove.purgeIfDue (o.store (UserObject.consentCovered o.tables input).1) _ _
        exact (consentCovered_move o.tables input).trans
          (hpurge.trans (.issueCodeRows hissued hn))

theorem finishLogin_move {user : UserRow} {sid : String} {input : FinalizeLoginInput}
    {r : Outcome Finalized} (h : UserObject.finishLogin t user sid input = .ok (t', r))
    (hnoted : ∀ f, r = .ok f → noted = input.code.map fun code => (f.sid, code.clientId)) :
    SessionMove noted created ended t t' := by
  unfold UserObject.finishLogin at h
  split at h
  · cases h
    exact .refl t
  next session hfind =>
    obtain ⟨-, hsid⟩ := Table.find_eq_some.mp hfind
    split at h
    · cases h
    next issued hissued =>
      cases h
      have hn := hnoted _ rfl
      cases hcode : input.code with
      | none =>
        rw [hcode] at hissued
        cases hissued
        exact .refl t
      | some code =>
        rw [hcode] at hissued hn
        exact .issueCodeRows hissued (hsid ▸ hn)

theorem loginTransaction_move {user : UserRow} {input : FinalizeLoginInput}
    {r : Outcome Finalized} (h : UserObject.loginTransaction t user input = .ok (t', r))
    (hnoted : ∀ f, r = .ok f → noted = input.code.map fun code => (f.sid, code.clientId))
    (hcreated : ∀ f session, r = .ok f → input.session = .create session →
      created = some session.sid) :
    SessionMove noted created ended t t' := by
  unfold UserObject.loginTransaction at h
  split at h
  next session hsession =>
    split at h
    · cases h
    next inserted hinserted =>
      obtain ⟨sessions, hsessions, heq⟩ := insertSession_ok hinserted
      have hstored : ∃ s ∈ inserted.sessions.rows, s.sid = session.sid := by
        rw [heq]
        exact ⟨_, (Table.mem_insert hsessions).mpr (.inr rfl), rfl⟩
      obtain ⟨f, rfl⟩ := finishLogin_succeeds h hstored
      exact (SessionMove.insertSession hinserted (hcreated f session rfl hsession)).trans
        (finishLogin_move h hnoted)
  next sid secretHash auth hsession =>
    split at h
    · cases h
      exact .refl t
    next existing hfind =>
      rcases ite_eq_iff.mp h with ⟨-, h⟩ | ⟨-, h⟩
      · cases h
        exact .refl t
      split at h
      · cases h
      next rotated hrotated =>
        exact (SessionMove.rotateSession hrotated).trans (finishLogin_move h hnoted)

/-- A rotation ends the session of a family whose consumed token it was given, and no other. -/
theorem rotateTransaction_move {user : UserRow} {input : RotateRefreshInput} {r : RotateOutcome}
    (h : t.rotateTransaction user input = .ok (t', r))
    (hended : ∀ family ∈ t.refreshFamilies.rows, family.id = input.familyId →
      ∀ err clients, r = .fail err true clients → ∀ sid, family.sid = some sid → ended sid) :
    SessionMove noted created ended t t' := by
  obtain ⟨rfl, -⟩ | ⟨-, rfl, -⟩ | ⟨family, token, hpresented, -, hreused⟩ |
    ⟨family, token, scope, hrotated, -⟩ := rotateTransaction_cases h
  · exact .refl _
  · exact .of_eq rfl rfl
  · obtain ⟨clients, hreply⟩ := revokeReused_reply t family input.now
    have hr : r = .fail .invalidGrant true clients := by
      rw [← hreply, hreused]
    have hends := hended family hpresented.family_mem hpresented.family_id _ _ hr
    unfold Tables.revokeReused at hreused
    dsimp only at hreused
    split at hreused
    · cases hreused
      exact .of_eq rfl rfl
    next sid hsid =>
      cases hreused
      have hfamily : SessionMove noted created ended t
          (t.revokeFamily family.id input.now "reuse") := .of_eq rfl rfl
      exact hfamily.trans (.revokeSessionRows _ _ _ (hends sid hsid))
  · obtain ⟨advanced, hadvanced, rfl⟩ := hrotated.written
    have hsame : SessionMove noted created ended t advanced := by
      unfold Tables.advanceFamily at hadvanced
      split at hadvanced
      · cases hadvanced
      · cases hadvanced
        exact .of_eq rfl rfl
    refine hsame.trans ?_
    unfold Tables.touchBound
    split
    · exact .refl _
    · exact .touchSession _ _ _ _

theorem exchangeTransaction_move {user : UserRow} {challenge : Option String}
    {input : ExchangeCodeInput} {r : ExchangeOutcome}
    (h : t.exchangeTransaction user challenge input = .ok (t', r)) :
    SessionMove noted created ended t t' := by
  obtain ⟨rfl, -⟩ | ⟨_, -, -, -, rfl, -⟩ | ⟨code, session, nonce, family, kind, -, hwrote, -⟩ :=
    exchangeTransaction_cases h
  · exact .refl _
  · exact .of_eq rfl rfl
  · unfold ExchangeWrote at hwrote
    split at hwrote
    · rw [hwrote]
      exact .of_eq rfl rfl
    · obtain ⟨families, tokens, -, -, heq⟩ := openFamily_ok hwrote
      rw [heq, limitFamilies_eq]
      exact .of_eq rfl rfl

theorem commitExchange_move (o : UserObject) (user : UserRow) (challenge : Option String)
    (input : ExchangeCodeInput) :
    SessionMove noted created ended o.tables (o.commitExchange user challenge input).1.tables :=
  purging_move fun _ _ _ hbody _ => exchangeTransaction_move hbody

end Methods

end TinyOidc.User
