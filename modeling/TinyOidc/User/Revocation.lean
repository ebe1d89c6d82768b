import TinyOidc.User.Lifecycle
import TinyOidc.User.Commits

/-! Revocations are final: what `revokeSession`, `revokeAll` and `setDisabled` cover is not
used again in the run. -/
namespace TinyOidc.User
open RowTable

/-- The sessions, by id, that a committed revocation covers. -/
def CoversSession (e : CallEvent) (sid : String) : Prop :=
  match e.input, e.reply with
  | .revokeSession sid' _ _, .revokedSession (.ok _) => sid' = sid
  | .revokeAll _ _, .revokedSessions (.ok _) => True
  | .setDisabled (some _) _, .disabled (.ok _) => True
  | _, _ => False

/-- The families a committed revocation covers: those bound to the session, or all. -/
def CoversFamily (e : CallEvent) (f : FamilyRow) : Prop :=
  match e.input, e.reply with
  | .revokeSession sid _ _, .revokedSession (.ok _) => f.sid = some sid
  | .revokeAll _ _, .revokedSessions (.ok _) => True
  | .setDisabled (some _) _, .disabled (.ok _) => True
  | _, _ => False

/-! ### What a revocation leaves -/

/-- Ending sessions one by one leaves each row revoked that was named or revoked. -/
theorem mem_revokeEach {now : ℤ} {reason : String} {sids : List String} :
    ∀ {t : Tables} {s : SessionRow}, s ∈ (Tables.revokeEach now reason t sids).1.sessions.rows →
      ∃ g ∈ t.sessions.rows, g.sid = s.sid ∧ (s = g ∨ s.revokedAt.isSome) ∧
        (g.sid ∈ sids ∨ g.revokedAt.isSome → s.revokedAt.isSome) := by
  induction sids with
  | nil =>
    intro t s hs
    exact ⟨s, hs, rfl, .inl rfl, by simp⟩
  | cons sid sids ih =>
    intro t s hs
    obtain ⟨g, hg, hgs, hsame, hr⟩ := ih hs
    obtain ⟨g', hg', hgs', hsame', hr'⟩ := mem_revokeSessionsWhere (t := t) hg
    refine ⟨g', hg', hgs'.trans hgs, ?_, ?_⟩
    · rcases hsame' with rfl | hrev
      · exact hsame
      · exact .inr (hr (.inr hrev))
    rintro (hm | hrev)
    · rcases List.mem_cons.mp hm with rfl | hm
      · exact hr (.inr (hr' (.inl (by simp))))
      · exact hr (.inl (hgs' ▸ hm))
    · exact hr (.inr (hr' (.inr hrev)))

theorem revokeEach_unrevokedSids (t : Tables) (now : ℤ) (reason : String) :
    ∀ s ∈ (Tables.revokeEach now reason t t.unrevokedSids).1.sessions.rows,
      s.revokedAt.isSome := by
  intro s hs
  obtain ⟨g, hg, _, _, hr⟩ := mem_revokeEach hs
  cases hrev : g.revokedAt with
  | some _ => exact hr (.inr (by simp [hrev]))
  | none =>
    refine hr (.inl (List.mem_map.mpr ⟨g, List.mem_filter.mpr ⟨hg, by simp [hrev]⟩, rfl⟩))

/-- Nothing is left unrevoked. -/
structure AllDead (t : Tables) : Prop where
  sessions : ∀ s ∈ t.sessions.rows, s.revokedAt.isSome
  families : ∀ f ∈ t.refreshFamilies.rows, f.revokedAt.isSome

theorem allDead_revokeEverything (t : Tables) (now : ℤ) (reason : String) :
    AllDead ((Tables.revokeEach now reason t t.unrevokedSids).1.revokeFamiliesWhere (fun _ => true)
      now reason) where
  sessions := revokeEach_unrevokedSids t now reason
  families f hf := by
    obtain ⟨_, _, _, hr⟩ := mem_revokeFamiliesWhere hf
    exact hr (.inl rfl)

theorem revokeAll_allDead {o : UserObject} {now : ℤ} {reason : String} {a : List RevokedSession}
    (h : (o.revokeAll now reason).2 = .ok a) : AllDead (o.revokeAll now reason).1.tables := by
  generalize hx : o.revokeAll now reason = x at h ⊢
  obtain ⟨o', r⟩ := x
  obtain ⟨_, err, rfl⟩ | ⟨user, _, hb⟩ := guarded_cases hx
  · cases h
  · cases hb
    exact allDead_revokeEverything o.tables now reason

theorem setDisabled_allDead {o : UserObject} {disabledAt now : ℤ}
    {a : UserProfile × List RevokedSession} (h : (o.setDisabled (some disabledAt) now).2 = .ok a) :
    AllDead (o.setDisabled (some disabledAt) now).1.tables := by
  generalize hx : o.setDisabled (some disabledAt) now = x at h ⊢
  obtain ⟨o', r⟩ := x
  obtain ⟨_, err, rfl⟩ | ⟨user, _, hb⟩ := guarded_cases hx
  · cases h
  · cases hb
    exact allDead_revokeEverything _ now "disabled"

theorem revokeSession_dead {o : UserObject} {sid : String} {now : ℤ} {reason : String}
    {a : Option RevokedSession} (h : (o.revokeSession sid now reason).2 = .ok a) :
    SessionDead sid (o.revokeSession sid now reason).1.tables := by
  generalize hx : o.revokeSession sid now reason = x at h ⊢
  obtain ⟨o', r⟩ := x
  obtain ⟨_, err, rfl⟩ | ⟨user, _, hb⟩ := guarded_cases hx
  · cases h
  revert hb
  generalize hbody : (fun t : Tables => _) = body
  intro hb
  obtain ⟨t, r', ht, hp⟩ | ⟨err, _, hp⟩ := purging_cases o now purgeGraceSeconds Outcome.thrown body
  · rw [hp] at hb
    cases hb
    subst hbody
    dsimp only at ht
    split at ht
    next hfind =>
      cases ht
      intro s hs hsid
      exact absurd hsid (Table.find_eq_none.mp hfind s hs)
    next row hfind =>
      obtain ⟨hm, hk⟩ := Table.find_eq_some.mp hfind
      rcases ite_eq_iff.mp ht with ⟨hrev, ht⟩ | ⟨_, ht⟩
      · cases ht
        intro s hs hsid
        rwa [Table.eq_of_key_eq hs hm (hsid.trans hk.symm)]
      · cases ht
        exact sessionDead_revokeSessionRows _ sid now reason
  · rw [hp] at hb
    cases hb
    cases h

/-! ### The rest of the run -/

section Rest
variable {sha256 : String → Bytes} {earlier later : List Call}

/-- A dead session is not used again. -/
theorem sessionUsed_ne_of_dead {sid : String} (hf : Fresh (history sha256 (later ++ earlier)))
    (hs : sid ∈ (history sha256 earlier).filterMap sessionCreated)
    (hd : SessionDead sid (after sha256 earlier).tables) {e : CallEvent}
    (he : e ∈ Machine.events (UserObject.call sha256) (after sha256 earlier) later) :
    sessionUsed e ≠ some sid := by
  obtain ⟨o, c, rfl, hdead⟩ := before_rest (P := fun o => SessionDead sid o.tables)
    (fun o c past hsub hfresh h => h.step (call_evolves sha256 o c).sessions
      (ne_of_nodup hfresh.sessions hsub hs)) hf hd he
  intro hused
  obtain ⟨s, hm, hk, hu⟩ := sessionUsed_unrevoked hused
  have hrev := hdead s hm hk
  rw [hu] at hrev
  cases hrev

/-- A dead family is not rotated again. -/
theorem tokenRedeemed_ne_of_dead {id : String} (hf : Fresh (history sha256 (later ++ earlier)))
    (hs : id ∈ (history sha256 earlier).filterMap familyOpened)
    (hd : FamilyDead id (after sha256 earlier).tables) {e : CallEvent}
    (he : e ∈ Machine.events (UserObject.call sha256) (after sha256 earlier) later) (x : Bytes) :
    tokenRedeemed e ≠ some (id, x) := by
  obtain ⟨o, c, rfl, hdead⟩ := before_rest (P := fun o => FamilyDead id o.tables)
    (fun o c past hsub hfresh h => h.step (call_evolves sha256 o c).families
      (ne_of_nodup hfresh.families hsub hs)) hf hd he
  intro hred
  obtain ⟨input, user, family, token, rfl, _, hrot⟩ := tokenRedeemed_commit hred
  have hp := hrot.presented
  have hrev := hdead family (purgedTables_families_subset hp.family_mem) hp.family_id
  rw [hp.unrevoked] at hrev
  cases hrev

/-- A session and the rows that name it, once it is dead. -/
structure BoundDead (sid id : String) (t : Tables) : Prop where
  session : SessionDead sid t
  family : ∀ f ∈ t.refreshFamilies.rows, f.id = id → f.sid = some sid

theorem BoundDead.step {e : CallEvent} {sid id : String} {t t' : Tables} (h : BoundDead sid id t)
    (he : StepEvolves e t t') (hs : sessionCreated e ≠ some sid) (hi : familyOpened e ≠ some id) :
    BoundDead sid id t' where
  session := h.session.step he.sessions hs
  family := he.families.forall (fun _ _ hl hp hk => hl.sid.trans (hp (hl.id ▸ hk)))
    (fun _ hn hk => absurd (hk ▸ hn.1) hi) h.family

/-- A family bound to a dead session is not rotated again. -/
theorem tokenRedeemed_ne_of_bound {sid id : String}
    (hf : Fresh (history sha256 (later ++ earlier)))
    (hs : sid ∈ (history sha256 earlier).filterMap sessionCreated)
    (hi : id ∈ (history sha256 earlier).filterMap familyOpened)
    (hd : BoundDead sid id (after sha256 earlier).tables) {e : CallEvent}
    (he : e ∈ Machine.events (UserObject.call sha256) (after sha256 earlier) later) (x : Bytes) :
    tokenRedeemed e ≠ some (id, x) := by
  obtain ⟨o, c, rfl, hdead⟩ := before_rest (P := fun o => BoundDead sid id o.tables)
    (fun o c past hsub hfresh h => h.step (call_evolves sha256 o c)
      (ne_of_nodup hfresh.sessions hsub hs) (ne_of_nodup hfresh.families hsub hi)) hf hd he
  intro hred
  obtain ⟨input, user, family, token, rfl, _, hrot⟩ := tokenRedeemed_commit hred
  have hp := hrot.presented
  have hsid := hdead.family family (purgedTables_families_subset hp.family_mem) hp.family_id
  obtain ⟨s, hm, hk, hl⟩ := boundSessionLive_session hrot.bound hsid
  have hrev := hdead.session s (purgedTables_sessions_subset hm) hk
  rw [hl.1] at hrev
  cases hrev

/-- Codes carry no revocation mark: they die with their session. -/
structure CodeDead (sid : String) (secretHash : Bytes) (t : Tables) : Prop where
  session : SessionDead sid t
  code : ∀ c ∈ t.authCodes.rows, c.secretHash = secretHash → c.sid = sid

theorem CodeDead.step {e : CallEvent} {sid : String} {x : Bytes} {t t' : Tables}
    (h : CodeDead sid x t) (he : StepEvolves e t t') (hs : sessionCreated e ≠ some sid)
    (hi : codeIssued e ≠ some x) : CodeDead sid x t' where
  session := h.session.step he.sessions hs
  code := he.codes.forall
    (fun c c' hl hp hk => by
      rw [hl.row] at hk ⊢
      exact hp hk)
    (fun _ hn hk => absurd (hk ▸ hn) hi) h.code

theorem codeExchanged_ne_of_dead {sid : String} {x : Bytes}
    (hf : Fresh (history sha256 (later ++ earlier)))
    (hs : sid ∈ (history sha256 earlier).filterMap sessionCreated)
    (hi : x ∈ (history sha256 earlier).filterMap codeIssued)
    (hd : CodeDead sid x (after sha256 earlier).tables) {e : CallEvent}
    (he : e ∈ Machine.events (UserObject.call sha256) (after sha256 earlier) later) :
    codeExchanged e ≠ some x := by
  obtain ⟨o, c, rfl, hdead⟩ := before_rest (P := fun o => CodeDead sid x o.tables)
    (fun o c past hsub hfresh h => h.step (call_evolves sha256 o c)
      (ne_of_nodup hfresh.sessions hsub hs) (ne_of_nodup hfresh.codes hsub hi)) hf hd he
  intro hex
  obtain ⟨input, hin, hk⟩ := Option.map_eq_some_iff.mp hex
  obtain ⟨user, challenge, code, session, _, hx, _, _⟩ := exchangeSucceeded_commit hin
  have hsid := hdead.code code (purgedTables_codes_subset hx.code_mem) (hx.secret.trans hk)
  have hrev := hdead.session session (purgedTables_sessions_subset hx.session_mem)
    (hx.session_sid.trans hsid)
  rw [hx.session_unrevoked] at hrev
  cases hrev

end Rest

/-! ### The revocations -/

/-- A covered session is dead once the revocation commits. -/
theorem CoversSession.dead {sha256 : String → Bytes} {o : UserObject} {c : Call} {sid : String}
    (h : CoversSession (Machine.event (UserObject.call sha256) o c) sid) :
    SessionDead sid (o.call sha256 c).1.tables := by
  unfold CoversSession at h
  split at h
  next sid' now reason a hc hr =>
    cases hc
    subst h
    exact revokeSession_dead (Reply.revokedSession.inj hr)
  next now reason a hc hr =>
    cases hc
    exact fun s hs _ => (revokeAll_allDead (Reply.revokedSessions.inj hr)).sessions s hs
  next disabledAt now a hc hr =>
    cases hc
    exact fun s hs _ => (setDisabled_allDead (Reply.disabled.inj hr)).sessions s hs
  · exact h.elim

/-- A covered family is dead, or bound to a session that is. -/
theorem CoversFamily.dead {sha256 : String → Bytes} {o : UserObject} {c : Call} {f : FamilyRow}
    (h : CoversFamily (Machine.event (UserObject.call sha256) o c) f) :
    FamilyDead f.id (o.call sha256 c).1.tables ∨
      ∃ sid, f.sid = some sid ∧ SessionDead sid (o.call sha256 c).1.tables := by
  unfold CoversFamily at h
  split at h
  next sid now reason a hc hr =>
    cases hc
    exact .inr ⟨sid, h, revokeSession_dead (Reply.revokedSession.inj hr)⟩
  next now reason a hc hr =>
    cases hc
    exact .inl fun g hg _ => (revokeAll_allDead (Reply.revokedSessions.inj hr)).families g hg
  next disabledAt now a hc hr =>
    cases hc
    exact .inl fun g hg _ => (setDisabled_allDead (Reply.disabled.inj hr)).families g hg
  · exact h.elim

/-- Revocation is final: of the sessions, families and codes stored when a revocation commits,
the ones it covers are not used, rotated or exchanged by any later call of the run. -/
theorem revocation_is_final (sha256 : String → Bytes) (later : List Call) (c : Call)
    (earlier : List Call) (hf : Fresh (history sha256 (later ++ c :: earlier))) :
    ∀ e ∈ Machine.events (UserObject.call sha256) (after sha256 (c :: earlier)) later,
      (∀ s ∈ (after sha256 earlier).tables.sessions.rows,
        CoversSession (Machine.event (UserObject.call sha256) (after sha256 earlier) c) s.sid →
        sessionUsed e ≠ some s.sid) ∧
      (∀ f ∈ (after sha256 earlier).tables.refreshFamilies.rows,
        CoversFamily (Machine.event (UserObject.call sha256) (after sha256 earlier) c) f →
        ∀ x, tokenRedeemed e ≠ some (f.id, x)) ∧
      ∀ k ∈ (after sha256 earlier).tables.authCodes.rows,
        CoversSession (Machine.event (UserObject.call sha256) (after sha256 earlier) c) k.sid →
        codeExchanged e ≠ some k.secretHash := by
  intro e he
  have hst := stored_after sha256 earlier
  have hsid := sidsIn_after sha256 earlier
  have hev := call_evolves sha256 (after sha256 earlier) c
  have hfc : Fresh (history sha256 (c :: earlier)) := fresh_of_append hf
  refine ⟨?_, ?_, ?_⟩
  · intro s hs hcov
    exact sessionUsed_ne_of_dead hf (mem_filterMap_cons.mpr (.inr (hsid.sessions s hs)))
      hcov.dead he
  · intro f hm hcov x
    have hid := hst.families f hm
    rcases hcov.dead with hd | ⟨sid, hs, hd⟩
    · exact tokenRedeemed_ne_of_dead hf (mem_filterMap_cons.mpr (.inr hid)) hd he x
    · refine tokenRedeemed_ne_of_bound hf
        (mem_filterMap_cons.mpr (.inr (hsid.families f hm sid hs)))
        (mem_filterMap_cons.mpr (.inr hid)) ⟨hd, ?_⟩ he x
      refine hev.families.forall (fun _ _ hl hp hk => hl.sid.trans (hp (hl.id ▸ hk))) ?_ ?_
      · intro g hn hk
        exact absurd (hk ▸ hn.1) (ne_of_nodup hfc.families (fun _ h => h) hid)
      · intro g hg hk
        rw [Table.eq_of_key_eq hg hm hk]
        exact hs
  · intro k hm hcov
    have hk := hst.codes k hm
    refine codeExchanged_ne_of_dead hf (mem_filterMap_cons.mpr (.inr (hsid.codes k hm)))
      (mem_filterMap_cons.mpr (.inr hk)) ⟨hcov.dead, ?_⟩ he
    refine hev.codes.forall (fun _ _ hl hp hk => by rw [hl.row] at hk ⊢; exact hp hk) ?_ ?_
    · intro g hn hg
      exact absurd (hg ▸ hn) (ne_of_nodup hfc.codes (fun _ h => h) hk)
    · intro g hg hgk
      rw [Table.eq_of_key_eq hg hm hgk]

/-- A session ended while a code and a family of it are stored: the code is then refused. -/
theorem revocation_is_final_sample :
    Fresh (history Sample.sha256 ([Sample.exchange [3] 20 none] ++
      .revokeSession "s1" 15 "logout" ::
        [Sample.login "s1" [2] 0 (some (Sample.code [3])), Sample.init])) ∧
    codeExchanged (Machine.event (UserObject.call Sample.sha256)
      (after Sample.sha256 [.revokeSession "s1" 15 "logout",
        Sample.login "s1" [2] 0 (some (Sample.code [3])), Sample.init])
      (Sample.exchange [3] 20 none)) ≠ some [3] := by
  have hf : Fresh (history Sample.sha256 ([Sample.exchange [3] 20 none] ++
      .revokeSession "s1" 15 "logout" ::
        [Sample.login "s1" [2] 0 (some (Sample.code [3])), Sample.init])) := by decide
  obtain ⟨_, _, hcode⟩ := revocation_is_final Sample.sha256 _ _ _ hf _ (List.mem_singleton.mpr rfl)
  refine ⟨hf, hcode
    { secretHash := [3], clientId := "app", redirectUri := "https://app.test/cb"
      scope := ["openid", "offline_access"], nonce := none, codeChallenge := none, sid := "s1"
      authTime := 0, amr := ["user", "hwk"], acr := "urn:tinyoidc:acr:passkey", createdAt := 0
      expiresAt := 60, consumedAt := none } (by decide) ?_⟩
  exact (rfl : "s1" = "s1")

end TinyOidc.User
