import TinyOidc.User.Revocation

/-! Expired sessions. `liveSession` refuses a session past its idle or absolute expiry; the
rotate branch of `finalizeLogin` looks at the absolute one only, and writes a new idle expiry. -/
namespace TinyOidc.User
open RowTable

/-- The call does not use the session, nor rotates a family bound to it. -/
def Unused (e : CallEvent) (sid : String) : Prop :=
  sessionRead e ≠ some sid ∧
  ∀ f ∈ e.pre.tables.refreshFamilies.rows, f.sid = some sid → ∀ x, tokenRedeemed e ≠ some (f.id, x)

/-- Once expired at a time no later call is before, a session is not used again; and after
`revokeSessions` no session stored then is, but the excepted one. -/
def ExpiredStaysDead (sha256 : String → Bytes) (calls : List Call) : Prop :=
  (∀ later earlier time, calls = later ++ earlier →
    (∀ now ∈ later.filterMap Call.now?, time ≤ now) →
    ∀ s ∈ (after sha256 earlier).tables.sessions.rows,
      s.idleExpiresAt ≤ time ∨ s.absoluteExpiresAt ≤ time →
      ∀ e ∈ Machine.events (UserObject.call sha256) (after sha256 earlier) later, Unused e s.sid) ∧
  ∀ later except now reason earlier ended,
    calls = later ++ .revokeSessions except now reason :: earlier →
    ((after sha256 earlier).revokeSessions except now reason).2 = .ok ended →
    ∀ s ∈ (after sha256 earlier).tables.sessions.rows, except ≠ some s.sid →
      ∀ e ∈ Machine.events (UserObject.call sha256)
        (after sha256 (.revokeSessions except now reason :: earlier)) later, Unused e s.sid

/-- Every session row of the id is revoked or expired at the time. -/
def SessionExpired (time : ℤ) (sid : String) (t : Tables) : Prop :=
  ∀ s ∈ t.sessions.rows, s.sid = sid → ¬ s.live time

/-- The step is not before the time, and a session that a login finds to rotate is not yet
past its idle expiry. -/
structure Timely (time : ℤ) (e : CallEvent) : Prop where
  now : ∀ now, e.input.now? = some now → time ≤ now
  rotate : ∀ input r, RotateReached e input r → input.now < r.idleExpiresAt

theorem SessionRow.live_of_le {s : SessionRow} {time now : ℤ} (h : s.live now) (ht : time ≤ now) :
    s.live time :=
  ⟨h.1, lt_of_le_of_lt ht h.2.1, lt_of_le_of_lt ht h.2.2⟩

theorem RotateReached.now {e : CallEvent} {input : FinalizeLoginInput} {r : SessionRow}
    (h : RotateReached e input r) : e.input.now? = some input.now := by
  rw [h.call]
  rfl

theorem SessionExpired.step {e : CallEvent} {time : ℤ} {sid : String} {t t' : Tables}
    (h : SessionExpired time sid t) (he : SessionsEvolve e t t')
    (hn : sessionCreated e ≠ some sid) (ht : Timely time e) : SessionExpired time sid t' := by
  refine he.forall ?_ (fun s hnew hk => absurd (hk ▸ hnew) hn) h
  intro s s' hl hp hk hlive
  have hsid : s.sid = sid := hl.sid.symm.trans hk
  have hunrev := hl.unrevoked hlive.1
  have habs : time < s.absoluteExpiresAt := hl.absolute ▸ hlive.2.2
  rcases hl.idle with hidle | ⟨now, hnow, hlnow⟩ | ⟨input, r, hr, hrs, hri⟩
  · exact hp hsid ⟨hunrev, hidle ▸ hlive.2.1, habs⟩
  · exact hp hsid (SessionRow.live_of_le hlnow (ht.now now hnow))
  · have hlt := ht.rotate input r hr
    have hle := ht.now input.now hr.now
    exact hp hsid ⟨hunrev, by omega, habs⟩

/-- A session expired at a time is not used by a call at that time or later. -/
theorem SessionExpired.unused {sha256 : String → Bytes} {o : UserObject} {c : Call} {time : ℤ}
    {sid : String} (h : SessionExpired time sid o.tables)
    (ht : ∀ now, c.now? = some now → time ≤ now) :
    Unused (Machine.event (UserObject.call sha256) o c) sid := by
  constructor
  · intro hread
    obtain ⟨s, hm, hk, now, hnow, hl⟩ := sessionRead_live hread
    exact h s hm hk (SessionRow.live_of_le hl (ht now hnow))
  · intro f hf hsid x hred
    obtain ⟨input, user, family, token, hid, rfl, hrot⟩ := tokenRedeemed_commit hred
    have hp := hrot.presented
    have hfam : family = f :=
      Table.eq_of_key_eq (purgedTables_families_subset hp.family_mem) hf (hp.family_id.trans hid)
    obtain ⟨s, hm, hk, hl⟩ := boundSessionLive_session hrot.bound (hfam ▸ hsid)
    exact h s (purgedTables_sessions_subset hm) hk (SessionRow.live_of_le hl (ht input.now rfl))

/-- What a login may not do for expired sessions to stay dead: rotate, after its purge, an
unrevoked session past its idle expiry. -/
def RotatesOnlyLive (sha256 : String → Bytes) (calls : List Call) : Prop :=
  ∀ e ∈ history sha256 calls, ∀ input r, RotateReached e input r → input.now < r.idleExpiresAt

section Rest
variable {sha256 : String → Bytes} {later earlier : List Call} {time : ℤ}

theorem timely_of_mem (hr : RotatesOnlyLive sha256 (later ++ earlier))
    (ht : ∀ now ∈ later.filterMap Call.now?, time ≤ now) {e : CallEvent}
    (he : e ∈ Machine.events (UserObject.call sha256) (after sha256 earlier) later) :
    Timely time e := by
  constructor
  · intro now hnow
    obtain ⟨l, c, l', rfl, rfl⟩ := Machine.exists_of_mem_events _ he
    exact ht now (List.mem_filterMap.mpr ⟨c, by simp, hnow⟩)
  · refine hr e ?_
    rw [history, Machine.events_append]
    exact List.mem_append_left _ he

/-- An expired session stays unused for the rest of a run that rotates no expired one. -/
theorem unused_rest {sid : String} (hf : Fresh (history sha256 (later ++ earlier)))
    (hr : RotatesOnlyLive sha256 (later ++ earlier))
    (ht : ∀ now ∈ later.filterMap Call.now?, time ≤ now)
    (hs : sid ∈ (history sha256 earlier).filterMap sessionCreated)
    (h : SessionExpired time sid (after sha256 earlier).tables) {e : CallEvent}
    (he : e ∈ Machine.events (UserObject.call sha256) (after sha256 earlier) later) :
    Unused e sid := by
  have htime := timely_of_mem hr ht he
  obtain ⟨o, c, rfl, hexp⟩ := before_rest_of (P := fun o => SessionExpired time sid o.tables)
    (Q := Timely time)
    (fun o c past hsub hfresh hq h => h.step (call_evolves sha256 o c).sessions
      (ne_of_nodup hfresh.sessions hsub hs) hq) hf (fun e he => timely_of_mem hr ht he) h he
  exact hexp.unused htime.now

end Rest

/-- `revokeSessions` leaves no session live but the excepted one. -/
theorem revokeSessions_expired {o : UserObject} {except : Option String} {now : ℤ}
    {reason : String} {ended : List RevokedSession}
    (h : (o.revokeSessions except now reason).2 = .ok ended) {sid : String}
    (hne : except ≠ some sid) :
    SessionExpired now sid (o.revokeSessions except now reason).1.tables := by
  generalize hx : o.revokeSessions except now reason = x at h ⊢
  obtain ⟨o', r⟩ := x
  obtain ⟨_, err, rfl⟩ | ⟨user, _, hb⟩ := guarded_cases hx
  · cases h
  cases hb
  intro s hs hsid hlive
  have hunrev : ¬ s.revokedAt.isSome := by simp [hlive.1]
  obtain ⟨g, hg, _, hsame, hr⟩ := mem_revokeEach hs
  obtain rfl := hsame.resolve_right hunrev
  refine hunrev (hr (.inl (List.mem_filter.mpr ⟨List.mem_map.mpr ⟨s, ?_, rfl⟩, ?_⟩)))
  · refine (List.mem_insertionSort _).mpr (List.mem_filter.mpr ⟨hg, ?_⟩)
    simp [hlive.1, hlive.2.1, hlive.2.2]
  · rw [hsid]
    exact bne_iff_ne.mpr hne.symm

theorem le_of_clockMonotone {later earlier : List Call} {c : Call} {now : ℤ}
    (h : ClockMonotone (later ++ c :: earlier)) (hc : c.now? = some now) :
    ∀ n ∈ later.filterMap Call.now?, now ≤ n := by
  intro n hn
  unfold ClockMonotone at h
  rw [List.filterMap_append, List.filterMap_cons_some hc] at h
  exact (List.pairwise_append.mp h).2.2 n hn now (by simp)

/-- Expired sessions stay dead in every run with fresh ids and a clock that does not go back, as
long as no login rotates, after its purge, an unrevoked session past its idle expiry. -/
theorem expired_stays_dead_of_rotates_only_live (sha256 : String → Bytes) (calls : List Call)
    (hf : Fresh (history sha256 calls)) (hc : ClockMonotone calls)
    (hr : RotatesOnlyLive sha256 calls) : ExpiredStaysDead sha256 calls := by
  constructor
  · rintro later earlier time rfl ht s hs hexp e he
    refine unused_rest hf hr ht ((stored_after sha256 earlier).sessions s hs) ?_ he
    intro s' hs' hk hlive
    rw [Table.eq_of_key_eq hs' hs hk] at hlive
    rcases hexp with hidle | habs
    · exact absurd hlive.2.1 (not_lt.mpr hidle)
    · exact absurd hlive.2.2 (not_lt.mpr habs)
  · rintro later except now reason earlier ended rfl hok s hs hne e he
    refine unused_rest hf hr (le_of_clockMonotone hc rfl) ?_ ?_ he
    · exact mem_filterMap_cons.mpr (.inr ((stored_after sha256 earlier).sessions s hs))
    · exact revokeSessions_expired hok hne

/-- A login that rotates a session before its idle expiry. -/
def Sample.reloginInTime : List Call :=
  [.getSession "s1" [3] 1001, Sample.relogin "s1" [3] 800, Sample.login "s1" [2] 0 none,
    Sample.init]

theorem expired_stays_dead_sample :
    Fresh (history Sample.sha256 Sample.reloginInTime) ∧ ClockMonotone Sample.reloginInTime ∧
      RotatesOnlyLive Sample.sha256 Sample.reloginInTime ∧
      ExpiredStaysDead Sample.sha256 Sample.reloginInTime := by
  have hf : Fresh (history Sample.sha256 Sample.reloginInTime) := by decide
  have hc : ClockMonotone Sample.reloginInTime := by decide
  have hr : RotatesOnlyLive Sample.sha256 Sample.reloginInTime := by
    intro e he input r hreach
    simp only [Sample.reloginInTime, history, Machine.events_cons, Machine.events_nil,
      List.mem_cons, List.not_mem_nil, or_false] at he
    have hrow : ∀ r ∈ (purgedTables (after Sample.sha256 [Sample.login "s1" [2] 0 none,
      Sample.init])
        800 purgeGraceSeconds).sessions.rows, 800 < r.idleExpiresAt := by decide
    obtain rfl | rfl | rfl | rfl := he
    · cases hreach.call
    · cases hreach.call
      exact hrow r hreach.stored
    · cases hreach.call
      obtain ⟨_, _, hses⟩ := hreach.rotate
      cases hses
    · cases hreach.call
  exact ⟨hf, hc, hr, expired_stays_dead_of_rotates_only_live _ _ hf hc hr⟩

/-- A session past its idle expiry, missed by a logout everywhere, revived by the next login. -/
def Sample.reloginTooLate : List Call :=
  [.getSession "s1" [3] 1001, Sample.relogin "s1" [3] 1000, .revokeSessions none 1000 "logout",
    Sample.login "s1" [2] 0 none, Sample.init]

theorem expired_session_revived :
    Fresh (history Sample.sha256 Sample.reloginTooLate) ∧ ClockMonotone Sample.reloginTooLate ∧
      ¬ ExpiredStaysDead Sample.sha256 Sample.reloginTooLate := by
  refine ⟨by decide, by decide, ?_⟩
  rintro ⟨_, hrevoked⟩
  have hunused := hrevoked [.getSession "s1" [3] 1001, Sample.relogin "s1" [3] 1000] none 1000
    "logout" [Sample.login "s1" [2] 0 none, Sample.init] [] rfl (by decide)
    { sid := "s1", secretHash := [2], createdAt := 0, lastSeenAt := 0, idleExpiresAt := 900
      absoluteExpiresAt := 86400, authTime := 0, amr := ["user", "hwk"]
      acr := "urn:tinyoidc:acr:passkey", upstream := none, ipHash := none, uaFamily := none
      country := none, revokedAt := none, revokeReason := none }
    (by decide) (by decide) _ List.mem_cons_self
  exact hunused.1 (by decide)

end TinyOidc.User
