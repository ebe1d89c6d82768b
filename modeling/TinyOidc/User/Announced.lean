import TinyOidc.User.SessionMoves

/-! What the replies of the object say of ended sessions. A session a call ends is announced in
its reply, once in a run and with every client that was issued a code in it, but for one that a
reused refresh token ends. -/
namespace TinyOidc.User
open RowTable

/-- The ended sessions that the reply to a call announces, for the back-channel logout of their
clients. -/
def Call.announced (c : Call) (r : Reply) : List RevokedSession :=
  match c, r with
  | .setDisabled _ _, .disabled (.ok answer) => answer.2
  | .revokeSession _ _ _, .revokedSession (.ok ended) => ended.toList
  | .revokeSessions _ _ _, .revokedSessions (.ok ended) => ended
  | .revokeAll _ _, .revokedSessions (.ok ended) => ended
  | _, _ => []

def announced (e : CallEvent) : List RevokedSession := e.input.announced e.reply

def announcedSids (e : CallEvent) : List String := (announced e).map (·.sid)

/-- The session a call ended because a refresh token bound to it was reused. -/
def endedByReuse (e : CallEvent) : Option String :=
  match e.input, e.reply with
  | .rotateRefreshToken input, .rotate (.fail _ true _) =>
      (e.pre.tables.refreshFamilies.find input.familyId).bind (·.sid)
  | _, _ => none

/-- The session and the client a call issued a code for. -/
def codeNoted (e : CallEvent) : Option (String × String) :=
  match e.input, e.reply with
  | .finalizeLogin input, .login (.ok finalized) =>
      input.code.map fun code => (finalized.sid, code.clientId)
  | .authorizeWithSession input, .authorize (.ok a) =>
      if a.outcome = .authorized then input.code.map fun code => (input.sid, code.clientId)
      else none
  | _, _ => none

section Read
variable {e : CallEvent} {c : Call} {r : Reply}

theorem announced_of (he : e.input = c) (hr : e.reply = r) : announced e = c.announced r := by
  rw [announced, he, hr]

theorem codeNoted_of (he : e.input = c) (hr : e.reply = r) :
    codeNoted e = codeNoted ⟨e.pre, c, r⟩ := by
  subst he hr
  rfl

end Read

/-! ### What a revocation announces -/

/-- The announcement of a revocation: each session was unrevoked before and is revoked after, and
comes with the clients recorded under it. -/
structure Announces (t t' : Tables) (ended : List RevokedSession) : Prop where
  nodup : (ended.map (·.sid)).Nodup
  before : ∀ r ∈ ended, ∃ s ∈ t.sessions.rows, s.sid = r.sid ∧ s.revokedAt = none
  after : ∀ r ∈ ended, ∃ s ∈ t'.sessions.rows, s.sid = r.sid ∧ s.revokedAt.isSome
  clients : ∀ r ∈ ended, r.clients = t'.clientsOf r.sid

theorem announces_nil (t t' : Tables) : Announces t t' [] :=
  ⟨List.nodup_nil, by simp, by simp, by simp⟩

theorem Announces.of_subset {t₀ t t' : Tables} {ended : List RevokedSession}
    (h : Announces t t' ended) (hsub : t.sessions.rows ⊆ t₀.sessions.rows) :
    Announces t₀ t' ended where
  nodup := h.nodup
  before r hr := by
    obtain ⟨s, hs, hrow⟩ := h.before r hr
    exact ⟨s, hsub hs, hrow⟩
  after := h.after
  clients := h.clients

/-- A revocation of families announces nothing of its own. -/
theorem Announces.of_eq {t t' u : Tables} {ended : List RevokedSession} (h : Announces t t' ended)
    (hsessions : u.sessions = t'.sessions) (hclients : u.sessionClients = t'.sessionClients) :
    Announces t u ended where
  nodup := h.nodup
  before := h.before
  after r hr := by
    rw [hsessions]
    exact h.after r hr
  clients r hr := by
    rw [h.clients r hr]
    unfold Tables.clientsOf
    rw [hclients]

/-- A revoked session row is not written again by a revocation. -/
theorem mem_revokeSessionRows_of_revoked {t : Tables} {s : SessionRow} (hs : s ∈ t.sessions.rows)
    (hr : s.revokedAt.isSome) (sid : String) (now : ℤ) (reason : String) :
    s ∈ (t.revokeSessionRows sid now reason).1.sessions.rows := by
  refine List.mem_map.mpr ⟨s, hs, if_neg ?_⟩
  obtain ⟨at', hat⟩ := Option.isSome_iff_exists.mp hr
  simp [hat]

theorem mem_revokeEach_of_revoked {now : ℤ} {reason : String} {sids : List String} :
    ∀ {t : Tables} {s : SessionRow}, s ∈ t.sessions.rows → s.revokedAt.isSome →
      s ∈ (Tables.revokeEach now reason t sids).1.sessions.rows := by
  induction sids with
  | nil => exact fun hs _ => hs
  | cons sid sids ih =>
    exact fun hs hr => ih (mem_revokeSessionRows_of_revoked hs hr sid now reason) hr

theorem revokeEach_clients (now : ℤ) (reason : String) (sids : List String) :
    ∀ t : Tables, (Tables.revokeEach now reason t sids).1.sessionClients = t.sessionClients := by
  induction sids with
  | nil => exact fun _ => rfl
  | cons sid sids ih => exact fun t => ih _

theorem revokeEach_sids (now : ℤ) (reason : String) (sids : List String) :
    ∀ t : Tables, (Tables.revokeEach now reason t sids).2.map (·.sid) = sids := by
  induction sids with
  | nil => exact fun _ => rfl
  | cons sid sids ih =>
    intro t
    unfold Tables.revokeEach
    rw [List.map_cons, ih]

theorem clientsOf_congr {t t' : Tables} (h : t'.sessionClients = t.sessionClients) (sid : String) :
    t'.clientsOf sid = t.clientsOf sid := by
  unfold Tables.clientsOf
  rw [h]

theorem exists_revokeSessionRows {t : Tables} {s : SessionRow} (hs : s ∈ t.sessions.rows)
    (now : ℤ) (reason : String) :
    ∃ s' ∈ (t.revokeSessionRows s.sid now reason).1.sessions.rows,
      s'.sid = s.sid ∧ s'.revokedAt.isSome := by
  cases hr : s.revokedAt with
  | some _ =>
    exact ⟨s, mem_revokeSessionRows_of_revoked hs (by simp [hr]) _ now reason, rfl, by simp [hr]⟩
  | none =>
    refine ⟨{ s with revokedAt := some now, revokeReason := some reason },
      List.mem_map.mpr ⟨s, hs, if_pos ?_⟩, rfl, rfl⟩
    simp [hr]

/-- Sessions ended one by one are announced as they were found. -/
theorem announces_revokeEach (now : ℤ) (reason : String) {sids : List String} :
    ∀ {t : Tables}, sids.Nodup →
      (∀ sid ∈ sids, ∃ s ∈ t.sessions.rows, s.sid = sid ∧ s.revokedAt = none) →
      Announces t (Tables.revokeEach now reason t sids).1
        (Tables.revokeEach now reason t sids).2 := by
  induction sids with
  | nil => exact fun _ _ => announces_nil _ _
  | cons sid sids ih =>
    intro t hnodup hfound
    obtain ⟨hnotin, hrest⟩ := List.nodup_cons.mp hnodup
    obtain ⟨s, hs, hsid, hunrevoked⟩ := hfound sid List.mem_cons_self
    have hothers : ∀ sid' ∈ sids, ∃ s' ∈ (t.revokeSessionRows sid now reason).1.sessions.rows,
        s'.sid = sid' ∧ s'.revokedAt = none := by
      intro sid' hsid'
      obtain ⟨s', hs', hsid'', hunrevoked'⟩ := hfound sid' (List.mem_cons_of_mem _ hsid')
      have hne : s'.sid ≠ sid := by
        rintro rfl
        exact hnotin (hsid'' ▸ hsid')
      exact ⟨s', List.mem_map.mpr ⟨s', hs', if_neg (by simp [hne])⟩, hsid'', hunrevoked'⟩
    have htail := ih hrest hothers
    have hclients := revokeEach_clients now reason sids (t.revokeSessionRows sid now reason).1
    refine ⟨?_, ?_, ?_, ?_⟩
    · rw [revokeEach_sids]
      exact hnodup
    · intro r hr
      rcases List.mem_cons.mp hr with rfl | hr
      · exact ⟨s, hs, hsid, hunrevoked⟩
      · obtain ⟨s', hs', hsid', hunrevoked'⟩ := htail.before r hr
        obtain ⟨g, hg, -, rfl | hrevoked, -⟩ := mem_revokeSessionsWhere (t := t) hs'
        · exact ⟨_, hg, hsid', hunrevoked'⟩
        · rw [hunrevoked'] at hrevoked
          cases hrevoked
    · intro r hr
      rcases List.mem_cons.mp hr with rfl | hr
      · obtain ⟨s', hs', hsid', hrevoked⟩ := exists_revokeSessionRows hs now reason
        rw [hsid] at hs' hsid'
        have hstays : s' ∈ (Tables.revokeEach now reason
            (t.revokeSessionRows sid now reason).1 sids).1.sessions.rows :=
          mem_revokeEach_of_revoked hs' hrevoked
        exact ⟨s', hstays, hsid', hrevoked⟩
      · exact htail.after r hr
    · intro r hr
      rcases List.mem_cons.mp hr with rfl | hr
      · exact (clientsOf_congr hclients sid).symm
      · exact htail.clients r hr

theorem unrevokedSids_found (t : Tables) : ∀ sid ∈ t.unrevokedSids,
    ∃ s ∈ t.sessions.rows, s.sid = sid ∧ s.revokedAt = none := by
  intro sid hsid
  obtain ⟨s, hs, rfl⟩ := List.mem_map.mp hsid
  obtain ⟨hm, hu⟩ := List.mem_filter.mp hs
  exact ⟨s, hm, rfl, by simpa using hu⟩

theorem unrevokedSids_nodup (t : Tables) : t.unrevokedSids.Nodup :=
  t.sessions.nodup.sublist (List.filter_sublist.map _)

theorem liveSessions_found (t : Tables) (now : ℤ) (p : String → Bool) :
    ∀ sid ∈ ((t.liveSessions now).map (·.sid)).filter p,
      ∃ s ∈ t.sessions.rows, s.sid = sid ∧ s.revokedAt = none := by
  intro sid hsid
  obtain ⟨s, hs, rfl⟩ := List.mem_map.mp (List.mem_filter.mp hsid).1
  obtain ⟨hm, hu⟩ := List.mem_filter.mp ((List.mem_insertionSort _).mp hs)
  rw [Bool.and_eq_true, Bool.and_eq_true] at hu
  exact ⟨s, hm, rfl, by simpa using hu.1.1⟩

theorem liveSessions_nodup (t : Tables) (now : ℤ) (p : String → Bool) :
    (((t.liveSessions now).map (·.sid)).filter p).Nodup := by
  have hrows : ((t.sessions.rows.filter fun s => s.revokedAt.isNone && now < s.idleExpiresAt &&
      now < s.absoluteExpiresAt).map (·.sid)).Nodup :=
    t.sessions.nodup.sublist (List.filter_sublist.map _)
  have hsorted : ((t.liveSessions now).map (·.sid)).Nodup :=
    ((List.perm_insertionSort _ _).map _).nodup_iff.mpr hrows
  exact hsorted.filter _

section Revocations
variable {noted : Option (String × String)} {created : Option String} {o o' : UserObject}

/-- A method that ends exactly what it announces. -/
structure Ends (noted : Option (String × String)) (created : Option String) (t t' : Tables)
    (list : List RevokedSession) : Prop where
  announces : Announces t t' list
  move : SessionMove noted created (fun sid => sid ∈ list.map (·.sid)) t t'

theorem ends_refl (t : Tables) : Ends noted created t t [] := ⟨announces_nil t t, .refl t⟩

theorem Ends.purged {t₀ t t' : Tables} {list : List RevokedSession}
    (h : Ends noted created t t' list)
    (hmove : SessionMove noted created (fun sid => sid ∈ list.map (·.sid)) t₀ t)
    (hsub : t.sessions.rows ⊆ t₀.sessions.rows) : Ends noted created t₀ t' list :=
  ⟨h.announces.of_subset hsub, hmove.trans h.move⟩

theorem Ends.of_eq {t t' u : Tables} {list : List RevokedSession} (h : Ends noted created t t' list)
    (hsessions : u.sessions = t'.sessions) (hclients : u.sessionClients = t'.sessionClients) :
    Ends noted created t u list :=
  ⟨h.announces.of_eq hsessions hclients, h.move.trans (.of_eq hsessions hclients)⟩

theorem ends_revokeEach (now : ℤ) (reason : String) {t : Tables} {sids : List String}
    (hnodup : sids.Nodup)
    (hfound : ∀ sid ∈ sids, ∃ s ∈ t.sessions.rows, s.sid = sid ∧ s.revokedAt = none) :
    Ends noted created t (Tables.revokeEach now reason t sids).1
      (Tables.revokeEach now reason t sids).2 :=
  ⟨announces_revokeEach now reason hnodup hfound,
    .revokeEach now reason t fun sid hsid => by rwa [revokeEach_sids]⟩

theorem revokeAll_ends {now : ℤ} {reason : String} {r : Outcome (List RevokedSession)}
    (h : o.revokeAll now reason = (o', r)) :
    (∃ list, r = .ok list ∧ Ends noted created o.tables o'.tables list) ∨
      o' = o ∧ ∃ err, r = .fail err := by
  obtain ⟨rfl, err, rfl⟩ | ⟨user, -, hbody⟩ := guarded_cases h
  · exact .inr ⟨rfl, err, rfl⟩
  · cases hbody
    exact .inl ⟨_, rfl, (ends_revokeEach now reason (unrevokedSids_nodup _)
      (unrevokedSids_found _)).of_eq rfl rfl⟩

theorem setDisabled_ends {disabledAt : Option ℤ} {now : ℤ}
    {r : Outcome (UserProfile × List RevokedSession)}
    (h : o.setDisabled disabledAt now = (o', r)) :
    (∃ answer, r = .ok answer ∧ Ends noted created o.tables o'.tables answer.2) ∨
      o' = o ∧ ∃ err, r = .fail err := by
  obtain ⟨rfl, err, rfl⟩ | ⟨user, -, hbody⟩ := guarded_cases h
  · exact .inr ⟨rfl, err, rfl⟩
  · cases disabledAt with
    | none =>
      cases hbody
      exact .inl ⟨_, rfl, (ends_refl o.tables).of_eq rfl rfl⟩
    | some at' =>
      cases hbody
      let t := { o.tables with
        user := some { user with disabledAt := some at', updatedAt := now } }
      have hends : Ends noted created t (Tables.revokeEach now "disabled" t t.unrevokedSids).1
          (Tables.revokeEach now "disabled" t t.unrevokedSids).2 :=
        ends_revokeEach now "disabled" (unrevokedSids_nodup _) (unrevokedSids_found _)
      have hrow : Ends noted created o.tables
          (Tables.revokeEach now "disabled" t t.unrevokedSids).1
          (Tables.revokeEach now "disabled" t t.unrevokedSids).2 :=
        hends.purged (.of_eq rfl rfl) (List.Subset.refl _)
      exact .inl ⟨_, rfl, hrow.of_eq rfl rfl⟩

theorem revokeSessions_ends {except : Option String} {now : ℤ} {reason : String}
    {r : Outcome (List RevokedSession)} (h : o.revokeSessions except now reason = (o', r)) :
    (∃ list, r = .ok list ∧ Ends noted created o.tables o'.tables list) ∨
      o'.tables = o.tables ∧ ∀ list, r ≠ .ok list := by
  obtain ⟨rfl, err, rfl⟩ | ⟨user, -, hbody⟩ := guarded_cases h
  · exact .inr ⟨rfl, by simp⟩
  · revert hbody
    generalize hrun : (fun t : Tables => _) = body
    intro hbody
    rcases purging_cases o now purgeGraceSeconds Outcome.thrown body with
      ⟨t, list, ht, heq⟩ | ⟨err, -, heq⟩
    · rw [heq] at hbody
      cases hbody
      subst hrun
      cases ht
      exact .inl ⟨_, rfl, (ends_revokeEach now reason (liveSessions_nodup _ _ _)
        (liveSessions_found _ _ _)).purged (.purgeIfDue o now purgeGraceSeconds)
          purgedTables_sessions_subset⟩
    · rw [heq] at hbody
      cases hbody
      exact .inr ⟨rfl, by simp⟩

theorem revokeSession_ends {sid : String} {now : ℤ} {reason : String}
    {r : Outcome (Option RevokedSession)} (h : o.revokeSession sid now reason = (o', r)) :
    (∃ ended, r = .ok ended ∧ Ends noted created o.tables o'.tables ended.toList) ∨
      o'.tables = o.tables ∧ ∀ ended, r ≠ .ok ended := by
  obtain ⟨rfl, err, rfl⟩ | ⟨user, -, hbody⟩ := guarded_cases h
  · exact .inr ⟨rfl, by simp⟩
  · revert hbody
    generalize hrun : (fun t : Tables => _) = body
    intro hbody
    rcases purging_cases o now purgeGraceSeconds Outcome.thrown body with
      ⟨t, ended, ht, heq⟩ | ⟨err, -, heq⟩
    · rw [heq] at hbody
      cases hbody
      have hpurged : ∀ {u : Tables} {list : List RevokedSession},
          Ends noted created (o.purgeIfDue now purgeGraceSeconds).tables u list →
            Ends noted created o.tables u list :=
        fun h => h.purged (.purgeIfDue o now purgeGraceSeconds) purgedTables_sessions_subset
      subst hrun
      dsimp only at ht
      split at ht
      · cases ht
        exact .inl ⟨_, rfl, hpurged (ends_refl _)⟩
      next row hfind =>
        obtain ⟨hrow, hsid⟩ := Table.find_eq_some.mp hfind
        rcases ite_eq_iff.mp ht with ⟨-, ht⟩ | ⟨hunrevoked, ht⟩
        · cases ht
          exact .inl ⟨_, rfl, hpurged (ends_refl _)⟩
        · cases ht
          refine .inl ⟨_, rfl, hpurged (ends_revokeEach now reason (List.nodup_singleton sid) ?_)⟩
          intro sid' hsid'
          exact ⟨row, hrow, hsid.trans (List.mem_singleton.mp hsid').symm,
            by simpa using hunrevoked⟩
    · rw [heq] at hbody
      cases hbody
      exact .inr ⟨rfl, by simp⟩

end Revocations

/-! ### One call -/

structure Recorded (t : Tables) (sid clientId : String) : Prop where
  client : ∃ c ∈ t.sessionClients.rows, c.sid = sid ∧ c.clientId = clientId
  session : ∃ s ∈ t.sessions.rows, s.sid = sid

theorem touchSession_recorded {t : Tables} {sid clientId : String} (h : Recorded t sid clientId)
    (row : SessionRow) (now ttl : ℤ) : Recorded (t.touchSession row now ttl) sid clientId := by
  unfold Tables.touchSession
  split
  · exact h
  · obtain ⟨s, hs, hsid⟩ := h.session
    refine ⟨h.client, _, List.mem_map.mpr ⟨s, hs, rfl⟩, ?_⟩
    split <;> exact hsid

theorem noteClient_recorded {t : Tables} {sid : String} (clientId : String) (now : ℤ)
    (h : ∃ s ∈ t.sessions.rows, s.sid = sid) :
    Recorded (t.noteClient sid clientId now) sid clientId := by
  refine ⟨?_, h⟩
  unfold Tables.noteClient
  cases hinsert : t.sessionClients.insert ⟨sid, clientId, now⟩ with
  | some clients =>
    exact ⟨⟨sid, clientId, now⟩, (Table.mem_insert hinsert).mpr (.inr rfl), rfl, rfl⟩
  | none =>
    rw [Option.getD_none]
    by_contra hnone
    have hfresh : ∀ c ∈ t.sessionClients.rows, (c.sid, c.clientId) ≠ (sid, clientId) := by
      intro c hc heq
      exact hnone ⟨c, hc, (Prod.mk.inj heq).1, (Prod.mk.inj heq).2⟩
    have hsome : ∃ u, t.sessionClients.insert ⟨sid, clientId, now⟩ = some u :=
      Table.insert_isSome_of_key_notMem hfresh
    obtain ⟨u, hu⟩ := hsome
    rw [hinsert] at hu
    cases hu

theorem issueCodeRows_recorded {t t' : Tables} {code : CodeInput} {session : SessionRow}
    {now ttl : ℤ} (h : t.issueCodeRows code session now ttl = .ok t')
    (hm : session ∈ t.sessions.rows) : Recorded t' session.sid code.clientId := by
  obtain ⟨codes, -, rfl⟩ := issueCodeRows_ok h
  have hnoted : Recorded (({ t with authCodes := codes }).noteClient session.sid code.clientId now)
      session.sid code.clientId := noteClient_recorded code.clientId now ⟨session, hm, rfl⟩
  exact touchSession_recorded hnoted session now ttl

theorem finishLogin_recorded {t t' : Tables} {user : UserRow} {sid : String}
    {input : FinalizeLoginInput} {f : Finalized} {code : CodeInput}
    (h : UserObject.finishLogin t user sid input = .ok (t', .ok f))
    (hcode : input.code = some code) : Recorded t' f.sid code.clientId := by
  unfold UserObject.finishLogin at h
  split at h
  · cases h
  next session hfind =>
    obtain ⟨hm, hsid⟩ := Table.find_eq_some.mp hfind
    split at h
    · cases h
    next issued hissued =>
      cases h
      rw [hcode] at hissued
      rw [← hsid]
      exact issueCodeRows_recorded hissued hm

theorem loginTransaction_recorded {t t' : Tables} {user : UserRow} {input : FinalizeLoginInput}
    {f : Finalized} {code : CodeInput}
    (h : UserObject.loginTransaction t user input = .ok (t', .ok f))
    (hcode : input.code = some code) : Recorded t' f.sid code.clientId := by
  unfold UserObject.loginTransaction at h
  split at h
  · split at h
    · cases h
    · exact finishLogin_recorded h hcode
  · split at h
    · cases h
    · rcases ite_eq_iff.mp h with ⟨-, h⟩ | ⟨-, h⟩
      · cases h
      · split at h
        · cases h
        · exact finishLogin_recorded h hcode

/-- The sessions a step may end: those it announces, and the one of a reused refresh token. -/
def EndedBy (e : CallEvent) (sid : String) : Prop :=
  sid ∈ announcedSids e ∨ endedByReuse e = some sid

/-- A step that announces what it ends, but for the session of a reused refresh token, and
records the client of a code it issues. -/
structure AnnouncedStep (e : CallEvent) (t t' : Tables) : Prop where
  announces : Announces t t' (announced e)
  records : ∀ sid clientId, codeNoted e = some (sid, clientId) → Recorded t' sid clientId
  move : SessionMove (codeNoted e) (sessionCreated e) (EndedBy e) t t'

section Steps
variable {e : CallEvent} {t t' : Tables} {o : UserObject}

/-- A step that ends exactly what it announces and issues no code. -/
theorem AnnouncedStep.ends {list : List RevokedSession}
    (h : Ends (codeNoted e) (sessionCreated e) t t' list) (hlist : announced e = list)
    (hnoted : codeNoted e = none) : AnnouncedStep e t t' := by
  subst hlist
  refine ⟨h.announces, ?_, ?_⟩
  · intro sid clientId hn
    rw [hnoted] at hn
    cases hn
  · exact ⟨h.move.origin, fun s hs hr => (h.move.ends s hs hr).imp_left .inl, h.move.notes,
      h.move.keeps⟩

/-- A step that announces nothing. -/
theorem AnnouncedStep.step (h : SessionMove (codeNoted e) (sessionCreated e) (EndedBy e) t t')
    (hlist : announced e = [])
    (hrecords : ∀ sid clientId, codeNoted e = some (sid, clientId) → Recorded t' sid clientId) :
    AnnouncedStep e t t' := by
  refine ⟨?_, hrecords, h⟩
  rw [hlist]
  exact announces_nil t t'

/-- A step that announces nothing and issues no code. -/
theorem AnnouncedStep.silent (h : SessionMove (codeNoted e) (sessionCreated e) (EndedBy e) t t')
    (hlist : announced e = []) (hnoted : codeNoted e = none) : AnnouncedStep e t t' := by
  refine .step h hlist fun sid clientId hn => ?_
  rw [hnoted] at hn
  cases hn

theorem authorizeWithSession_announced {input : AuthorizeWithSessionInput}
    (he : e.input = .authorizeWithSession input)
    (hr : e.reply = .authorize (o.authorizeWithSession input).2) :
    AnnouncedStep e o.tables (o.authorizeWithSession input).1.tables := by
  generalize hx : o.authorizeWithSession input = x at hr ⊢
  obtain ⟨o', r⟩ := x
  have hnoted : ∀ a, r = .ok a → a.outcome = .authorized →
      codeNoted e = input.code.map fun code => (input.sid, code.clientId) := by
    rintro a rfl hout
    rw [codeNoted_of he hr]
    exact if_pos hout
  refine .step (authorizeWithSession_move hx hnoted) (announced_of he hr) ?_
  intro sid clientId hn
  obtain ⟨-, hnone⟩ | ⟨user, session, code, a, hcode, rfl, hout⟩ := authorizeWithSession_cases hx
  · exfalso
    cases r with
    | ok a =>
      by_cases hout : a.outcome = .authorized
      · rw [hnoted a rfl hout, hnone a rfl hout] at hn
        cases hn
      · have hnone : codeNoted e = none := (codeNoted_of he hr).trans (if_neg hout)
        rw [hnone] at hn
        cases hn
    | fail err =>
      have hnone : codeNoted e = none := codeNoted_of he hr
      rw [hnone] at hn
      cases hn
    | thrown err =>
      have hnone : codeNoted e = none := codeNoted_of he hr
      rw [hnone] at hn
      cases hn
  · obtain ⟨hm, hsid, -, hlive⟩ := liveSession_eq_some hcode.live
    have hstored : session ∈ (authorizeTables o input).sessions.rows := by
      refine mem_purgeIfDue_sessions_of_live ?_ hlive
      rw [UserObject.store, (consentCovered_sameCore o.tables input).sessions]
      exact hm
    rw [hnoted a rfl hout, hcode.requested, ← hsid] at hn
    cases hn
    exact issueCodeRows_recorded hcode.written hstored

theorem finalizeLogin_announced {input : FinalizeLoginInput} (he : e.input = .finalizeLogin input)
    (hr : e.reply = .login (o.finalizeLogin input).2) :
    AnnouncedStep e o.tables (o.finalizeLogin input).1.tables := by
  generalize hx : o.finalizeLogin input = x at hr ⊢
  obtain ⟨o', r⟩ := x
  have hnoted : ∀ f, r = .ok f →
      codeNoted e = input.code.map fun code => (f.sid, code.clientId) := by
    rintro f rfl
    exact codeNoted_of he hr
  have hcreated : ∀ f session, r = .ok f → input.session = .create session →
      sessionCreated e = some session.sid := by
    rintro f session rfl hsession
    simp [sessionCreated, he, hr, hsession]
  have hfail : (∀ f, r ≠ .ok f) → codeNoted e = none := by
    intro hne
    cases r with
    | ok f => exact absurd rfl (hne f)
    | fail err => exact codeNoted_of he hr
    | thrown err => exact codeNoted_of he hr
  have hsilent : announced e = [] := announced_of he hr
  obtain ⟨rfl, err, rfl⟩ | ⟨user, -, hbody⟩ := guarded_cases hx
  · exact .silent (.refl _) hsilent (hfail (by simp))
  split_ifs at hbody
  · cases hbody
    exact .silent (.refl _) hsilent (hfail (by simp))
  · cases hbody
    exact .silent (.refl _) hsilent (hfail (by simp))
  · cases hbody
    exact .silent (.refl _) hsilent (hfail (by simp))
  · rcases purging_cases o input.now purgeGraceSeconds Outcome.thrown
      (fun t => UserObject.loginTransaction t user input) with ⟨t, a, ht, heq⟩ | ⟨err, -, heq⟩
    · rw [heq] at hbody
      cases hbody
      have hmove : SessionMove (codeNoted e) (sessionCreated e) (EndedBy e) o.tables t :=
        (SessionMove.purgeIfDue o input.now purgeGraceSeconds).trans
          (loginTransaction_move ht hnoted hcreated)
      refine .step hmove hsilent fun sid clientId hn => ?_
      cases r with
      | ok f =>
        rw [hnoted f rfl] at hn
        obtain ⟨code, hcode, heq⟩ := Option.map_eq_some_iff.mp hn
        cases heq
        exact loginTransaction_recorded ht hcode
      | fail err =>
        rw [hfail (by simp)] at hn
        cases hn
      | thrown err =>
        rw [hfail (by simp)] at hn
        cases hn
    · rw [heq] at hbody
      cases hbody
      exact .silent (.refl _) hsilent (hfail (by simp))

theorem rotateRefreshToken_move {noted : Option (String × String)} {created : Option String}
    {input : RotateRefreshInput} (he : e.input = .rotateRefreshToken input) (hpre : e.pre = o)
    (hr : e.reply = .rotate (o.rotateRefreshToken input).2) :
    SessionMove noted created (EndedBy e) o.tables (o.rotateRefreshToken input).1.tables := by
  refine guarded_move fun user hg => ?_
  change o.rotateRefreshToken input = _ at hg
  rw [hg] at hr
  rcases purging_cases o input.now input.reuseWindow RotateOutcome.thrown
    (fun t => t.rotateTransaction user input) with ⟨t, r, ht, heq⟩ | ⟨err, -, heq⟩
  · rw [heq] at hr ⊢
    refine (SessionMove.purgeIfDue o input.now input.reuseWindow).trans
      (rotateTransaction_move ht ?_)
    rintro family hfamily hid err clients rfl sid hsid
    have hstored : family ∈ o.tables.refreshFamilies.rows :=
      purgedTables_families_subset hfamily
    have hfind : o.tables.refreshFamilies.find input.familyId = some family :=
      Table.find_eq_some.mpr ⟨hstored, hid⟩
    exact .inr (by simp [endedByReuse, he, hr, hpre, hfind, hsid])
  · rw [heq]
    exact .refl _

theorem exchangeCode_move {noted : Option (String × String)} {created : Option String}
    {ended : String → Prop} (sha256 : String → Bytes) (o : UserObject)
    (input : ExchangeCodeInput) :
    SessionMove noted created ended o.tables (o.exchangeCode sha256 input).1.tables := by
  unfold UserObject.exchangeCode
  split
  · exact .refl _
  · split
    · exact .refl _
    · exact commitExchange_move o _ none input

theorem resumeExchange_move {noted : Option (String × String)} {created : Option String}
    {ended : String → Prop} (o : UserObject) (call : ℕ) :
    SessionMove noted created ended o.tables (o.resumeExchange call).1.tables := by
  unfold UserObject.resumeExchange
  split
  · dsimp only
    split
    · exact .refl _
    · let rest := { o with suspended := o.suspended.filter (fun c => c.1 != call) }
      exact commitExchange_move rest _ _ _
  · exact .refl _

theorem resumeAssertion_move {noted : Option (String × String)} {created : Option String}
    {ended : String → Prop} (o : UserObject) (call : ℕ) (verified : Option ℕ) :
    SessionMove noted created ended o.tables (o.resumeAssertion call verified).1.tables := by
  unfold UserObject.resumeAssertion
  split
  · dsimp only
    split
    · exact .refl _
    · split
      · exact .refl _
      · unfold UserObject.commitAssertion
        split
        · split <;> exact .of_eq rfl rfl
        · exact .refl _
  · exact .refl _

theorem revokeAll_announced {now : ℤ} {reason : String} (he : e.input = .revokeAll now reason)
    (hr : e.reply = .revokedSessions (o.revokeAll now reason).2) :
    AnnouncedStep e o.tables (o.revokeAll now reason).1.tables := by
  generalize hx : o.revokeAll now reason = x at hr ⊢
  obtain ⟨o', r⟩ := x
  have hnoted : codeNoted e = none := codeNoted_of he rfl
  obtain ⟨list, rfl, hends⟩ | ⟨rfl, err, rfl⟩ := revokeAll_ends hx
  · exact .ends hends (announced_of he hr) hnoted
  · exact .silent (.refl _) (announced_of he hr) hnoted

theorem setDisabled_announced {disabledAt : Option ℤ} {now : ℤ}
    (he : e.input = .setDisabled disabledAt now)
    (hr : e.reply = .disabled (o.setDisabled disabledAt now).2) :
    AnnouncedStep e o.tables (o.setDisabled disabledAt now).1.tables := by
  generalize hx : o.setDisabled disabledAt now = x at hr ⊢
  obtain ⟨o', r⟩ := x
  have hnoted : codeNoted e = none := codeNoted_of he rfl
  obtain ⟨answer, rfl, hends⟩ | ⟨rfl, err, rfl⟩ := setDisabled_ends hx
  · exact .ends hends (announced_of he hr) hnoted
  · exact .silent (.refl _) (announced_of he hr) hnoted

theorem revokeSessions_announced {except : Option String} {now : ℤ} {reason : String}
    (he : e.input = .revokeSessions except now reason)
    (hr : e.reply = .revokedSessions (o.revokeSessions except now reason).2) :
    AnnouncedStep e o.tables (o.revokeSessions except now reason).1.tables := by
  generalize hx : o.revokeSessions except now reason = x at hr ⊢
  obtain ⟨o', r⟩ := x
  have hnoted : codeNoted e = none := codeNoted_of he rfl
  obtain ⟨list, rfl, hends⟩ | ⟨htables, hne⟩ := revokeSessions_ends hx
  · exact .ends hends (announced_of he hr) hnoted
  · rw [htables]
    refine .silent (.refl _) ?_ hnoted
    cases r with
    | ok list => exact absurd rfl (hne list)
    | fail err => exact announced_of he hr
    | thrown err => exact announced_of he hr

theorem revokeSession_announced {sid : String} {now : ℤ} {reason : String}
    (he : e.input = .revokeSession sid now reason)
    (hr : e.reply = .revokedSession (o.revokeSession sid now reason).2) :
    AnnouncedStep e o.tables (o.revokeSession sid now reason).1.tables := by
  generalize hx : o.revokeSession sid now reason = x at hr ⊢
  obtain ⟨o', r⟩ := x
  have hnoted : codeNoted e = none := codeNoted_of he rfl
  obtain ⟨ended, rfl, hends⟩ | ⟨htables, hne⟩ := revokeSession_ends hx
  · exact .ends hends (announced_of he hr) hnoted
  · rw [htables]
    refine .silent (.refl _) ?_ hnoted
    cases r with
    | ok ended => exact absurd rfl (hne ended)
    | fail err => exact announced_of he hr
    | thrown err => exact announced_of he hr

theorem destroy_move {noted : Option (String × String)} {created : Option String}
    {ended : String → Prop} (t : Tables) : SessionMove noted created ended t .empty where
  origin s hs := by cases hs
  ends s hs := by cases hs
  notes c hc := by cases hc
  keeps c hc := by
    refine .inr fun s hs => ?_
    cases hs

/-- A guarded method that leaves the sessions and their clients. -/
theorem guarded_still {noted : Option (String × String)} {created : Option String}
    {ended : String → Prop} {α : Type} {fail : UserDoError → α} {body : UserRow → UserObject × α}
    (h : ∀ user, (body user).1.tables.sessions = o.tables.sessions ∧
      (body user).1.tables.sessionClients = o.tables.sessionClients) :
    SessionMove noted created ended o.tables (o.guarded fail body).1.tables :=
  guarded_move fun user _ => .of_eq (h user).1 (h user).2

end Steps

/-- Every call announces the sessions it ends, but for the one of a reused refresh token. -/
theorem call_announced (sha256 : String → Bytes) (o : UserObject) (c : Call) :
    AnnouncedStep (Machine.event (UserObject.call sha256) o c) o.tables
      (o.call sha256 c).1.tables := by
  cases c with
  | init p now identities => exact .silent (init_move o p now identities) rfl rfl
  | destroy => exact .silent (destroy_move o.tables) rfl rfl
  | evict => exact .silent (SessionMove.refl _) rfl rfl
  | getProfile => exact .silent (guarded_still fun _ => ⟨rfl, rfl⟩) rfl rfl
  | setGroups groups now => exact .silent (guarded_still fun _ => ⟨rfl, rfl⟩) rfl rfl
  | setDisabled disabledAt now => exact setDisabled_announced rfl rfl
  | touch now w => exact .silent (guarded_move fun _ _ => .purgeIfDue o now w) rfl rfl
  | authorizeWithSession input => exact authorizeWithSession_announced rfl rfl
  | finalizeLogin input => exact finalizeLogin_announced rfl rfl
  | getSession sid secretHash now =>
    refine .silent (guarded_still fun user => ?_) rfl rfl
    split
    · exact ⟨rfl, rfl⟩
    · split <;> exact ⟨rfl, rfl⟩
  | revokeSession sid now reason => exact revokeSession_announced rfl rfl
  | listSessions now => exact .silent (guarded_still fun _ => ⟨rfl, rfl⟩) rfl rfl
  | revokeSessions except now reason => exact revokeSessions_announced rfl rfl
  | countPasskeyAttempt now =>
    refine .silent (guarded_still fun user => ?_) rfl rfl
    dsimp only
    split_ifs <;> exact ⟨rfl, rfl⟩
  | putChallenge key value expiresAt =>
    exact .silent (guarded_still fun _ => ⟨rfl, rfl⟩) rfl rfl
  | takeChallenge key now => exact .silent (guarded_still fun _ => ⟨rfl, rfl⟩) rfl rfl
  | revokeAll now reason => exact revokeAll_announced rfl rfl
  | exchangeCode input => exact .silent (exchangeCode_move sha256 o input) rfl rfl
  | resumeExchange call => exact .silent (resumeExchange_move o call) rfl rfl
  | rotateRefreshToken input => exact .silent (rotateRefreshToken_move rfl rfl rfl) rfl rfl
  | revokeFamilyById familyId now reason clientId =>
    refine .silent (guarded_still fun user => ?_) rfl rfl
    split
    · exact ⟨rfl, rfl⟩
    · split_ifs <;> exact ⟨rfl, rfl⟩
  | revokeSessionFamiliesOfClient sid clientId now =>
    exact .silent (guarded_still fun _ => ⟨rfl, rfl⟩) rfl rfl
  | revokeFamiliesOfClient clientId now reason =>
    exact .silent (guarded_still fun _ => ⟨rfl, rfl⟩) rfl rfl
  | listFamilies now => exact .silent (guarded_still fun _ => ⟨rfl, rfl⟩) rfl rfl
  | grantConsent client scopes now =>
    refine .silent (guarded_still fun user => ?_) rfl rfl
    exact ⟨(grantFor_sameCore o.tables client).sessions, grantFor_clients o.tables client⟩
  | grantClientIds => exact .silent (guarded_still fun _ => ⟨rfl, rfl⟩) rfl rfl
  | listGrants clients => exact .silent (guarded_still fun _ => ⟨rfl, rfl⟩) rfl rfl
  | revokeGrant clientId now => exact .silent (guarded_still fun _ => ⟨rfl, rfl⟩) rfl rfl
  | addPasskey passkey now maxPerUser =>
    refine .silent (guarded_still fun user => ?_) rfl rfl
    split_ifs
    · exact ⟨rfl, rfl⟩
    · exact ⟨rfl, rfl⟩
    · split <;> exact ⟨rfl, rfl⟩
  | verifyAssertion credentialId now =>
    refine .silent (guarded_still fun user => ?_) rfl rfl
    split <;> exact ⟨rfl, rfl⟩
  | resumeAssertion call verified =>
    exact .silent (resumeAssertion_move o call verified) rfl rfl
  | listPasskeys => exact .silent (guarded_still fun _ => ⟨rfl, rfl⟩) rfl rfl
  | removePasskey id actor =>
    refine .silent (guarded_still fun user => ?_) rfl rfl
    dsimp only
    split <;> exact ⟨rfl, rfl⟩
  | renamePasskey id name => exact .silent (guarded_still fun _ => ⟨rfl, rfl⟩) rfl rfl
  | addIdentity identity now =>
    refine .silent (guarded_still fun user => ?_) rfl rfl
    split_ifs
    · exact ⟨rfl, rfl⟩
    · split
      · exact ⟨rfl, rfl⟩
      next t ht => exact ⟨(insertIdentity_sameCore ht).sessions, insertIdentity_clients ht⟩
  | touchIdentity issuer subject claims now =>
    exact .silent (guarded_still fun _ => ⟨rfl, rfl⟩) rfl rfl
  | listIdentities => exact .silent (guarded_still fun _ => ⟨rfl, rfl⟩) rfl rfl
  | removeIdentity id actor =>
    refine .silent (guarded_still fun user => ?_) rfl rfl
    dsimp only
    split <;> exact ⟨rfl, rfl⟩
  | updateProfile patch now => exact .silent (guarded_still fun _ => ⟨rfl, rfl⟩) rfl rfl

/-! ### Whole runs -/

structure ClientsNoted (h : List CallEvent) (t : Tables) : Prop where
  created : ∀ n ∈ h.filterMap codeNoted, n.1 ∈ h.filterMap sessionCreated
  noted : ∀ c ∈ t.sessionClients.rows, (c.sid, c.clientId) ∈ h.filterMap codeNoted
  kept : ∀ s ∈ t.sessions.rows, ∀ clientId, (s.sid, clientId) ∈ h.filterMap codeNoted →
    ∃ c ∈ t.sessionClients.rows, c.sid = s.sid ∧ c.clientId = clientId

theorem ClientsNoted.step {e : CallEvent} {h : List CallEvent} {t t' : Tables}
    (hnoted : ClientsNoted h t) (hs : AnnouncedStep e t t') (hstored : Stored (e :: h) t')
    (hf : Fresh (e :: h)) : ClientsNoted (e :: h) t' where
  created := by
    intro n hn
    rcases mem_filterMap_cons.mp hn with he | hold
    · obtain ⟨s, hs, hsid⟩ := (hs.records n.1 n.2 he).session
      exact hsid ▸ hstored.sessions s hs
    · exact mem_filterMap_cons.mpr (.inr (hnoted.created n hold))
  noted := by
    intro c hc
    rcases hs.move.notes c hc with he | hold
    · exact mem_filterMap_cons.mpr (.inl he)
    · exact mem_filterMap_cons.mpr (.inr (hnoted.noted c hold))
  kept := by
    intro s hsm clientId hn
    rcases mem_filterMap_cons.mp hn with he | hold
    · exact (hs.records _ _ he).client
    have hnew : sessionCreated e ≠ some s.sid :=
      ne_of_nodup hf.sessions (fun _ hm => hm) (hnoted.created _ hold)
    rcases hs.move.origin s hsm with hcreated | ⟨old, holdm, hsid⟩
    · exact absurd hcreated hnew
    obtain ⟨c, hc, hcsid, hclient⟩ := hnoted.kept old holdm clientId (hsid ▸ hold)
    rcases hs.move.keeps c hc with hkept | hgone
    · exact ⟨c, hkept, hcsid.trans hsid, hclient⟩
    · exact absurd (hgone s hsm (hcsid.trans hsid).symm) hnew

theorem clientsNoted_after {sha256 : String → Bytes} {calls : List Call}
    (hf : Fresh (history sha256 calls)) :
    ClientsNoted (history sha256 calls) (after sha256 calls).tables := by
  induction calls with
  | nil => exact ⟨by simp, by simp [UserObject.fresh, Tables.empty],
      by simp [UserObject.fresh, Tables.empty]⟩
  | cons c calls ih =>
    exact (ih hf.tail).step (call_announced sha256 _ c) (stored_after sha256 (c :: calls)) hf

theorem mem_clientsOf {t : Tables} {sid clientId : String} :
    clientId ∈ t.clientsOf sid ↔ ∃ c ∈ t.sessionClients.rows, c.sid = sid ∧
      c.clientId = clientId := by
  simp [Tables.clientsOf, and_assoc]

theorem clientsOf_nodup (t : Tables) (sid : String) : (t.clientsOf sid).Nodup := by
  have hrows : ((t.sessionClients.rows.filter (·.sid == sid)).insertionSort
      Tables.clientLe).Nodup :=
    (List.perm_insertionSort _ _).nodup_iff.mpr (t.sessionClients.nodup.of_map _ |>.filter _)
  refine hrows.map_on fun a ha b hb heq => ?_
  obtain ⟨ha, hsid⟩ := List.mem_filter.mp ((List.mem_insertionSort _).mp ha)
  obtain ⟨hb, hsid'⟩ := List.mem_filter.mp ((List.mem_insertionSort _).mp hb)
  have hsids : a.sid = b.sid := (beq_iff_eq.mp hsid).trans (beq_iff_eq.mp hsid').symm
  exact Table.eq_of_key_eq ha hb (by rw [hsids, heq])

/-- What a call reveals of a session it announces: it was unrevoked before the call and is revoked
after it, and its clients are those the run so far issued a code to under it, each once. -/
structure AnnouncedFully (sha256 : String → Bytes) (earlier : List Call) (c : Call)
    (r : RevokedSession) : Prop where
  before : ∃ s ∈ (after sha256 earlier).tables.sessions.rows, s.sid = r.sid ∧ s.revokedAt = none
  after : ∃ s ∈ (after sha256 (c :: earlier)).tables.sessions.rows,
    s.sid = r.sid ∧ s.revokedAt.isSome
  nodup : r.clients.Nodup
  clients : ∀ clientId, clientId ∈ r.clients ↔
    (r.sid, clientId) ∈ (history sha256 earlier).filterMap codeNoted

theorem codeNoted_of_announced {e : CallEvent} {r : RevokedSession} (h : r ∈ announced e) :
    codeNoted e = none := by
  unfold announced Call.announced at h
  split at h
  · next hinput hreply => exact codeNoted_of hinput rfl
  · next hinput hreply => exact codeNoted_of hinput rfl
  · next hinput hreply => exact codeNoted_of hinput rfl
  · next hinput hreply => exact codeNoted_of hinput rfl
  · cases h

theorem announcedFully {sha256 : String → Bytes} {earlier : List Call} {c : Call}
    (hf : Fresh (history sha256 (c :: earlier))) {r : RevokedSession}
    (hr : r ∈ announced (Machine.event (UserObject.call sha256) (after sha256 earlier) c)) :
    AnnouncedFully sha256 earlier c r := by
  have hstep := call_announced sha256 (after sha256 earlier) c
  have hnoted := clientsNoted_after hf
  obtain ⟨s, hs, hsid, hrevoked⟩ := hstep.announces.after r hr
  have hclients := hstep.announces.clients r hr
  refine ⟨hstep.announces.before r hr, ⟨s, hs, hsid, hrevoked⟩, ?_, fun clientId => ?_⟩
  · rw [hclients]
    exact clientsOf_nodup _ _
  have hlast : (r.sid, clientId) ∈ (history sha256 (c :: earlier)).filterMap codeNoted ↔
      (r.sid, clientId) ∈ (history sha256 earlier).filterMap codeNoted := by
    have hnone := codeNoted_of_announced hr
    rw [history, Machine.events_cons, mem_filterMap_cons, hnone]
    simp
  rw [← hlast, hclients, mem_clientsOf]
  constructor
  · rintro ⟨row, hrow, hrsid, rfl⟩
    rw [← hrsid]
    exact hnoted.noted row hrow
  · intro hn
    rw [← hsid] at hn ⊢
    exact hnoted.kept s hs clientId hn

theorem Announces.dead {t t' : Tables} {list : List RevokedSession} (h : Announces t t' list)
    {sid : String} (hsid : sid ∈ list.map (·.sid)) : SessionDead sid t' := by
  obtain ⟨r, hr, rfl⟩ := List.mem_map.mp hsid
  obtain ⟨s, hs, hsr, hrevoked⟩ := h.after r hr
  intro s' hs' hsid'
  rwa [Table.eq_of_key_eq hs' hs (hsid'.trans hsr.symm)]

/-- The sessions announced so far were created in the run and are over. -/
theorem announced_dead {sha256 : String → Bytes} {calls : List Call}
    (hf : Fresh (history sha256 calls)) :
    ∀ sid ∈ (history sha256 calls).flatMap announcedSids,
      sid ∈ (history sha256 calls).filterMap sessionCreated ∧
        SessionDead sid (after sha256 calls).tables := by
  induction calls with
  | nil => simp
  | cons c calls ih =>
    intro sid hsid
    rw [history, Machine.events_cons, List.flatMap_cons, List.mem_append] at hsid
    have hstep := call_announced sha256 (after sha256 calls) c
    rcases hsid with hnow | hbefore
    · obtain ⟨r, hr, rfl⟩ := List.mem_map.mp hnow
      obtain ⟨s, hs, hsr, -⟩ := hstep.announces.before r hr
      have hcreated := (stored_after sha256 calls).sessions s hs
      exact ⟨mem_filterMap_cons.mpr (.inr (hsr ▸ hcreated)), hstep.announces.dead hnow⟩
    · obtain ⟨hcreated, hdead⟩ := ih hf.tail sid hbefore
      have hevolves := (call_evolves sha256 (after sha256 calls) c).sessions
      have hnew := ne_of_nodup hf.sessions (fun _ hm => hm) hcreated
      exact ⟨mem_filterMap_cons.mpr (.inr hcreated), hdead.step hevolves hnew⟩

theorem announced_nodup {sha256 : String → Bytes} {calls : List Call}
    (hf : Fresh (history sha256 calls)) :
    ((history sha256 calls).flatMap announcedSids).Nodup := by
  induction calls with
  | nil => simp
  | cons c calls ih =>
    rw [history, Machine.events_cons, List.flatMap_cons]
    have hstep := call_announced sha256 (after sha256 calls) c
    refine List.Nodup.append hstep.announces.nodup (ih hf.tail) ?_
    intro sid hnow hbefore
    -- A session announced before is over, and a call announces only what was not.
    obtain ⟨r, hr, rfl⟩ := List.mem_map.mp hnow
    obtain ⟨s, hs, hsr, hunrevoked⟩ := hstep.announces.before r hr
    have hdead := (announced_dead hf.tail r.sid hbefore).2 s hs hsr
    rw [hunrevoked] at hdead
    cases hdead

/-- A stored session that was revoked was announced, or ended by a reused refresh token. -/
theorem revoked_announced (sha256 : String → Bytes) (calls : List Call) :
    ∀ s ∈ (after sha256 calls).tables.sessions.rows, s.revokedAt.isSome →
      ∃ e ∈ history sha256 calls, EndedBy e s.sid := by
  induction calls with
  | nil => simp [UserObject.fresh, Tables.empty]
  | cons c calls ih =>
    intro s hs hrevoked
    rcases (call_announced sha256 (after sha256 calls) c).move.ends s hs hrevoked with
      hended | ⟨old, hold, hsid, hrevoked'⟩
    · exact ⟨_, List.mem_cons_self, hended⟩
    · obtain ⟨e, he, hended⟩ := ih old hold hrevoked'
      exact ⟨e, List.mem_cons_of_mem _ he, hsid ▸ hended⟩

/-- In a run of an object every ended session is announced once, when it is revoked and with the
clients that were issued a code under it, but for a session ended by a reused refresh token. -/
theorem sessions_announced_once (sha256 : String → Bytes) (calls : List Call)
    (hf : Fresh (history sha256 calls)) :
    ((history sha256 calls).flatMap announcedSids).Nodup ∧
    (∀ s ∈ (after sha256 calls).tables.sessions.rows, s.revokedAt.isSome →
      ∃ e ∈ history sha256 calls, EndedBy e s.sid) ∧
    ∀ later c earlier, calls = later ++ c :: earlier →
      ∀ r ∈ announced (Machine.event (UserObject.call sha256) (after sha256 earlier) c),
        AnnouncedFully sha256 earlier c r := by
  refine ⟨announced_nodup hf, revoked_announced sha256 calls, ?_⟩
  rintro later c earlier rfl r hr
  exact announcedFully (fresh_of_append hf) hr

namespace Sample

/-- A session with a client, ended alone, and one without, ended with every other. -/
def announcedCalls : List Call :=
  [.revokeAll 30 "logout", .revokeSession "s1" 20 "logout", login "s2" [5] 10 none,
    login "s1" [2] 0 (some (code [3])), init]

end Sample

theorem sessions_announced_once_sample :
    Fresh (history Sample.sha256 Sample.announcedCalls) ∧
    (history Sample.sha256 Sample.announcedCalls).map announced =
      [[⟨"s2", []⟩], [⟨"s1", ["app"]⟩], [], [], []] ∧
    ((history Sample.sha256 Sample.announcedCalls).flatMap announcedSids).Nodup := by
  have hf : Fresh (history Sample.sha256 Sample.announcedCalls) := by decide
  exact ⟨hf, by decide, (sessions_announced_once Sample.sha256 _ hf).1⟩

end TinyOidc.User
