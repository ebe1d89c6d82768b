import TinyOidc.User.SessionIdle

/-! When a session's user authenticated, in the answers of the calls that issue a code: what a
login writes, and what the session-hit path found and checked. -/
namespace TinyOidc.User
open RowTable

def LoginSession.context : LoginSession → AuthContext
  | .create session => session.auth
  | .rotate _ _ auth => auth

def LoginSession.sid : LoginSession → String
  | .create session => session.sid
  | .rotate sid _ _ => sid

/-- A code leaves the authentication time of every session. -/
theorem issueCodeRows_authTime {t t' : Tables} {code : CodeInput} {session : SessionRow}
    {now ttl : ℤ} (h : t.issueCodeRows code session now ttl = .ok t') (sid : String) :
    (t'.sessions.find sid).map SessionRow.authTime =
      (t.sessions.find sid).map SessionRow.authTime := by
  obtain ⟨codes, -, rfl⟩ := issueCodeRows_ok h
  unfold Tables.touchSession
  split
  · rfl
  · rw [Table.find_updateWhere, Option.map_map]
    change (t.sessions.find sid).map _ = _
    refine Option.map_congr fun row _ => ?_
    dsimp only [Function.comp]
    split <;> rfl

theorem issueOptional_authTime {t t' : Tables} {code : Option CodeInput} {session : SessionRow}
    {now ttl : ℤ} (h : UserObject.issueOptional t code session now ttl = .ok t') (sid : String) :
    (t'.sessions.find sid).map SessionRow.authTime =
      (t.sessions.find sid).map SessionRow.authTime := by
  cases code with
  | none =>
    cases h
    rfl
  | some code => exact issueCodeRows_authTime h sid

/-- The row that a call looks up again has the time of the row it found. -/
theorem authTime_getD {t : Tables} {sid : String} {session : SessionRow} {time : ℤ}
    (h : (t.sessions.find sid).map SessionRow.authTime = some time)
    (hsession : session.authTime = time) :
    (t.snapshot ((t.sessions.find sid).getD session)).authTime = time := by
  cases hfind : t.sessions.find sid with
  | none => exact hsession
  | some row => simpa [hfind, Tables.snapshot] using h

/-- A login answers with the authentication it wrote. -/
theorem finishLogin_authTime {t t' : Tables} {user : UserRow} {sid : String}
    {input : FinalizeLoginInput} {f : Finalized} {time : ℤ}
    (hwritten : (t.sessions.find sid).map SessionRow.authTime = some time)
    (h : UserObject.finishLogin t user sid input = .ok (t', .ok f)) :
    f.session.authTime = time := by
  unfold UserObject.finishLogin at h
  cases hfind : t.sessions.find sid with
  | none => simp [hfind] at hwritten
  | some session =>
    have htime : session.authTime = time := by simpa [hfind] using hwritten
    rw [hfind] at h
    dsimp only at h
    split at h
    · cases h
    · next issued hissued =>
      cases h
      exact authTime_getD ((issueOptional_authTime hissued sid).trans hwritten) htime

/-- A login writes the row of its session with its authentication, and then goes on. -/
theorem loginTransaction_written {t t' : Tables} {user : UserRow} {input : FinalizeLoginInput}
    {f : Finalized} (h : UserObject.loginTransaction t user input = .ok (t', .ok f)) :
    ∃ written, (written.sessions.find input.session.sid).map SessionRow.authTime =
        some input.session.context.authTime ∧
      UserObject.finishLogin written user input.session.sid input = .ok (t', .ok f) := by
  unfold UserObject.loginTransaction at h
  cases hsession : input.session with
  | create session =>
    rw [hsession] at h
    dsimp only at h
    split at h
    · cases h
    next created hcreated =>
    refine ⟨created, ?_, h⟩
    obtain ⟨sessions, hinsert, rfl⟩ := insertSession_ok hcreated
    have hmem : Tables.newSessionRow session input.now ∈ sessions.rows :=
      (Table.mem_insert hinsert).mpr (.inr rfl)
    have hfind : sessions.find session.sid = some (Tables.newSessionRow session input.now) :=
      Table.find_eq_some.mpr ⟨hmem, rfl⟩
    exact congrArg (Option.map SessionRow.authTime) hfind
  | rotate sid secretHash auth =>
    rw [hsession] at h
    dsimp only at h
    split at h
    · cases h
    next existing hfind =>
    split at h
    · cases h
    split at h
    · cases h
    next rotated hrotated =>
    refine ⟨rotated, ?_, h⟩
    obtain ⟨-, hsid⟩ := Table.find_eq_some.mp hfind
    rw [rotateSession_ok hrotated]
    dsimp only [LoginSession.sid]
    rw [Table.find_updateWhere, hfind]
    simp only [Option.map_some, hsid, beq_self_eq_true, if_true]
    rfl

theorem loginTransaction_of_ok {o : UserObject} {input : FinalizeLoginInput} {f : Finalized}
    (h : (o.finalizeLogin input).2 = .ok f) : ∃ user,
      UserObject.loginTransaction (purgedTables o input.now purgeGraceSeconds) user input =
        .ok ((o.finalizeLogin input).1.tables, .ok f) := by
  obtain ⟨-, hfail⟩ | ⟨user, ht⟩ := finalizeLogin_cases (Prod.ext rfl h : o.finalizeLogin input =
    ((o.finalizeLogin input).1, .ok f))
  · exact absurd rfl (hfail f)
  · exact ⟨user, ht⟩

theorem finalizeLogin_authTime {o : UserObject} {input : FinalizeLoginInput} {f : Finalized}
    (h : (o.finalizeLogin input).2 = .ok f) :
    f.session.authTime = input.session.context.authTime := by
  obtain ⟨user, ht⟩ := loginTransaction_of_ok h
  obtain ⟨written, hwritten, hfinish⟩ := loginTransaction_written ht
  exact finishLogin_authTime hwritten hfinish

theorem issueCodeRows_stored {t t' : Tables} {code : CodeInput} {session : SessionRow}
    {now ttl : ℤ} (h : t.issueCodeRows code session now ttl = .ok t') :
    Tables.codeRow code session now ∈ t'.authCodes.rows := by
  obtain ⟨codes, hcodes, rfl⟩ := issueCodeRows_ok h
  rw [(touchSession_sameBut _ session now ttl).1]
  exact (Table.mem_insert hcodes).mpr (.inr rfl)

/-- The stored code says when its user authenticated. -/
def CodeStored (t : Tables) (code : CodeInput) (authTime : ℤ) : Prop :=
  ∃ row ∈ t.authCodes.rows, row.secretHash = code.secretHash ∧ row.authTime = authTime

/-- The code of a login has the time of its authentication. -/
theorem finalizeLogin_stored {o : UserObject} {input : FinalizeLoginInput} {f : Finalized}
    (h : (o.finalizeLogin input).2 = .ok f) {code : CodeInput} (hcode : input.code = some code) :
    CodeStored (o.finalizeLogin input).1.tables code input.session.context.authTime := by
  obtain ⟨user, ht⟩ := loginTransaction_of_ok h
  obtain ⟨written, hwritten, hfinish⟩ := loginTransaction_written ht
  generalize (o.finalizeLogin input).1.tables = t' at hfinish ⊢
  unfold UserObject.finishLogin at hfinish
  obtain ⟨session, hfind, htime⟩ := Option.map_eq_some_iff.mp hwritten
  rw [hfind] at hfinish
  dsimp only at hfinish
  split at hfinish
  · cases hfinish
  next issued hissued =>
  cases hfinish
  rw [hcode] at hissued
  exact ⟨_, issueCodeRows_stored hissued, rfl, htime⟩

/-- The session is good enough for a request: no login is asked for, and it is recent enough. -/
structure Suffices (promptLogin : Bool) (maxAge : Option ℤ) (authTime now : ℤ) : Prop where
  unprompted : promptLogin = false
  recent : ∀ age, maxAge = some age → now < authTime + age

theorem suffices_of_not {promptLogin : Bool} {maxAge : Option ℤ} {session : SessionRow} {now : ℤ}
    (h : ¬ (promptLogin || UserObject.authTooOld session maxAge now) = true) :
    Suffices promptLogin maxAge session.authTime now := by
  simp only [Bool.or_eq_true, not_or, Bool.not_eq_true] at h
  refine ⟨h.1, fun age hage => ?_⟩
  have hrecent := h.2
  rw [UserObject.authTooOld, hage, Option.any_some, decide_eq_false_iff_not, not_le] at hrecent
  exact hrecent

/-- The session-hit path answers with the presented session, and unless it asks for a login it
found that session good enough. -/
theorem authorizeWithSession_live {o : UserObject} {input : AuthorizeWithSessionInput}
    {a : Authorized} (h : (o.authorizeWithSession input).2 = .ok a) :
    ∃ s, o.tables.liveSession input.sid input.secretHash input.now = some s ∧
      a.session.sid = s.sid ∧ a.session.authTime = s.authTime ∧ (a.outcome ≠ .loginRequired →
        Suffices input.promptLogin input.maxAge s.authTime input.now) := by
  generalize hx : o.authorizeWithSession input = x at h
  obtain ⟨o', r⟩ := x
  obtain ⟨-, err, rfl⟩ | ⟨user, -, hb⟩ := guarded_cases hx
  · cases h
  split at hb
  · cases hb
    cases h
  next session hlive =>
  refine ⟨session, hlive, ?_⟩
  obtain ⟨hm, hsid, -, hlives⟩ := liveSession_eq_some hlive
  rcases ite_eq_iff.mp hb with ⟨-, hb⟩ | ⟨-, hb⟩
  · cases hb
    cases h
  rcases ite_eq_iff.mp hb with ⟨-, hb⟩ | ⟨-, hb⟩
  · cases hb
    cases h
  rcases ite_eq_iff.mp hb with ⟨-, hb⟩ | ⟨-, hb⟩
  · cases hb
    cases h
  rcases ite_eq_iff.mp hb with ⟨-, hb⟩ | ⟨hforced, hb⟩
  · cases hb
    cases h
    exact ⟨rfl, rfl, fun hout => absurd rfl hout⟩
  have hsuffices := suffices_of_not hforced
  rcases ite_eq_iff.mp hb with ⟨-, hb⟩ | ⟨-, hb⟩
  · cases hb
    cases h
    exact ⟨rfl, rfl, fun _ => hsuffices⟩
  split at hb
  · cases hb
    cases h
    exact ⟨rfl, rfl, fun _ => hsuffices⟩
  next code hcode =>
  dsimp only at hb
  split at hb
  · cases hb
    cases h
  next t hissued =>
  cases hb
  cases h
  have hconsent := consentCovered_sameCore o.tables input
  have hpurged : session ∈ (authorizeTables o input).sessions.rows := by
    apply mem_purgeIfDue_sessions_of_live _ hlives
    rw [UserObject.store, hconsent.sessions]
    exact hm
  have hfound := Table.find_eq_some.mpr ⟨hpurged, rfl⟩
  have htime := (issueCodeRows_authTime hissued session.sid).trans
    (congrArg (Option.map SessionRow.authTime) hfound)
  refine ⟨?_, authTime_getD htime rfl, fun _ => hsuffices⟩
  cases hafter : t.sessions.find session.sid with
  | none => rfl
  | some row => exact (Table.find_eq_some.mp hafter).2

theorem authorizeWithSession_found {o : UserObject} {input : AuthorizeWithSessionInput}
    {a : Authorized} (h : (o.authorizeWithSession input).2 = .ok a) :
    a.session.sid = input.sid ∧ (a.outcome ≠ .loginRequired →
      Suffices input.promptLogin input.maxAge a.session.authTime input.now) := by
  obtain ⟨s, hlive, hsid, htime, hsuffices⟩ := authorizeWithSession_live h
  rw [hsid, htime]
  exact ⟨(liveSession_eq_some hlive).2.1, hsuffices⟩

/-- The code of the session-hit path has the time of the session it answers with. -/
theorem authorizeWithSession_stored {o : UserObject} {input : AuthorizeWithSessionInput}
    {a : Authorized} (h : (o.authorizeWithSession input).2 = .ok a) (hout : a.outcome = .authorized)
    {code : CodeInput} (hcode : input.code = some code) :
    CodeStored (o.authorizeWithSession input).1.tables code a.session.authTime := by
  obtain ⟨s, hlive, -, htime, -⟩ := authorizeWithSession_live h
  obtain ⟨-, hnone⟩ | ⟨user, session, code', a', hcommit, -⟩ := authorizeWithSession_cases
    (Prod.ext rfl h : o.authorizeWithSession input = ((o.authorizeWithSession input).1, .ok a))
  · rw [hnone a rfl hout] at hcode
    cases hcode
  · cases hlive.symm.trans hcommit.live
    cases hcode.symm.trans hcommit.requested
    exact ⟨_, issueCodeRows_stored hcommit.written, rfl, htime.symm⟩

/-! ### The authentication of a stored session -/

/-- The authentication that a call writes, with the session it writes it to. -/
def authWritten : Call → Option (String × ℤ)
  | .finalizeLogin input => some (input.session.sid, input.session.context.authTime)
  | _ => none

/-- A session has its authentication from before, or the one that is written. -/
def Authenticated (written : Option (String × ℤ)) (t t' : Tables) : Prop :=
  ∀ s ∈ t'.sessions.rows, written = some (s.sid, s.authTime) ∨
    ∃ old ∈ t.sessions.rows, old.sid = s.sid ∧ old.authTime = s.authTime

namespace Authenticated
variable {written : Option (String × ℤ)} {t t' t'' : Tables}

theorem of_subset (h : t'.sessions.rows ⊆ t.sessions.rows) : Authenticated written t t' :=
  fun s hs => .inr ⟨s, h hs, rfl, rfl⟩

theorem of_eq (h : t'.sessions = t.sessions) : Authenticated written t t' := by
  apply of_subset
  rw [h]
  exact List.Subset.refl _

theorem trans (h : Authenticated written t t') (h' : Authenticated written t' t'') :
    Authenticated written t t'' := by
  intro s hs
  rcases h' s hs with hnew | ⟨old, hold, hsid, htime⟩
  · exact .inl hnew
  · rw [← hsid, ← htime]
    exact h old hold

theorem updateSessions {p : SessionRow → Bool} {f : SessionRow → SessionRow}
    (hsid : ∀ s, (f s).sid = s.sid) (htime : ∀ s, (f s).authTime = s.authTime)
    (h : t'.sessions = t.sessions.updateWhere p f hsid) : Authenticated written t t' := by
  intro s hs
  rw [h] at hs
  obtain ⟨old, hold, ⟨-, rfl⟩ | ⟨-, rfl⟩⟩ := Table.exists_of_mem_update hs
  · exact .inr ⟨_, hold, rfl, rfl⟩
  · exact .inr ⟨old, hold, (hsid old).symm, (htime old).symm⟩

theorem touchSession (t : Tables) (row : SessionRow) (now ttl : ℤ) :
    Authenticated written t (t.touchSession row now ttl) := by
  unfold Tables.touchSession
  split
  · exact of_eq rfl
  · exact updateSessions (p := (·.sid == row.sid))
      (f := fun r => { r with
        lastSeenAt := now, idleExpiresAt := min (now + ttl) row.absoluteExpiresAt })
      (fun _ => rfl) (fun _ => rfl) rfl

/-- Only a login writes an authentication. -/
theorem change {e : CallEvent} (hcall : ∀ input, e.input ≠ .finalizeLogin input)
    (h : Change e t t') : Authenticated written t t' := by
  cases h with
  | aside h => exact of_eq h.sessions
  | writeUser h => exact of_eq rfl
  | clear h => exact of_subset (List.nil_subset _)
  | purge h => exact of_subset Table.deleteWhere_subset
  | revokeSessions p now reason =>
    exact updateSessions (p := fun s => p s && s.revokedAt.isNone)
      (f := fun s => { s with revokedAt := some now, revokeReason := some reason })
      (fun _ => rfl) (fun _ => rfl) rfl
  | revokeFamilies p now reason => exact of_eq rfl
  | dropFamily id => exact of_eq rfl
  | createSession h hc hg =>
    unfold sessionCreated at hc
    split at hc
    · next input f hinput hreply => exact absurd hinput (hcall input)
    · cases hc
  | rotateSession hr hm h => exact absurd hr.call (hcall _)
  | touchSession idleTtl hm hl hn => exact touchSession t _ _ _
  | issueCode h hn hs hc => exact of_eq rfl
  | consumeCode now hc => exact of_eq rfl
  | openFamily hf ht hid hs hu hcode hm hc hi => exact of_eq rfl
  | advanceFamily hm hu h hi => exact of_eq (advanceFamily_sessions h)

theorem finishLogin {user : UserRow} {sid : String} {input : FinalizeLoginInput}
    {r : Outcome Finalized} (h : UserObject.finishLogin t user sid input = .ok (t', r)) :
    Authenticated written t t' := by
  unfold UserObject.finishLogin at h
  split at h
  · cases h
    exact of_eq rfl
  next session hfind =>
  split at h
  · cases h
  next issued hissued =>
  cases h
  unfold UserObject.issueOptional at hissued
  split at hissued
  · cases hissued
    exact of_eq rfl
  · next code _ =>
    obtain ⟨codes, -, rfl⟩ := issueCodeRows_ok hissued
    have hnoted : Authenticated written t
        (({ t with authCodes := codes }).noteClient session.sid code.clientId input.now) :=
      of_eq rfl
    exact hnoted.trans (touchSession _ session input.now input.sessionIdleTtl)

theorem loginTransaction {user : UserRow} {input : FinalizeLoginInput} {r : Outcome Finalized}
    (h : UserObject.loginTransaction t user input = .ok (t', r)) :
    Authenticated (some (input.session.sid, input.session.context.authTime)) t t' := by
  unfold UserObject.loginTransaction at h
  cases hsession : input.session with
  | create session =>
    rw [hsession] at h
    dsimp only at h
    split at h
    · cases h
    next created hcreated =>
    refine trans ?_ (finishLogin h)
    obtain ⟨sessions, hinsert, rfl⟩ := insertSession_ok hcreated
    intro s hs
    rcases (Table.mem_insert hinsert).mp hs with hold | rfl
    · exact .inr ⟨s, hold, rfl, rfl⟩
    · exact .inl rfl
  | rotate sid secretHash auth =>
    rw [hsession] at h
    dsimp only at h
    split at h
    · cases h
      exact of_eq rfl
    next existing hfind =>
    split at h
    · cases h
      exact of_eq rfl
    split at h
    · cases h
    next rotated hrotated =>
    refine trans ?_ (finishLogin h)
    obtain ⟨-, hsid⟩ := Table.find_eq_some.mp hfind
    rw [rotateSession_ok hrotated]
    intro s hs
    obtain ⟨old, hold, ⟨-, rfl⟩ | ⟨hp, rfl⟩⟩ := Table.exists_of_mem_update hs
    · exact .inr ⟨_, hold, rfl, rfl⟩
    · have hold' : old.sid = sid := (beq_iff_eq.mp hp).trans hsid
      exact .inl (by rw [← hold']; rfl)

end Authenticated

/-- What every call does to the authentications of the sessions. -/
theorem call_authenticated (sha256 : String → Bytes) (o : UserObject) (c : Call) :
    Authenticated (authWritten c) o.tables (o.call sha256 c).1.tables := by
  by_cases hlogin : ∃ input, c = .finalizeLogin input
  · obtain ⟨input, rfl⟩ := hlogin
    change Authenticated _ _ (o.finalizeLogin input).1.tables
    obtain ⟨hsame, -⟩ | ⟨user, ht⟩ := finalizeLogin_cases (Prod.ext rfl rfl :
      o.finalizeLogin input = ((o.finalizeLogin input).1, (o.finalizeLogin input).2))
    · exact .of_eq (by rw [hsame])
    · exact Authenticated.trans (.of_subset purgedTables_sessions_subset) (.loginTransaction ht)
  · have hcall : ∀ input,
        (Machine.event (UserObject.call sha256) o c).input ≠ .finalizeLogin input :=
      fun input h => hlogin ⟨input, h⟩
    have hrefl : Authenticated (authWritten c) o.tables o.tables := .of_eq rfl
    exact (call_changes sha256 o c).preserves (fun _ _ hchange h => h.trans (.change hcall hchange))
      hrefl

/-- Only the end of a checked assertion accepts it, and only with a valid signature. -/
theorem resumed_of_accepted {sha256 : String → Bytes} {o : UserObject} {call : Call}
    {profile : UserProfile} {passkey : PasskeyRow}
    (h : (o.call sha256 call).2 = .assertion (.done (.ok profile passkey))) :
    ∃ suspended counter, call = .resumeAssertion suspended (some counter) := by
  cases call with
  | resumeAssertion suspended verified =>
    cases verified with
    | some counter => exact ⟨suspended, counter, rfl⟩
    | none =>
      exfalso
      simp only [UserObject.call, answered, UserObject.resumeAssertion] at h
      split at h <;> cases h
  | verifyAssertion credentialId now =>
    exfalso
    simp only [UserObject.call, answered, UserObject.verifyAssertion, UserObject.guarded] at h
    split at h
    · cases h
    · split at h <;> cases h
  | resumeExchange suspended =>
    exfalso
    simp only [UserObject.call, answered] at h
    cases hresult : (o.resumeExchange suspended).2 <;> rw [hresult] at h <;> cases h
  | _ => cases h

end TinyOidc.User
