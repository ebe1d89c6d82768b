import TinyOidc.User.CodeRows
import TinyOidc.User.Commits
import TinyOidc.User.Origins

/-! Whose family a stored row is: the client it was opened for, that client's creation time and
the code it came from stay with it, and a revoked grant leaves no family of its client live. -/
namespace TinyOidc.User
open RowTable

/-- What stays with a family, and that a revocation of it stays. -/
structure FamilyRow.SameOrigin (f f' : FamilyRow) : Prop where
  id : f'.id = f.id
  client : f'.clientId = f.clientId
  incarnation : f'.clientCreatedAt = f.clientCreatedAt
  code : f'.codeSecretHash = f.codeSecretHash
  unrevoked : f'.revokedAt = none → f.revokedAt = none

theorem FamilyRow.SameOrigin.refl (f : FamilyRow) : f.SameOrigin f :=
  ⟨rfl, rfl, rfl, rfl, fun h => h⟩

theorem FamilyRow.SameOrigin.trans {a b c : FamilyRow} (h : a.SameOrigin b)
    (h' : b.SameOrigin c) : a.SameOrigin c :=
  ⟨h'.id.trans h.id, h'.client.trans h.client, h'.incarnation.trans h.incarnation,
    h'.code.trans h.code, h.unrevoked ∘ h'.unrevoked⟩

def OriginsStay (e : CallEvent) (t t' : Tables) : Prop :=
  t.refreshFamilies.Evolves FamilyRow.SameOrigin (fun f => familyOpened e = some f.id)
    t'.refreshFamilies

theorem Change.originsStay {e : CallEvent} {t t' : Tables} (h : Change e t t') :
    OriginsStay e t t' := by
  have hrefl := FamilyRow.SameOrigin.refl
  cases h with
  | aside h => exact .of_eq hrefl h.families
  | writeUser h => exact .refl hrefl
  | clear h => exact Table.evolves_empty
  | purge h => exact Table.evolves_deleteWhere hrefl _
  | revokeSessions p now reason => exact .refl hrefl
  | revokeFamilies p now reason =>
    refine Table.evolves_update hrefl rfl fun f hf => ⟨rfl, rfl, rfl, rfl, ?_⟩
    intro hnone
    cases hnone
  | dropFamily id => exact Table.evolves_deleteWhere hrefl _
  | createSession h hc hg =>
    obtain ⟨sessions, _, rfl⟩ := insertSession_ok h
    exact .refl hrefl
  | rotateSession hr hm h =>
    rw [rotateSession_ok h]
    exact .refl hrefl
  | touchSession idleTtl hm hl hn => exact .of_eq hrefl (touchSession_sameBut _ _ _ _).2.1
  | issueCode h hn hs hc => exact .refl hrefl
  | consumeCode now hc => exact .refl hrefl
  | openFamily hf ht hid hs hu hcode hm hc hi => exact Table.evolves_insert hrefl hf hc
  | advanceFamily hm hu h hi =>
    obtain ⟨tokens, _, rfl⟩ := advanceFamily_ok h
    exact Table.evolves_update hrefl rfl fun f _ => ⟨rfl, rfl, rfl, rfl, fun h => h⟩

theorem Changes.originsStay {e : CallEvent} {t t' : Tables} (h : Changes e t t') :
    OriginsStay e t t' := by
  induction h with
  | refl => exact .refl FamilyRow.SameOrigin.refl
  | tail _ hc ih => exact ih.trans .trans (fun hl hn => by rw [hl.id]; exact hn) hc.originsStay

theorem call_originsStay (sha256 : String → Bytes) (o : UserObject) (c : Call) :
    OriginsStay (Machine.event (UserObject.call sha256) o c) o.tables
      (o.call sha256 c).1.tables :=
  (call_changes sha256 o c).originsStay

theorem exchangeRun_of_commit {e : CallEvent} {user : UserRow} {challenge : Option String}
    {input : ExchangeCodeInput} (h : exchangeCommit e = some (user, challenge, input)) :
    exchangeRun e = some input := by
  unfold exchangeCommit at h
  split at h
  next input' hinput =>
    split at h
    · cases h
      simp [exchangeRun, hinput]
    · cases h
  next call hinput =>
    split at h
    next input' user' challenge' hlookup =>
      rcases ite_eq_iff.mp h with ⟨_, h⟩ | ⟨_, h⟩
      · cases h
      · cases h
        simp [exchangeRun, hinput, hlookup]
    · cases h
  · cases h

/-- The row of the family an exchange opened names the presenting client and the code. -/
theorem opened_origin {sha256 : String → Bytes} {o : UserObject} {c : Call} {f : FamilyRow}
    (h : familyOpened (Machine.event (UserObject.call sha256) o c) = some f.id)
    (hf : f ∈ (o.call sha256 c).1.tables.refreshFamilies.rows) :
    ∃ input, exchangeSucceeded (Machine.event (UserObject.call sha256) o c) = some input ∧
      input.refresh.isSome ∧ f.clientId = input.client.clientId ∧
      f.clientCreatedAt = input.client.createdAt ∧ f.codeSecretHash = some input.secretHash := by
  obtain ⟨input, hin, hopened⟩ := Option.bind_eq_some_iff.mp h
  obtain ⟨r, hr, hid⟩ := Option.map_eq_some_iff.mp hopened
  obtain ⟨user, challenge, code, session, _, _, hw, _⟩ := exchangeSucceeded_commit hin
  simp only [ExchangeWrote, hr] at hw
  obtain ⟨families, tokens, hins, _, htables⟩ := openFamily_ok hw
  rw [htables, limitFamilies_eq] at hf
  have hnew : ∀ g ∈ families.rows, g.id = f.id →
      g = Tables.newFamilyRow input r code session := by
    intro g hg hgid
    rcases (Table.mem_insert hins).mp hg with hold | rfl
    · exact absurd (hgid.trans hid.symm) (Table.key_notMem_of_insert hins g hold)
    · rfl
  refine ⟨input, hin, by simp [hr], ?_⟩
  obtain ⟨g, hg, ⟨_, rfl⟩ | ⟨_, rfl⟩⟩ := Table.exists_of_mem_update hf
  · rw [hnew f hg rfl]
    exact ⟨rfl, rfl, rfl⟩
  · have hrow := hnew g hg rfl
    subst hrow
    exact ⟨rfl, rfl, rfl⟩

/-! ### Revoked grants -/

def LiveFamiliesFrom (clientId : String) (codes : List Bytes) (t : Tables) : Prop :=
  ∀ f ∈ t.refreshFamilies.rows, f.clientId = clientId → ∀ now, Tables.familyLive now f = true →
    ∃ x ∈ codes, f.codeSecretHash = some x

/-- A step whose exchange passes its checks with a code among `codes` and asks for a family. -/
def OpensFrom (clientId : String) (codes : List Bytes) (e : CallEvent) : Prop :=
  ∃ user challenge input code session, exchangeCommit e = some (user, challenge, input) ∧
    Exchangeable (purgedTables e.pre input.now purgeGraceSeconds) user challenge input code
      session ∧
    input.refresh.isSome ∧ code.clientId = clientId ∧ code.secretHash ∈ codes

/-- As `LiveFamiliesFrom`, for the unrevoked families: what steps keep. -/
def UnrevokedFrom (clientId : String) (codes : List Bytes) (t : Tables) : Prop :=
  ∀ f ∈ t.refreshFamilies.rows, f.clientId = clientId → f.revokedAt = none →
    ∃ x ∈ codes, f.codeSecretHash = some x

theorem UnrevokedFrom.live {clientId : String} {codes : List Bytes} {t : Tables}
    (h : UnrevokedFrom clientId codes t) : LiveFamiliesFrom clientId codes t := by
  intro f hf hclient now hlive
  simp only [Tables.familyLive, Bool.and_eq_true, Option.isNone_iff_eq_none] at hlive
  exact h f hf hclient hlive.1.1

/-- `revokeGrant` leaves no family of its client unrevoked. -/
theorem unrevokedFrom_revokeGrant {o : UserObject} {clientId : String} {now : ℤ} {revoked : Bool}
    (h : (o.revokeGrant clientId now).2 = .ok revoked) :
    UnrevokedFrom clientId [] (o.revokeGrant clientId now).1.tables := by
  generalize hx : o.revokeGrant clientId now = x at h ⊢
  obtain ⟨o', r⟩ := x
  obtain ⟨_, err, rfl⟩ | ⟨user, _, hb⟩ := guarded_cases hx
  · cases h
  cases hb
  intro f hf hclient hnone
  obtain ⟨g, hg, ⟨hp, rfl⟩ | ⟨_, rfl⟩⟩ := Table.exists_of_mem_update hf
  · simp [hclient, hnone] at hp
  · cases hnone

/-- One later step: a new family of the client comes from a stored code that is not consumed. -/
theorem UnrevokedFrom.step_of_codes {sha256 : String → Bytes} {clientId : String}
    {since : List Bytes} {o : UserObject} {c : Call} (h : UnrevokedFrom clientId since o.tables)
    (hcodes : ∀ user challenge input code session,
      exchangeCommit (Machine.event (UserObject.call sha256) o c) = some (user, challenge, input) →
      Exchangeable (purgedTables o input.now purgeGraceSeconds) user challenge input code session →
      input.refresh.isSome → code.clientId = clientId → code.secretHash ∈ since) :
    UnrevokedFrom clientId since (o.call sha256 c).1.tables := by
  intro f hf hclient hnone
  rcases call_originsStay sha256 o c f hf with ⟨g, hg, hsame⟩ | hopened
  · rw [hsame.code]
    exact h g hg (hsame.client.symm.trans hclient) (hsame.unrevoked hnone)
  · obtain ⟨input, hin, hrefresh, hfc, _, hcode⟩ := opened_origin hopened hf
    obtain ⟨user, challenge, code, session, hcommit, hx, _⟩ := exchangeSucceeded_commit hin
    refine ⟨input.secretHash, ?_, hcode⟩
    rw [← hx.secret]
    exact hcodes user challenge input code session hcommit hx hrefresh
      (hx.client.trans (hfc.symm.trans hclient))

theorem UnrevokedFrom.step {sha256 : String → Bytes} {clientId : String}
    {since earlier : List Bytes} {o : UserObject} {c : Call}
    (h : UnrevokedFrom clientId since o.tables)
    (hstored : ∀ k ∈ o.tables.authCodes.rows, k.secretHash ∈ since ∨ k.secretHash ∈ earlier)
    (hq : ¬ OpensFrom clientId earlier (Machine.event (UserObject.call sha256) o c)) :
    UnrevokedFrom clientId since (o.call sha256 c).1.tables := by
  apply h.step_of_codes
  intro user challenge input code session hcommit hx hrefresh hclient
  rcases hstored code (purgedTables_codes_subset hx.code_mem) with hsince | hearlier
  · exact hsince
  · exact absurd ⟨user, challenge, input, code, session, hcommit, hx, hrefresh, hclient, hearlier⟩
      hq

theorem UnrevokedFrom.mono {clientId : String} {codes codes' : List Bytes} {t : Tables}
    (h : UnrevokedFrom clientId codes t) (hsub : codes ⊆ codes') :
    UnrevokedFrom clientId codes' t := by
  intro f hf hclient hnone
  obtain ⟨x, hx, hcode⟩ := h f hf hclient hnone
  exact ⟨x, hsub hx, hcode⟩

/-- After `revokeGrant`, as long as no exchange opens a family from a code of the client issued
before, its live families come from codes issued after. -/
theorem revoked_grant_final_of_no_earlier_code (sha256 : String → Bytes) (later earlier : List Call)
    (clientId : String) (now : ℤ) (revoked : Bool)
    (hr : ((after sha256 earlier).call sha256 (.revokeGrant clientId now)).2 = .flag (.ok revoked))
    (hq : ∀ e ∈ Machine.events (UserObject.call sha256)
        (after sha256 (.revokeGrant clientId now :: earlier)) later,
      ¬ OpensFrom clientId ((history sha256 earlier).filterMap codeIssued) e) :
    LiveFamiliesFrom clientId
      ((Machine.events (UserObject.call sha256)
        (after sha256 (.revokeGrant clientId now :: earlier)) later).filterMap codeIssued)
      (after sha256 (later ++ .revokeGrant clientId now :: earlier)).tables := by
  apply UnrevokedFrom.live
  induction later with
  | nil => exact unrevokedFrom_revokeGrant (Reply.flag.inj hr)
  | cons c later ih =>
    have hrest := ih fun e he => hq e (List.mem_cons_of_mem _ he)
    have hlast := hq _ List.mem_cons_self
    rw [← Machine.after_append] at hlast
    -- The stored codes were issued since the revocation or before it.
    have hstored : ∀ k ∈ (after sha256 (later ++ .revokeGrant clientId now ::
          earlier)).tables.authCodes.rows,
        k.secretHash ∈ (Machine.events (UserObject.call sha256)
          (after sha256 (.revokeGrant clientId now :: earlier)) later).filterMap codeIssued ∨
        k.secretHash ∈ (history sha256 earlier).filterMap codeIssued := by
      intro k hk
      have hissued := (stored_after sha256 _).codes k hk
      rw [history, Machine.events_append, List.filterMap_append, List.mem_append] at hissued
      exact hissued
    exact (hrest.step hstored hlast).mono fun x hx => mem_filterMap_cons.mpr (.inr hx)

theorem revokeGrant_authCodes (o : UserObject) (clientId : String) (now : ℤ) :
    (o.revokeGrant clientId now).1.tables.authCodes = o.tables.authCodes := by
  generalize hx : o.revokeGrant clientId now = x
  obtain ⟨o', r⟩ := x
  obtain ⟨rfl, -⟩ | ⟨user, _, hb⟩ := guarded_cases hx
  · rfl
  · cases hb
    rfl

/-- A code that an exchange from a time on can still redeem. -/
def Outstanding (now : ℤ) (k : CodeRow) : Prop :=
  k.consumedAt = none ∧ now < k.expiresAt

theorem CodeRow.Later.outstanding {k k' : CodeRow} (h : k.Later k') {now now' : ℤ}
    (hk : Outstanding now' k') (hnow : now ≤ now') : Outstanding now k := by
  have hunconsumed : k.consumedAt = none := by
    by_contra hne
    have hs := h.consumed (Option.isSome_iff_ne_none.mpr hne)
    rw [hk.1] at hs
    cases hs
  have hexpiry : k'.expiresAt = k.expiresAt := by rw [h.row]
  exact ⟨hunconsumed, hexpiry ▸ lt_of_le_of_lt hnow hk.2⟩

/-- Where no code of the client is outstanding at the revocation, its live families come from codes
issued after, whatever is called then at later times. -/
theorem revoked_grant_final_of_none_outstanding (sha256 : String → Bytes)
    (later earlier : List Call) (clientId : String) (now : ℤ) (revoked : Bool)
    (hr : ((after sha256 earlier).call sha256 (.revokeGrant clientId now)).2 = .flag (.ok revoked))
    (hnone : ∀ k ∈ (after sha256 earlier).tables.authCodes.rows, k.clientId = clientId →
      ¬ Outstanding now k)
    (hclock : ∀ e ∈ Machine.events (UserObject.call sha256)
        (after sha256 (.revokeGrant clientId now :: earlier)) later,
      ∀ x ∈ exchangeCommit e, now ≤ x.2.2.now) :
    LiveFamiliesFrom clientId
      ((Machine.events (UserObject.call sha256)
        (after sha256 (.revokeGrant clientId now :: earlier)) later).filterMap codeIssued)
      (after sha256 (later ++ .revokeGrant clientId now :: earlier)).tables := by
  apply UnrevokedFrom.live
  induction later with
  | nil => exact unrevokedFrom_revokeGrant (Reply.flag.inj hr)
  | cons c later ih =>
    have hlast := hclock _ List.mem_cons_self
    rw [← Machine.after_append] at hlast
    refine ((ih fun e he => hclock e (List.mem_cons_of_mem _ he)).step_of_codes ?_).mono
      fun x hx => mem_filterMap_cons.mpr (.inr hx)
    intro user challenge input code session hcommit hx _ hclient
    have hmem := purgedTables_codes_subset hx.code_mem
    rw [show after sha256 (later ++ .revokeGrant clientId now :: earlier) = _ from
      Machine.after_append _ _ _ _] at hmem
    rcases codes_since sha256 _ later code hmem with ⟨old, hold, hlater⟩ | ⟨e, he, hissued, -⟩
    · -- A code from before the revocation was not outstanding then.
      have hstored : old ∈ (after sha256 earlier).tables.authCodes.rows := by
        rw [← revokeGrant_authCodes _ clientId now]
        exact hold
      have hsame : old.clientId = clientId := by rw [← hclient, hlater.row]
      have hnow : now ≤ input.now := hlast _ hcommit
      exact absurd (hlater.outstanding ⟨hx.unconsumed, hx.unexpired⟩ hnow)
        (hnone old hstored hsame)
    · exact List.mem_filterMap.mpr ⟨e, he, hissued⟩

/-- The run of a user who consents to a client, logs in for it and revokes the consent, the
code issued at the login still outstanding. -/
def Sample.consentRevoked : List Call :=
  [.revokeGrant "app" 5, Sample.login "s1" [2] 0 (some (Sample.code [1])),
    .grantConsent { Sample.client with skipConsent := false } ["openid", "offline_access"] 0,
    Sample.init]

theorem revoked_grant_final_sample :
    LiveFamiliesFrom "app" [[9]] (after Sample.sha256
      ([Sample.exchange [9] 20 (some (Sample.refresh "f2" [6] true)),
        Sample.login "s2" [8] 15 (some (Sample.code [9]))] ++ Sample.consentRevoked)).tables := by
  refine revoked_grant_final_of_no_earlier_code Sample.sha256
    [Sample.exchange [9] 20 (some (Sample.refresh "f2" [6] true)),
      Sample.login "s2" [8] 15 (some (Sample.code [9]))] _ "app" 5 true (by decide) ?_
  rintro e he ⟨user, challenge, input, code, session, hcommit, hx, _, _, hcode⟩
  rcases List.mem_cons.mp he with rfl | he
  · cases exchangeRun_of_commit hcommit
    rw [hx.secret] at hcode
    revert hcode
    decide
  · rcases List.mem_cons.mp he with rfl | he
    · cases exchangeRun_of_commit hcommit
    · cases he

/-- The outstanding code opens a family after the revocation. -/
theorem revoked_grant_outlived_by_code :
    ((after Sample.sha256 Sample.consentRevoked.tail).call Sample.sha256
      (.revokeGrant "app" 5)).2 = .flag (.ok true) ∧
    ¬ LiveFamiliesFrom "app"
      ((Machine.events (UserObject.call Sample.sha256)
        (after Sample.sha256 Sample.consentRevoked)
        [Sample.exchange [1] 10 (some (Sample.refresh "f1" [5] true))]).filterMap codeIssued)
      (after Sample.sha256
        (Sample.exchange [1] 10 (some (Sample.refresh "f1" [5] true)) ::
          Sample.consentRevoked)).tables := by
  refine ⟨by decide, ?_⟩
  rw [show (Machine.events (UserObject.call Sample.sha256) (after Sample.sha256
      Sample.consentRevoked) [Sample.exchange [1] 10
        (some (Sample.refresh "f1" [5] true))]).filterMap codeIssued = [] by decide]
  intro h
  obtain ⟨x, hx, _⟩ := h
    { id := "f1", clientId := "app", clientCreatedAt := 5, codeSecretHash := some [1]
      kind := .offline, sid := none, scope := ["openid", "offline_access"], authTime := 0
      amr := ["user", "hwk"], acr := "urn:tinyoidc:acr:passkey", createdAt := 10
      absoluteExpiresAt := 8640010, idleExpiresAt := 864010, currentSerial := 1
      revokedAt := none, revokeReason := none } (by decide) rfl 11 (by decide)
  cases hx

end TinyOidc.User
