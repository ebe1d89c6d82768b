import TinyOidc.User.Refresh

/-! What calls that refuse leave behind (`src/do/UserDO.ts`). An error returned inside a transaction
does not roll it back, so every check stands before the writes it guards; the purge at the start
of a transaction is all that a refusal may leave done. -/
namespace TinyOidc.User
open RowTable

/-! ### What the purge spares -/

/-- A family of the tables, usable at a time, with its current token and its session. -/
structure TokenStands (t : Tables) (family : FamilyRow) (token : TokenRow) (time : ℤ) : Prop where
  sound : SerialsSound t
  family_mem : family ∈ t.refreshFamilies.rows
  unrevoked : family.revokedAt = none
  absolute : time < family.absoluteExpiresAt
  idle : time < family.idleExpiresAt
  token : CurrentToken t family token
  bound : ∀ sid, family.sid = some sid → ∃ s ∈ t.sessions.rows, s.sid = sid ∧ s.live time

/-- A code of the tables, unconsumed and unexpired, with its session, which may be past its expiry
but not for as long as the purge waits. -/
structure CodeStands (t : Tables) (code : CodeRow) (session : SessionRow) (time : ℤ) : Prop where
  code_mem : code ∈ t.authCodes.rows
  unexpired : time < code.expiresAt
  session_mem : session ∈ t.sessions.rows
  session_sid : session.sid = code.sid
  kept : Tables.sessionGone (time - purgeGraceSeconds) session = false

section Purge
variable {t : Tables} {now w time : ℤ}

theorem mem_purge_families_of_live {f : FamilyRow} (hm : f ∈ t.refreshFamilies.rows)
    (hr : f.revokedAt = none) (ha : now < f.absoluteExpiresAt) (hi : now < f.idleExpiresAt) :
    f ∈ (t.purge now w).refreshFamilies.rows ∧
      Tables.familyGone (now - purgeGraceSeconds) f = false := by
  have ha' : ¬ f.absoluteExpiresAt < now - purgeGraceSeconds := by unfold purgeGraceSeconds; omega
  have hi' : ¬ f.idleExpiresAt < now - purgeGraceSeconds := by unfold purgeGraceSeconds; omega
  have hgone : Tables.familyGone (now - purgeGraceSeconds) f = false := by
    simp [Tables.familyGone, hr, ha', hi']
  exact ⟨Table.mem_deleteWhere.mpr ⟨hm, hgone⟩, hgone⟩

/-- A purge no later than the time leaves what is usable then. -/
theorem TokenStands.purge {family : FamilyRow} {token : TokenRow}
    (h : TokenStands t family token time) (hnow : now ≤ time) :
    TokenStands (t.purge now w) family token time := by
  obtain ⟨hmem, hgone⟩ := mem_purge_families_of_live (w := w) h.family_mem h.unrevoked
    (lt_of_le_of_lt hnow h.absolute) (lt_of_le_of_lt hnow h.idle)
  have hcodes : SerialsSound (t.purgeCodes now) := h.sound.congr rfl rfl
  have hspared : token ∈ ((t.purgeCodes now).purgeTokens (now - w)).refreshTokens.rows :=
    Table.mem_deleteWhere.mpr ⟨h.token.1, hcodes.not_consumedBefore h.family_mem h.token _⟩
  have htoken : token ∈ (t.purge now w).refreshTokens.rows :=
    SerialsSound.mem_deleteFamilies (t := (t.purgeCodes now).purgeTokens (now - w)) h.family_mem
      hgone hspared h.token.2.1
  constructor
  · exact h.sound.purge now w
  · exact hmem
  · exact h.unrevoked
  · exact h.absolute
  · exact h.idle
  · exact ⟨htoken, h.token.2⟩
  · intro sid hsid
    obtain ⟨s, hs, hk, hl⟩ := h.bound sid hsid
    have hearlier : s.live now :=
      ⟨hl.1, lt_of_le_of_lt hnow hl.2.1, lt_of_le_of_lt hnow hl.2.2⟩
    exact ⟨s, mem_purge_sessions_of_live hs hearlier, hk, hl⟩

theorem CodeStands.purge {code : CodeRow} {session : SessionRow}
    (h : CodeStands t code session time) (hnow : now ≤ time) :
    CodeStands (t.purge now w) code session time := by
  have hcode : ¬ code.expiresAt < now := by
    have := h.unexpired
    omega
  have hkept : Tables.sessionGone (now - purgeGraceSeconds) session = false := by
    have hgone := h.kept
    unfold Tables.sessionGone purgeGraceSeconds at hgone ⊢
    simp only [Bool.or_eq_false_iff, decide_eq_false_iff_not] at hgone ⊢
    obtain ⟨⟨hrevoked, habsolute⟩, hidle⟩ := hgone
    refine ⟨⟨?_, by omega⟩, by omega⟩
    cases hat : session.revokedAt with
    | none => rfl
    | some at' =>
      simp only [hat, Option.any_some, decide_eq_false_iff_not] at hrevoked ⊢
      omega
  constructor
  · exact Table.mem_deleteWhere.mpr ⟨h.code_mem, by simpa using hcode⟩
  · exact h.unexpired
  · exact Table.mem_deleteWhere.mpr ⟨h.session_mem, hkept⟩
  · exact h.session_sid
  · exact h.kept

end Purge

/-! ### Transactions on tables that hold what they read -/

section Congr
variable {t u t' : Tables} {user : UserRow}

/-- A rotation that succeeds on tables succeeds on others that hold the same family, token and
session, and where the new secret is new. -/
theorem rotateTransaction_ok_congr {input : RotateRefreshInput} {grant : GrantContext} {serial : ℕ}
    {kind : FamilyKind} (h : t.rotateTransaction user input = .ok (t', .ok grant serial kind))
    (hfamily : u.refreshFamilies.find input.familyId = t.refreshFamilies.find input.familyId)
    (htoken : u.refreshTokens.find (input.familyId, input.secretHash) =
      t.refreshTokens.find (input.familyId, input.secretHash))
    (hbound : ∀ family ∈ t.refreshFamilies.rows, family.id = input.familyId →
      u.boundSessionLive family input.now = t.boundSessionLive family input.now)
    (hfresh : ∀ k ∈ u.refreshTokens.rows,
      (k.familyId, k.secretHash) ≠ (input.familyId, input.newSecretHash)) :
    ∃ u', u.rotateTransaction user input = .ok (u', .ok grant serial kind) := by
  unfold Tables.rotateTransaction at h ⊢
  rw [hfamily]
  cases hfind : t.refreshFamilies.find input.familyId with
  | none =>
    rw [hfind] at h
    cases h
  | some family =>
    obtain ⟨hmem, hid⟩ := Table.find_eq_some.mp hfind
    rw [hfind] at h
    dsimp only at h ⊢
    rw [hid, htoken, hbound family hmem hid]
    rw [hid] at h
    rcases ite_eq_iff.mp h with ⟨_, h⟩ | ⟨hr, h⟩
    · cases h
    rw [if_neg hr]
    rcases ite_eq_iff.mp h with ⟨_, h⟩ | ⟨he, h⟩
    · cases h
    rw [if_neg he]
    rcases ite_eq_iff.mp h with ⟨_, h⟩ | ⟨hc, h⟩
    · cases h
    rw [if_neg hc]
    rcases ite_eq_iff.mp h with ⟨_, h⟩ | ⟨hi, h⟩
    · cases h
    rw [if_neg hi]
    cases htok : t.refreshTokens.find (input.familyId, input.secretHash) with
    | none =>
      rw [htok] at h
      cases h
    | some token =>
      rw [htok] at h
      dsimp only at h ⊢
      rcases ite_eq_iff.mp h with ⟨_, h⟩ | ⟨hlt, h⟩
      · have hreply := revokeReused_reply t family input.now
        obtain ⟨clients, hreply⟩ := hreply
        rw [Except.ok.inj h] at hreply
        cases hreply
      rw [if_neg hlt]
      rcases ite_eq_iff.mp h with ⟨_, h⟩ | ⟨hne, h⟩
      · cases h
      rw [if_neg hne]
      rcases ite_eq_iff.mp h with ⟨_, h⟩ | ⟨hd, h⟩
      · cases h
      rw [if_neg hd]
      rcases ite_eq_iff.mp h with ⟨_, h⟩ | ⟨hal, h⟩
      · cases h
      rw [if_neg hal]
      rcases ite_eq_iff.mp h with ⟨_, h⟩ | ⟨hb, h⟩
      · cases h
      rw [if_neg hb]
      cases hscope : Tables.rotatedScope family input.requestedScope with
      | none =>
        rw [hscope] at h
        cases h
      | some scope =>
        rw [hscope] at h
        dsimp only at h ⊢
        rcases ite_eq_iff.mp h with ⟨_, h⟩ | ⟨hadmin, h⟩
        · cases h
        rw [if_neg hadmin]
        have hinsert : ∃ tokens, u.refreshTokens.insert
            ⟨family.id, input.newSecretHash, family.currentSerial + 1, input.now⟩ =
              some tokens := by
          apply Table.insert_isSome_of_key_notMem
          intro k hk
          rw [hid]
          exact hfresh k hk
        obtain ⟨tokens, htokens⟩ := hinsert
        have hadvance : ∃ advanced,
            u.advanceFamily family input.newSecretHash input.now input.idleTtl = .ok advanced := by
          unfold Tables.advanceFamily
          rw [htokens]
          exact ⟨_, rfl⟩
        obtain ⟨advanced, hadvance⟩ := hadvance
        rw [hadvance]
        split at h
        · cases h
        · cases h
          exact ⟨_, rfl⟩

/-- An exchange that succeeds on tables succeeds on others that hold the same code and session, and
where the family it opens is new. -/
theorem exchangeTransaction_ok_congr {challenge : Option String} {input : ExchangeCodeInput}
    {grant : GrantContext} {nonce familyId : Option String} {kind : Option FamilyKind}
    (h : t.exchangeTransaction user challenge input = .ok (t', .ok grant nonce familyId kind))
    (hcode : u.authCodes.find input.secretHash = t.authCodes.find input.secretHash)
    (hsession : ∀ code ∈ t.authCodes.rows, code.secretHash = input.secretHash →
      u.sessions.find code.sid = t.sessions.find code.sid)
    (hfresh : ∀ r, input.refresh = some r → (∀ f ∈ u.refreshFamilies.rows, f.id ≠ r.familyId) ∧
      ∀ k ∈ u.refreshTokens.rows, (k.familyId, k.secretHash) ≠ (r.familyId, r.secretHash)) :
    ∃ u', u.exchangeTransaction user challenge input = .ok (u', .ok grant nonce familyId kind) := by
  unfold Tables.exchangeTransaction at h ⊢
  rw [hcode]
  cases hfind : t.authCodes.find input.secretHash with
  | none =>
    rw [hfind] at h
    cases h
  | some code =>
    obtain ⟨hmem, hhash⟩ := Table.find_eq_some.mp hfind
    rw [hfind] at h
    dsimp only at h ⊢
    rw [hsession code hmem hhash]
    rcases ite_eq_iff.mp h with ⟨_, h⟩ | ⟨hcons, h⟩
    · cases h
    rw [if_neg hcons]
    rcases ite_eq_iff.mp h with ⟨_, h⟩ | ⟨hexp, h⟩
    · cases h
    rw [if_neg hexp]
    rcases ite_eq_iff.mp h with ⟨_, h⟩ | ⟨hcl, h⟩
    · cases h
    rw [if_neg hcl]
    rcases ite_eq_iff.mp h with ⟨_, h⟩ | ⟨hred, h⟩
    · cases h
    rw [if_neg hred]
    rcases ite_eq_iff.mp h with ⟨_, h⟩ | ⟨hch, h⟩
    · cases h
    rw [if_neg hch]
    rcases ite_eq_iff.mp h with ⟨_, h⟩ | ⟨hd, h⟩
    · cases h
    rw [if_neg hd]
    rcases ite_eq_iff.mp h with ⟨_, h⟩ | ⟨hal, h⟩
    · cases h
    rw [if_neg hal]
    rcases ite_eq_iff.mp h with ⟨_, h⟩ | ⟨hadmin, h⟩
    · cases h
    rw [if_neg hadmin]
    cases hses : t.sessions.find code.sid with
    | none =>
      rw [hses] at h
      cases h
    | some session =>
      rw [hses] at h
      dsimp only at h ⊢
      rcases ite_eq_iff.mp h with ⟨_, h⟩ | ⟨hrev, h⟩
      · cases h
      rw [if_neg hrev]
      cases hrefresh : input.refresh with
      | none =>
        rw [hrefresh] at h
        cases h
        exact ⟨_, rfl⟩
      | some r =>
        obtain ⟨hfamilies, htokens⟩ := hfresh r hrefresh
        rw [hrefresh] at h
        dsimp only at h ⊢
        have hopened : ∃ opened,
            (u.consumeCode input.secretHash input.now).openFamily input r code session =
              .ok opened := by
          obtain ⟨families, hf⟩ := Table.insert_isSome_of_key_notMem
            (t := (u.consumeCode input.secretHash input.now).refreshFamilies)
            (r := Tables.newFamilyRow input r code session) hfamilies
          obtain ⟨tokens, hk⟩ := Table.insert_isSome_of_key_notMem
            (t := (u.consumeCode input.secretHash input.now).refreshTokens)
            (r := ⟨r.familyId, r.secretHash, 1, input.now⟩) htokens
          unfold Tables.openFamily
          rw [hf]
          dsimp only
          rw [hk]
          exact ⟨_, rfl⟩
        obtain ⟨opened, hopened⟩ := hopened
        rw [hopened]
        split at h
        · cases h
        · cases h
          exact ⟨_, rfl⟩

end Congr

/-- A login that fails in its transaction has written nothing: once its session row is written, it
finds it. -/
theorem loginTransaction_refused {t t' : Tables} {user : UserRow} {input : FinalizeLoginInput}
    {err : UserDoError} (h : UserObject.loginTransaction t user input = .ok (t', .fail err)) :
    t' = t := by
  unfold UserObject.loginTransaction at h
  split at h
  next session hses =>
    split at h
    · cases h
    next created hins =>
      obtain ⟨sessions, hsessions, rfl⟩ := insertSession_ok hins
      obtain ⟨f, hf⟩ := finishLogin_succeeds h
        ⟨_, (Table.mem_insert hsessions).mpr (.inr rfl), rfl⟩
      cases hf
  next sid secretHash auth hses =>
    split at h
    · cases h
      rfl
    next existing hfind =>
      obtain ⟨hm, hk⟩ := Table.find_eq_some.mp hfind
      rcases ite_eq_iff.mp h with ⟨-, h⟩ | ⟨-, h⟩
      · cases h
        rfl
      split at h
      · cases h
      next rotated hrot =>
        have hrow : ∃ s ∈ rotated.sessions.rows, s.sid = sid := by
          rw [rotateSession_ok hrot]
          refine ⟨_, List.mem_map.mpr ⟨existing, hm, rfl⟩, ?_⟩
          split <;> exact hk
        obtain ⟨f, hf⟩ := finishLogin_succeeds h hrow
        cases hf

/-! ### Objects that are as they were, but for a purge -/

/-- The object as it was, or purged at the time because a purge was due. -/
structure OnlyPurged (o o' : UserObject) (now : ℤ) : Prop where
  destroyed : o'.destroyed = o.destroyed
  tables : (o'.tables = o.tables ∧ o'.lastPurgeAt = o.lastPurgeAt) ∨
    (o.lastPurgeAt.any (fun last => now - last < purgeIntervalSeconds) = false ∧
      ∃ w, o'.tables = o.tables.purge now w ∧ o'.lastPurgeAt = some now)

section OnlyPurged
variable {o o' : UserObject} {now time w : ℤ}

theorem OnlyPurged.refl (o : UserObject) (now : ℤ) : OnlyPurged o o now :=
  ⟨rfl, .inl ⟨rfl, rfl⟩⟩

theorem onlyPurged_purgeIfDue (o : UserObject) (now w : ℤ) :
    OnlyPurged o (o.purgeIfDue now w) now := by
  constructor
  · unfold UserObject.purgeIfDue
    split <;> rfl
  · by_cases hrecent : o.lastPurgeAt.any (fun last => now - last < purgeIntervalSeconds) = true
    · left
      have hsame : o.purgeIfDue now w = o := if_pos hrecent
      rw [hsame]
      exact ⟨rfl, rfl⟩
    · right
      refine ⟨by simpa using hrecent, w, ?_⟩
      have hpurged : o.purgeIfDue now w =
        { o with lastPurgeAt := some now, tables := o.tables.purge now w } := if_neg hrecent
      rw [hpurged]
      exact ⟨rfl, rfl⟩

/-- A purge that is due stays due. -/
theorem purgeDue_later (hdue : o.lastPurgeAt.any
    (fun last => now - last < purgeIntervalSeconds) = false) (hle : now ≤ time) :
    o.lastPurgeAt.any (fun last => time - last < purgeIntervalSeconds) = false := by
  cases hlast : o.lastPurgeAt with
  | none => rfl
  | some last =>
    simp only [hlast, Option.any_some, decide_eq_false_iff_not] at hdue ⊢
    omega

/-- What a later transaction finds: the same as without the refusal, or what one purge or two
have left. -/
theorem OnlyPurged.later (h : OnlyPurged o o' now) (hle : now ≤ time) :
    purgedTables o' time w = purgedTables o time w ∨
      (purgedTables o time w = o.tables.purge time w ∧ ∃ v,
        (purgedTables o' time w = o.tables.purge now v ∨
          purgedTables o' time w = (o.tables.purge now v).purge time w)) := by
  unfold purgedTables
  rw [purgeIfDue_tables, purgeIfDue_tables]
  rcases h.tables with ⟨htables, hlast⟩ | ⟨hdue, v, htables, hlast⟩
  · left
    rw [htables, hlast]
  · right
    have hdue' := purgeDue_later hdue hle
    refine ⟨if_neg (by simp [hdue']), v, ?_⟩
    rw [htables]
    split
    · exact .inl rfl
    · exact .inr rfl

theorem OnlyPurged.user (h : OnlyPurged o o' now) : o'.tables.user = o.tables.user := by
  rcases h.tables with ⟨htables, -⟩ | ⟨-, v, htables, -⟩
  · rw [htables]
  · rw [htables]
    rfl

theorem OnlyPurged.guard (h : OnlyPurged o o' now) : o'.guard = o.guard := by
  unfold UserObject.guard
  rw [h.destroyed, h.user]

/-- Rows of the tables a later transaction finds were there before the refusal. -/
theorem OnlyPurged.subset (h : OnlyPurged o o' now) :
    o'.tables.refreshFamilies.rows ⊆ o.tables.refreshFamilies.rows ∧
      o'.tables.refreshTokens.rows ⊆ o.tables.refreshTokens.rows := by
  rcases h.tables with ⟨htables, -⟩ | ⟨-, v, htables, -⟩
  · rw [htables]
    exact ⟨fun _ hm => hm, fun _ hm => hm⟩
  · rw [htables]
    exact ⟨Table.deleteWhere_subset,
      fun _ hm => Table.deleteWhere_subset (Table.deleteWhere_subset hm)⟩

/-- A rotation that would have succeeded before the refusal succeeds after it. -/
theorem OnlyPurged.rotate_ok (h : OnlyPurged o o' now) (hsound : SerialsSound o.tables)
    {input : RotateRefreshInput} (hle : now ≤ input.now)
    (hfresh : ∀ k ∈ o.tables.refreshTokens.rows,
      (k.familyId, k.secretHash) ≠ (input.familyId, input.newSecretHash))
    {grant : GrantContext} {serial : ℕ} {kind : FamilyKind}
    (hok : (o.rotateRefreshToken input).2 = .ok grant serial kind) :
    (o'.rotateRefreshToken input).2 = .ok grant serial kind := by
  unfold UserObject.rotateRefreshToken UserObject.guarded at hok ⊢
  rw [h.guard]
  cases hguard : o.guard with
  | error err =>
    rw [hguard] at hok
    cases hok
  | ok user =>
    rw [hguard] at hok
    dsimp only at hok ⊢
    rcases purging_cases o input.now input.reuseWindow RotateOutcome.thrown
      (fun t => t.rotateTransaction user input) with ⟨t, r, ht, hp⟩ | ⟨err, -, hp⟩
    swap
    · rw [hp] at hok
      cases hok
    rw [hp] at hok
    dsimp only at hok
    subst hok
    obtain ⟨-, _, hr⟩ | ⟨-, -, hr⟩ | ⟨family, token, -, -, hreused⟩ |
      ⟨family, token, scope, hrotated, -⟩ := rotateTransaction_cases ht
    · cases hr
    · cases hr
    · obtain ⟨clients, hreply⟩ :=
        revokeReused_reply (o.purgeIfDue input.now input.reuseWindow).tables family input.now
      rw [hreused] at hreply
      cases hreply
    have hp := hrotated.presented
    -- The rows the transaction read stood before the purge, so they stand after any.
    have hstands : TokenStands o.tables family token input.now := by
      constructor
      · exact hsound
      · exact purgedTables_families_subset hp.family_mem
      · exact hp.unrevoked
      · exact hp.absolute
      · exact hp.idle
      · exact ⟨purgedTables_tokens_subset hp.token_mem, hp.token_family, hrotated.current⟩
      · intro sid hsid
        obtain ⟨s, hs, hk, hl⟩ := boundSessionLive_session hrotated.bound hsid
        exact ⟨s, purgedTables_sessions_subset hs, hk, hl⟩
    have hlater : ∃ u, (purgedTables o' input.now input.reuseWindow).rotateTransaction user input =
        .ok (u, .ok grant serial kind) := by
      rcases h.later (w := input.reuseWindow) hle with hsame | ⟨-, v, hpurged⟩
      · exact ⟨t, hsame ▸ ht⟩
      have hstands' : TokenStands (purgedTables o' input.now input.reuseWindow) family token
          input.now := by
        rcases hpurged with heq | heq
        · rw [heq]
          exact hstands.purge hle
        · rw [heq]
          exact (hstands.purge hle).purge (le_refl _)
      apply rotateTransaction_ok_congr ht
      · rw [Table.find_eq_some.mpr ⟨hstands'.family_mem, hp.family_id⟩]
        exact (Table.find_eq_some.mpr ⟨hp.family_mem, hp.family_id⟩).symm
      · have hkey : (token.familyId, token.secretHash) = (input.familyId, input.secretHash) := by
          rw [hp.token_family, hp.family_id, hp.secret]
        rw [Table.find_eq_some.mpr ⟨hstands'.token.1, hkey⟩]
        exact (Table.find_eq_some.mpr ⟨hp.token_mem, hkey⟩).symm
      · intro family' hmem hid
        have hfamily : family' = family :=
          Table.eq_of_key_eq hmem hp.family_mem (hid.trans hp.family_id.symm)
        rw [hfamily]
        have hbound : (purgedTables o' input.now input.reuseWindow).boundSessionLive family
            input.now = true := by
          unfold Tables.boundSessionLive
          cases hsid : family.sid with
          | none => rfl
          | some sid =>
            obtain ⟨s, hs, hk, hr, hi, ha⟩ := hstands'.bound sid hsid
            dsimp only
            rw [Table.find_eq_some.mpr ⟨hs, hk⟩]
            simp [hr, hi, ha]
        rw [hbound]
        exact hrotated.bound.symm
      · intro k hk
        exact hfresh k (h.subset.2 (purgedTables_tokens_subset hk))
    obtain ⟨u, hu⟩ := hlater
    unfold UserObject.purging
    unfold purgedTables at hu
    dsimp only
    rw [hu]

/-- An exchange that would have succeeded before the refusal succeeds after it. -/
theorem OnlyPurged.exchange_ok (h : OnlyPurged o o' now) {user : UserRow}
    {challenge : Option String} {input : ExchangeCodeInput} (hle : now ≤ input.now)
    (hfresh : ∀ r, input.refresh = some r →
      (∀ f ∈ o.tables.refreshFamilies.rows, f.id ≠ r.familyId) ∧
        ∀ k ∈ o.tables.refreshTokens.rows, (k.familyId, k.secretHash) ≠ (r.familyId, r.secretHash))
    {grant : GrantContext} {nonce familyId : Option String} {kind : Option FamilyKind}
    (hok : (o.commitExchange user challenge input).2 = .ok grant nonce familyId kind) :
    (o'.commitExchange user challenge input).2 = .ok grant nonce familyId kind := by
  unfold UserObject.commitExchange at hok ⊢
  rcases purging_cases o input.now purgeGraceSeconds ExchangeOutcome.thrown
    (fun t => t.exchangeTransaction user challenge input) with ⟨t, r, ht, hp⟩ | ⟨err, -, hp⟩
  swap
  · rw [hp] at hok
    cases hok
  rw [hp] at hok
  dsimp only at hok
  subst hok
  obtain ⟨-, _, hr⟩ | ⟨_, -, -, -, -, hr⟩ | ⟨code, session, _, _, _, hx, -, -⟩ :=
    exchangeTransaction_cases ht
  · cases hr
  · cases hr
  have hlater : ∃ u, (purgedTables o' input.now purgeGraceSeconds).exchangeTransaction user
      challenge input = .ok (u, .ok grant nonce familyId kind) := by
    rcases h.later (w := purgeGraceSeconds) hle with hsame | ⟨hbefore, v, hpurged⟩
    · exact ⟨t, hsame ▸ ht⟩
    have hkept : Tables.sessionGone (input.now - purgeGraceSeconds) session = false := by
      have hmem : session ∈ (o.tables.purge input.now purgeGraceSeconds).sessions.rows :=
        hbefore ▸ hx.session_mem
      exact (Table.mem_deleteWhere.mp hmem).2
    have hstands : CodeStands o.tables code session input.now := by
      constructor
      · exact purgedTables_codes_subset hx.code_mem
      · exact hx.unexpired
      · exact purgedTables_sessions_subset hx.session_mem
      · exact hx.session_sid
      · exact hkept
    have hstands' : CodeStands (purgedTables o' input.now purgeGraceSeconds) code session
        input.now := by
      rcases hpurged with heq | heq
      · rw [heq]
        exact hstands.purge hle
      · rw [heq]
        exact (hstands.purge hle).purge (le_refl _)
    apply exchangeTransaction_ok_congr ht
    · rw [Table.find_eq_some.mpr ⟨hstands'.code_mem, hx.secret⟩]
      exact (Table.find_eq_some.mpr ⟨hx.code_mem, hx.secret⟩).symm
    · intro code' hmem hhash
      have hcode : code' = code :=
        Table.eq_of_key_eq hmem hx.code_mem (hhash.trans hx.secret.symm)
      rw [hcode, Table.find_eq_some.mpr ⟨hstands'.session_mem, hx.session_sid⟩]
      exact (Table.find_eq_some.mpr ⟨hx.session_mem, hx.session_sid⟩).symm
    · intro r hr
      obtain ⟨hfamilies, htokens⟩ := hfresh r hr
      constructor
      · intro f hf
        exact hfamilies f (h.subset.1 (purgedTables_families_subset hf))
      · intro k hk
        exact htokens k (h.subset.2 (purgedTables_tokens_subset hk))
  obtain ⟨u, hu⟩ := hlater
  unfold UserObject.purging
  unfold purgedTables at hu
  dsimp only
  rw [hu]

end OnlyPurged

/-! ### The refusals -/

/-- A step that refuses a rotation other than for reuse or a stale incarnation, an exchange other
than a replay, or a login; with the purge of its transaction, and whether it came to it. -/
inductive Refusal (e : CallEvent) : ℤ → ℤ → Prop → Prop
  | rotation {input : RotateRefreshInput} {err : UserDoError}
      (hc : e.input = .rotateRefreshToken input) (hr : e.reply = .rotate (.fail err false none))
      (hs : ¬ StaleIncarnation e.pre.tables input) :
      Refusal e input.now input.reuseWindow (∃ user, e.pre.guard = .ok user)
  | exchange {input : ExchangeCodeInput} {err : UserDoError} (hc : exchangeRun e = some input)
      (hr : e.reply = .exchange (.done (.fail err false))) :
      Refusal e input.now purgeGraceSeconds ((exchangeCommit e).isSome = true)
  | login {input : FinalizeLoginInput} {err : UserDoError} (hc : e.input = .finalizeLogin input)
      (hr : e.reply = .login (.fail err)) :
      Refusal e input.now purgeGraceSeconds (LoginAllowed e input)

/-- What a refusal leaves: the purged tables when it came to its transaction, the tables as they
were when it did not. -/
structure LeavesPurged (o o' : UserObject) (now w : ℤ) (reached : Prop) : Prop where
  purged : reached → o'.tables = purgedTables o now w
  untouched : ¬ reached → o'.tables = o.tables
  only : OnlyPurged o o' now

section Refusals
variable {o : UserObject} {now w : ℤ} {reached : Prop}

theorem leavesPurged_unreached (h : ¬ reached) : LeavesPurged o o now w reached :=
  ⟨fun hreached => absurd hreached h, fun _ => rfl, .refl o now⟩

theorem leavesPurged_reached (h : reached) :
    LeavesPurged o ((o.purgeIfDue now w).store (o.purgeIfDue now w).tables) now w reached :=
  ⟨fun _ => rfl, fun hnot => absurd h hnot, onlyPurged_purgeIfDue o now w⟩

theorem StaleIncarnation.of_purged {input : RotateRefreshInput}
    (h : StaleIncarnation (purgedTables o now w) input) : StaleIncarnation o.tables input := by
  obtain ⟨family, hmem, hstale⟩ := h
  exact ⟨family, purgedTables_families_subset hmem, hstale⟩

theorem rotateRefreshToken_refused {input : RotateRefreshInput} {err : UserDoError}
    (h : (o.rotateRefreshToken input).2 = .fail err false none)
    (hs : ¬ StaleIncarnation o.tables input) :
    LeavesPurged o (o.rotateRefreshToken input).1 input.now input.reuseWindow
      (∃ user, o.guard = .ok user) := by
  generalize hx : o.rotateRefreshToken input = x at h ⊢
  obtain ⟨o', r⟩ := x
  dsimp only at h ⊢
  subst h
  unfold UserObject.rotateRefreshToken UserObject.guarded at hx
  cases hguard : o.guard with
  | error e =>
    rw [hguard] at hx
    cases hx
    apply leavesPurged_unreached
    simp
  | ok user =>
    rw [hguard] at hx
    dsimp only at hx
    rcases purging_cases o input.now input.reuseWindow RotateOutcome.thrown
      (fun t => t.rotateTransaction user input) with ⟨t, r, ht, hp⟩ | ⟨e, -, hp⟩
    · rw [hp] at hx
      obtain ⟨rfl, rfl⟩ := Prod.mk.inj hx
      obtain ⟨rfl, -⟩ | ⟨hstale, -, -⟩ | ⟨family, token, -, -, hreused⟩ |
        ⟨family, token, scope, -, hr⟩ := rotateTransaction_cases ht
      · exact leavesPurged_reached ⟨user, rfl⟩
      · exact absurd hstale.of_purged hs
      · obtain ⟨clients, hreply⟩ :=
          revokeReused_reply (o.purgeIfDue input.now input.reuseWindow).tables family input.now
        rw [hreused] at hreply
        cases hreply
      · cases hr
    · rw [hp] at hx
      cases (Prod.mk.inj hx).2

theorem finalizeLogin_refused {input : FinalizeLoginInput} {err : UserDoError}
    (h : (o.finalizeLogin input).2 = .fail err) :
    LeavesPurged o (o.finalizeLogin input).1 input.now purgeGraceSeconds
      (∃ user, o.guard = .ok user ∧ user.disabledAt = none ∧
        (input.client.any fun c => !allowed user c) = false ∧
        (input.code.any fun c => !adminAllowed user c.scope) = false) := by
  generalize hx : o.finalizeLogin input = x at h ⊢
  obtain ⟨o', r⟩ := x
  dsimp only at h ⊢
  subst h
  unfold UserObject.finalizeLogin UserObject.guarded at hx
  cases hguard : o.guard with
  | error e =>
    rw [hguard] at hx
    cases hx
    apply leavesPurged_unreached
    simp
  | ok user =>
    rw [hguard] at hx
    dsimp only at hx
    rcases ite_eq_iff.mp hx with ⟨hd, hx⟩ | ⟨hd, hx⟩
    · cases hx
      apply leavesPurged_unreached
      rintro ⟨user', huser, henabled, -⟩
      cases huser
      simp [henabled] at hd
    rcases ite_eq_iff.mp hx with ⟨hal, hx⟩ | ⟨hal, hx⟩
    · cases hx
      apply leavesPurged_unreached
      rintro ⟨user', huser, -, hallowed, -⟩
      cases huser
      simp [hallowed] at hal
    rcases ite_eq_iff.mp hx with ⟨had, hx⟩ | ⟨had, hx⟩
    · cases hx
      apply leavesPurged_unreached
      rintro ⟨user', huser, -, -, hadmin⟩
      cases huser
      simp [hadmin] at had
    have hreached : ∃ user', (.ok user : Except UserDoError UserRow) = .ok user' ∧
        user'.disabledAt = none ∧ (input.client.any fun c => !allowed user' c) = false ∧
        (input.code.any fun c => !adminAllowed user' c.scope) = false :=
      ⟨user, rfl, by simpa using hd, by simpa using hal, by simpa using had⟩
    rcases purging_cases o input.now purgeGraceSeconds Outcome.thrown
      (fun t => UserObject.loginTransaction t user input) with ⟨t, r, ht, hp⟩ | ⟨e, -, hp⟩
    · rw [hp] at hx
      obtain ⟨rfl, rfl⟩ := Prod.mk.inj hx
      have hsame : t = (o.purgeIfDue input.now purgeGraceSeconds).tables :=
        loginTransaction_refused ht
      rw [hsame]
      exact leavesPurged_reached hreached
    · rw [hp] at hx
      cases (Prod.mk.inj hx).2

theorem commitExchange_refused {user : UserRow} {challenge : Option String}
    {input : ExchangeCodeInput} {err : UserDoError} (hreached : reached)
    (h : (o.commitExchange user challenge input).2 = .fail err false) :
    LeavesPurged o (o.commitExchange user challenge input).1 input.now purgeGraceSeconds
      reached := by
  unfold UserObject.commitExchange at h ⊢
  rcases purging_cases o input.now purgeGraceSeconds ExchangeOutcome.thrown
    (fun t => t.exchangeTransaction user challenge input) with ⟨t, r, ht, hp⟩ | ⟨e, -, hp⟩
  · rw [hp] at h ⊢
    dsimp only at h ⊢
    subst h
    obtain ⟨rfl, -⟩ | ⟨_, -, -, -, -, hr⟩ | ⟨_, _, _, _, _, -, -, hr⟩ :=
      exchangeTransaction_cases ht
    · exact leavesPurged_reached hreached
    · cases hr
    · cases hr
  · rw [hp] at h
    cases h

/-- A call suspended does not matter to what its resumption leaves. -/
theorem LeavesPurged.of_resumed {o' : UserObject} {suspended : List (ℕ × Suspended)}
    (h : LeavesPurged { o with suspended := suspended } o' now w reached) :
    LeavesPurged o o' now w reached where
  purged hreached := (h.purged hreached).trans (purgedTables_resumed o suspended now w)
  untouched := h.untouched
  only := ⟨h.only.destroyed, h.only.tables⟩

theorem exchange_refused {sha256 : String → Bytes} {c : Call} {input : ExchangeCodeInput}
    {err : UserDoError} (hc : exchangeRun (Machine.event (UserObject.call sha256) o c) = some input)
    (hr : (o.call sha256 c).2 = .exchange (.done (.fail err false))) :
    LeavesPurged o (o.call sha256 c).1 input.now purgeGraceSeconds
      ((exchangeCommit (Machine.event (UserObject.call sha256) o c)).isSome = true) := by
  unfold exchangeRun at hc
  dsimp only [Machine.event_input, Machine.event_pre] at hc
  split at hc
  next input' =>
    cases hc
    have hreply : (o.exchangeCode sha256 input).2 = .done (.fail err false) :=
      Reply.exchange.inj hr
    show LeavesPurged o (o.exchangeCode sha256 input).1 _ _ _
    unfold UserObject.exchangeCode at hreply ⊢
    cases hguard : o.guard with
    | error e =>
      apply leavesPurged_unreached
      simp [exchangeCommit, hguard]
    | ok user =>
      rw [hguard] at hreply
      cases hverifier : input.codeVerifier.filter pkceVerifier with
      | some verifier =>
        rw [hverifier] at hreply
        cases hreply
      | none =>
        rw [hverifier] at hreply
        dsimp only at hreply ⊢
        apply commitExchange_refused
        · simp [exchangeCommit, hguard, hverifier]
        · exact Started.done.inj hreply
  next call =>
    split at hc
    next input' user challenge hcall =>
      cases hc
      have hreply : exchangeReply (o.resumeExchange call).2 = .exchange (.done (.fail err false)) :=
        hr
      show LeavesPurged o (o.resumeExchange call).1 _ _ _
      unfold UserObject.resumeExchange at hreply ⊢
      rw [hcall] at hreply
      simp only [hcall]
      dsimp only at hreply
      by_cases hdestroyed : o.destroyed = true
      · rw [if_pos hdestroyed] at hreply
        cases hreply
      · rw [if_neg hdestroyed] at hreply ⊢
        apply LeavesPurged.of_resumed
        apply commitExchange_refused
        · simp [exchangeCommit, hcall, hdestroyed]
        · exact Started.done.inj (Reply.exchange.inj hreply)
    · cases hc
  · cases hc

theorem Refusal.leaves {sha256 : String → Bytes} {c : Call}
    (h : Refusal (Machine.event (UserObject.call sha256) o c) now w reached) :
    LeavesPurged o (o.call sha256 c).1 now w reached := by
  cases h with
  | @rotation input err hc hr hs =>
    change c = _ at hc
    subst hc
    exact rotateRefreshToken_refused (Reply.rotate.inj hr) hs
  | exchange hc hr => exact exchange_refused hc hr
  | @login input err hc hr =>
    change c = _ at hc
    subst hc
    exact finalizeLogin_refused (Reply.login.inj hr)

end Refusals

/-! ### The session-hit path -/

/-- Deletes the grant of an earlier client of the same id. -/
def WithoutStaleGrant (t t' : Tables) (client : ClientRef) : Prop :=
  t' = { t with grants := t.grants.deleteWhere (·.clientId == client.clientId) } ∧
    ∃ row ∈ t.grants.rows, row.clientId = client.clientId ∧ row.clientCreatedAt ≠ client.createdAt

theorem consentCovered_tables (t : Tables) (input : AuthorizeWithSessionInput) :
    (UserObject.consentCovered t input).1 = t ∨
      WithoutStaleGrant t (UserObject.consentCovered t input).1 input.client := by
  unfold UserObject.consentCovered
  split
  · exact .inl rfl
  · dsimp only
    unfold Tables.grantFor
    cases hfind : t.grants.find input.client.clientId with
    | none => exact .inl rfl
    | some row =>
      obtain ⟨hmem, hid⟩ := Table.find_eq_some.mp hfind
      dsimp only
      by_cases hstale : row.clientCreatedAt ≠ input.client.createdAt
      · rw [if_pos hstale]
        exact .inr ⟨rfl, row, hmem, hid, hstale⟩
      · rw [if_neg hstale]
        exact .inl rfl

theorem authorizeWithSession_unissued {o : UserObject} {input : AuthorizeWithSessionInput}
    (h : ¬ ((∃ a, (o.authorizeWithSession input).2 = .ok a ∧ a.outcome = .authorized) ∧
      input.code.isSome = true)) :
    (o.authorizeWithSession input).1.tables = o.tables ∨
      WithoutStaleGrant o.tables (o.authorizeWithSession input).1.tables input.client := by
  have hconsent := consentCovered_tables o.tables input
  generalize hx : o.authorizeWithSession input = x at h ⊢
  obtain ⟨o', r⟩ := x
  dsimp only at h ⊢
  unfold UserObject.authorizeWithSession at hx
  obtain ⟨rfl, -⟩ | ⟨user, -, hx⟩ := guarded_cases hx
  · exact .inl rfl
  split at hx
  · cases hx
    exact .inl rfl
  next session hlive =>
    rcases ite_eq_iff.mp hx with ⟨-, hx⟩ | ⟨-, hx⟩
    · cases hx
      exact .inl rfl
    rcases ite_eq_iff.mp hx with ⟨-, hx⟩ | ⟨-, hx⟩
    · cases hx
      exact .inl rfl
    rcases ite_eq_iff.mp hx with ⟨-, hx⟩ | ⟨-, hx⟩
    · cases hx
      exact .inl rfl
    rcases ite_eq_iff.mp hx with ⟨-, hx⟩ | ⟨-, hx⟩
    · cases hx
      exact .inl rfl
    rcases ite_eq_iff.mp hx with ⟨-, hx⟩ | ⟨-, hx⟩
    · cases hx
      exact hconsent
    split at hx
    next hcode =>
      cases hx
      exact hconsent
    next code hcode =>
      dsimp only at hx
      split at hx
      · cases hx
        exact .inl rfl
      · cases hx
        apply absurd _ h
        exact ⟨⟨_, rfl, rfl⟩, by rw [hcode]; rfl⟩

/-! ### What refusals leave -/

/-- The rotations and exchanges that succeed on one object succeed on the other, from a time on and
with new secrets and family ids. -/
structure StillRedeems (o o' : UserObject) (now : ℤ) : Prop where
  rotate : ∀ (input : RotateRefreshInput) (grant : GrantContext) (serial : ℕ) (kind : FamilyKind),
    now ≤ input.now →
    (∀ k ∈ o.tables.refreshTokens.rows,
      (k.familyId, k.secretHash) ≠ (input.familyId, input.newSecretHash)) →
    (o.rotateRefreshToken input).2 = .ok grant serial kind →
    (o'.rotateRefreshToken input).2 = .ok grant serial kind
  exchange : ∀ (user : UserRow) (challenge : Option String) (input : ExchangeCodeInput)
    (grant : GrantContext) (nonce familyId : Option String) (kind : Option FamilyKind),
    now ≤ input.now →
    (∀ r, input.refresh = some r → (∀ f ∈ o.tables.refreshFamilies.rows, f.id ≠ r.familyId) ∧
      ∀ k ∈ o.tables.refreshTokens.rows, (k.familyId, k.secretHash) ≠ (r.familyId, r.secretHash)) →
    (o.commitExchange user challenge input).2 = .ok grant nonce familyId kind →
    (o'.commitExchange user challenge input).2 = .ok grant nonce familyId kind

theorem OnlyPurged.stillRedeems {o o' : UserObject} {now : ℤ} (h : OnlyPurged o o' now)
    (hsound : SerialsSound o.tables) : StillRedeems o o' now where
  rotate _ _ _ _ hle hfresh hok := h.rotate_ok hsound hle hfresh hok
  exchange _ _ _ _ _ _ _ hle hfresh hok := h.exchange_ok hle hfresh hok

/-- A refusal that comes to its transaction leaves what the purge leaves, and one before it leaves
all as it was; what could be redeemed before still can. The session-hit path, when it issues no
code, deletes a stale grant at most. -/
theorem refusals_leave_state (sha256 : String → Bytes) :
    (∀ (o : UserObject) (c : Call) (now w : ℤ) (reached : Prop),
      Refusal (Machine.event (UserObject.call sha256) o c) now w reached →
      (reached → (o.call sha256 c).1.tables = purgedTables o now w) ∧
        (¬ reached → (o.call sha256 c).1.tables = o.tables)) ∧
    (∀ (calls : List Call) (c : Call) (now w : ℤ) (reached : Prop),
      Refusal (Machine.event (UserObject.call sha256) (after sha256 calls) c) now w reached →
      StillRedeems (after sha256 calls) ((after sha256 calls).call sha256 c).1 now) ∧
    ∀ (o : UserObject) (input : AuthorizeWithSessionInput),
      ¬ ((∃ a, (o.authorizeWithSession input).2 = .ok a ∧ a.outcome = .authorized) ∧
        input.code.isSome = true) →
      (o.authorizeWithSession input).1.tables = o.tables ∨
        WithoutStaleGrant o.tables (o.authorizeWithSession input).1.tables input.client := by
  constructor
  · intro o c now w reached hrefused
    have hleaves := hrefused.leaves
    exact ⟨hleaves.purged, hleaves.untouched⟩
  constructor
  · intro calls c now w reached hrefused
    exact hrefused.leaves.only.stillRedeems (SerialsSound.after_calls sha256 calls)
  · intro o input hunissued
    exact authorizeWithSession_unissued hunissued

/-- A login refused for a disabled user leaves rows that a purge, long due, would delete. -/
theorem disabled_login_not_purged :
    ¬ ∀ (calls : List Call) (input : FinalizeLoginInput) (err : UserDoError),
      ((after Sample.sha256 calls).finalizeLogin input).2 = .fail err →
      ((after Sample.sha256 calls).finalizeLogin input).1.tables.sessions =
        (purgedTables (after Sample.sha256 calls) input.now purgeGraceSeconds).sessions := by
  intro hall
  have hsame := hall [.setDisabled (some 10) 10, Sample.login "s1" [1] 0 none, Sample.init]
    ⟨200000, .rotate "s1" [2] Sample.auth, none, some Sample.client, 900⟩ .userDisabled
    (by decide)
  have hrows := congrArg (fun sessions => sessions.rows.length) hsame
  exact absurd hrows (by decide)

end TinyOidc.User
