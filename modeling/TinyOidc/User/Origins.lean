import TinyOidc.User.Changes

/-! Where stored rows come from. A step leaves later versions of the rows it found and adds
only rows of the ids it is recorded to have stored; so ids are never reused in a run with
fresh ones, and what a later version of a row keeps holds for the rest of the run. -/
namespace TinyOidc.User
open RowTable

/-- The version of a session row a step leaves: its absolute expiry and revocation stay, and
its idle expiry moves only on a touch of a live session or in a login that rotates it. -/
structure SessionRow.Later (e : CallEvent) (s s' : SessionRow) : Prop where
  sid : s'.sid = s.sid
  absolute : s'.absoluteExpiresAt = s.absoluteExpiresAt
  revoked : s.revokedAt.isSome → s'.revokedAt.isSome
  idle : s'.idleExpiresAt = s.idleExpiresAt ∨ (∃ now, e.input.now? = some now ∧ s.live now) ∨
    ∃ input r, RotateReached e input r ∧ r.sid = s.sid ∧ r.idleExpiresAt = s.idleExpiresAt

/-- The version of a family row a step leaves: its serial moves only with a new token. -/
structure FamilyRow.Later (e : CallEvent) (f f' : FamilyRow) : Prop where
  id : f'.id = f.id
  code : f'.codeSecretHash = f.codeSecretHash
  sid : f'.sid = f.sid
  kind : f'.kind = f.kind
  revoked : f.revokedAt.isSome → f'.revokedAt.isSome
  serial : f'.currentSerial = f.currentSerial ∨ ∃ x, tokenIssued e = some (f.id, x)

/-- A later version of a code row differs in its consumption only, which stays. -/
structure CodeRow.Later (c c' : CodeRow) : Prop where
  row : c' = { c with consumedAt := c'.consumedAt }
  consumed : c.consumedAt.isSome → c'.consumedAt.isSome

theorem SessionRow.Later.refl (e : CallEvent) (s : SessionRow) : s.Later e s :=
  ⟨rfl, rfl, id, .inl rfl⟩

theorem SessionRow.Later.unrevoked {e : CallEvent} {s s' : SessionRow} (h : s.Later e s')
    (hu : s'.revokedAt = none) : s.revokedAt = none := by
  by_contra hne
  have hs := h.revoked (Option.isSome_iff_ne_none.mpr hne)
  rw [hu] at hs
  cases hs

theorem SessionRow.Later.trans {e : CallEvent} {a b c : SessionRow} (h : a.Later e b)
    (h' : b.Later e c) : a.Later e c := by
  refine ⟨h'.sid.trans h.sid, h'.absolute.trans h.absolute, h'.revoked ∘ h.revoked, ?_⟩
  rcases h.idle with hidle | hmoved
  · rcases h'.idle with hidle' | ⟨now, hn, hu, hi, ha⟩ | ⟨input, r, hr, hs, hi⟩
    · exact .inl (hidle'.trans hidle)
    · exact .inr (.inl ⟨now, hn, h.unrevoked hu, hidle ▸ hi, h.absolute ▸ ha⟩)
    · exact .inr (.inr ⟨input, r, hr, hs.trans h.sid, hi.trans hidle⟩)
  · exact .inr hmoved

theorem FamilyRow.Later.refl (e : CallEvent) (f : FamilyRow) : f.Later e f :=
  ⟨rfl, rfl, rfl, rfl, fun h => h, .inl rfl⟩

theorem FamilyRow.Later.trans {e : CallEvent} {a b c : FamilyRow} (h : a.Later e b)
    (h' : b.Later e c) : a.Later e c := by
  refine ⟨h'.id.trans h.id, h'.code.trans h.code, h'.sid.trans h.sid, h'.kind.trans h.kind,
    h'.revoked ∘ h.revoked, ?_⟩
  rcases h.serial with hs | hs
  · rcases h'.serial with hs' | ⟨x, hx⟩
    · exact .inl (hs'.trans hs)
    · exact .inr ⟨x, h.id ▸ hx⟩
  · exact .inr hs

theorem CodeRow.Later.refl (c : CodeRow) : c.Later c := ⟨rfl, id⟩

theorem CodeRow.Later.trans {a b c : CodeRow} (h : a.Later b) (h' : b.Later c) : a.Later c := by
  refine ⟨?_, h'.consumed ∘ h.consumed⟩
  rw [h'.row, h.row]

/-! ### One change -/

def SessionsEvolve (e : CallEvent) (t t' : Tables) : Prop :=
  t.sessions.Evolves (SessionRow.Later e) (fun s => sessionCreated e = some s.sid) t'.sessions

def CodesEvolve (e : CallEvent) (t t' : Tables) : Prop :=
  t.authCodes.Evolves CodeRow.Later (fun c => codeIssued e = some c.secretHash) t'.authCodes

def FamiliesEvolve (e : CallEvent) (t t' : Tables) : Prop :=
  t.refreshFamilies.Evolves (FamilyRow.Later e)
    (fun f => familyOpened e = some f.id ∧ f.codeSecretHash = codeExchanged e) t'.refreshFamilies

def TokensEvolve (e : CallEvent) (t t' : Tables) : Prop :=
  t.refreshTokens.Evolves Eq (fun k => tokenIssued e = some (k.familyId, k.secretHash))
    t'.refreshTokens

theorem Change.sessionsEvolve {e : CallEvent} {t t' : Tables} (h : Change e t t') :
    SessionsEvolve e t t' := by
  cases h with
  | aside h => exact .of_eq (SessionRow.Later.refl e) h.sessions
  | writeUser h => exact .refl (SessionRow.Later.refl e)
  | clear h => exact Table.evolves_empty
  | purge h => exact Table.evolves_deleteWhere (SessionRow.Later.refl e) _
  | revokeSessions p now reason =>
    exact Table.evolves_update (SessionRow.Later.refl e) rfl fun _ _ =>
      ⟨rfl, rfl, fun _ => rfl, .inl rfl⟩
  | revokeFamilies p now reason => exact .refl (SessionRow.Later.refl e)
  | dropFamily id => exact .refl (SessionRow.Later.refl e)
  | createSession h hc hg =>
    obtain ⟨sessions, hs, rfl⟩ := insertSession_ok h
    exact Table.evolves_insert (SessionRow.Later.refl e) hs hc
  | rotateSession hr hm h =>
    rw [rotateSession_ok h]
    refine Table.evolves_update_of_mem (SessionRow.Later.refl e) rfl fun r hrm hk => ?_
    obtain rfl := Table.eq_of_key_eq hrm hm (beq_iff_eq.mp hk)
    exact ⟨rfl, rfl, fun h => h, .inr (.inr ⟨_, r, hr, rfl, rfl⟩)⟩
  | touchSession idleTtl hm hl hn =>
    unfold SessionsEvolve Tables.touchSession
    split
    · exact .refl (SessionRow.Later.refl e)
    · refine Table.evolves_update_of_mem (SessionRow.Later.refl e) rfl fun r hr hk => ?_
      obtain rfl := Table.eq_of_key_eq hr hm (beq_iff_eq.mp hk)
      exact ⟨rfl, rfl, fun h => h, .inr (.inl ⟨_, hn, hl⟩)⟩
  | issueCode h hn hs hc => exact .refl (SessionRow.Later.refl e)
  | consumeCode now hc => exact .refl (SessionRow.Later.refl e)
  | openFamily hf ht hid hs hu hcode hm hc hi => exact .refl (SessionRow.Later.refl e)
  | advanceFamily hm hu h hi => exact .of_eq (SessionRow.Later.refl e) (advanceFamily_sessions h)

theorem touchSession_sameBut (t : Tables) (row : SessionRow) (now ttl : ℤ) :
    (t.touchSession row now ttl).authCodes = t.authCodes ∧
    (t.touchSession row now ttl).refreshFamilies = t.refreshFamilies ∧
    (t.touchSession row now ttl).refreshTokens = t.refreshTokens := by
  unfold Tables.touchSession
  split <;> exact ⟨rfl, rfl, rfl⟩

/-- A new code names a stored session. -/
theorem Change.codes {e : CallEvent} {t t' : Tables} (h : Change e t t') :
    t.authCodes.Evolves CodeRow.Later
      (fun c => codeIssued e = some c.secretHash ∧ ∃ s ∈ t.sessions.rows, s.sid = c.sid)
      t'.authCodes := by
  cases h with
  | aside h => exact .of_eq CodeRow.Later.refl h.codes
  | writeUser h => exact .refl CodeRow.Later.refl
  | clear h => exact Table.evolves_empty
  | purge h => exact Table.evolves_deleteWhere CodeRow.Later.refl _
  | revokeSessions p now reason => exact .refl CodeRow.Later.refl
  | revokeFamilies p now reason => exact .refl CodeRow.Later.refl
  | dropFamily id => exact .refl CodeRow.Later.refl
  | createSession h hc hg =>
    obtain ⟨sessions, hs, rfl⟩ := insertSession_ok h
    exact .refl CodeRow.Later.refl
  | rotateSession hr hm h =>
    rw [rotateSession_ok h]
    exact .refl CodeRow.Later.refl
  | touchSession idleTtl hm hl hn =>
    exact .of_eq CodeRow.Later.refl (touchSession_sameBut _ _ _ _).1
  | issueCode h hn hs hc => exact Table.evolves_insert CodeRow.Later.refl h ⟨hc, hs⟩
  | consumeCode now hc =>
    exact Table.evolves_update CodeRow.Later.refl rfl fun _ _ => ⟨rfl, fun _ => rfl⟩
  | openFamily hf ht hid hs hu hcode hm hc hi => exact .refl CodeRow.Later.refl
  | advanceFamily hm hu h hi =>
    obtain ⟨tokens, _, rfl⟩ := advanceFamily_ok h
    exact .refl CodeRow.Later.refl

/-- A new family comes from a stored code, and from its session. -/
theorem Change.families {e : CallEvent} {t t' : Tables} (h : Change e t t') :
    t.refreshFamilies.Evolves (FamilyRow.Later e)
      (fun f => (familyOpened e = some f.id ∧ f.codeSecretHash = codeExchanged e) ∧
        ∃ c ∈ t.authCodes.rows, codeExchanged e = some c.secretHash ∧
          ∀ sid, f.sid = some sid → sid = c.sid)
      t'.refreshFamilies := by
  cases h with
  | aside h => exact .of_eq (FamilyRow.Later.refl e) h.families
  | writeUser h => exact .refl (FamilyRow.Later.refl e)
  | clear h => exact Table.evolves_empty
  | purge h => exact Table.evolves_deleteWhere (FamilyRow.Later.refl e) _
  | revokeSessions p now reason => exact .refl (FamilyRow.Later.refl e)
  | revokeFamilies p now reason =>
    exact Table.evolves_update (FamilyRow.Later.refl e) rfl
      fun _ _ => ⟨rfl, rfl, rfl, rfl, fun _ => rfl, .inl rfl⟩
  | dropFamily id => exact Table.evolves_deleteWhere (FamilyRow.Later.refl e) _
  | createSession h hc hg =>
    obtain ⟨sessions, hs, rfl⟩ := insertSession_ok h
    exact .refl (FamilyRow.Later.refl e)
  | rotateSession hr hm h =>
    rw [rotateSession_ok h]
    exact .refl (FamilyRow.Later.refl e)
  | touchSession idleTtl hm hl hn =>
    exact .of_eq (FamilyRow.Later.refl e) (touchSession_sameBut _ _ _ _).2.1
  | issueCode h hn hs hc => exact .refl (FamilyRow.Later.refl e)
  | consumeCode now hc => exact .refl (FamilyRow.Later.refl e)
  | openFamily hf ht hid hs hu hcode hm hc hi =>
    exact Table.evolves_insert (FamilyRow.Later.refl e) hf ⟨⟨hc, hcode⟩, hm⟩
  | advanceFamily hm hu h hi =>
    obtain ⟨tokens, _, rfl⟩ := advanceFamily_ok h
    refine Table.evolves_update_of_mem (FamilyRow.Later.refl e) rfl fun r _ hk => ?_
    exact ⟨rfl, rfl, rfl, rfl, fun h => h, .inr ⟨_, beq_iff_eq.mp hk ▸ hi⟩⟩

theorem Change.tokensEvolve {e : CallEvent} {t t' : Tables} (h : Change e t t') :
    TokensEvolve e t t' := by
  cases h with
  | aside h => exact .of_eq Eq.refl h.tokens
  | writeUser h => exact .refl Eq.refl
  | clear h => exact Table.evolves_empty
  | purge h =>
    intro tok htok
    exact .inl ⟨tok, Table.deleteWhere_subset (Table.deleteWhere_subset htok), rfl⟩
  | revokeSessions p now reason => exact .refl Eq.refl
  | revokeFamilies p now reason => exact .refl Eq.refl
  | dropFamily id => exact Table.evolves_deleteWhere Eq.refl _
  | createSession h hc hg =>
    obtain ⟨sessions, hs, rfl⟩ := insertSession_ok h
    exact .refl Eq.refl
  | rotateSession hr hm h =>
    rw [rotateSession_ok h]
    exact .refl Eq.refl
  | touchSession idleTtl hm hl hn => exact .of_eq Eq.refl (touchSession_sameBut _ _ _ _).2.2
  | issueCode h hn hs hc => exact .refl Eq.refl
  | consumeCode now hc => exact .refl Eq.refl
  | openFamily hf ht hid hs hu hcode hm hc hi =>
    exact Table.evolves_insert Eq.refl ht (by rw [hi, hid])
  | advanceFamily hm hu h hi =>
    obtain ⟨tokens, ht, rfl⟩ := advanceFamily_ok h
    exact Table.evolves_insert Eq.refl ht hi

/-! ### One step -/

/-- The rows a step leaves, table by table. -/
structure StepEvolves (e : CallEvent) (t t' : Tables) : Prop where
  sessions : SessionsEvolve e t t'
  codes : CodesEvolve e t t'
  families : FamiliesEvolve e t t'
  tokens : TokensEvolve e t t'

theorem Changes.evolves {e : CallEvent} {t t' : Tables} (h : Changes e t t') :
    StepEvolves e t t' := by
  induction h with
  | refl =>
    exact ⟨.refl (SessionRow.Later.refl e), .refl CodeRow.Later.refl,
      .refl (FamilyRow.Later.refl e),
      .refl Eq.refl⟩
  | tail _ hc ih =>
    refine ⟨?_, ?_, ?_, ?_⟩
    · exact ih.sessions.trans .trans (fun hl hn => by rw [hl.sid]; exact hn) hc.sessionsEvolve
    · exact ih.codes.trans .trans
        (fun hl hn => by rw [hl.row]; exact hn) (hc.codes.mono fun _ hn => hn.1)
    · exact ih.families.trans .trans (fun hl hn => by rw [hl.id, hl.code]; exact hn)
        (hc.families.mono fun _ hn => hn.1)
    · exact ih.tokens.trans .trans (fun hl hn => hl ▸ hn) hc.tokensEvolve

theorem call_evolves (sha256 : String → Bytes) (o : UserObject) (c : Call) :
    StepEvolves (Machine.event (UserObject.call sha256) o c) o.tables
      (o.call sha256 c).1.tables :=
  (call_changes sha256 o c).evolves

/-! ### Whole runs -/

/-- Every stored id was stored by a step of the history. -/
structure Stored (h : List CallEvent) (t : Tables) : Prop where
  sessions : ∀ s ∈ t.sessions.rows, s.sid ∈ h.filterMap sessionCreated
  codes : ∀ c ∈ t.authCodes.rows, c.secretHash ∈ h.filterMap codeIssued
  families : ∀ f ∈ t.refreshFamilies.rows, f.id ∈ h.filterMap familyOpened
  tokens : ∀ k ∈ t.refreshTokens.rows, (k.familyId, k.secretHash) ∈ h.filterMap tokenIssued

theorem mem_filterMap_cons {α β : Type} {f : α → Option β} {a : α} {l : List α} {b : β} :
    b ∈ (a :: l).filterMap f ↔ f a = some b ∨ b ∈ l.filterMap f := by
  simp [List.mem_filterMap]

theorem Stored.step {e : CallEvent} {h : List CallEvent} {t t' : Tables}
    (hs : Stored h t) (he : StepEvolves e t t') : Stored (e :: h) t' where
  sessions := he.sessions.forall (fun _ _ hl hm => hl.sid ▸ hm)
    (fun _ hn => mem_filterMap_cons.mpr (.inl hn))
    (fun s hm => mem_filterMap_cons.mpr (.inr (hs.sessions s hm)))
  codes := he.codes.forall (fun _ _ hl hm => by rw [hl.row]; exact hm)
    (fun _ hn => mem_filterMap_cons.mpr (.inl hn))
    (fun c hm => mem_filterMap_cons.mpr (.inr (hs.codes c hm)))
  families := he.families.forall (fun _ _ hl hm => hl.id ▸ hm)
    (fun _ hn => mem_filterMap_cons.mpr (.inl hn.1))
    (fun f hm => mem_filterMap_cons.mpr (.inr (hs.families f hm)))
  tokens := he.tokens.forall (fun _ _ hl hm => hl ▸ hm)
    (fun _ hn => mem_filterMap_cons.mpr (.inl hn))
    (fun k hm => mem_filterMap_cons.mpr (.inr (hs.tokens k hm)))

theorem stored_after (sha256 : String → Bytes) (calls : List Call) :
    Stored (history sha256 calls) (after sha256 calls).tables := by
  induction calls with
  | nil =>
      exact ⟨by simp [UserObject.fresh, Tables.empty], by simp [UserObject.fresh, Tables.empty],
      by simp [UserObject.fresh, Tables.empty], by simp [UserObject.fresh, Tables.empty]⟩
  | cons c calls ih => exact ih.step (call_evolves sha256 _ c)

/-- The sessions that stored rows name. -/
structure SidsIn (sids : List String) (t : Tables) : Prop where
  sessions : ∀ s ∈ t.sessions.rows, s.sid ∈ sids
  codes : ∀ c ∈ t.authCodes.rows, c.sid ∈ sids
  families : ∀ f ∈ t.refreshFamilies.rows, ∀ sid, f.sid = some sid → sid ∈ sids

theorem SidsIn.change {e : CallEvent} {sids : List String} {t t' : Tables} (h : SidsIn sids t)
    (hc : Change e t t') (hn : ∀ sid, sessionCreated e = some sid → sid ∈ sids) :
    SidsIn sids t' := by
  have hs := hc.sessionsEvolve.forall (fun _ _ hl hm => hl.sid ▸ hm) (fun _ => hn _) h.sessions
  refine ⟨hs, ?_, ?_⟩
  · refine hc.codes.forall (fun _ _ hl hm => by rw [hl.row]; exact hm) ?_ h.codes
    rintro c ⟨_, s, hm, he⟩
    exact he ▸ h.sessions s hm
  · refine hc.families.forall (fun _ _ hl hm => hl.sid ▸ hm) ?_ h.families
    rintro f ⟨_, c, hm, _, hsid⟩ sid hf
    rw [hsid sid hf]
    exact h.codes c hm

/-- Stored rows name sessions that the run created. -/
theorem sidsIn_after (sha256 : String → Bytes) (calls : List Call) :
    SidsIn ((history sha256 calls).filterMap sessionCreated) (after sha256 calls).tables := by
  induction calls with
  | nil =>
      exact ⟨by simp [UserObject.fresh, Tables.empty], by simp [UserObject.fresh, Tables.empty],
      by simp [UserObject.fresh, Tables.empty]⟩
  | cons c calls ih =>
    have hpre : SidsIn ((history sha256 (c :: calls)).filterMap sessionCreated)
        (after sha256 calls).tables :=
      ⟨fun s hm => mem_filterMap_cons.mpr (.inr (ih.sessions s hm)),
        fun k hm => mem_filterMap_cons.mpr (.inr (ih.codes k hm)),
        fun f hm sid hs => mem_filterMap_cons.mpr (.inr (ih.families f hm sid hs))⟩
    exact (call_changes sha256 _ c).preserves
      (fun _ _ hc h => h.change hc fun _ hn => mem_filterMap_cons.mpr (.inl hn)) hpre

theorem fresh_of_append {sha256 : String → Bytes} {later earlier : List Call}
    (hf : Fresh (history sha256 (later ++ earlier))) : Fresh (history sha256 earlier) := by
  induction later with
  | nil => exact hf
  | cons c later ih => exact ih hf.tail

theorem history_subset_append (sha256 : String → Bytes) (later earlier : List Call) :
    history sha256 earlier ⊆ history sha256 (later ++ earlier) := by
  intro e he
  rw [history, Machine.events_append]
  exact List.mem_append_right _ he

section Rest
variable {sha256 : String → Bytes} {earlier : List Call} {P : UserObject → Prop}
  {Q : CallEvent → Prop}

/-- The rule for what holds from a point of a run to its end, when every later step meets `Q`
and a step keeps it that stores nothing stored before that point. -/
theorem after_rest_of
    (hstep : ∀ o c past, history sha256 earlier ⊆ past →
      Fresh (Machine.event (UserObject.call sha256) o c :: past) →
      Q (Machine.event (UserObject.call sha256) o c) → P o → P (o.call sha256 c).1)
    (later : List Call) (hf : Fresh (history sha256 (later ++ earlier)))
    (hq : ∀ e ∈ Machine.events (UserObject.call sha256) (after sha256 earlier) later, Q e)
    (h : P (after sha256 earlier)) : P (after sha256 (later ++ earlier)) := by
  induction later with
  | nil => exact h
  | cons c later ih =>
    have hlast := hq _ (List.mem_cons_self)
    rw [← Machine.after_append] at hlast
    exact hstep _ c (history sha256 (later ++ earlier)) (history_subset_append sha256 later earlier)
      hf hlast (ih hf.tail fun e he => hq e (List.mem_cons_of_mem _ he))

/-- As `after_rest_of`, for the state before each later step. -/
theorem before_rest_of
    (hstep : ∀ o c past, history sha256 earlier ⊆ past →
      Fresh (Machine.event (UserObject.call sha256) o c :: past) →
      Q (Machine.event (UserObject.call sha256) o c) → P o → P (o.call sha256 c).1)
    {later : List Call} (hf : Fresh (history sha256 (later ++ earlier)))
    (hq : ∀ e ∈ Machine.events (UserObject.call sha256) (after sha256 earlier) later, Q e)
    (h : P (after sha256 earlier)) {e : CallEvent}
    (he : e ∈ Machine.events (UserObject.call sha256) (after sha256 earlier) later) :
    ∃ o c, e = Machine.event (UserObject.call sha256) o c ∧ P o := by
  obtain ⟨l, c, l', rfl, rfl⟩ := Machine.exists_of_mem_events _ he
  rw [List.append_assoc, List.cons_append] at hf
  rw [Machine.events_append] at hq
  refine ⟨_, c, rfl, ?_⟩
  rw [← Machine.after_append]
  exact after_rest_of hstep l' (fresh_of_append hf).tail
    (fun e he => hq e (List.mem_append_right _ (List.mem_cons_of_mem _ he))) h

theorem after_rest
    (hstep : ∀ o c past, history sha256 earlier ⊆ past →
      Fresh (Machine.event (UserObject.call sha256) o c :: past) → P o → P (o.call sha256 c).1)
    (later : List Call) (hf : Fresh (history sha256 (later ++ earlier)))
    (h : P (after sha256 earlier)) : P (after sha256 (later ++ earlier)) :=
  after_rest_of (Q := fun _ => True) (fun o c past hs hf _ => hstep o c past hs hf) later hf
    (fun _ _ => trivial) h

theorem before_rest
    (hstep : ∀ o c past, history sha256 earlier ⊆ past →
      Fresh (Machine.event (UserObject.call sha256) o c :: past) → P o → P (o.call sha256 c).1)
    {later : List Call} (hf : Fresh (history sha256 (later ++ earlier)))
    (h : P (after sha256 earlier)) {e : CallEvent}
    (he : e ∈ Machine.events (UserObject.call sha256) (after sha256 earlier) later) :
    ∃ o c, e = Machine.event (UserObject.call sha256) o c ∧ P o :=
  before_rest_of (Q := fun _ => True) (fun o c past hs hf _ => hstep o c past hs hf) hf
    (fun _ _ => trivial) h he

end Rest

/-- An id stored before is not the one a step stores. -/
theorem ne_of_nodup {α β : Type} {f : α → Option β} {e : α} {past h : List α} {b : β}
    (hn : ((e :: past).filterMap f).Nodup) (hsub : h ⊆ past) (hb : b ∈ h.filterMap f) :
    f e ≠ some b := by
  intro he
  obtain ⟨a, ha, hfa⟩ := List.mem_filterMap.mp hb
  exact notMem_of_nodup hn he (List.mem_filterMap.mpr ⟨a, hsub ha, hfa⟩)

def SessionDead (sid : String) (t : Tables) : Prop :=
  ∀ s ∈ t.sessions.rows, s.sid = sid → s.revokedAt.isSome

def FamilyDead (id : String) (t : Tables) : Prop :=
  ∀ f ∈ t.refreshFamilies.rows, f.id = id → f.revokedAt.isSome

theorem SessionDead.step {e : CallEvent} {sid : String} {t t' : Tables} (h : SessionDead sid t)
    (he : SessionsEvolve e t t') (hn : sessionCreated e ≠ some sid) : SessionDead sid t' :=
  he.forall (fun _ _ hl hp hk => hl.revoked (hp (hl.sid ▸ hk)))
    (fun _ hnew hk => absurd (hk ▸ hnew) hn) h

theorem FamilyDead.step {e : CallEvent} {id : String} {t t' : Tables} (h : FamilyDead id t)
    (he : FamiliesEvolve e t t') (hn : familyOpened e ≠ some id) : FamilyDead id t' :=
  he.forall (fun _ _ hl hp hk => hl.revoked (hp (hl.id ▸ hk)))
    (fun _ hnew hk => absurd (hk ▸ hnew.1) hn) h

/-- A session that was created and is dead stays dead. -/
theorem sessionDead_rest {sha256 : String → Bytes} {earlier : List Call} {sid : String}
    (later : List Call) (hf : Fresh (history sha256 (later ++ earlier)))
    (hs : sid ∈ (history sha256 earlier).filterMap sessionCreated)
    (h : SessionDead sid (after sha256 earlier).tables) :
    SessionDead sid (after sha256 (later ++ earlier)).tables := by
  refine after_rest (P := fun o => SessionDead sid o.tables) ?_ later hf h
  intro o c past hsub hfresh hd
  exact hd.step (call_evolves sha256 o c).sessions (ne_of_nodup hfresh.sessions hsub hs)

theorem familyDead_rest {sha256 : String → Bytes} {earlier : List Call} {id : String}
    (later : List Call) (hf : Fresh (history sha256 (later ++ earlier)))
    (hs : id ∈ (history sha256 earlier).filterMap familyOpened)
    (h : FamilyDead id (after sha256 earlier).tables) :
    FamilyDead id (after sha256 (later ++ earlier)).tables := by
  refine after_rest (P := fun o => FamilyDead id o.tables) ?_ later hf h
  intro o c past hsub hfresh hd
  exact hd.step (call_evolves sha256 o c).families (ne_of_nodup hfresh.families hsub hs)

/-! ### Revocations -/

/-- A family row after a revocation: revoked where it was named or revoked before. -/
theorem mem_revokeFamiliesWhere {t : Tables} {p : FamilyRow → Bool} {now : ℤ} {reason : String}
    {f : FamilyRow} (h : f ∈ (t.revokeFamiliesWhere p now reason).refreshFamilies.rows) :
    ∃ g ∈ t.refreshFamilies.rows, g.id = f.id ∧
      (p g = true ∨ g.revokedAt.isSome → f.revokedAt.isSome) := by
  obtain ⟨g, hg, ⟨hp, rfl⟩ | ⟨_, rfl⟩⟩ := Table.exists_of_mem_update h
  · refine ⟨f, hg, rfl, ?_⟩
    rintro (hpf | hr)
    · simpa [hpf] using hp
    · exact hr
  · exact ⟨g, hg, rfl, fun _ => rfl⟩

theorem mem_revokeSessionsWhere {t : Tables} {p : SessionRow → Bool} {now : ℤ} {reason : String}
    {s : SessionRow} (h : s ∈ (t.revokeSessionsWhere p now reason).sessions.rows) :
    ∃ g ∈ t.sessions.rows, g.sid = s.sid ∧ (s = g ∨ s.revokedAt.isSome) ∧
      (p g = true ∨ g.revokedAt.isSome → s.revokedAt.isSome) := by
  obtain ⟨g, hg, ⟨hp, rfl⟩ | ⟨_, rfl⟩⟩ := Table.exists_of_mem_update h
  · refine ⟨s, hg, rfl, .inl rfl, ?_⟩
    rintro (hpf | hr)
    · simpa [hpf] using hp
    · exact hr
  · exact ⟨g, hg, rfl, .inr rfl, fun _ => rfl⟩

theorem familyDead_revokeFamiliesWhere {t : Tables} {id : String} {p : FamilyRow → Bool}
    {now : ℤ} {reason : String} (hp : ∀ f, f.id = id → p f = true) :
    FamilyDead id (t.revokeFamiliesWhere p now reason) := by
  intro f hf hid
  obtain ⟨g, _, hgid, hr⟩ := mem_revokeFamiliesWhere hf
  exact hr (.inl (hp g (hgid.trans hid)))

theorem FamilyDead.revokeFamiliesWhere {t : Tables} {id : String} (h : FamilyDead id t)
    (p : FamilyRow → Bool) (now : ℤ) (reason : String) :
    FamilyDead id (t.revokeFamiliesWhere p now reason) := by
  intro f hf hid
  obtain ⟨g, hg, hgid, hr⟩ := mem_revokeFamiliesWhere hf
  exact hr (.inr (h g hg (hgid.trans hid)))

theorem FamilyDead.revokeSessionRows {t : Tables} {id : String} (h : FamilyDead id t)
    (sid : String) (now : ℤ) (reason : String) :
    FamilyDead id (t.revokeSessionRows sid now reason).1 :=
  FamilyDead.revokeFamiliesWhere (t := t.revokeSessionsWhere (·.sid == sid) now reason) h _ now
    reason

theorem sessionDead_revokeSessionRows (t : Tables) (sid : String) (now : ℤ) (reason : String) :
    SessionDead sid (t.revokeSessionRows sid now reason).1 := by
  intro s hs hsid
  obtain ⟨g, _, hgid, _, hr⟩ := mem_revokeSessionsWhere (t := t) hs
  exact hr (.inl (by simp [hgid, hsid]))

end TinyOidc.User
