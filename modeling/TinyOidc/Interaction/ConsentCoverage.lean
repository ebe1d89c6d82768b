import Mathlib.Data.List.Infix
import TinyOidc.Interaction.Runs
import TinyOidc.User.Grants

/-! A code covers only what its user consented to. The session-hit path reads the grants when it
issues; a completion trusts the document, which keeps the decision but not whose it was. The
document is right as long as no consent is applied after the interaction passed to another
user. -/
namespace TinyOidc.Interaction
open TinyOidc.User Threads

/-! ### The statement -/

/-- Whether an entry is a consent of the user to the scope, for this record of the client. -/
def grants (uid clientId : String) (createdAt : ℤ) (scope : String) : Entry Op.Answer → Bool
  | ⟨.user uid' (.grantConsent client scopes _), .grant (.ok _)⟩ =>
      uid' == uid && client.clientId == clientId && client.createdAt == createdAt &&
        scopes.contains scope
  | _ => false

def Granted (clientId : String) (createdAt : ℤ) (effects : List RunEffect) (uid scope : String) :
    Prop :=
  ∃ effect ∈ effects, grants uid clientId createdAt scope effect.entry = true

/-- Every code issued to the client is for scopes its user had granted before. -/
def ConsentCovers (clientId : String) (createdAt : ℤ) (effects : List RunEffect) : Prop :=
  ∀ effect before, effect :: before <:+ effects →
    ∀ uid code, issuedCode effect.entry = some (uid, code) → code.clientId = clientId →
      ∀ s ∈ code.scope, Granted clientId createdAt before uid s

def coversAt (clientId : String) (createdAt : ℤ) : List RunEffect → Bool
  | [] => true
  | effect :: before =>
      (issuedCode effect.entry).all fun issued => issued.2.clientId != clientId ||
        issued.2.scope.all fun s =>
          before.any fun effect => grants issued.1 clientId createdAt s effect.entry

theorem consentCovers_iff {clientId : String} {createdAt : ℤ} {effects : List RunEffect} :
    ConsentCovers clientId createdAt effects ↔
      ∀ suffix ∈ effects.tails, coversAt clientId createdAt suffix = true := by
  simp only [List.mem_tails]
  constructor
  · intro h suffix hsuffix
    cases suffix with
    | nil => rfl
    | cons effect before =>
      simp only [coversAt, Option.all_eq_true, Bool.or_eq_true, bne_iff_ne, List.all_eq_true,
        List.any_eq_true]
      rintro ⟨uid, code⟩ hissued
      by_cases hclient : code.clientId = clientId
      · exact .inr (h effect before hsuffix uid code hissued hclient)
      · exact .inl hclient
  · intro h effect before hsuffix uid code hissued hclient
    have hat := h (effect :: before) hsuffix
    simp only [coversAt, Option.all_eq_true, Bool.or_eq_true, bne_iff_ne, List.all_eq_true,
      List.any_eq_true] at hat
    exact (hat (uid, code) hissued).resolve_left (not_not.mpr hclient)

instance (clientId : String) (createdAt : ℤ) (effects : List RunEffect) :
    Decidable (ConsentCovers clientId createdAt effects) :=
  decidable_of_iff _ consentCovers_iff.symm

/-- Whether what the directory says of the client is the one record, without `skip_consent`. -/
def asksConsent (clientId : String) (createdAt : ℤ) : Entry Op.Answer → Bool
  | ⟨.ask (.client asked), answer⟩ =>
      asked != clientId || answer.all fun record =>
        record.all fun client => client.createdAt == createdAt && !client.skipConsent
  | _ => true

def consentUids (log : Log) : List String :=
  log.filterMap fun
    | ⟨.user uid (.grantConsent _ _ _), .grant (.ok _)⟩ => some uid
    | _ => none

/-- A consent is applied to an interaction that is not about its user any more. -/
def switchesUser (e : RunEvent) : Bool :=
  match e.reply with
  | some (.thread _ t ⟨.interaction id (.apply .consent .ready _ _), _⟩) =>
      (e.pre.shared.doc id).any fun d => d.status == .consentRequired &&
        (consentUids t.log).any fun uid => interactionUid d != some uid
  | _ => false

variable {clientId : String} {createdAt : ℤ}

theorem Granted.mono {effects effects' : List RunEffect} {uid s : String}
    (h : Granted clientId createdAt effects uid s) (hsub : effects ⊆ effects') :
    Granted clientId createdAt effects' uid s := by
  obtain ⟨effect, heffect, hgrants⟩ := h
  exact ⟨effect, hsub heffect, hgrants⟩

theorem Granted.cons {effect : RunEffect} {effects : List RunEffect} {uid s : String}
    (h : Granted clientId createdAt effects uid s) :
    Granted clientId createdAt (effect :: effects) uid s :=
  h.mono (List.subset_cons_self effect effects)

/-! ### The stored grants -/

/-- What a user's object holds of the client's grants, the user has granted. -/
def RowsGranted (clientId : String) (createdAt : ℤ) (effects : List RunEffect) (uid : String)
    (o : UserObject) : Prop :=
  ∀ g ∈ o.tables.grants.rows, g.clientId = clientId → g.clientCreatedAt = createdAt →
    ∀ s ∈ g.scopes, Granted clientId createdAt effects uid s

theorem RowsGranted.call {effects : List RunEffect} {uid : String} {o : UserObject}
    (h : RowsGranted clientId createdAt effects uid o) (sha256 : String → Bytes) (c : Call)
    {effect : RunEffect} (heffect : effect.entry = ⟨.user uid c, (o.call sha256 c).2⟩) :
    RowsGranted clientId createdAt (effect :: effects) uid (o.call sha256 c).1 := by
  intro g hg hclient hcreated s hs
  have hafter := call_grants sha256 o c
  generalize (o.call sha256 c).2 = r at hafter heffect
  cases hafter with
  | deleted _ _ subset _ => exact (h g (subset g hg) hclient hcreated s hs).cons
  | granted client scopes now record others own =>
    by_cases hown : g.clientId = client.clientId
    · obtain ⟨hrecord, hscopes⟩ := own g hg hown
      rcases hscopes s hs with hs | ⟨g₀, hg₀, hclient₀, hcreated₀, hs⟩
      · refine ⟨effect, List.mem_cons_self, ?_⟩
        simp [heffect, grants, ← hown, ← hrecord, hclient, hcreated, hs]
      · exact (h g₀ hg₀ (hclient₀.trans (hown.symm.trans hclient))
          (hcreated₀.trans (hrecord.symm.trans hcreated)) s hs).cons
    · exact (h g ((others g hown).mp hg) hclient hcreated s hs).cons

theorem RowsGranted.performed {sha256 : String → Bytes} {effects : List RunEffect} {w w' : World}
    (effect : RunEffect)
    (h : ∀ uid, RowsGranted clientId createdAt effects uid (w.users uid))
    (performed : Performed sha256 w w' effect.entry) (uid : String) :
    RowsGranted clientId createdAt (effect :: effects) uid (w'.users uid) := by
  have hkept : RowsGranted clientId createdAt (effect :: effects) uid (w.users uid) :=
    fun g hg hclient hcreated s hs => (h uid g hg hclient hcreated s hs).cons
  generalize hentry : effect.entry = entry at performed
  cases performed with
  | asked question oracle => exact hkept
  | onInteraction id call o answer answered => exact hkept
  | onUser uid' call =>
    by_cases huid : uid' = uid
    · subst huid
      simpa using (h uid').call sha256 call hentry
    · simpa [Function.update_of_ne (Ne.symm huid)] using hkept

theorem rows_granted (sha256 : String → Bytes) (steps : List Step) (uid : String) :
    RowsGranted clientId createdAt (runEffects sha256 steps) uid
      ((runState sha256 steps).shared.users uid) := by
  revert uid
  refine run_invariant (C := fun _ => True) (J := fun c effects => ∀ uid,
    RowsGranted clientId createdAt effects uid (c.shared.users uid)) (fun _ _ _ => trivial) nofun
    (fun _ _ ih => ih) ?_ ?_ steps trivial
  · intro steps l i t entry w prog _ _ ih hi permitted performed uid
    exact RowsGranted.performed (.thread i t entry) ih performed uid
  · intro steps entry w ih hop performed uid
    exact RowsGranted.performed (.outside entry) ih performed uid

theorem clientId_of_grantCurrent {client : ClientRef} {g : GrantRow}
    (h : UserObject.grantCurrent [client] g = true) :
    g.clientId = client.clientId ∧ g.clientCreatedAt = client.createdAt := by
  by_cases hclient : client.clientId = g.clientId
  · simp [UserObject.grantCurrent, UserObject.knownClient, hclient] at h
    exact ⟨hclient.symm, h.symm⟩
  · simp [UserObject.grantCurrent, UserObject.knownClient, hclient] at h

/-- The first grant of a listing is a stored one of the record it was given. -/
theorem exists_of_grantedScopes {sha256 : String → Bytes} {o : UserObject} {client : ClientRef}
    {s : String} (hs : s ∈ grantedScopes (o.call sha256 (.listGrants [client])).2) :
    ∃ g ∈ o.tables.grants.rows, g.clientId = client.clientId ∧
      g.clientCreatedAt = client.createdAt ∧ s ∈ g.scopes := by
  change s ∈ grantedScopes (.grants (o.listGrants [client]).2) at hs
  cases hlisted : (o.listGrants [client]).2 with
  | ok listed =>
    rw [hlisted] at hs
    cases hhead : listed.head? with
    | none => simp [grantedScopes, hhead] at hs
    | some record =>
      obtain ⟨g, hg, hcurrent, hscopes⟩ :=
        exists_of_listGrants hlisted (List.mem_of_head? hhead)
      obtain ⟨hclient, hcreated⟩ := clientId_of_grantCurrent hcurrent
      exact ⟨g, hg, hclient, hcreated, by simpa [grantedScopes, hhead, hscopes] using hs⟩
  | _ => simp [hlisted, grantedScopes] at hs

/-- What a listing for the client showed, the user has granted. -/
theorem listing_granted {sha256 : String → Bytes} {steps : List Step} {effect : RunEffect}
    (heffect : effect ∈ runEffects sha256 steps) {uid : String} {client : ClientRef} {reply : Reply}
    (hentry : effect.entry = ⟨.user uid (.listGrants [client]), reply⟩)
    (hclient : client.clientId = clientId) (hcreated : client.createdAt = createdAt) :
    ∀ s ∈ grantedScopes reply, Granted clientId createdAt (runEffects sha256 steps) uid s := by
  revert effect
  refine run_invariant (C := fun _ => True) (J := fun _ effects => ∀ {effect : RunEffect},
    effect ∈ effects → effect.entry = ⟨.user uid (.listGrants [client]), reply⟩ →
    ∀ s ∈ grantedScopes reply, Granted clientId createdAt effects uid s)
    (fun _ _ _ => trivial) nofun (fun _ _ ih => ih) ?_ ?_ steps trivial
  · intro steps l i t entry w prog _ _ ih hi permitted performed effect heffect hentry s hs
    rcases List.mem_cons.mp heffect with rfl | heffect
    · rw [Effect.entry_thread] at hentry
      subst hentry
      generalize hlisted : (⟨.user uid (.listGrants [client]), reply⟩ : Entry Op.Answer) = entry
        at performed
      cases performed with
      | asked question oracle => cases hlisted
      | onInteraction id call o answer answered => cases hlisted
      | onUser uid' call =>
        cases hlisted
        obtain ⟨g, hg, hgclient, hgcreated, hgs⟩ := exists_of_grantedScopes hs
        exact (rows_granted sha256 steps uid g hg (hgclient.trans hclient)
          (hgcreated.trans hcreated) s hgs).cons
    · exact (ih heffect hentry s hs).cons
  · intro steps entry w ih hop performed effect heffect hentry s hs
    rcases List.mem_cons.mp heffect with rfl | heffect
    · rw [Effect.entry_outside] at hentry
      subst hentry
      cases hop
    · exact (ih heffect hentry s hs).cons

/-! ### The decision in the document -/

/-- What a document of the client says is covered by consent: the scopes of a decision by the
user the interaction is about, and the requested ones where none was needed. -/
structure Decided (clientId : String) (createdAt : ℤ) (effects : List RunEffect)
    (d : InteractionDocument) : Prop where
  waiting : d.status ≠ .ready → d.status ≠ .failed → d.status ≠ .completed → d.consent = none
  consented : ∀ scopes uid, d.consent = some scopes → interactionUid d = some uid →
    ∀ s ∈ scopes, Granted clientId createdAt effects uid s
  covered : ∀ auth request, d.status = .ready → d.consent = none → d.auth = some auth →
    d.kind ≠ .logout → d.request = some request →
    ∀ s ∈ request.scope, Granted clientId createdAt effects auth.uid s

theorem Decided.cons {effect : RunEffect} {effects : List RunEffect} {d : InteractionDocument}
    (h : Decided clientId createdAt effects d) :
    Decided clientId createdAt (effect :: effects) d where
  waiting := h.waiting
  consented := fun scopes uid hconsent huid s hs => (h.consented scopes uid hconsent huid s hs).cons
  covered := fun auth request hready hconsent hauth hkind hrequest s hs =>
    (h.covered auth request hready hconsent hauth hkind hrequest s hs).cons

theorem Decided.sameCourse {effects : List RunEffect} {d d' : InteractionDocument}
    (h : Decided clientId createdAt effects d) (same : SameCourse d d') :
    Decided clientId createdAt effects d' where
  waiting := by
    rw [same.status, same.consent]
    exact h.waiting
  consented := by
    rw [same.consent, interactionUid, same.auth, same.existingSession]
    exact h.consented
  covered := by
    rw [same.status, same.consent, same.auth, same.kind, same.request]
    exact h.covered

/-- A document in which nothing is decided. -/
theorem decided_of_waiting {effects : List RunEffect} {d : InteractionDocument}
    (hconsent : d.consent = none) (hstatus : d.status = .ready → d.auth = none) :
    Decided clientId createdAt effects d where
  waiting := fun _ _ _ => hconsent
  consented := fun _ _ h => by simp [hconsent] at h
  covered := fun _ _ hready _ hauth => by simp [hstatus hready] at hauth

/-- A transition that keeps the decision and its user, to a status other than ready. -/
theorem Decided.closed {effects : List RunEffect} {d d' : InteractionDocument}
    (h : Decided clientId createdAt effects d)
    (hstatus : d'.status = .failed ∨ d'.status = .completed)
    (hconsent : d'.consent = d.consent) (huid : interactionUid d' = interactionUid d) :
    Decided clientId createdAt effects d' where
  waiting := fun _ hfailed hcompleted => (hstatus.elim hfailed hcompleted).elim
  consented := by
    rw [hconsent, huid]
    exact h.consented
  covered := fun _ _ hready => by rcases hstatus with h | h <;> simp [h] at hready

section Step

variable {sha256 : String → Bytes} {steps : List Step} {t : RunThread}

/-- The record a request works with is the client's one record. -/
theorem record_of_mem_log
    (hrecord : ∀ effect ∈ runEffects sha256 steps,
      asksConsent clientId createdAt effect.entry = true)
    (ht : t ∈ (runState sha256 steps).threads) {client : Client}
    (h : directoryEntry clientId client ∈ t.log) :
    client.clientId = clientId ∧ client.createdAt = createdAt ∧ client.skipConsent = false := by
  obtain ⟨effect, heffect, hentry⟩ := exists_effect_of_mem_log ht h
  have hanswer := hrecord effect heffect
  rw [hentry] at hanswer
  exact ⟨clientId_of_directoryEntry heffect hentry, by simpa [asksConsent, directoryEntry] using
    hanswer⟩

/-- What the login step looked up covers the request. -/
theorem granted_of_covered
    (hrecord : ∀ effect ∈ runEffects sha256 steps,
      asksConsent clientId createdAt effect.entry = true)
    (ht : t ∈ (runState sha256 steps).threads) {client : Client}
    (hclient : directoryEntry clientId client ∈ t.log) {d : InteractionDocument} {uid : String}
    (hcovered : Covered t.log d client uid) {request : AuthorizeRequest}
    (hrequest : d.request = some request) :
    ∀ s ∈ request.scope, Granted clientId createdAt (runEffects sha256 steps) uid s := by
  obtain ⟨hid, hcreated, hskip⟩ := record_of_mem_log hrecord ht hclient
  rcases hcovered with hskipped | hnone | ⟨request', reply, hrequest', hlisted, hscopes⟩
  · rw [hskip] at hskipped
    cases hskipped
  · rw [hrequest] at hnone
    cases hnone
  · cases hrequest.symm.trans hrequest'
    obtain ⟨effect, heffect, hentry⟩ := exists_effect_of_mem_log ht hlisted
    exact fun s hs => listing_granted heffect hentry hid hcreated s (hscopes s hs)

/-- The consent a request has recorded is part of the run. -/
theorem granted_of_consent
    (hrecord : ∀ effect ∈ runEffects sha256 steps,
      asksConsent clientId createdAt effect.entry = true)
    (ht : t ∈ (runState sha256 steps).threads) {client : Client}
    (hclient : directoryEntry clientId client ∈ t.log) {uid : String} {scopes : List String}
    {now : ℤ}
    {granted : GrantRecord}
    (hgrant : (⟨.user uid (.grantConsent (clientRef client) scopes now), .grant (.ok granted)⟩ :
      Entry Op.Answer) ∈ t.log) :
    uid ∈ consentUids t.log ∧
      ∀ s ∈ scopes, Granted clientId createdAt (runEffects sha256 steps) uid s := by
  obtain ⟨hid, hcreated, -⟩ := record_of_mem_log hrecord ht hclient
  refine ⟨List.mem_filterMap.mpr ⟨_, hgrant, rfl⟩, fun s hs => ?_⟩
  obtain ⟨effect, heffect, hentry⟩ := exists_effect_of_mem_log ht hgrant
  exact ⟨effect, heffect, by simp [hentry, grants, clientRef, hid, hcreated, hs]⟩

/-- A transition of a request keeps the document decided, when a consent it applies is the one
of the user the interaction is about. -/
theorem Decided.applied (hfresh : FreshIds (runEffects sha256 steps))
    (hrecord : ∀ effect ∈ runEffects sha256 steps,
      asksConsent clientId createdAt effect.entry = true)
    (ht : t ∈ (runState sha256 steps).threads) {id : String} {d : InteractionDocument}
    (hdoc : (runState sha256 steps).shared.doc id = some d) (hclient : d.clientId = some clientId)
    (h : Decided clientId createdAt (runEffects sha256 steps) d)
    {operation : InteractionOperation} {target : InteractionStatus} {patch : TransitionPatch}
    (now : ℤ) (hcan : canTransition d.status operation target = true)
    (applies : Applies t.request t.log id operation target patch)
    (hsame : operation = .consent → target = .ready → d.status = .consentRequired →
      ∀ uid ∈ consentUids t.log, interactionUid d = some uid) :
    Decided clientId createdAt (runEffects sha256 steps) (d.transition target patch now) := by
  have hopen : d.status ≠ .ready ∧ d.status ≠ .failed ∧ d.status ≠ .completed →
      d.consent = none := fun hstatus => h.waiting hstatus.1 hstatus.2.1 hstatus.2.2
  have hwaiting := open_of_canTransition hcan
  cases applies with
  | failed operation error description d₀ seen => exact h.closed (.inl rfl) rfl rfl
  | parFailed error description hq holding => exact h.closed (.inl rfl) rfl rfl
  | completed => exact h.closed (.inr rfl) rfl rfl
  | parCompleted => exact h.closed (.inr rfl) rfl rfl
  | restarted hq holding => exact decided_of_waiting rfl nofun
  | linked link d₀ seen => exact decided_of_waiting (hopen (by simpa using hwaiting)) nofun
  | parTaken target existing hq holding =>
    exact decided_of_waiting (hopen (by simpa using hwaiting))
      fun hready => absurd hready (ne_ready_of_consumePar hcan)
  | decided logout d₀ seen hkind =>
    have hlater := (tracks_of_seen hfresh ht seen).later d hdoc
    have hnone : d.consent = none := hopen (by simpa using hwaiting)
    exact ⟨fun _ _ _ => hnone,
      fun _ _ hsome => by simp [InteractionDocument.transition, hnone] at hsome,
      fun _ _ _ _ _ hnot => absurd (hlater.kind.trans hkind) hnot⟩
  | authenticated operation hop target auth d₀ seen asked client hasked record htarget =>
    have hlater := (tracks_of_seen hfresh ht seen).later d hdoc
    have hnone : d.consent = none := hopen (by rcases hop with rfl | rfl <;> simpa using hwaiting)
    have hid : asked = clientId := by
      rw [← hlater.clientId, hclient] at hasked
      exact (Option.some.inj hasked).symm
    subst hid
    refine ⟨fun _ _ _ => hnone,
      fun _ _ hsome => by simp [InteractionDocument.transition, hnone] at hsome,
      ?_⟩
    intro auth' request hready _ hauth _ hrequest
    cases hauth
    rcases htarget with rfl | ⟨-, hcovered⟩
    · cases hready
    · exact granted_of_covered hrecord ht record hcovered (hlater.request.symm.trans hrequest)
  | consented d₀ seen uid huid asked client hasked record scopes now' granted hgrant =>
    have hlater := (tracks_of_seen hfresh ht seen).later d hdoc
    have hid : asked = clientId := by
      rw [← hlater.clientId, hclient] at hasked
      exact (Option.some.inj hasked).symm
    subst hid
    obtain ⟨hmem, hscopes⟩ := granted_of_consent hrecord ht record hgrant
    have hstored := hsame rfl rfl (consentRequired_of_canTransition hcan) uid hmem
    refine ⟨fun hready => absurd rfl hready, ?_, fun _ _ _ hnone => by cases hnone⟩
    intro scopes' uid' hconsent huid' s hs
    cases hconsent
    have huid : uid' = uid := Option.some.inj (huid'.symm.trans hstored)
    subst huid
    exact hscopes s hs

end Step

/-! ### Whole runs -/

/-- A run with fresh ids in which the client's record does not change and no consent is applied
after the interaction passed to another user. -/
structure ConsentRun (sha256 : String → Bytes) (clientId : String) (createdAt : ℤ)
    (steps : List Step) : Prop where
  fresh : FreshIds (runEffects sha256 steps)
  record : ∀ effect ∈ runEffects sha256 steps, asksConsent clientId createdAt effect.entry = true
  sameUser : ∀ e ∈ runEvents sha256 steps, switchesUser e = false

theorem ConsentRun.earlier {sha256 : String → Bytes} {l : Step} {steps : List Step}
    (h : ConsentRun sha256 clientId createdAt (l :: steps)) :
    ConsentRun sha256 clientId createdAt steps where
  fresh := h.fresh.earlier
  record := fun effect heffect =>
    h.record effect (by rw [runEffects_cons]; exact List.mem_append_right _ heffect)
  sameUser := fun e he => h.sameUser e (List.mem_cons_of_mem _ he)

/-- The consent that the next step of a run applies is one of the user the document names. -/
theorem ConsentRun.uid_of_applied {sha256 : String → Bytes} {l : Step} {steps : List Step}
    (h : ConsentRun sha256 clientId createdAt (l :: steps)) {i : ℕ} {t : RunThread} {id : String}
    {patch : TransitionPatch} {now : ℤ}
    {answer : (InteractionCall.apply .consent .ready patch now).Answer}
    (hstep : ((deployment sha256).step (runState sha256 steps) l).2 =
      some (.thread i t ⟨.interaction id (.apply .consent .ready patch now), answer⟩))
    {d : InteractionDocument} (hdoc : (runState sha256 steps).shared.doc id = some d)
    (hstatus : d.status = .consentRequired) :
    ∀ uid ∈ consentUids t.log, interactionUid d = some uid := by
  have hsame := h.sameUser _ List.mem_cons_self
  simp only [switchesUser, Machine.event_reply, hstep, Machine.event_pre, hdoc, Option.any_some,
    hstatus, beq_self_eq_true, Bool.true_and, List.any_eq_false, bne_iff_ne, not_not] at hsame
  exact hsame

/-- Every document of the client is decided after a request's call. -/
theorem decided_of_move {sha256 : String → Bytes} {l : Step} {steps : List Step}
    (hrun : ConsentRun sha256 clientId createdAt (l :: steps)) {i : ℕ} {t : RunThread}
    {entry : Entry Op.Answer}
    (hstep : ((deployment sha256).step (runState sha256 steps) l).2 = some (.thread i t entry))
    (hi : (runState sha256 steps).threads[i]? = some t) {id : String}
    (ih : ∀ d, (runState sha256 steps).shared.doc id = some d → d.clientId = some clientId →
      Decided clientId createdAt (runEffects sha256 steps) d) {d' : InteractionDocument}
    (hmove : DocMove t.request t.log id entry ((runState sha256 steps).shared.doc id) (some d'))
    (hclient : d'.clientId = some clientId) :
    Decided clientId createdAt (runEffects sha256 steps) d' := by
  generalize hx : (runState sha256 steps).shared.doc id = x at hmove
  generalize hy : some d' = y at hmove
  cases hmove with
  | kept entry x htakes hcreated =>
    subst hy
    exact ih d' hx hclient
  | created input now ttlSeconds pending =>
    cases hy
    exact decided_of_waiting rfl fun _ => rfl
  | claimedPushed asked bindingHash now ttlSeconds d claimed pushed unclaimed _ _ hclaimed =>
    cases hy
    subst hclaimed
    have hnone := (ih d hx hclient).waiting (by simp [pushed]) (by simp [pushed]) (by simp [pushed])
    exact decided_of_waiting hnone fun hready => by simp [pushed] at hready
  | applied operation target patch now d hcan applies =>
    cases hy
    have hd : d.clientId = some clientId := by
      simpa [InteractionDocument.transition, applies.keeps_request.2] using hclient
    refine (ih d hx hd).applied hrun.earlier.fresh hrun.earlier.record (List.mem_of_getElem? hi) hx
      hd now hcan applies ?_
    rintro rfl rfl hstatus
    exact hrun.uid_of_applied hstep hx hstatus
  | claimedCompletion now d status unclaimed _ _ =>
    cases hy
    have hd := ih d hx hclient
    exact ⟨hd.waiting, hd.consented, hd.covered⟩
  | touched entry d d₁ same htakes hcreated =>
    cases hy
    exact (ih d hx (same.clientId ▸ hclient)).sameCourse same
  | exhausted now limit d d₀ seen live =>
    cases hy
    exact (ih d hx hclient).closed (.inl rfl) rfl rfl

/-- Every stored document of the client, and every one a request has read, is decided. -/
theorem decided_documents {sha256 : String → Bytes} {steps : List Step}
    (hrun : ConsentRun sha256 clientId createdAt steps) :
    (∀ id d, (runState sha256 steps).shared.doc id = some d → d.clientId = some clientId →
      Decided clientId createdAt (runEffects sha256 steps) d) ∧
    ∀ t ∈ (runState sha256 steps).threads, ∀ id d, Seen t.log id d → d.clientId = some clientId →
      Decided clientId createdAt (runEffects sha256 steps) d := by
  refine run_invariant (C := ConsentRun sha256 clientId createdAt) (J := fun c effects =>
    (∀ id d, c.shared.doc id = some d → d.clientId = some clientId →
      Decided clientId createdAt effects d) ∧
    ∀ t ∈ c.threads, ∀ id d, Seen t.log id d → d.clientId = some clientId →
      Decided clientId createdAt effects d) (fun _ _ => ConsentRun.earlier) ?_ ?_ ?_ ?_ steps hrun
  · constructor
    · intro id d hdoc
      cases hdoc
    · intro t ht
      cases ht
  · rintro steps q ⟨hstored, hread⟩
    refine ⟨hstored, fun t ht id d hseen => ?_⟩
    rcases List.mem_append.mp ht with ht | ht
    · exact hread t ht id d hseen
    · rw [List.mem_singleton.mp ht] at hseen
      obtain ⟨e, he, -⟩ := hseen
      cases he
  · rintro steps l i t entry w prog hrun hstep ⟨hstored, hread⟩ hi permitted performed
    have hafter : ∀ id d, w.doc id = some d → d.clientId = some clientId →
        Decided clientId createdAt (runEffects sha256 steps) d := by
      intro id d hdoc hclient
      have hmove := docMove_of_performed permitted performed id
      rw [hdoc] at hmove
      exact decided_of_move hrun hstep hi (hstored id) hmove hclient
    refine ⟨fun id d hdoc hclient => (hafter id d hdoc hclient).cons, ?_⟩
    intro t' ht' id d hseen hclient
    rcases List.mem_or_eq_of_mem_set ht' with ht' | rfl
    · exact (hread t' ht' id d hseen hclient).cons
    · obtain ⟨e, he, hopen⟩ := hseen
      rcases List.mem_cons.mp he with rfl | he
      · exact (hafter id d (openDocument_performed performed hopen).1 hclient).cons
      · exact (hread t (List.mem_of_getElem? hi) id d ⟨e, he, hopen⟩ hclient).cons
  · rintro steps entry w ⟨hstored, hread⟩ hop performed
    refine ⟨fun id d hdoc hclient => ?_, fun t ht id d hseen hclient =>
      (hread t ht id d hseen hclient).cons⟩
    rcases doc_of_outside hop performed id with hsame | hnone
    · exact (hstored id d (hsame ▸ hdoc) hclient).cons
    · rw [show w.doc id = some d from hdoc] at hnone
      cases hnone

theorem code_of_issued_session {uid uid' : String} {input : AuthorizeWithSessionInput}
    {reply : Reply} {code : CodeInput}
    (h : issuedCode ⟨.user uid' (.authorizeWithSession input), reply⟩ = some (uid, code)) :
    input.code = some code := by
  cases reply with
  | authorize outcome =>
    cases outcome with
    | ok a =>
      simp only [issuedCode, Option.ite_none_right_eq_some, Option.map_eq_some_iff,
        Prod.mk.injEq] at h
      obtain ⟨-, code', hcode, -, rfl⟩ := h
      exact hcode
    | _ => cases h
  | _ => cases h

theorem code_of_issued_login {uid uid' : String} {input : FinalizeLoginInput} {reply : Reply}
    {code : CodeInput} (h : issuedCode ⟨.user uid' (.finalizeLogin input), reply⟩ =
      some (uid, code)) :
    input.code = some code ∧ uid' = uid := by
  cases reply with
  | login outcome =>
    cases outcome with
    | ok a =>
      simp only [issuedCode, Option.map_eq_some_iff, Prod.mk.injEq] at h
      obtain ⟨code', hcode, rfl, rfl⟩ := h
      exact ⟨hcode, rfl⟩
    | _ => cases h
  | _ => cases h

/-- The session-hit path issues for what the stored grants cover. -/
theorem granted_of_session {sha256 : String → Bytes} {steps : List Step} {uid uid' : String}
    {input : AuthorizeWithSessionInput} {code : CodeInput}
    (hissued : issuedCode ⟨.user uid' (.authorizeWithSession input),
      .authorize (((runState sha256 steps).shared.users uid').authorizeWithSession input).2⟩ =
        some (uid, code))
    (hscope : ∀ issued, input.code = some issued → issued.scope = input.scope)
    (hclient : input.client.clientId = clientId) (hcreated : input.client.createdAt = createdAt)
    (hskip : input.client.skipConsent = false) :
    ∀ s ∈ code.scope, Granted clientId createdAt (runEffects sha256 steps) uid s := by
  cases hreply : (((runState sha256 steps).shared.users uid').authorizeWithSession input).2 with
  | ok a =>
    simp only [hreply, issuedCode, Option.ite_none_right_eq_some, Option.map_eq_some_iff,
      Prod.mk.injEq] at hissued
    obtain ⟨ha, code', hcode, rfl, rfl⟩ := hissued
    intro s hs
    rw [hscope code' hcode] at hs
    obtain ⟨g, hg, hgclient, hgcreated, hgs⟩ :=
      scope_granted_of_authorized hreply ha hcode hskip s hs
    exact rows_granted sha256 steps uid' g hg (hgclient.trans hclient)
      (hgcreated.trans hcreated) s hgs
  | _ => simp [hreply, issuedCode] at hissued

theorem issuedCode_of_outside {entry : Entry Op.Answer} (hop : outsideOp entry.1 = true) :
    issuedCode entry = none := by
  obtain ⟨op, answer⟩ := entry
  cases op with
  | ask question => rfl
  | interaction id call => rfl
  | user uid call => cases call <;> first | rfl | cases hop

/-- What a call of a request issues is covered by the grants of before. -/
theorem granted_of_issued {sha256 : String → Bytes} {steps : List Step}
    (hrun : ConsentRun sha256 clientId createdAt steps) {t : RunThread}
    (ht : t ∈ (runState sha256 steps).threads) {entry : Entry Op.Answer} {w : World}
    (permitted : Permits t.request t.log entry.1)
    (performed : Performed sha256 (runState sha256 steps).shared w entry) {uid : String}
    {code : CodeInput} (hissued : issuedCode entry = some (uid, code))
    (hclient : code.clientId = clientId) :
    ∀ s ∈ code.scope, Granted clientId createdAt (runEffects sha256 steps) uid s := by
  have hrecord : ∀ {asked : String} {client : Client}, directoryEntry asked client ∈ t.log →
      client.clientId = clientId → client.createdAt = createdAt ∧ client.skipConsent = false ∧
        asked = clientId := by
    intro asked client hlog hid
    obtain ⟨effect, heffect, hentry⟩ := exists_effect_of_mem_log ht hlog
    have hasked : asked = clientId := (clientId_of_directoryEntry heffect hentry).symm.trans hid
    subst hasked
    obtain ⟨-, hcreated, hskip⟩ := record_of_mem_log hrun.record ht hlog
    exact ⟨hcreated, hskip, rfl⟩
  cases performed with
  | asked question oracle => cases hissued
  | onInteraction id call o answer answered => cases hissued
  | onUser uid' call =>
    change Calls t.request t.log uid' call at permitted
    cases permitted with
    | quiet call hquiet => cases call <;> first | cases hissued | cases hquiet
    | granted client scopes now hq => cases hissued
    | ended sid now reason hq => cases hissued
    | evaluated ref asked client record request settings now secretHash holding hq =>
      have hid : client.clientId = clientId := by
        cases code_of_issued_session hissued
        exact hclient
      obtain ⟨hcreated, hskip, -⟩ := hrecord record hid
      refine granted_of_session hissued ?_ hid hcreated hskip
      intro issued hcode
      cases hcode
      rfl
    | onSession id binding cookie hq d completing asked client record session issued hid settings
        now =>
      cases code_of_issued_session hissued
      obtain ⟨hcreated, hskip, -⟩ := hrecord record (hid.symm.trans hclient)
      refine granted_of_session hissued ?_ (hid.symm.trans hclient) hcreated hskip
      intro issued' hcode
      cases hcode
      rfl
    | login id binding cookie hq d completing hkind asked client hasked record request hrequest auth
        hauth huid secretHash input hcode =>
      obtain ⟨hinput, rfl⟩ := code_of_issued_login hissued
      cases hcode.symm.trans hinput
      obtain ⟨-, -, rfl⟩ := hrecord record hclient
      have hdecided := (decided_documents hrun).2 t ht id d completing.seen.seen hasked
      have hinteraction : interactionUid d = some uid' := by simp [interactionUid, hauth, huid]
      cases hconsent : d.consent with
      | some scopes =>
        simpa [interactionCode, requestCode, hconsent] using
          hdecided.consented scopes uid' hconsent hinteraction
      | none =>
        simpa [interactionCode, requestCode, hconsent, huid] using
          hdecided.covered auth request completing.ready hconsent hauth hkind hrequest

/-- In every run in which a consent is only applied while the interaction is about its user, a
code issued to the client covers only scopes its user had granted to it. -/
theorem consent_covers_of_same_user (sha256 : String → Bytes) (clientId : String) (createdAt : ℤ)
    (steps : List Step) (hfresh : FreshIds (runEffects sha256 steps))
    (hrecord : ∀ effect ∈ runEffects sha256 steps,
      asksConsent clientId createdAt effect.entry = true)
    (hsame : ∀ e ∈ runEvents sha256 steps, switchesUser e = false) :
    ConsentCovers clientId createdAt (runEffects sha256 steps) := by
  refine run_invariant (C := ConsentRun sha256 clientId createdAt) (J := fun _ effects =>
    ConsentCovers clientId createdAt effects) (fun _ _ => ConsentRun.earlier) ?_ (fun _ _ ih => ih)
    ?_ ?_ steps ⟨hfresh, hrecord, hsame⟩
  · intro effect before hsuffix
    simp at hsuffix
  · intro steps l i t entry w prog hrun _ ih hi permitted performed effect before hsuffix
    rcases List.suffix_cons_iff.mp hsuffix with heq | hsuffix
    · obtain ⟨rfl, rfl⟩ := List.cons.inj heq
      intro uid code hissued hclient
      exact granted_of_issued hrun.earlier (List.mem_of_getElem? hi) permitted performed hissued
        hclient
    · exact ih effect before hsuffix
  · intro steps entry w ih hop performed effect before hsuffix
    rcases List.suffix_cons_iff.mp hsuffix with heq | hsuffix
    · obtain ⟨rfl, rfl⟩ := List.cons.inj heq
      intro uid code hissued
      rw [Effect.entry_outside, issuedCode_of_outside hop] at hissued
      cases hissued
    · exact ih effect before hsuffix

theorem consent_covers_sample :
    FreshIds (runEffects User.Sample.sha256 Sample.completedOnce) ∧
      (∀ effect ∈ runEffects User.Sample.sha256 Sample.completedOnce,
        asksConsent "app" 5 effect.entry = true) ∧
      (∀ e ∈ runEvents User.Sample.sha256 Sample.completedOnce, switchesUser e = false) ∧
      (runEffects User.Sample.sha256 Sample.completedOnce).any
        (fun effect => (issuedCode effect.entry).isSome) = true ∧
      ConsentCovers "app" 5 (runEffects User.Sample.sha256 Sample.completedOnce) :=
  ⟨by decide +kernel, by decide +kernel, by decide +kernel, by decide +kernel,
    consent_covers_of_same_user User.Sample.sha256 "app" 5 Sample.completedOnce (by decide +kernel)
      (by decide +kernel) (by decide +kernel)⟩

namespace Sample

/-- The cookie of the session `u1` has from a login to `portal`. -/
def cookie : SessionCookie := .presented (some ⟨"u1", "s1", [1]⟩)

/-- A consent of `u1` is recorded and not yet applied when the session is gone and `u2` logs in
to the interaction; the applied consent then counts as the one of `u2`. -/
def switched : List Step :=
  (user "u1" ++ user "u2" ++ whole 0 ix (authorize "portal" .absent) ++
    login 1 ix "u1" ++ whole 3 ix complete ++ whole 4 iy (authorize "app" cookie) ++
    .spawn (.consent (api iy) (some (.grant ["openid"]))) :: serve 5 6 iy ++
    whole 6 iy (.consent (api iy) (some (.grant ["openid"]))) ++
    .outside (.user "u1" (.revokeSession "s1" 10 "logout")) (oracle iy) ::
    whole 7 iy (.complete iy (some ⟨iy, [1]⟩) cookie) ++ login 8 iy "u2" ++ serve 5 1 iy ++
    whole 10 iy (.complete iy (some ⟨iy, [1]⟩) .absent)).reverse

end Sample

/-- The code of `u2` covers a scope that only `u1` has granted. -/
theorem consent_of_another_user :
    FreshIds (runEffects User.Sample.sha256 Sample.switched) ∧
      (∀ effect ∈ runEffects User.Sample.sha256 Sample.switched,
        asksConsent "app" 5 effect.entry = true) ∧
      ¬ ConsentCovers "app" 5 (runEffects User.Sample.sha256 Sample.switched) :=
  ⟨by decide +kernel, by decide +kernel, by decide +kernel⟩

end TinyOidc.Interaction
