import TinyOidc.Interaction.FlowProtocol

/-! Runs of the system, one call at a time: what a call does to the objects, what it does to
one document, and what a request may still assume of a document it has read. -/
namespace TinyOidc.Interaction
open TinyOidc.User Threads
open Lists (count_filterMap_cons)

abbrev RunConfig := Config Request World Op.Answer Response

abbrev RunThread := Thread Request Op.Answer Response

abbrev RunEffect := Effect Request Op.Answer Response

abbrev RunEvent := Machine.Event RunConfig Step (Option RunEffect)

/-- The system after a schedule, newest step first, from a world in which nothing is stored. -/
abbrev runState (sha256 : String → Bytes) (steps : List Step) : RunConfig :=
  (deployment sha256).after .fresh steps

abbrev runEvents (sha256 : String → Bytes) (steps : List Step) : List RunEvent :=
  (deployment sha256).history .fresh steps

/-! ### One call -/

inductive Performed (sha256 : String → Bytes) (w : World) : World → Entry Op.Answer → Prop where
  | asked (question : Question) (oracle : Oracle) :
      Performed sha256 w w ⟨.ask question, directoryAnswer question (oracle question)⟩
  | onUser (uid : String) (call : Call) :
      Performed sha256 w
        ⟨w.interactions, Function.update w.users uid ((w.users uid).call sha256 call).1⟩
        ⟨.user uid call, ((w.users uid).call sha256 call).2⟩
  | onInteraction (id : String) (call : InteractionCall) (o : InteractionObject)
      (answer : call.Answer) (answered : (w.interactions id).Answered call o answer) :
      Performed sha256 w ⟨Function.update w.interactions id o, w.users⟩
        ⟨.interaction id call, answer⟩

theorem exec_performed (sha256 : String → Bytes) (w : World) (oracle : Oracle) (op : Op) :
    Performed sha256 w (w.exec sha256 oracle op).1 ⟨op, (w.exec sha256 oracle op).2⟩ := by
  cases op with
  | ask question => exact .asked question oracle
  | user uid call => exact .onUser uid call
  | interaction id call =>
    exact .onInteraction id call _ _ ((w.interactions id).call_answered call)

/-- One step of a run: nothing, a request that arrives, a permitted call of a request, or an
alarm or a call of another endpoint. -/
inductive Moves (sha256 : String → Bytes) (c : RunConfig) : RunConfig → Option RunEffect → Prop
    where
  | idle : Moves sha256 c c none
  | spawn (q : Request) : Moves sha256 c ⟨c.shared, c.threads ++ [⟨q, [], q.handler⟩]⟩ none
  | thread (i : ℕ) (t : RunThread) (entry : Entry Op.Answer) (w : World) (prog : Handler Response)
      (hi : c.threads[i]? = some t) (next : t.prog.head = some entry.1)
      (permitted : Permits t.request t.log entry.1)
      (performed : Performed sha256 c.shared w entry) :
      Moves sha256 c ⟨w, c.threads.set i ⟨t.request, entry :: t.log, prog⟩⟩
        (some (.thread i t entry))
  | outside (entry : Entry Op.Answer) (w : World) (hop : outsideOp entry.1 = true)
      (performed : Performed sha256 c.shared w entry) :
      Moves sha256 c ⟨w, c.threads⟩ (some (.outside entry))

theorem run_moves (sha256 : String → Bytes) (steps : List Step) (l : Step) :
    Moves sha256 (runState sha256 steps) (runState sha256 (l :: steps))
      ((deployment sha256).step (runState sha256 steps) l).2 := by
  have hobeys := System.thread_obeys (deployment_follows sha256) .fresh steps
  have hsteps := (deployment sha256).step_steps (runState sha256 steps) l
  show Moves sha256 _ ((deployment sha256).step (runState sha256 steps) l).1 _
  generalize (deployment sha256).step (runState sha256 steps) l = next at hsteps
  obtain ⟨c', effect⟩ := next
  cases hsteps with
  | idle => exact .idle
  | spawn q => exact .spawn q
  | thread i t op next answer hi hp =>
    have ht := hobeys t (List.mem_of_getElem? hi)
    rw [hp] at ht
    exact .thread i t _ _ _ hi (by rw [hp]; rfl) ht.1 (exec_performed sha256 _ answer op)
  | outside op answer hop => exact .outside _ _ hop (exec_performed sha256 _ answer op)

/-- The calls of a run with those who made them, newest first. -/
def runEffects (sha256 : String → Bytes) (steps : List Step) : List RunEffect :=
  (runEvents sha256 steps).filterMap (·.reply)

theorem runEvents_cons (sha256 : String → Bytes) (l : Step) (steps : List Step) :
    runEvents sha256 (l :: steps) =
      Machine.event (deployment sha256).step (runState sha256 steps) l :: runEvents sha256 steps :=
  rfl

theorem runEffects_cons (sha256 : String → Bytes) (l : Step) (steps : List Step) :
    runEffects sha256 (l :: steps) =
      ((deployment sha256).step (runState sha256 steps) l).2.toList ++ runEffects sha256 steps := by
  rw [runEffects, runEvents_cons, List.filterMap_cons, Machine.event_reply]
  cases ((deployment sha256).step (runState sha256 steps) l).2 <;> rfl

/-- The invariant rule for runs. The condition `C` on runs passes to every earlier part. -/
theorem run_invariant {sha256 : String → Bytes} {C : List Step → Prop}
    (hC : ∀ l steps, C (l :: steps) → C steps) {J : RunConfig → List RunEffect → Prop}
    (h0 : J ⟨.fresh, []⟩ [])
    (hspawn : ∀ steps q, J (runState sha256 steps) (runEffects sha256 steps) →
      J ⟨(runState sha256 steps).shared,
        (runState sha256 steps).threads ++ [⟨q, [], q.handler⟩]⟩ (runEffects sha256 steps))
    (hthread : ∀ steps l i t entry w prog, C (l :: steps) →
      ((deployment sha256).step (runState sha256 steps) l).2 = some (.thread i t entry) →
      J (runState sha256 steps) (runEffects sha256 steps) →
      (runState sha256 steps).threads[i]? = some t → Permits t.request t.log entry.1 →
      Performed sha256 (runState sha256 steps).shared w entry →
      J ⟨w, (runState sha256 steps).threads.set i ⟨t.request, entry :: t.log, prog⟩⟩
        (.thread i t entry :: runEffects sha256 steps))
    (houtside : ∀ steps entry w, J (runState sha256 steps) (runEffects sha256 steps) →
      outsideOp entry.1 = true → Performed sha256 (runState sha256 steps).shared w entry →
      J ⟨w, (runState sha256 steps).threads⟩ (.outside entry :: runEffects sha256 steps))
    (steps : List Step) (hc : C steps) :
    J (runState sha256 steps) (runEffects sha256 steps) := by
  induction steps with
  | nil => exact h0
  | cons l steps ih =>
    have hmoves := run_moves sha256 steps l
    rw [runEffects_cons]
    generalize runState sha256 (l :: steps) = c' at hmoves ⊢
    generalize heffect : ((deployment sha256).step (runState sha256 steps) l).2 = effect
      at hmoves ⊢
    cases hmoves with
    | idle => exact ih (hC l steps hc)
    | spawn q => exact hspawn steps q (ih (hC l steps hc))
    | thread i t entry w prog hi _ permitted performed =>
      exact hthread steps l i t entry w prog hc heffect (ih (hC l steps hc)) hi permitted performed
    | outside entry w hop performed =>
      exact houtside steps entry w (ih (hC l steps hc)) hop performed

/-! ### One document -/

def createdId : Entry Op.Answer → Option String
  | ⟨.interaction id (.create _ _ _), .ok _⟩ => some id
  | _ => none

def drawnId : Entry Op.Answer → Option String
  | ⟨.ask .newInteractionId, id⟩ => some id
  | _ => none

/-- Two documents at the same point of their course: only working fields differ. -/
structure SameCourse (d d' : InteractionDocument) : Prop where
  status : d'.status = d.status
  kind : d'.kind = d.kind
  clientId : d'.clientId = d.clientId
  request : d'.request = d.request
  existingSession : d'.existingSession = d.existingSession
  auth : d'.auth = d.auth
  consent : d'.consent = d.consent
  parConsumed : d'.parConsumed = d.parConsumed
  completing : d'.completing = d.completing

/-- Everything the call of a request can do to the document of `id`. -/
inductive DocMove (q : Request) (log : Log) (id : String) :
    Entry Op.Answer → Option InteractionDocument → Option InteractionDocument → Prop where
  | kept (entry : Entry Op.Answer) (x : Option InteractionDocument)
      (htakes : takes id entry = false) (hcreated : createdId entry ≠ some id) :
      DocMove q log id entry x x
  | created (input : CreateInteraction) (now ttlSeconds : ℤ) (pending : pendingId id log = true) :
      DocMove q log id ⟨.interaction id (.create input now ttlSeconds),
        .ok (newDocument input now ttlSeconds)⟩ none (some (newDocument input now ttlSeconds))
  | claimedPushed (clientId bindingHash : String) (now ttlSeconds : ℤ)
      (d claimed : InteractionDocument) (pushed : d.status = .pushed)
      (unclaimed : d.parConsumed = false) (hq : q.behalf = some id) (hlog : Unclaimed id log)
      (hclaimed : claimed = { d with
        kind := .authorize, bindingHash := bindingHash, parConsumed := true
        expiresAt := now + ttlSeconds }) :
      DocMove q log id ⟨.interaction id (.claimPushed clientId bindingHash now ttlSeconds),
        .ok claimed⟩ (some d) (some claimed)
  | applied (operation : InteractionOperation) (target : InteractionStatus)
      (patch : TransitionPatch) (now : ℤ) (d : InteractionDocument)
      (permitted : canTransition d.status operation target = true)
      (applies : Applies q log id operation target patch) :
      DocMove q log id ⟨.interaction id (.apply operation target patch now),
        .ok (d.transition target patch now)⟩ (some d) (some (d.transition target patch now))
  | claimedCompletion (now : ℤ) (d : InteractionDocument)
      (status : d.status = .ready ∨ d.status = .failed) (unclaimed : d.completing = false)
      (hq : q.behalf = some id) (hlog : Unclaimed id log) :
      DocMove q log id ⟨.interaction id (.claimCompletion now), .ok { d with completing := true }⟩
        (some d) (some { d with completing := true })
  | touched (entry : Entry Op.Answer) (d d' : InteractionDocument) (same : SameCourse d d')
      (htakes : takes id entry = false) (hcreated : createdId entry ≠ some id) :
      DocMove q log id entry (some d) (some d')
  | exhausted (now : ℤ) (limit : ℕ) (d d₀ : InteractionDocument) (seen : Seen log id d₀)
      (live : isTerminal d.status = false) :
      DocMove q log id ⟨.interaction id (.attempt now limit), .error .tooManyAttempts⟩ (some d)
        (some (d.transition .failed (InteractionObject.attemptsExceeded (d.attempts + 1)) now))

theorem takes_of_ne {id id' : String} (hne : id' ≠ id) {call : InteractionCall}
    {answer : call.Answer} : takes id ⟨.interaction id' call, answer⟩ = false := by
  cases call <;> cases answer <;> simp [takes, hne]

theorem createdId_of_ne {id id' : String} (hne : id' ≠ id) {call : InteractionCall}
    {answer : call.Answer} : createdId ⟨.interaction id' call, answer⟩ ≠ some id := by
  cases call <;> cases answer <;> simp [createdId, hne]

theorem takes_error {id id' : String} {call : InteractionCall} {e : InteractionDoError} :
    takes id ⟨.interaction id' call, .error e⟩ = false := by
  cases call <;> rfl

theorem createdId_error {id' : String} {call : InteractionCall} {e : InteractionDoError} :
    createdId ⟨.interaction id' call, .error e⟩ = none := by
  cases call <;> rfl

theorem docMove_of_performed {sha256 : String → Bytes} {q : Request} {log : Log} {w w' : World}
    {entry : Entry Op.Answer} (permitted : Permits q log entry.1)
    (performed : Performed sha256 w w' entry) (id : String) :
    DocMove q log id entry (w.doc id) (w'.doc id) := by
  cases performed with
  | asked question oracle => exact .kept _ _ rfl nofun
  | onUser uid call => exact .kept _ _ rfl nofun
  | onInteraction id' call o answer answered =>
    by_cases hne : id' = id
    · subst hne
      have hdoc : (⟨Function.update w.interactions id' o, w.users⟩ : World).doc id' = o.doc := by
        simp [World.doc]
      rw [hdoc]
      change InteractionCalls q log id' call at permitted
      cases answered with
      | refused _ e => exact .kept _ _ takes_error (by simp [createdId_error])
      | created input now ttlSeconds alarmAt absent =>
        rw [World.doc, absent]
        exact .created input now ttlSeconds permitted
      | read now d stored => exact .kept _ _ rfl nofun
      | claimedPushed clientId bindingHash now ttlSeconds alarmAt d stored pushed unclaimed _ =>
        rw [World.doc, stored]
        exact .claimedPushed _ _ _ _ d _ pushed unclaimed permitted.1 permitted.2 rfl
      | applied operation target patch now alarmAt d stored allowed =>
        rw [World.doc, stored]
        exact .applied operation target patch now d allowed permitted
      | claimedCompletion now alarmAt d stored status unclaimed =>
        rw [World.doc, stored]
        exact .claimedCompletion now d status unclaimed permitted.1 permitted.2
      | consumedFederation stateHash now alarmAt d leg stored status pending =>
        rw [World.doc, stored]
        exact .touched _ _ _ ⟨rfl, rfl, rfl, rfl, rfl, rfl, rfl, rfl, rfl⟩ rfl nofun
      | patched fields now alarmAt d stored live =>
        rw [World.doc, stored]
        exact .touched _ _ _ ⟨rfl, rfl, rfl, rfl, rfl, rfl, rfl, rfl, rfl⟩ rfl nofun
      | attempted now limit alarmAt d stored live =>
        rw [World.doc, stored]
        exact .touched _ _ _ ⟨rfl, rfl, rfl, rfl, rfl, rfl, rfl, rfl, rfl⟩ rfl nofun
      | exhausted now limit alarmAt d stored live =>
        rw [World.doc, stored]
        obtain ⟨d₀, hseen⟩ := permitted
        exact .exhausted now limit d d₀ hseen live
      | early now => exact permitted.elim
      | expired now => exact permitted.elim
    · have hdoc : (⟨Function.update w.interactions id' o, w.users⟩ : World).doc id = w.doc id := by
        simp [World.doc, Function.update_of_ne (Ne.symm hne)]
      rw [hdoc]
      exact .kept _ _ (takes_of_ne hne) (createdId_of_ne hne)

/-- Beside the requests, a document only disappears. -/
theorem doc_of_outside {sha256 : String → Bytes} {w w' : World} {entry : Entry Op.Answer}
    (hop : outsideOp entry.1 = true) (performed : Performed sha256 w w' entry) (id : String) :
    w'.doc id = w.doc id ∨ w'.doc id = none := by
  cases performed with
  | asked question oracle => exact .inl rfl
  | onUser uid call => exact .inl rfl
  | onInteraction id' call o answer answered =>
    by_cases hne : id' = id
    · subst hne
      have hdoc : (⟨Function.update w.interactions id' o, w.users⟩ : World).doc id' = o.doc := by
        simp [World.doc]
      rw [hdoc]
      cases answered with
      | refused _ e => exact .inl rfl
      | early now => exact .inl rfl
      | expired now => exact .inr rfl
      | _ => cases hop
    · left
      simp [World.doc, Function.update_of_ne (Ne.symm hne)]

/-! ### Ids -/

def createdIds (effects : List RunEffect) : List String :=
  effects.filterMap fun effect => createdId effect.entry

def drawnIds (effects : List RunEffect) : List String :=
  effects.filterMap fun effect => drawnId effect.entry

/-- An interaction id is 32 random bytes, so that no id is drawn twice. -/
def FreshIds (effects : List RunEffect) : Prop := (drawnIds effects).Nodup

instance (effects : List RunEffect) : Decidable (FreshIds effects) :=
  inferInstanceAs (Decidable (drawnIds effects).Nodup)

theorem count_createdIds_cons (effect : RunEffect) (effects : List RunEffect) (id : String) :
    (createdIds (effect :: effects)).count id =
      (createdId effect.entry).toList.count id + (createdIds effects).count id :=
  count_filterMap_cons _ effect effects id

theorem count_drawnIds_cons (effect : RunEffect) (effects : List RunEffect) (id : String) :
    (drawnIds (effect :: effects)).count id =
      (drawnId effect.entry).toList.count id + (drawnIds effects).count id :=
  count_filterMap_cons _ effect effects id

theorem FreshIds.earlier {sha256 : String → Bytes} {l : Step} {steps : List Step}
    (h : FreshIds (runEffects sha256 (l :: steps))) : FreshIds (runEffects sha256 steps) := by
  rw [FreshIds, runEffects_cons, drawnIds, List.filterMap_append] at h
  exact h.of_append_right

/-- A request creates an interaction under an id it has drawn and not used. -/
theorem pendingId_step {q : Request} {log : Log} {entry : Entry Op.Answer}
    (permitted : Permits q log entry.1) (id : String) :
    (createdId entry).toList.count id + (pendingId id (entry :: log)).toNat ≤
      (pendingId id log).toNat + (drawnId entry).toList.count id := by
  obtain ⟨op, answer⟩ := entry
  cases op with
  | user uid call => simp [createdId, drawnId, pendingId]
  | ask question =>
    cases question with
    | newInteractionId =>
      by_cases hid : answer = id
      · subst hid
        simp [createdId, drawnId, pendingId]
      · have hne : (answer == id) = false := beq_eq_false_iff_ne.mpr hid
        simp [createdId, drawnId, pendingId, hne]
    | _ => simp [createdId, drawnId, pendingId]
  | interaction id' call =>
    cases call with
    | create input now ttlSeconds =>
      have hpending : pendingId id' log = true := permitted
      cases answer with
      | error e => simp [createdId, drawnId, pendingId]
      | ok d =>
        by_cases hid : id' = id
        · subst hid
          simp [createdId, drawnId, pendingId, hpending]
        · simp [createdId, drawnId, pendingId, hid]
    | _ => simp [createdId, drawnId, pendingId]

theorem createdId_of_outside {entry : Entry Op.Answer} (hop : outsideOp entry.1 = true) :
    createdId entry = none := by
  obtain ⟨op, answer⟩ := entry
  cases op with
  | ask question => rfl
  | user uid call => rfl
  | interaction id call => cases call <;> first | rfl | cases hop

/-- Whether a request has an id in hand, as a number. -/
def pendingIds (id : String) (t : RunThread) : ℕ := (pendingId id t.log).toNat

/-- Each creation of an interaction uses up one draw of its id. -/
theorem created_add_pending_le_drawn (sha256 : String → Bytes) (id : String) (steps : List Step) :
    (createdIds (runEffects sha256 steps)).count id +
        (runState sha256 steps).total (pendingIds id) ≤
      (drawnIds (runEffects sha256 steps)).count id := by
  refine run_invariant (C := fun _ => True) (J := fun c effects => (createdIds effects).count id +
    c.total (pendingIds id) ≤ (drawnIds effects).count id)
    (fun _ _ _ => trivial) (Nat.le_refl 0) ?_ ?_ ?_ steps trivial
  · intro steps q h
    rw [Config.total_spawn]
    exact h
  · intro steps l i t entry w prog _ _ h hi permitted _
    have hstep : _ + pendingIds id ⟨t.request, entry :: t.log, prog⟩ ≤ pendingIds id t + _ :=
      pendingId_step permitted id
    have hsum := Config.total_set (pendingIds id) _ w hi ⟨t.request, entry :: t.log, prog⟩
    simp only [count_createdIds_cons, count_drawnIds_cons, Effect.entry_thread]
    omega
  · intro steps entry w h hop _
    have hcreated := createdId_of_outside hop
    simp only [count_createdIds_cons, count_drawnIds_cons, Effect.entry_outside, hcreated,
      Option.toList_none, List.count_nil]
    change _ + (runState sha256 steps).total _ ≤ _
    omega

/-- An id in hand has not been used yet. -/
theorem notMem_createdIds_of_pending {sha256 : String → Bytes} {steps : List Step} {id : String}
    (hfresh : FreshIds (runEffects sha256 steps)) {i : ℕ} {t : RunThread}
    (hi : (runState sha256 steps).threads[i]? = some t) (hpending : pendingId id t.log = true) :
    id ∉ createdIds (runEffects sha256 steps) := by
  intro hmem
  have hle := created_add_pending_le_drawn sha256 id steps
  have hone := List.nodup_iff_count_le_one.mp hfresh id
  have hcreated : 0 < (createdIds (runEffects sha256 steps)).count id := List.count_pos_iff.mpr hmem
  have hheld : pendingIds id t ≤ (runState sha256 steps).total (pendingIds id) :=
    Config.held_le_total _ _ hi
  have hheld' : pendingIds id t = 1 := by simp [pendingIds, hpending]
  omega

theorem mem_createdIds_cons {effect : RunEffect} {effects : List RunEffect} {id : String} :
    id ∈ createdIds (effect :: effects) ↔
      createdId effect.entry = some id ∨ id ∈ createdIds effects := by
  simp only [createdIds, List.mem_filterMap, List.mem_cons]
  constructor
  · rintro ⟨x, rfl | hx, h⟩
    · exact .inl h
    · exact .inr ⟨x, hx, h⟩
  · rintro (h | ⟨x, hx, h⟩)
    · exact ⟨effect, .inl rfl, h⟩
    · exact ⟨x, .inr hx, h⟩

/-- A stored document was created under its id. -/
theorem mem_createdIds_of_doc (sha256 : String → Bytes) (steps : List Step) {id : String}
    {d : InteractionDocument} (h : (runState sha256 steps).shared.doc id = some d) :
    id ∈ createdIds (runEffects sha256 steps) := by
  revert d
  refine run_invariant (C := fun _ => True) (J := fun c effects => ∀ {d : InteractionDocument},
    c.shared.doc id = some d → id ∈ createdIds effects) (fun _ _ _ => trivial) nofun ?_ ?_ ?_
    steps trivial
  · intro steps q ih d h
    exact ih h
  · intro steps l i t entry w prog _ _ ih hi permitted performed d h
    have hmove := docMove_of_performed permitted performed id
    rw [mem_createdIds_cons]
    change w.doc id = some d at h
    rw [h] at hmove
    generalize hx : (runState sha256 steps).shared.doc id = x at hmove
    cases hmove with
    | created input now ttlSeconds pending => exact .inl rfl
    | _ => exact .inr (ih hx)
  · intro steps entry w ih hop performed d h
    rw [mem_createdIds_cons]
    rcases doc_of_outside hop performed id with hdoc | hdoc
    · exact .inr (ih (hdoc ▸ h))
    · change w.doc id = some d at h
      rw [hdoc] at h
      cases h

/-! ### What a request has read -/

/-- What stays of a document past the pushed request: the client and what it asked for. -/
structure Later (d₀ d : InteractionDocument) : Prop where
  opened : d.status ≠ .pushed
  kind : d.kind = d₀.kind
  clientId : d.clientId = d₀.clientId
  request : d.request = d₀.request

/-- No transition of a handler replaces the request or its client. -/
theorem Applies.keeps_request {q : Request} {log : Log} {id : String}
    {operation : InteractionOperation} {target : InteractionStatus} {patch : TransitionPatch}
    (h : Applies q log id operation target patch) :
    patch.request = none ∧ patch.clientId = none := by
  cases h <;> exact ⟨rfl, rfl⟩

theorem Later.move {q : Request} {log : Log} {id : String} {entry : Entry Op.Answer}
    {d₀ d d' : InteractionDocument} (h : Later d₀ d)
    (hmove : DocMove q log id entry (some d) (some d')) : Later d₀ d' := by
  generalize hx : some d = x at hmove
  generalize hy : some d' = y at hmove
  cases hmove with
  | kept entry x htakes hcreated =>
    cases hx.trans hy.symm
    exact h
  | created input now ttlSeconds pending => cases hx
  | claimedPushed clientId bindingHash now ttlSeconds d₁ claimed pushed =>
    cases hx
    exact absurd pushed h.opened
  | applied operation target patch now d₁ permitted applies =>
    cases hx
    cases hy
    obtain ⟨hrequest, hclient⟩ := applies.keeps_request
    refine ⟨ne_pushed_of_canTransition permitted, h.kind, ?_, ?_⟩
    · simpa [InteractionDocument.transition, hclient] using h.clientId
    · simpa [InteractionDocument.transition, hrequest] using h.request
  | claimedCompletion now d₁ status unclaimed hq hlog =>
    cases hx
    cases hy
    exact ⟨h.opened, h.kind, h.clientId, h.request⟩
  | touched entry d₁ d₂ same htakes hcreated =>
    cases hx
    cases hy
    exact ⟨same.status ▸ h.opened, same.kind.trans h.kind, same.clientId.trans h.clientId,
      same.request.trans h.request⟩
  | exhausted now limit d₁ d₂ seen live =>
    cases hx
    cases hy
    exact ⟨nofun, h.kind, h.clientId, h.request⟩

/-- An interaction past its pushed request, with the document some request has read of it. -/
structure Tracks (c : RunConfig) (effects : List RunEffect) (id : String)
    (d₀ : InteractionDocument) : Prop where
  created : id ∈ createdIds effects
  later : ∀ d, c.shared.doc id = some d → Later d₀ d

/-- A document that was read is the stored one, and past the pushed request. -/
theorem openDocument_performed {sha256 : String → Bytes} {w w' : World} {entry : Entry Op.Answer}
    (performed : Performed sha256 w w' entry) {id : String} {d₀ : InteractionDocument}
    (h : openDocument id entry = some d₀) :
    w'.doc id = some d₀ ∧ d₀.status ≠ .pushed ∧ ∃ d, w.doc id = some d := by
  cases performed with
  | asked question oracle => cases h
  | onUser uid call => cases h
  | onInteraction id' call o answer answered =>
    cases answered with
    | read now d stored =>
      simp only [openDocument, Option.ite_none_right_eq_some, Option.some.injEq] at h
      obtain ⟨⟨rfl, hopened⟩, rfl⟩ := h
      exact ⟨by simpa [World.doc] using stored, hopened, d, stored⟩
    | consumedFederation stateHash now alarmAt d leg stored status pending =>
      simp only [openDocument, Option.ite_none_right_eq_some, Option.some.injEq] at h
      obtain ⟨rfl, rfl⟩ := h
      exact ⟨by simp [World.doc], by simp [status], d, stored⟩
    | refused _ e => cases call <;> cases h
    | _ => cases h

/-- A document that was answered with is the stored one. -/
theorem doc_of_get_performed {sha256 : String → Bytes} {w w' : World} {id : String} {now : ℤ}
    {d : InteractionDocument}
    (performed : Performed sha256 w w' ⟨.interaction id (.get now), .ok d⟩) :
    w.doc id = some d := by
  generalize hentry : (⟨.interaction id (.get now), .ok d⟩ : Entry Op.Answer) = entry at performed
  cases performed with
  | asked question oracle => cases hentry
  | onUser uid call => cases hentry
  | onInteraction id' call o answer answered =>
    cases hentry
    cases answered with
    | read now d stored => exact stored

section Steps

variable {sha256 : String → Bytes} {steps : List Step} {id : String} {d₀ : InteractionDocument}

theorem Tracks.thread (hfresh : FreshIds (runEffects sha256 steps))
    (h : Tracks (runState sha256 steps) (runEffects sha256 steps) id d₀) {i : ℕ} {t : RunThread}
    {entry : Entry Op.Answer} {w : World} (threads : List RunThread)
    (hi : (runState sha256 steps).threads[i]? = some t)
    (permitted : Permits t.request t.log entry.1)
    (performed : Performed sha256 (runState sha256 steps).shared w entry) :
    Tracks ⟨w, threads⟩ (.thread i t entry :: runEffects sha256 steps) id d₀ where
  created := mem_createdIds_cons.mpr (.inr h.created)
  later := by
    intro d' hd'
    have hmove := docMove_of_performed permitted performed id
    rw [show w.doc id = some d' from hd'] at hmove
    cases hx : (runState sha256 steps).shared.doc id with
    | some d =>
      rw [hx] at hmove
      exact (h.later d hx).move hmove
    | none =>
      rw [hx] at hmove
      cases hmove with
      | created input now ttlSeconds pending =>
        exact absurd h.created (notMem_createdIds_of_pending hfresh hi pending)

theorem Tracks.outside (h : Tracks (runState sha256 steps) (runEffects sha256 steps) id d₀)
    {entry : Entry Op.Answer} {w : World} (threads : List RunThread)
    (hop : outsideOp entry.1 = true)
    (performed : Performed sha256 (runState sha256 steps).shared w entry) :
    Tracks ⟨w, threads⟩ (.outside entry :: runEffects sha256 steps) id d₀ where
  created := mem_createdIds_cons.mpr (.inr h.created)
  later := by
    intro d' hd'
    rcases doc_of_outside hop performed id with hdoc | hdoc
    · exact h.later d' (hdoc ▸ hd')
    · rw [show w.doc id = some d' from hd'] at hdoc
      cases hdoc

end Steps

/-- What a request has read of an interaction still holds of it: the object does not go back
to a pushed request, nor to another one. -/
theorem tracks_of_seen {sha256 : String → Bytes} {steps : List Step}
    (hfresh : FreshIds (runEffects sha256 steps)) {t : RunThread}
    (ht : t ∈ (runState sha256 steps).threads) {id : String} {d₀ : InteractionDocument}
    (hseen : Seen t.log id d₀) :
    Tracks (runState sha256 steps) (runEffects sha256 steps) id d₀ := by
  revert t
  refine run_invariant (C := fun steps => FreshIds (runEffects sha256 steps))
    (J := fun c effects => ∀ {t : RunThread}, t ∈ c.threads → Seen t.log id d₀ →
      Tracks c effects id d₀) (fun _ _ => FreshIds.earlier) nofun ?_ ?_ ?_ steps hfresh
  · intro steps q ih t ht hseen
    rcases List.mem_append.mp ht with ht | ht
    · have htracks := ih ht hseen
      exact ⟨htracks.created, htracks.later⟩
    · rw [List.mem_singleton.mp ht] at hseen
      obtain ⟨e, he, -⟩ := hseen
      cases he
  · intro steps l i t entry w prog hfresh _ ih hi permitted performed t' ht' hseen
    have hold : ∀ {t₀ : RunThread}, t₀ ∈ (runState sha256 steps).threads → Seen t₀.log id d₀ →
        Tracks ⟨w, (runState sha256 steps).threads.set i ⟨t.request, entry :: t.log, prog⟩⟩
          (.thread i t entry :: runEffects sha256 steps) id d₀ :=
      fun ht₀ hseen₀ => (ih ht₀ hseen₀).thread hfresh.earlier _ hi permitted performed
    rcases List.mem_or_eq_of_mem_set ht' with ht' | rfl
    · exact hold ht' hseen
    · obtain ⟨e, he, hopen⟩ := hseen
      rcases List.mem_cons.mp he with rfl | he
      · obtain ⟨hdoc, hopened, d, hd⟩ := openDocument_performed performed hopen
        refine ⟨mem_createdIds_cons.mpr (.inr (mem_createdIds_of_doc sha256 steps hd)), ?_⟩
        intro d' hd'
        cases hdoc.symm.trans hd'
        exact ⟨hopened, rfl, rfl, rfl⟩
      · exact hold (List.mem_of_getElem? hi) ⟨e, he, hopen⟩
  · intro steps entry w ih hop performed t ht hseen
    exact (ih ht hseen).outside _ hop performed

/-- A request's log is part of the run. -/
theorem exists_effect_of_mem_log {sha256 : String → Bytes} {steps : List Step} {t : RunThread}
    (ht : t ∈ (runState sha256 steps).threads) {entry : Entry Op.Answer} (hentry : entry ∈ t.log) :
    ∃ effect ∈ runEffects sha256 steps, effect.entry = entry := by
  obtain ⟨e, he, i, t₀, hreply, -⟩ :=
    (deployment sha256).exists_event_of_mem_log .fresh steps t ht entry hentry
  exact ⟨_, List.mem_filterMap.mpr ⟨e, he, hreply⟩, rfl⟩

theorem clientId_of_performed {sha256 : String → Bytes} {w w' : World} {clientId : String}
    {client : Client} (performed : Performed sha256 w w' (directoryEntry clientId client)) :
    client.clientId = clientId := by
  generalize hentry : directoryEntry clientId client = entry at performed
  cases performed with
  | asked question oracle =>
    cases question with
    | client clientId' =>
      simp only [directoryEntry, Sigma.mk.injEq, Op.ask.injEq, Question.client.injEq] at hentry
      obtain ⟨rfl, hanswer⟩ := hentry
      have hsome := (eq_of_heq hanswer).symm
      simp only [directoryAnswer, Option.map_eq_some_iff] at hsome
      obtain ⟨record, -, client', -, rfl⟩ := hsome
      rfl
    | _ => cases hentry
  | onUser uid call => cases hentry
  | onInteraction id call o answer answered => cases hentry

/-- The directory answers with the record it was asked for. -/
theorem clientId_of_directoryEntry {sha256 : String → Bytes} {steps : List Step}
    {effect : RunEffect} (heffect : effect ∈ runEffects sha256 steps) {clientId : String}
    {client : Client} (hentry : effect.entry = directoryEntry clientId client) :
    client.clientId = clientId := by
  revert effect
  refine run_invariant (C := fun _ => True) (J := fun _ effects => ∀ {effect : RunEffect},
    effect ∈ effects → effect.entry = directoryEntry clientId client → client.clientId = clientId)
    (fun _ _ _ => trivial) nofun (fun _ _ ih => ih) ?_ ?_ steps trivial
  · intro steps l i t entry w prog _ _ ih hi permitted performed effect heffect hentry
    rcases List.mem_cons.mp heffect with rfl | heffect
    · cases hentry
      exact clientId_of_performed performed
    · exact ih heffect hentry
  · intro steps entry w ih hop performed effect heffect hentry
    rcases List.mem_cons.mp heffect with rfl | heffect
    · cases hentry
      exact clientId_of_performed performed
    · exact ih heffect hentry

/-! ### Sample schedules, oldest step first -/

namespace Sample

def ix : String := "AAAAAAAAAAAAAAAAAAAAAAAAAAAAAAAAAAAAAAAAAAA"

def iy : String := "BBBBBBBBBBBBBBBBBBBBBBBBBBBBBBBBBBBBBBBBBBB"

def settings : Settings :=
  ⟨some "https://login.test", some ["https://login.test"], 600, 900, 86400, .closed, false, .reauth,
    20⟩

/-- Every client has one record; only `portal` skips consent. -/
def record (clientId : String) : Client :=
  ⟨clientId, 5, ["https://app.test/cb"], ["https://app.test/out"], ["openid"], false, false,
    clientId == "portal", none, none, true, false⟩

/-- The world outside at one moment, where `id` is the next interaction id. -/
def oracle (id : String) : Oracle
  | .now => 10
  | .limited _ => false
  | .settings => some settings
  | .client clientId => some (some (record clientId))
  | .clientRow clientId => some (record clientId)
  | .newSecret => [1]
  | .newInteractionId => id
  | .newUuid => "s1"
  | .randomText => "text"
  | .normalizeEmail email => email
  | .sessionMetadata => ⟨none, none, none⟩
  | .isValidEmail _ | .consumeInvitation _ _ _ | .insertIdentity _ _ _ _ => true
  | .lookupCredential _ => none
  | .claimCredential _ _ _ => .claimed
  | .releaseCredential _ | .activateUser _ | .releaseIdentity _ _ => ()
  | .getUser _ | .findVerifiedUser _ => none
  | .claimUser _ _ => .ok ()
  | .openInvitation _ _ => .error .invitationInvalid
  | .getInvitation _ => none
  | .lookupIdentity _ _ => none
  | .upstream _ => none
  | .upstreamMetadata _ => false
  | .upstreamClaims _ _ _ => .error ⟨"access_denied", "", ""⟩
  | .verifySignature _ _ => some 0
  | .verifyRegistration _ => .error .passkeyVerificationFailed

/-- What a client asks for in its own name. -/
def params : Oidc.Params
  | "redirect_uri" => some "https://app.test/cb"
  | "response_type" => some "code"
  | "state" => some "state"
  | "scope" => some "openid"
  | _ => none

def authorize (clientId : String) (cookie : SessionCookie) : Request :=
  .authorize (some ⟨⟨params, fun _ => none⟩, some clientId, none, false⟩) cookie

def api (id : String) : ApiRequest := ⟨id, some "https://login.test", none, some ⟨id, [1]⟩⟩

/-- The thread makes its next `n` calls; a finished one makes none. -/
def serve (i n : ℕ) (id : String) : List Step := List.replicate n (.step i (oracle id))

def user (uid : String) : List Step :=
  [.outside (.user uid (.init ⟨uid, none, none, false, none, []⟩ 0 [])) (oracle ix),
    .outside (.user uid (.addPasskey
      ⟨"p", "c", [], 0, 0, [], none, false, false, none, .me⟩ 0 20)) (oracle ix)]

/-- A request from its arrival to its answer. -/
def whole (i : ℕ) (id : String) (q : Request) : List Step := .spawn q :: serve i 14 id

/-- The user logs in to the interaction with the passkey. -/
def login (i : ℕ) (id uid : String) : List Step :=
  whole i id (.passkeyOptions (api id)) ++
    whole (i + 1) id (.passkeyVerify (api id) false (some ⟨"c", some uid⟩))

/-- The interaction `ix` of the client, up to the consent of `u1`. -/
def consented (clientId : String) : List Step :=
  user "u1" ++ whole 0 ix (authorize clientId .absent) ++ login 1 ix "u1" ++
    whole 3 ix (.consent (api ix) (some (.grant ["openid"])))

def ready : List Step := consented "app"

def complete : Request := .complete ix (some ⟨ix, [1]⟩) .absent

def completedOnce : List Step := (ready ++ whole 4 ix complete).reverse

end Sample

end TinyOidc.Interaction
