import TinyOidc.Interaction.Runs
import TinyOidc.User.Origins

/-! One code per interaction. The right to issue it lies with the document until a request
takes the interaction, then with that request, and back with the document when the request
moves it on without a code. The ledger counts where the right is and how often it was used. -/
namespace TinyOidc.Interaction
open TinyOidc.User Threads RowTable
open scoped Classical

/-! ### Where the right to issue is -/

/-- Whether the interaction is done or some request has taken it. -/
def taken (d : InteractionDocument) : Bool :=
  match d.status with
  | .completed => true
  | .pushed => d.parConsumed
  | _ => d.completing

def docRight : Option InteractionDocument → ℕ
  | none => 0
  | some d => (!taken d).toNat

/-- The right an id stands for: its document's once it has one, and one before. -/
def right (id : String) (c : RunConfig) (effects : List RunEffect) : ℕ :=
  if id ∈ createdIds effects then docRight (c.shared.doc id) else 1

noncomputable def held (id : String) (t : RunThread) : ℕ :=
  if t.request.behalf = some id ∧ Holding id t.log then 1 else 0

def issuesFor (id : String) : RunEffect → Bool
  | .thread _ t entry => t.request.behalf == some id && (issuedCode entry).isSome
  | .outside _ => false

theorem docRight_le_one (x : Option InteractionDocument) : docRight x ≤ 1 := by
  cases x with
  | none => exact Nat.zero_le 1
  | some d => exact Bool.toNat_le _

theorem held_le_one (id : String) (t : RunThread) : held id t ≤ 1 := by
  unfold held
  split_ifs <;> omega

theorem SameCourse.taken {d d' : InteractionDocument} (h : SameCourse d d') :
    taken d' = Interaction.taken d := by
  simp only [Interaction.taken, h.status, h.parConsumed, h.completing]

/-- A document past the pushed request and not completed is taken by a completion only. -/
theorem taken_eq_completing {d : InteractionDocument} (hpushed : d.status ≠ .pushed)
    (hcompleted : d.status ≠ .completed) : taken d = d.completing := by
  unfold taken
  split
  · next h => exact absurd h hcompleted
  · next h => exact absurd h hpushed
  · rfl

/-- A call that takes nothing gives the request nothing in hand. -/
theorem holding_of_cons {id : String} {log : Log} {entry : Entry Op.Answer}
    (htakes : takes id entry = false) (h : Holding id (entry :: log)) : Holding id log where
  claimed := by
    obtain ⟨e, he, htaken⟩ := h.claimed
    rcases List.mem_cons.mp he with rfl | he
    · rw [htakes] at htaken
      cases htaken
    · exact ⟨e, he, htaken⟩
  unsettled := fun e he => h.unsettled e (List.mem_cons_of_mem _ he)
  unissued := fun e he => h.unissued e (List.mem_cons_of_mem _ he)

theorem held_cons_le {id : String} {t : RunThread} {entry : Entry Op.Answer}
    (htakes : takes id entry = false) (prog : Handler Response) :
    held id ⟨t.request, entry :: t.log, prog⟩ ≤ held id t := by
  unfold held
  split_ifs with hcons hlog
  · exact Nat.le_refl 1
  · exact absurd ⟨hcons.1, holding_of_cons htakes hcons.2⟩ hlog
  · exact Nat.zero_le 1
  · exact Nat.le_refl 0

theorem held_of_holding {id : String} {t : RunThread} (hq : t.request.behalf = some id)
    (h : Holding id t.log) : held id t = 1 := if_pos ⟨hq, h⟩

/-- A transition puts the interaction out of hand. -/
theorem held_apply {id : String} {t : RunThread} {operation : InteractionOperation}
    {target : InteractionStatus} {patch : TransitionPatch} {now : ℤ}
    {answer : (InteractionCall.apply operation target patch now).Answer}
    (prog : Handler Response) :
    held id ⟨t.request, ⟨.interaction id (.apply operation target patch now), answer⟩ :: t.log,
      prog⟩ = 0 := by
  refine if_neg fun h => ?_
  have hsettles := h.2.unsettled _ List.mem_cons_self
  simp [settles] at hsettles

/-- A code puts the interaction out of hand. -/
theorem held_issued {id : String} {t : RunThread} {entry : Entry Op.Answer}
    (hissued : (issuedCode entry).isSome = true) (prog : Handler Response) :
    held id ⟨t.request, entry :: t.log, prog⟩ = 0 := by
  refine if_neg fun h => ?_
  rw [h.2.unissued entry List.mem_cons_self] at hissued
  cases hissued

/-- Only a request that has the interaction in hand issues a code for it. -/
theorem holding_of_issued {q : Request} {log : Log} {entry : Entry Op.Answer}
    (permitted : Permits q log entry.1) (hissued : (issuedCode entry).isSome = true)
    {id : String} (hq : q.behalf = some id) : Holding id log := by
  obtain ⟨op, answer⟩ := entry
  cases op with
  | ask question => cases hissued
  | interaction id call => cases hissued
  | user uid call =>
    change Calls q log uid call at permitted
    cases permitted with
    | quiet call hquiet => cases call <;> first | cases hissued | cases hquiet
    | evaluated ref clientId client record request settings now secretHash holding _ =>
      exact holding id hq
    | onSession id' binding cookie hq' d completing =>
      subst hq'
      cases hq
      exact completing.toHolding
    | login id' binding cookie hq' d completing =>
      subst hq'
      cases hq
      exact completing.toHolding
    | granted client scopes now _ => cases hissued
    | ended sid now reason _ => cases hissued

/-! ### The ledger -/

/-- What a transition means for the right: the interaction is done, it comes back from the
request that had it in hand, or it stays as it was. -/
theorem Applies.ledger {q : Request} {log : Log} {id : String} {operation : InteractionOperation}
    {target : InteractionStatus} {patch : TransitionPatch}
    (h : Applies q log id operation target patch) :
    target = .completed ∨ (q.behalf = some id ∧ Holding id log) ∨
      (∃ d, Seen log id d) ∧ patch.completing = none := by
  cases h with
  | failed operation error description d seen => exact .inr (.inr ⟨⟨d, seen⟩, rfl⟩)
  | linked link d seen => exact .inr (.inr ⟨⟨d, seen⟩, rfl⟩)
  | authenticated operation hop target auth d seen => exact .inr (.inr ⟨⟨d, seen⟩, rfl⟩)
  | consented d seen => exact .inr (.inr ⟨⟨d, seen⟩, rfl⟩)
  | decided logout d seen hkind => exact .inr (.inr ⟨⟨d, seen⟩, rfl⟩)
  | parFailed error description hq holding => exact .inr (.inl ⟨hq, holding⟩)
  | parTaken target existing hq holding => exact .inr (.inl ⟨hq, holding⟩)
  | parCompleted => exact .inl rfl
  | restarted hq holding => exact .inr (.inl ⟨hq, holding⟩)
  | completed => exact .inl rfl

/-- A transition of an open document that leaves `completing` alone gives no right back. -/
theorem docRight_transition_le {d : InteractionDocument} {operation : InteractionOperation}
    {target : InteractionStatus} {patch : TransitionPatch} (now : ℤ)
    (hpushed : d.status ≠ .pushed) (hcan : canTransition d.status operation target = true)
    (hcompleting : patch.completing = none) :
    docRight (some (d.transition target patch now)) ≤ docRight (some d) := by
  have hd := taken_eq_completing hpushed (ne_completed_of_canTransition hcan)
  by_cases htarget : target = .completed
  · subst htarget
    exact Nat.zero_le _
  · have hd' : taken (d.transition target patch now) = d.completing := by
      rw [taken_eq_completing (ne_pushed_of_canTransition hcan) htarget]
      simp [InteractionDocument.transition, hcompleting]
    simp only [docRight, hd, hd', Nat.le_refl]

section Step

variable {sha256 : String → Bytes} {steps : List Step} {i : ℕ} {t : RunThread}
  {entry : Entry Op.Answer} {w : World} {id : String}

/-- What a request's call does to a document that exists: the right moves between the document
and the request, and is never made. -/
theorem docRight_add_held_le (hfresh : FreshIds (runEffects sha256 steps))
    (hi : (runState sha256 steps).threads[i]? = some t) {d : InteractionDocument}
    {y : Option InteractionDocument}
    (hdoc : (runState sha256 steps).shared.doc id = some d)
    (hmove : DocMove t.request t.log id entry (some d) y) (prog : Handler Response) :
    docRight y + held id ⟨t.request, entry :: t.log, prog⟩ ≤ docRight (some d) + held id t := by
  have ht := List.mem_of_getElem? hi
  generalize hx : some d = x at hmove
  cases hmove with
  | kept entry x htakes _ =>
    subst hx
    exact Nat.add_le_add_left (held_cons_le htakes prog) _
  | created input now ttlSeconds pending => cases hx
  | claimedPushed clientId bindingHash now ttlSeconds d₁ claimed pushed unclaimed _ _ hclaimed =>
    cases hx
    have hfree : docRight (some d) = 1 := by simp [docRight, taken, pushed, unclaimed]
    have hclosed : docRight (some claimed) = 0 := by simp [docRight, taken, hclaimed, pushed]
    have hone := held_le_one id ⟨t.request, ⟨.interaction id (.claimPushed clientId bindingHash now
      ttlSeconds), .ok claimed⟩ :: t.log, prog⟩
    omega
  | applied operation target patch now d₁ hcan applies =>
    cases hx
    rw [held_apply prog]
    rcases applies.ledger with htarget | ⟨hq, hholding⟩ | ⟨⟨d₀, hseen⟩, hcompleting⟩
    · subst htarget
      exact Nat.zero_le _
    · have hone := docRight_le_one (some (d.transition target patch now))
      have hheld := held_of_holding hq hholding
      omega
    · have hpushed := ((tracks_of_seen hfresh ht hseen).later d hdoc).opened
      have hle := docRight_transition_le now hpushed hcan hcompleting
      omega
  | claimedCompletion now d₁ status unclaimed _ _ =>
    cases hx
    have hpushed : d.status ≠ .pushed := by rcases status with h | h <;> simp [h]
    have hcompleted : d.status ≠ .completed := by rcases status with h | h <;> simp [h]
    have hfree : docRight (some d) = 1 := by
      simp [docRight, taken_eq_completing hpushed hcompleted, unclaimed]
    have hclosed : docRight (some { d with completing := true }) = 0 := by
      rw [docRight, taken_eq_completing (d := { d with completing := true }) hpushed hcompleted]
      rfl
    have hone := held_le_one id ⟨t.request, ⟨.interaction id (.claimCompletion now),
      .ok { d with completing := true }⟩ :: t.log, prog⟩
    omega
  | touched entry d₁ d₂ same htakes _ =>
    cases hx
    have hle := held_cons_le htakes (t := t) prog
    simp only [docRight, same.taken]
    omega
  | exhausted now limit d₁ d₂ seen live =>
    cases hx
    have hpushed := ((tracks_of_seen hfresh ht seen).later d hdoc).opened
    have hle : docRight (some (d.transition .failed
        (InteractionObject.attemptsExceeded (d.attempts + 1)) now)) ≤ docRight (some d) :=
      docRight_transition_le now hpushed (canTransition_fail live) rfl
    exact Nat.add_le_add hle (held_cons_le rfl prog)

/-- A call that issues a code changes no document. -/
theorem docRight_of_issued {q : Request} {log : Log} {x y : Option InteractionDocument}
    (hmove : DocMove q log id entry x y) (hissued : (issuedCode entry).isSome = true) :
    docRight y = docRight x ∧ createdId entry ≠ some id := by
  cases hmove with
  | kept entry x htakes hcreated => exact ⟨rfl, hcreated⟩
  | touched entry d d' same htakes hcreated => exact ⟨by simp only [docRight, same.taken], hcreated⟩
  | _ => cases hissued

/-- The ledger of one call of a request. -/
theorem right_step (id : String) (hfresh : FreshIds (runEffects sha256 steps))
    (hi : (runState sha256 steps).threads[i]? = some t)
    (permitted : Permits t.request t.log entry.1)
    (performed : Performed sha256 (runState sha256 steps).shared w entry)
    (threads : List RunThread) (prog : Handler Response) :
    right id ⟨w, threads⟩ (.thread i t entry :: runEffects sha256 steps) +
        held id ⟨t.request, entry :: t.log, prog⟩ + (issuesFor id (.thread i t entry)).toNat ≤
      right id (runState sha256 steps) (runEffects sha256 steps) + held id t := by
  have hmove := docMove_of_performed permitted performed id
  cases hissues : issuesFor id (.thread i t entry) with
  | true =>
    simp only [issuesFor, Bool.and_eq_true, beq_iff_eq] at hissues
    obtain ⟨hq, hissued⟩ := hissues
    obtain ⟨hright, hcreated⟩ := docRight_of_issued hmove hissued
    have hheld := held_of_holding hq (holding_of_issued permitted hissued hq)
    have hsame : right id ⟨w, threads⟩ (.thread i t entry :: runEffects sha256 steps) =
        right id (runState sha256 steps) (runEffects sha256 steps) := by
      simp only [right, mem_createdIds_cons, Effect.entry_thread, hcreated, false_or, hright]
    rw [hsame, held_issued hissued, hheld, Bool.toNat_true]
  | false =>
    rw [Bool.toNat_false, Nat.add_zero]
    by_cases hcreated : id ∈ createdIds (runEffects sha256 steps)
    · rw [right, if_pos (mem_createdIds_cons.mpr (.inr hcreated)), right, if_pos hcreated]
      cases hdoc : (runState sha256 steps).shared.doc id with
      | some d =>
        rw [hdoc] at hmove
        exact docRight_add_held_le hfresh hi hdoc hmove prog
      | none =>
        rw [hdoc] at hmove
        change docRight (w.doc id) + _ ≤ _
        generalize w.doc id = y at hmove ⊢
        cases hmove with
        | kept _ _ htakes _ => exact Nat.add_le_add_left (held_cons_le htakes prog) _
        | created input now ttlSeconds pending =>
          exact absurd hcreated (notMem_createdIds_of_pending hfresh hi pending)
    · have hone : right id ⟨w, threads⟩ (.thread i t entry :: runEffects sha256 steps) ≤ 1 := by
        unfold right
        split_ifs
        · exact docRight_le_one _
        · exact Nat.le_refl 1
      have hnone : (runState sha256 steps).shared.doc id = none := by
        cases hdoc : (runState sha256 steps).shared.doc id with
        | none => rfl
        | some d => exact absurd (mem_createdIds_of_doc sha256 steps hdoc) hcreated
      have htakes : takes id entry = false := by
        rw [hnone] at hmove
        generalize w.doc id = y at hmove
        cases hmove with
        | kept _ _ htakes _ => exact htakes
        | created input now ttlSeconds pending => rfl
      have hheld := held_cons_le htakes (t := t) prog
      have hright : right id (runState sha256 steps) (runEffects sha256 steps) = 1 :=
        if_neg hcreated
      omega

end Step

/-- The right to issue, wherever it lies, and the codes issued so far are at most one. -/
theorem right_add_held_add_issued_le_one {sha256 : String → Bytes} {steps : List Step}
    (hfresh : FreshIds (runEffects sha256 steps)) (id : String) :
    right id (runState sha256 steps) (runEffects sha256 steps) +
        (runState sha256 steps).total (held id) +
        (runEffects sha256 steps).countP (issuesFor id) ≤ 1 := by
  refine run_invariant (C := fun steps => FreshIds (runEffects sha256 steps))
    (J := fun c effects => right id c effects + c.total (held id) +
      effects.countP (issuesFor id) ≤ 1) (fun _ _ => FreshIds.earlier) ?_ ?_ ?_ ?_ steps hfresh
  · simp [right, createdIds]
  · intro steps q h
    have hempty : held id ⟨q, [], q.handler⟩ = 0 := by
      refine if_neg fun h => ?_
      obtain ⟨e, he, -⟩ := h.2.claimed
      cases he
    rw [Config.total_spawn, hempty]
    exact h
  · intro steps l i t entry w prog hfresh _ h hi permitted performed
    have hstep := right_step id hfresh.earlier hi permitted performed
      ((runState sha256 steps).threads.set i ⟨t.request, entry :: t.log, prog⟩) prog
    have hsum := Config.total_set (held id) _ w hi ⟨t.request, entry :: t.log, prog⟩
    rw [List.countP_cons]
    cases hissues : issuesFor id (.thread i t entry) <;>
      simp only [hissues, Bool.toNat_true, Bool.toNat_false, if_true, Bool.false_eq_true, if_false]
        at hstep ⊢ <;>
      omega
  · intro steps entry w h hop performed
    have hcreated : createdIds (.outside entry :: runEffects sha256 steps) =
        createdIds (runEffects sha256 steps) := by
      simp [createdIds, createdId_of_outside hop]
    have hright : right id ⟨w, (runState sha256 steps).threads⟩
        (.outside entry :: runEffects sha256 steps) ≤
          right id (runState sha256 steps) (runEffects sha256 steps) := by
      unfold right
      rw [hcreated]
      split_ifs
      · rcases doc_of_outside hop performed id with hdoc | hdoc
        · exact (congrArg docRight hdoc).le
        · change docRight (w.doc id) ≤ _
          rw [hdoc]
          exact Nat.zero_le _
      · exact Nat.le_refl 1
    have htotal : Config.total (held id) (⟨w, (runState sha256 steps).threads⟩ : RunConfig) =
        (runState sha256 steps).total (held id) := rfl
    rw [List.countP_cons_of_neg (by simp [issuesFor]), htotal]
    omega

/-! ### The rows -/

/-- The code rows of the second object under keys the first one has not. -/
def newCodes (before after : UserObject) : List CodeRow :=
  after.tables.authCodes.rows.filter fun row =>
    (before.tables.authCodes.find row.secretHash).isNone

def insertedFor (sha256 : String → Bytes) (id : String) (e : RunEvent) : List CodeRow :=
  match e.reply with
  | some (.thread _ t ⟨.user uid _, _⟩) =>
      if t.request.behalf = some id then
        newCodes (e.pre.shared.users uid)
          (((deployment sha256).step e.pre e.input).1.shared.users uid)
      else []
  | _ => []

theorem codeIssued_eq (sha256 : String → Bytes) (o : UserObject) (uid : String) (c : Call) :
    codeIssued (Machine.event (UserObject.call sha256) o c) =
      (issuedCode ⟨.user uid c, (o.call sha256 c).2⟩).map (·.2.secretHash) := by
  simp only [codeIssued, Machine.event_input, Machine.event_reply]
  generalize (o.call sha256 c).2 = r
  cases c with
  | finalizeLogin input =>
    cases r with
    | login outcome => cases outcome <;> simp [issuedCode, Function.comp_def]
    | _ => rfl
  | authorizeWithSession input =>
    cases r with
    | authorize outcome =>
      cases outcome with
      | ok a => by_cases h : a.outcome = .authorized <;> simp [issuedCode, h, Function.comp_def]
      | _ => rfl
    | _ => rfl
  | _ => rfl

/-- A call stores one new code at most, and only when it answers that it did. -/
theorem newCodes_call (sha256 : String → Bytes) (o : UserObject) (uid : String) (c : Call) :
    (newCodes o (o.call sha256 c).1).length ≤
      (issuedCode ⟨.user uid c, (o.call sha256 c).2⟩).isSome.toNat := by
  have hevolves := (call_evolves sha256 o c).codes
  have hnew : ∀ row ∈ newCodes o (o.call sha256 c).1,
      codeIssued (Machine.event (UserObject.call sha256) o c) = some row.secretHash := by
    intro row hrow
    obtain ⟨hmem, habsent⟩ := List.mem_filter.mp hrow
    rcases hevolves row hmem with ⟨old, hold, hlater⟩ | hissued
    · have hkey := Table.find_eq_none.mp (Option.isNone_iff_eq_none.mp habsent) old hold
      exact absurd (by rw [hlater.row]) hkey
    · exact hissued
  rw [codeIssued_eq sha256 o uid c] at hnew
  have hnodup : ((newCodes o (o.call sha256 c).1).map CodeRow.secretHash).Nodup :=
    (o.call sha256 c).1.tables.authCodes.nodup.sublist (List.filter_sublist.map _)
  cases hissued : issuedCode ⟨.user uid c, (o.call sha256 c).2⟩ with
  | none =>
    rw [hissued] at hnew
    have hnil : newCodes o (o.call sha256 c).1 = [] :=
      List.eq_nil_iff_forall_not_mem.mpr fun row hrow => by cases hnew row hrow
    rw [hnil]
    exact Nat.zero_le _
  | some issued =>
    rw [hissued] at hnew
    rcases hcodes : newCodes o (o.call sha256 c).1 with _ | ⟨row, _ | ⟨row', rest⟩⟩
    · exact Nat.zero_le _
    · exact Nat.le_refl 1
    · rw [hcodes] at hnew hnodup
      have hrow := hnew row List.mem_cons_self
      have hrow' := hnew row' (List.mem_cons_of_mem _ List.mem_cons_self)
      have hsame : row.secretHash = row'.secretHash := Option.some.inj (hrow.symm.trans hrow')
      simp [hsame] at hnodup

/-- A step inserts at most the one code it answers with. -/
theorem insertedFor_length (sha256 : String → Bytes) (c : RunConfig) (l : Step) (id : String) :
    (insertedFor sha256 id (Machine.event (deployment sha256).step c l)).length ≤
      (((deployment sha256).step c l).2.any (issuesFor id)).toNat := by
  have hsteps := (deployment sha256).step_steps c l
  simp only [insertedFor, Machine.event_reply, Machine.event_pre, Machine.event_input]
  generalize (deployment sha256).step c l = next at hsteps ⊢
  obtain ⟨c', effect⟩ := next
  cases hsteps with
  | idle => exact Nat.zero_le _
  | spawn q => exact Nat.zero_le _
  | outside op answer hop => exact Nat.zero_le _
  | thread i t op next answer hi hp =>
    cases op with
    | ask question => exact Nat.zero_le _
    | interaction id' call => exact Nat.zero_le _
    | user uid call =>
      dsimp only
      split_ifs with hq
      · have hcodes := newCodes_call sha256 (c.shared.users uid) uid call
        simp [issuesFor, hq, deployment, World.exec] at hcodes ⊢
        exact hcodes
      · exact Nat.zero_le _

theorem inserted_length_le_issued (sha256 : String → Bytes) (steps : List Step) (id : String) :
    ((runEvents sha256 steps).flatMap (insertedFor sha256 id)).length ≤
      (runEffects sha256 steps).countP (issuesFor id) := by
  induction steps with
  | nil => exact Nat.le_refl 0
  | cons l steps ih =>
    have hstep := insertedFor_length sha256 (runState sha256 steps) l id
    have hissued : (((deployment sha256).step (runState sha256 steps) l).2.any
        (issuesFor id)).toNat =
        ((deployment sha256).step (runState sha256 steps) l).2.toList.countP (issuesFor id) := by
      cases ((deployment sha256).step (runState sha256 steps) l).2 with
      | none => rfl
      | some effect => cases h : issuesFor id effect <;> simp [h]
    rw [runEffects_cons, List.countP_append, runEvents_cons, List.flatMap_cons,
      List.length_append]
    omega

/-- No schedule makes an interaction yield two codes: at most one call answers that it issued
one on its behalf, and at most one row is inserted. -/
theorem one_code_per_interaction (sha256 : String → Bytes) (steps : List Step)
    (hfresh : FreshIds (runEffects sha256 steps)) (id : String) :
    (runEffects sha256 steps).countP (issuesFor id) ≤ 1 ∧
      ((runEvents sha256 steps).flatMap (insertedFor sha256 id)).length ≤ 1 := by
  have hledger := right_add_held_add_issued_le_one hfresh id
  have hrows := inserted_length_le_issued sha256 steps id
  omega

/-- Two completions that both read the ready document. -/
def Sample.completedTwice : List Step :=
  (ready ++ .spawn complete :: .spawn complete :: serve 4 3 ix ++ serve 5 3 ix ++ serve 4 8 ix ++
    serve 5 8 ix).reverse

theorem one_code_per_interaction_sample :
    FreshIds (runEffects User.Sample.sha256 Sample.completedTwice) ∧
      (runEffects User.Sample.sha256 Sample.completedTwice).countP (issuesFor Sample.ix) = 1 ∧
      (runEffects User.Sample.sha256 Sample.completedTwice).countP (issuesFor Sample.ix) ≤ 1 ∧
      ((runEvents User.Sample.sha256 Sample.completedTwice).flatMap
        (insertedFor User.Sample.sha256 Sample.ix)).length ≤ 1 :=
  ⟨by decide +kernel, by decide +kernel,
    one_code_per_interaction User.Sample.sha256 Sample.completedTwice (by decide +kernel) Sample.ix⟩

end TinyOidc.Interaction
