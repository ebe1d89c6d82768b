import TinyOidc.Interaction.Object
import TinyOidc.Lib.Machine
import TinyOidc.Lib.Threads

/-! The life of one interaction, from its creation until the alarm deletes it. The calls that
rewrite the document copy it, so what they count and what they take once is kept in it. -/
namespace TinyOidc.Interaction
open Threads (Entry)
open Machine (Event)

def InteractionObject.answer (o : InteractionObject) (c : InteractionCall) :
    InteractionObject × Entry InteractionCall.Answer :=
  let answered := o.call c
  (answered.1, ⟨c, answered.2⟩)

abbrev InteractionEvent :=
  Event InteractionObject InteractionCall (Entry InteractionCall.Answer)

/-- The events of the stored document: those since the newest one that found none. -/
def lifeOf (events : List InteractionEvent) : List InteractionEvent :=
  events.takeWhile (·.pre.doc.isSome)

/-- What the handlers pass: a new interaction is not over, no update names a counter or a flag,
and only a restart clears `completing`. -/
def handlerArguments : InteractionCall → Bool
  | .create input _ _ => !isTerminal input.status
  | .apply operation _ patch _ => patch.attempts.isNone && patch.parConsumed.isNone &&
      (patch.completing.isNone || operation == .restart)
  | .patch fields _ => fields.attempts.isNone
  | _ => true

def InteractionCall.now : InteractionCall → ℤ
  | .create _ now _ | .get now | .claimPushed _ _ now _ | .apply _ _ _ now | .claimCompletion now
  | .consumeFederation _ now | .patch _ now | .attempt now _ | .alarm now => now

/-- The operation a call may move the status by. -/
def InteractionCall.operation : InteractionCall → Option InteractionOperation
  | .apply operation _ _ _ => some operation
  | .attempt _ _ => some .fail
  | _ => none

/-- The status stays, or moves as the operation of the call permits. -/
def MovesBy (c : InteractionCall) (source target : InteractionStatus) : Prop :=
  target = source ∨
    ∃ operation, c.operation = some operation ∧ canTransition source operation target = true

/-! ### What an answer says -/

def tookPushed (entry : Entry InteractionCall.Answer) : Bool :=
  match entry with
  | ⟨.claimPushed _ _ _ _, .ok _⟩ => true
  | _ => false

def tookCompletion (entry : Entry InteractionCall.Answer) : Bool :=
  match entry with
  | ⟨.claimCompletion _, .ok _⟩ => true
  | _ => false

def restarted (entry : Entry InteractionCall.Answer) : Bool :=
  match entry with
  | ⟨.apply .restart _ _ _, .ok _⟩ => true
  | _ => false

def attempted (entry : Entry InteractionCall.Answer) : Bool :=
  match entry with
  | ⟨.attempt _ _, .ok _⟩ => true
  | _ => false

def storedLeg (entry : Entry InteractionCall.Answer) : Option FederationLeg :=
  match entry with
  | ⟨.apply _ _ patch _, .ok _⟩ => patch.federation.join
  | ⟨.patch fields _, .ok _⟩ => fields.federation.join
  | _ => none

def consumedLeg (entry : Entry InteractionCall.Answer) : Option FederationLeg :=
  match entry with
  | ⟨.consumeFederation _ _, .ok (_, leg)⟩ => some leg
  | _ => none

def Ended (e : InteractionEvent) : Prop :=
  (∃ d, e.pre.doc = some d ∧ isTerminal d.status = false) ∧
    ∃ d, (e.pre.call e.input).1.doc = some d ∧ isTerminal d.status = true

/-! ### One call -/

/-- What a call does to the document, against what its answer says. -/
structure Grows (entry : Entry InteractionCall.Answer) (d d' : InteractionDocument) : Prop where
  pushed : (tookPushed entry).toNat + d.parConsumed.toNat ≤ d'.parConsumed.toNat
  legs : ∀ leg, (consumedLeg entry).toList.count leg + d'.federation.toList.count leg ≤
    d.federation.toList.count leg + (storedLeg entry).toList.count leg
  completions : restarted entry = false →
    (tookCompletion entry).toNat + d.completing.toNat ≤ d'.completing.toNat
  attempts : (attempted entry).toNat + d.attempts ≤ d'.attempts
  limit : attempted entry = true → ∀ now limit, entry.1 = .attempt now limit → d'.attempts ≤ limit
  moves : MovesBy entry.1 d.status d'.status
  terminal : isTerminal d.status = true → d'.expiresAt ≤ d.expiresAt
  ends : isTerminal d.status = false → isTerminal d'.status = true →
    d'.expiresAt ≤ entry.1.now + terminalRetentionSeconds

section Call
variable {o : InteractionObject} {d d' : InteractionDocument}

theorem MovesBy.completed {c : InteractionCall} {source target : InteractionStatus}
    (h : MovesBy c source target) (hsource : source = .completed) : target = .completed := by
  rcases h with hsame | ⟨operation, -, hpermitted⟩
  · rw [hsame, hsource]
  · exact absurd hsource (ne_completed_of_canTransition hpermitted)

theorem MovesBy.terminal {c : InteractionCall} {source target : InteractionStatus}
    (h : MovesBy c source target) (hsource : isTerminal source = true) :
    isTerminal target = true := by
  rcases h with hsame | ⟨operation, -, hpermitted⟩
  · rw [hsame]
    exact hsource
  · revert hsource hpermitted
    cases source <;> cases operation <;> cases target <;> decide

/-- A document that a call leaves alone grows by an answer that takes and stores nothing. -/
theorem grows_same {entry : Entry InteractionCall.Answer} (d : InteractionDocument)
    (hpushed : tookPushed entry = false) (hlegs : consumedLeg entry = none)
    (hcompletion : tookCompletion entry = false) (hattempt : attempted entry = false) :
    Grows entry d d := by
  constructor
  · simp [hpushed]
  · intro leg
    simp only [hlegs, Option.toList_none, List.count_nil]
    omega
  · simp [hcompletion]
  · simp [hattempt]
  · simp [hattempt]
  · exact .inl rfl
  · simp
  · intro hlive hterminal
    simp [hlive] at hterminal

theorem grows_refused (c : InteractionCall) (e : InteractionDoError) (d : InteractionDocument) :
    Grows ⟨c, .error e⟩ d d := by
  apply grows_same
  · cases c <;> rfl
  · cases c <;> rfl
  · cases c <;> rfl
  · cases c <;> rfl

theorem expiresAt_transition (d : InteractionDocument) (target : InteractionStatus)
    (p : TransitionPatch) (now : ℤ) : (d.transition target p now).expiresAt ≤ d.expiresAt ∧
      (isTerminal target = true →
        (d.transition target p now).expiresAt ≤ now + terminalRetentionSeconds) := by
  simp only [InteractionDocument.transition]
  constructor
  · split <;> omega
  · intro hterminal
    rw [if_pos hterminal]
    omega

theorem grows_applied (operation : InteractionOperation) (target : InteractionStatus)
    (patch : TransitionPatch) (now : ℤ)
    (hargs : handlerArguments (.apply operation target patch now) = true)
    (hpermitted : canTransition d.status operation target = true) :
    Grows ⟨.apply operation target patch now, .ok (d.transition target patch now)⟩ d
      (d.transition target patch now) := by
  obtain ⟨hle, hends⟩ := expiresAt_transition d target patch now
  simp only [handlerArguments, Bool.and_eq_true, Bool.or_eq_true, Option.isNone_iff_eq_none,
    beq_iff_eq] at hargs
  obtain ⟨⟨hattempts, hpar⟩, hcompleting⟩ := hargs
  constructor
  · simp [tookPushed, InteractionDocument.transition, hpar]
  · intro leg
    simp only [consumedLeg, storedLeg, InteractionDocument.transition, InteractionDocument.patched]
    cases patch.federation with
    | none => simp
    | some federation => simp
  · intro hrestarted
    have hkept : patch.completing = none := by
      rcases hcompleting with hnone | hrestart
      · exact hnone
      · subst hrestart
        simp [restarted] at hrestarted
    simp [tookCompletion, InteractionDocument.transition, hkept]
  · simp [attempted, InteractionDocument.transition, InteractionDocument.patched, hattempts]
  · simp [attempted]
  · exact .inr ⟨operation, rfl, hpermitted⟩
  · exact fun _ => hle
  · exact fun _ hterminal => hends hterminal

theorem grows_exhausted (now : ℤ) (limit : ℕ) (hlive : isTerminal d.status = false) :
    Grows ⟨.attempt now limit, .error .tooManyAttempts⟩ d
      (d.transition .failed (InteractionObject.attemptsExceeded (d.attempts + 1)) now) := by
  obtain ⟨hle, hends⟩ :=
    expiresAt_transition d .failed (InteractionObject.attemptsExceeded (d.attempts + 1)) now
  constructor
  · simp [tookPushed, InteractionDocument.transition, InteractionObject.attemptsExceeded]
  · intro leg
    simp [consumedLeg, InteractionDocument.transition, InteractionDocument.patched,
      InteractionObject.attemptsExceeded]
  · simp [tookCompletion, InteractionDocument.transition, InteractionObject.attemptsExceeded]
  · simp [attempted, InteractionDocument.transition, InteractionDocument.patched,
      InteractionObject.attemptsExceeded]
  · simp [attempted]
  · exact .inr ⟨.fail, rfl, canTransition_fail hlive⟩
  · exact fun _ => hle
  · exact fun _ _ => hends rfl

/-- A counted attempt is within the limit. -/
theorem attempt_within {now : ℤ} {limit : ℕ} {v : InteractionDocument × ℕ}
    (h : (o.attempt now limit).2 = .ok v) (hdoc : (o.attempt now limit).1.doc = some d') :
    d'.attempts ≤ limit := by
  unfold InteractionObject.attempt InteractionObject.withDoc at h hdoc
  cases hget : o.get now with
  | error e =>
    simp [hget] at h
  | ok d =>
    simp only [hget] at h hdoc
    by_cases hterminal : isTerminal d.status = true
    · simp [hterminal] at h
    · by_cases hlimit : limit < d.attempts + 1
      · simp [hterminal, hlimit] at h
      · rw [if_neg hterminal, if_neg hlimit] at hdoc
        cases hdoc
        simp only
        omega

theorem attempted_within {now : ℤ} {limit : ℕ}
    (h : attempted ⟨.attempt now limit, (o.call (.attempt now limit)).2⟩ = true)
    (hafter : (o.call (.attempt now limit)).1.doc = some d') : d'.attempts ≤ limit := by
  cases hreply : (o.attempt now limit).2 with
  | error e =>
    have hrefused : (o.call (.attempt now limit)).2 = .error e := hreply
    rw [hrefused] at h
    cases h
  | ok v => exact attempt_within hreply hafter

/-- Every call that finds a document and leaves one lets it grow by its answer. -/
theorem grows_call (c : InteractionCall) (hargs : handlerArguments c = true)
    (hbefore : o.doc = some d) (hafter : (o.call c).1.doc = some d') :
    Grows ⟨c, (o.call c).2⟩ d d' := by
  have hanswered := o.call_answered c
  have hwithin : attempted ⟨c, (o.call c).2⟩ = true → ∀ now limit, c = .attempt now limit →
      d'.attempts ≤ limit := by
    rintro h now limit rfl
    exact attempted_within h hafter
  generalize (o.call c).1 = o', (o.call c).2 = r at hanswered hafter hwithin
  cases hanswered with
  | refused _ e =>
    cases hbefore.symm.trans hafter
    exact grows_refused c e d
  | created input now ttlSeconds alarmAt absent => cases hbefore.symm.trans absent
  | read now d₀ stored =>
    cases hbefore.symm.trans hafter
    exact grows_same d rfl rfl rfl rfl
  | claimedPushed clientId bindingHash now ttlSeconds alarmAt d₀ stored pushed unclaimed _ =>
    cases hbefore.symm.trans stored
    cases hafter
    constructor
    · simp [tookPushed, unclaimed]
    · simp [consumedLeg]
    · simp [tookCompletion]
    · simp [attempted]
    · exact hwithin
    · exact .inl rfl
    · simp [pushed, isTerminal]
    · simp [pushed, isTerminal]
  | applied operation target patch now alarmAt d₀ stored permitted =>
    cases hbefore.symm.trans stored
    cases hafter
    exact grows_applied operation target patch now hargs permitted
  | claimedCompletion now alarmAt d₀ stored status unclaimed =>
    cases hbefore.symm.trans stored
    cases hafter
    constructor
    · simp [tookPushed]
    · simp [consumedLeg]
    · simp [tookCompletion, unclaimed]
    · simp [attempted]
    · exact hwithin
    · exact .inl rfl
    · simp
    · intro hlive hterminal
      simp [hlive] at hterminal
  | consumedFederation stateHash now alarmAt d₀ leg stored status pending =>
    cases hbefore.symm.trans stored
    cases hafter
    constructor
    · simp [tookPushed]
    · simp [consumedLeg, pending]
    · simp [tookCompletion]
    · simp [attempted]
    · exact hwithin
    · exact .inl rfl
    · simp
    · simp [status, isTerminal]
  | patched fields now alarmAt d₀ stored live =>
    cases hbefore.symm.trans stored
    cases hafter
    have hattempts : fields.attempts = none := by simpa [handlerArguments] using hargs
    constructor
    · simp [tookPushed, InteractionDocument.patched]
    · intro leg
      simp only [consumedLeg, storedLeg, InteractionDocument.patched]
      cases fields.federation with
      | none => simp
      | some federation => simp
    · simp [tookCompletion, InteractionDocument.patched]
    · simp [attempted, InteractionDocument.patched, hattempts]
    · exact hwithin
    · exact .inl rfl
    · simp [InteractionDocument.patched]
    · simp [InteractionDocument.patched, live]
  | attempted now limit alarmAt d₀ stored live =>
    cases hbefore.symm.trans stored
    cases hafter
    constructor
    · simp [tookPushed]
    · simp [consumedLeg]
    · simp [tookCompletion]
    · simp [attempted, Nat.add_comm]
    · exact hwithin
    · exact .inl rfl
    · simp
    · simp [live]
  | exhausted now limit alarmAt d₀ stored live =>
    cases hbefore.symm.trans stored
    cases hafter
    exact grows_exhausted now limit live
  | early now =>
    cases hbefore.symm.trans hafter
    exact grows_same d rfl rfl rfl rfl
  | expired now => cases hafter

/-- Only a creation stores a document where there is none. -/
theorem created_of_absent (c : InteractionCall) (hbefore : o.doc = none)
    (hafter : (o.call c).1.doc = some d') :
    ∃ input now ttlSeconds, c = .create input now ttlSeconds ∧
      d' = newDocument input now ttlSeconds := by
  have hanswered := o.call_answered c
  generalize (o.call c).1 = o', (o.call c).2 = r at hanswered hafter
  cases hanswered with
  | created input now ttlSeconds alarmAt absent =>
    cases hafter
    exact ⟨input, now, ttlSeconds, rfl, rfl⟩
  | refused _ e => cases hbefore.symm.trans hafter
  | read now d stored => cases hbefore.symm.trans stored
  | claimedPushed _ _ _ _ _ d stored => cases hbefore.symm.trans stored
  | applied _ _ _ _ _ d stored => cases hbefore.symm.trans stored
  | claimedCompletion _ _ d stored => cases hbefore.symm.trans stored
  | consumedFederation _ _ _ d _ stored => cases hbefore.symm.trans stored
  | patched _ _ _ d stored => cases hbefore.symm.trans stored
  | attempted _ _ _ d stored => cases hbefore.symm.trans stored
  | exhausted _ _ _ d stored => cases hbefore.symm.trans stored
  | early now => cases hbefore.symm.trans hafter
  | expired now => cases hafter

/-- While a document is stored, the alarm is armed for its expiry. -/
def Armed (o : InteractionObject) : Prop :=
  ∀ d, o.doc = some d → o.alarmAt = some (d.expiresAt * 1000)

theorem armed_withDoc {α : Type} {now : ℤ}
    {body : InteractionDocument → InteractionObject × Except InteractionDoError α} (h : Armed o)
    (hbody : ∀ d, o.doc = some d → Armed (body d).1) : Armed (o.withDoc now body).1 := by
  unfold InteractionObject.withDoc
  split
  · exact h
  · next d hget => exact hbody d (InteractionObject.get_ok hget)

theorem armed_apply (h : Armed o) (operation : InteractionOperation) (target : InteractionStatus)
    (patch : TransitionPatch) (now : ℤ) : Armed (o.apply operation target patch now).1 := by
  refine armed_withDoc h fun d hd => ?_
  split
  · intro d' hd'
    cases hd'
    by_cases hterminal : isTerminal target = true
    · simp [hterminal]
    · simp [hterminal, h d hd, InteractionDocument.transition]
  · exact h

theorem armed_call (h : Armed o) (c : InteractionCall) : Armed (o.call c).1 := by
  -- A document that keeps its expiry leaves the alarm as it is.
  have hsame : ∀ d d' : InteractionDocument, o.doc = some d → d'.expiresAt = d.expiresAt →
      Armed ⟨some d', o.alarmAt⟩ := by
    intro d d' hd hexpires d₁ hd₁
    cases hd₁
    rw [hexpires]
    exact h d hd
  cases c with
  | create input now ttlSeconds =>
    show Armed (o.create input now ttlSeconds).1
    unfold InteractionObject.create
    split
    · exact h
    · intro d hd
      cases hd
      rfl
  | get now => exact h
  | claimPushed clientId bindingHash now ttlSeconds =>
    show Armed (o.claimPushed clientId bindingHash now ttlSeconds).1
    refine armed_withDoc h fun d hd => ?_
    split
    · exact h
    · intro d' hd'
      cases hd'
      rfl
  | apply operation target patch now => exact armed_apply h operation target patch now
  | claimCompletion now =>
    show Armed (o.claimCompletion now).1
    refine armed_withDoc h fun d hd => ?_
    split
    · exact h
    · exact hsame d _ hd rfl
  | consumeFederation stateHash now =>
    show Armed (o.consumeFederation stateHash now).1
    refine armed_withDoc h fun d hd => ?_
    split
    · exact h
    · split
      · exact h
      · split
        · exact h
        · exact hsame d _ hd rfl
  | patch fields now =>
    show Armed (o.patch fields now).1
    refine armed_withDoc h fun d hd => ?_
    split
    · exact h
    · exact hsame d _ hd rfl
  | attempt now limit =>
    show Armed (o.attempt now limit).1
    refine armed_withDoc h fun d hd => ?_
    split
    · exact h
    · dsimp only
      split
      · exact armed_apply h .fail .failed _ now
      · exact hsame d _ hd rfl
  | alarm now =>
    show Armed (o.alarm now).1
    unfold InteractionObject.alarm
    split
    · intro d hd
      cases hd
    · exact h

end Call

/-! ### The life of a document -/

def countOf (kind : Entry InteractionCall.Answer → Bool) (life : List InteractionEvent) : ℕ :=
  life.countP fun e => kind e.reply

def legsOf (leg : Entry InteractionCall.Answer → Option FederationLeg)
    (life : List InteractionEvent) : List FederationLeg :=
  life.filterMap fun e => leg e.reply

/-- The newest part of a life, without a restart. -/
def sinceRestart (life : List InteractionEvent) : List InteractionEvent :=
  life.takeWhile fun e => !restarted e.reply

theorem countOf_cons (kind : Entry InteractionCall.Answer → Bool) (e : InteractionEvent)
    (life : List InteractionEvent) :
    countOf kind (e :: life) = (kind e.reply).toNat + countOf kind life := by
  unfold countOf
  rw [List.countP_cons]
  cases kind e.reply <;> simp [Nat.add_comm]

theorem count_legsOf_cons (leg : Entry InteractionCall.Answer → Option FederationLeg)
    (e : InteractionEvent) (life : List InteractionEvent) (x : FederationLeg) :
    (legsOf leg (e :: life)).count x = (leg e.reply).toList.count x + (legsOf leg life).count x :=
  Lists.count_filterMap_cons _ e life x

/-- A part of a life without a restart, at its newer end, is in the part since the last one. -/
theorem sublist_sinceRestart {mid earlier : List InteractionEvent}
    (hmid : ∀ e ∈ mid, restarted e.reply = false) :
    mid.Sublist (sinceRestart (mid ++ earlier)) := by
  unfold sinceRestart
  rw [List.takeWhile_append_of_pos fun e he => by simp [hmid e he]]
  exact List.sublist_append_left mid _

structure Lived (d : InteractionDocument) (life : List InteractionEvent) : Prop where
  pushed : countOf tookPushed life ≤ d.parConsumed.toNat
  legs : ∀ leg, (legsOf consumedLeg life).count leg + d.federation.toList.count leg ≤
    (legsOf storedLeg life).count leg
  completions : countOf tookCompletion (sinceRestart life) ≤ d.completing.toNat
  between : ∀ later mid earlier, life = later ++ mid ++ earlier →
    (∀ e ∈ mid, restarted e.reply = false) → countOf tookCompletion mid ≤ 1
  attempts : countOf attempted life ≤ d.attempts
  limits : ∀ limit, (∀ e ∈ life, ∀ now l, e.input = .attempt now l → l = limit) →
    countOf attempted life ≤ limit
  terminal : isTerminal d.status = true → ∃ e ∈ life, Ended e
  expires : ∀ e ∈ life, Ended e →
    isTerminal d.status = true ∧ d.expiresAt ≤ e.input.now + terminalRetentionSeconds

theorem lived_created (input : CreateInteraction) (now ttlSeconds : ℤ)
    (hargs : handlerArguments (.create input now ttlSeconds) = true) :
    Lived (newDocument input now ttlSeconds) [] := by
  have hlive : isTerminal input.status = false := by simpa [handlerArguments] using hargs
  constructor
  · simp [countOf]
  · simp [legsOf, newDocument]
  · simp [countOf, sinceRestart]
  · intro later mid earlier hlife hquiet
    have hmid : mid = [] := by
      simp only [List.nil_eq, List.append_eq_nil_iff] at hlife
      exact hlife.1.2
    simp [hmid, countOf]
  · simp [countOf]
  · simp [countOf]
  · simp [newDocument, hlive]
  · simp

theorem Lived.step {o : InteractionObject} {d d' : InteractionDocument}
    {life : List InteractionEvent} (h : Lived d life) (c : InteractionCall)
    (hargs : handlerArguments c = true) (hbefore : o.doc = some d)
    (hafter : (o.call c).1.doc = some d') :
    Lived d' (Machine.event InteractionObject.answer o c :: life) := by
  have hgrows := grows_call c hargs hbefore hafter
  set e := Machine.event InteractionObject.answer o c with he
  have hreply : e.reply = ⟨c, (o.call c).2⟩ := rfl
  rw [← hreply] at hgrows
  have hcompletions : countOf tookCompletion (sinceRestart (e :: life)) ≤ d'.completing.toNat := by
    unfold sinceRestart
    by_cases hrestarted : restarted e.reply = true
    · simp [hrestarted, countOf]
    · have hquiet : restarted e.reply = false := Bool.eq_false_of_not_eq_true hrestarted
      have hgrow := hgrows.completions hquiet
      have hlife := h.completions
      rw [List.takeWhile_cons, hquiet, Bool.not_false, if_pos rfl, countOf_cons]
      unfold sinceRestart at hlife
      omega
  have hattempts : countOf attempted (e :: life) ≤ d'.attempts := by
    have hgrow := hgrows.attempts
    have hlife := h.attempts
    rw [countOf_cons]
    omega
  constructor
  · have hgrow := hgrows.pushed
    have hlife := h.pushed
    rw [countOf_cons]
    omega
  · intro leg
    have hgrow := hgrows.legs leg
    have hlife := h.legs leg
    rw [count_legsOf_cons, count_legsOf_cons]
    omega
  · exact hcompletions
  · intro later mid earlier hlife hquiet
    cases later with
    | cons e' later =>
      injection hlife with _ hlife
      exact h.between later mid earlier hlife hquiet
    | nil =>
      have hsub : mid.Sublist (sinceRestart (e :: life)) := by
        rw [hlife]
        exact sublist_sinceRestart hquiet
      have hle : countOf tookCompletion mid ≤ countOf tookCompletion (sinceRestart (e :: life)) :=
        hsub.countP_le
      have hbool := Bool.toNat_le d'.completing
      omega
  · exact hattempts
  · intro limit hlimits
    by_cases hcounted : attempted e.reply = true
    · have hwithin : d'.attempts ≤ limit := by
        cases hc : c with
        | attempt now l =>
          have hl := hlimits e List.mem_cons_self now l hc
          rw [← hl]
          exact hgrows.limit hcounted now l hc
        | _ =>
          rw [hreply, hc] at hcounted
          cases hcounted
      omega
    · have hlife := h.limits limit fun e' he' => hlimits e' (List.mem_cons_of_mem _ he')
      rw [countOf_cons, Bool.eq_false_of_not_eq_true hcounted, Bool.toNat_false]
      omega
  · intro hterminal
    by_cases hlive : isTerminal d.status = true
    · obtain ⟨e', he', hended⟩ := h.terminal hlive
      exact ⟨e', List.mem_cons_of_mem _ he', hended⟩
    · refine ⟨e, List.mem_cons_self, ⟨d, hbefore, ?_⟩, d', hafter, hterminal⟩
      exact Bool.eq_false_of_not_eq_true hlive
  · intro e' he' hended
    rcases List.mem_cons.mp he' with rfl | he'
    · obtain ⟨⟨d₁, hd₁, hlive⟩, d₂, hd₂, hterminal⟩ := hended
      cases hbefore.symm.trans hd₁
      cases hafter.symm.trans hd₂
      exact ⟨hterminal, hgrows.ends hlive hterminal⟩
    · obtain ⟨hterminal, hexpires⟩ := h.expires e' he' hended
      have hle := hgrows.terminal hterminal
      exact ⟨hgrows.moves.terminal hterminal, by omega⟩

/-! ### Runs -/

def InteractionObject.after (calls : List InteractionCall) : InteractionObject :=
  Machine.after InteractionObject.answer .fresh calls

/-- The life, so far, of the document that a sequence of calls leaves. -/
def lifeAfter (calls : List InteractionCall) : List InteractionEvent :=
  lifeOf (Machine.events InteractionObject.answer .fresh calls)

theorem armed_after (calls : List InteractionCall) : Armed (InteractionObject.after calls) := by
  have hfresh : Armed .fresh := by
    intro d hd
    cases hd
  exact Machine.after_invariant InteractionObject.answer (I := Armed)
    (fun o c h => armed_call h c) hfresh calls

theorem lived_after {calls : List InteractionCall}
    (hargs : ∀ c ∈ calls, handlerArguments c = true) {d : InteractionDocument}
    (hdoc : (InteractionObject.after calls).doc = some d) : Lived d (lifeAfter calls) := by
  induction calls generalizing d with
  | nil => cases hdoc
  | cons c calls ih =>
    have hc := hargs c List.mem_cons_self
    have hlife : lifeAfter (c :: calls) = if (InteractionObject.after calls).doc.isSome then
        Machine.event InteractionObject.answer (InteractionObject.after calls) c :: lifeAfter calls
        else [] := by
      unfold lifeAfter lifeOf
      rw [Machine.events_cons, List.takeWhile_cons]
      rfl
    cases hbefore : (InteractionObject.after calls).doc with
    | none =>
      obtain ⟨input, now, ttlSeconds, rfl, rfl⟩ := created_of_absent c hbefore hdoc
      rw [hlife, hbefore]
      exact lived_created input now ttlSeconds hc
    | some d₀ =>
      rw [hlife, hbefore]
      exact (ih (fun c' hc' => hargs c' (List.mem_cons_of_mem _ hc')) hbefore).step c hc hbefore
        hdoc

theorem mem_calls_of_mem_life {calls : List InteractionCall} {e : InteractionEvent}
    (h : e ∈ lifeAfter calls) : e.input ∈ calls ∧ e.reply = (e.pre.answer e.input).2 := by
  obtain ⟨later, c, earlier, hcalls, rfl⟩ :=
    Machine.exists_of_mem_events InteractionObject.answer (List.takeWhile_subset _ h)
  exact ⟨by simp [hcalls], rfl⟩

/-- In every run of one object, for the document it stores: its status has moved along the table,
and has stayed once completed; it was claimed for `/authorize` at most once; each leg was consumed
at most as often as it was stored; between two restarts one completion took it; no more attempts
succeeded than the limit; when terminal it expires at most a minute after it ended; and the alarm
is armed for its expiry. -/
theorem interaction_runs (calls : List InteractionCall)
    (hargs : ∀ c ∈ calls, handlerArguments c = true) (d : InteractionDocument)
    (hdoc : (InteractionObject.after calls).doc = some d) :
    (∀ e ∈ lifeAfter calls, ∀ d₁ d₂, e.pre.doc = some d₁ →
      (e.pre.call e.input).1.doc = some d₂ →
        MovesBy e.input d₁.status d₂.status ∧ (d₁.status = .completed → d₂.status = .completed)) ∧
    countOf tookPushed (lifeAfter calls) ≤ 1 ∧
    (∀ leg, (legsOf consumedLeg (lifeAfter calls)).count leg ≤
      (legsOf storedLeg (lifeAfter calls)).count leg) ∧
    (∀ later mid earlier, lifeAfter calls = later ++ mid ++ earlier →
      (∀ e ∈ mid, restarted e.reply = false) → countOf tookCompletion mid ≤ 1) ∧
    (∀ limit, (∀ e ∈ lifeAfter calls, ∀ now l, e.input = .attempt now l → l = limit) →
      countOf attempted (lifeAfter calls) ≤ limit) ∧
    (isTerminal d.status = true → (∃ e ∈ lifeAfter calls, Ended e) ∧
      ∀ e ∈ lifeAfter calls, Ended e →
        d.expiresAt ≤ e.input.now + terminalRetentionSeconds) ∧
    (InteractionObject.after calls).alarmAt = some (d.expiresAt * 1000) := by
  have hlived := lived_after hargs hdoc
  refine ⟨?_, ?_, ?_, hlived.between, hlived.limits, ?_, armed_after calls d hdoc⟩
  · intro e he d₁ d₂ hbefore hafter
    obtain ⟨hinput, -⟩ := mem_calls_of_mem_life he
    have hmoves := (grows_call e.input (hargs _ hinput) hbefore hafter).moves
    exact ⟨hmoves, hmoves.completed⟩
  · exact hlived.pushed.trans (Bool.toNat_le _)
  · intro leg
    exact (Nat.le_add_right _ _).trans (hlived.legs leg)
  · intro hterminal
    exact ⟨hlived.terminal hterminal, fun e he hended => (hlived.expires e he hended).2⟩

/-- A pushed request on its way to a code. -/
def sampleCalls : List InteractionCall :=
  [.claimCompletion 5, .apply .consent .ready {} 4, .apply .consumePar .consentRequired {} 3,
    .claimPushed "app" "hash" 2 600,
    .create ⟨"id", .par, .pushed, "", some "app", none, none, none⟩ 1 60]

theorem interaction_runs_sample :
    (∀ e ∈ lifeAfter sampleCalls, ∀ d₁ d₂, e.pre.doc = some d₁ →
      (e.pre.call e.input).1.doc = some d₂ →
        MovesBy e.input d₁.status d₂.status ∧
          (d₁.status = .completed → d₂.status = .completed)) ∧
      countOf tookPushed (lifeAfter sampleCalls) ≤ 1 :=
  have hruns := interaction_runs sampleCalls (by decide) _ rfl
  ⟨hruns.1, hruns.2.1⟩

end TinyOidc.Interaction
