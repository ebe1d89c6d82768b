import TinyOidc.Interaction.Challenges

/-! Runs of the ceremonies of one interaction: a challenge that two verify requests have read
reaches two verifications, and otherwise one at most. -/
namespace TinyOidc.Interaction
open TinyOidc.User Threads
open Lists (count_filterMap_cons)

/-! ### The document -/

def Holds (x : String) (d : InteractionDocument) : Prop :=
  d.passkeyChallenge.map (·.value) = some x

/-- A document and a later one of the same interaction, as far as its end goes: it stays
terminal, and past the pushed request only a terminal status moves its expiry. -/
structure Ages (d d' : InteractionDocument) : Prop where
  terminal : isTerminal d.status = true → isTerminal d'.status = true
  opened : d.status ≠ .pushed → d'.status ≠ .pushed
  expiry : d.status ≠ .pushed → isTerminal d'.status = true ∨ d'.expiresAt = d.expiresAt

theorem Ages.of_eq {d d' : InteractionDocument} (hstatus : d'.status = d.status)
    (hexpiry : d'.expiresAt = d.expiresAt) : Ages d d' :=
  ⟨fun h => hstatus ▸ h, fun h => hstatus ▸ h, fun _ => .inr hexpiry⟩

/-- Calls that do not store the challenge. -/
def Spares (x : String) : Op → Prop
  | .interaction _ (.patch fields _) => ∀ c, fields.passkeyChallenge = some (some c) → c.value ≠ x
  | .interaction _ (.apply _ _ patch _) => patch.passkeyChallenge = none
  | _ => True

theorem isTerminal_of_canTransition {source target : InteractionStatus}
    {operation : InteractionOperation} (h : canTransition source operation target = true)
    (hterminal : isTerminal source = true) : isTerminal target = true := by
  cases source <;> cases operation <;> revert h hterminal <;> cases target <;> decide

theorem ages_transition {d : InteractionDocument} {operation : InteractionOperation}
    {target : InteractionStatus} {patch : TransitionPatch} {now : ℤ}
    (h : canTransition d.status operation target = true) : Ages d (d.transition target patch now)
    where
  terminal := isTerminal_of_canTransition h
  opened := fun _ => ne_pushed_of_canTransition h
  expiry := by
    intro _
    by_cases hterminal : isTerminal target = true
    · exact .inl hterminal
    · exact .inr (if_neg hterminal)

/-- A stored document with the challenge had it before a call that does not store it. -/
theorem holds_of_answered {o o' : InteractionObject} {call : InteractionCall} {answer : call.Answer}
    (answered : o.Answered call o' answer) {x id : String}
    (hspares : Spares x (.interaction id call))
    {d' : InteractionDocument} (hd' : o'.doc = some d') (hx : Holds x d') :
    ∃ d, o.doc = some d ∧ Holds x d ∧ Ages d d' := by
  cases answered with
  | refused _ e => exact ⟨d', hd', hx, .of_eq rfl rfl⟩
  | created input now ttlSeconds alarmAt absent =>
    cases hd'
    cases hx
  | read now d stored => exact ⟨d', hd', hx, .of_eq rfl rfl⟩
  | claimedPushed clientId bindingHash now ttlSeconds alarmAt d stored pushed unclaimed client =>
    cases hd'
    exact ⟨d, stored, hx, fun h => h, fun h => h, fun hopened => absurd pushed hopened⟩
  | applied operation target patch now alarmAt d stored permitted =>
    cases hd'
    have hkept : (d.transition target patch now).passkeyChallenge = d.passkeyChallenge := by
      have hnone : patch.passkeyChallenge = none := hspares
      simp [InteractionDocument.transition, InteractionDocument.patched, hnone]
    exact ⟨d, stored, by rw [Holds, ← hkept]; exact hx, ages_transition permitted⟩
  | claimedCompletion now alarmAt d stored status unclaimed =>
    cases hd'
    exact ⟨d, stored, hx, .of_eq rfl rfl⟩
  | consumedFederation stateHash now alarmAt d leg stored status pending =>
    cases hd'
    exact ⟨d, stored, hx, .of_eq rfl rfl⟩
  | patched fields now alarmAt d stored live =>
    cases hd'
    refine ⟨d, stored, ?_, .of_eq rfl rfl⟩
    simp only [Holds, InteractionDocument.patched] at hx
    cases hfields : fields.passkeyChallenge with
    | none => simpa only [Holds, hfields, Option.getD_none] using hx
    | some c =>
      cases c with
      | none => simp [hfields] at hx
      | some c =>
        simp only [hfields, Option.getD_some, Option.map_some, Option.some.injEq] at hx
        exact absurd hx (hspares c hfields)
  | attempted now limit alarmAt d stored live =>
    cases hd'
    exact ⟨d, stored, hx, .of_eq rfl rfl⟩
  | exhausted now limit alarmAt d stored live =>
    cases hd'
    exact ⟨d, stored, hx, ages_transition (canTransition_fail live)⟩
  | early now => exact ⟨d', hd', hx, .of_eq rfl rfl⟩
  | expired now => cases hd'

theorem holds_of_exec {sha256 : String → Bytes} {w : World} {oracle : Oracle} {op : Op}
    {x ix : String} (hspares : Spares x op) {d' : InteractionDocument}
    (hd' : (w.exec sha256 oracle op).1.doc ix = some d') (hx : Holds x d') :
    ∃ d, w.doc ix = some d ∧ Holds x d ∧ Ages d d' := by
  have performed := exec_performed sha256 w oracle op
  generalize w.exec sha256 oracle op = next at performed hd'
  obtain ⟨w', answer⟩ := next
  cases performed with
  | asked question oracle => exact ⟨d', hd', hx, .of_eq rfl rfl⟩
  | onUser uid call => exact ⟨d', hd', hx, .of_eq rfl rfl⟩
  | onInteraction id call o answer answered =>
    by_cases hid : id = ix
    · subst hid
      simp only [World.doc, Function.update_self] at hd'
      exact holds_of_answered answered hspares hd' hx
    · simp only [World.doc, Function.update_of_ne (Ne.symm hid)] at hd'
      exact ⟨d', hd', hx, .of_eq rfl rfl⟩

/-- After the patch that clears the challenge, a document that still has it is terminal or had
expired by the time of the patch. -/
theorem holds_of_clear (sha256 : String → Bytes) {w : World} (oracle : Oracle)
    {ix x : String} {fields : InteractionPatch} {now : ℤ}
    (hfields : fields.passkeyChallenge = some none) {d' : InteractionDocument}
    (hd' : (w.exec sha256 oracle (.interaction ix (.patch fields now))).1.doc ix = some d')
    (hx : Holds x d') :
    w.doc ix = some d' ∧ (isTerminal d'.status = true ∨ d'.expiresAt ≤ now) := by
  simp only [World.exec, World.doc, Function.update_self, InteractionObject.call,
    InteractionObject.patch, InteractionObject.withDoc] at hd'
  unfold InteractionObject.get at hd'
  cases hdoc : (w.interactions ix).doc with
  | none => simp [hdoc] at hd'
  | some d =>
    by_cases hexpired : d.expiresAt ≤ now
    · simp only [hdoc, hexpired, if_true, Option.some.injEq] at hd'
      subst hd'
      exact ⟨hdoc, .inr hexpired⟩
    · by_cases hterminal : isTerminal d.status = true
      · simp only [hdoc, hexpired, if_false, hterminal, if_true, Option.some.injEq] at hd'
        subst hd'
        exact ⟨hdoc, .inl hterminal⟩
      · simp only [hdoc, hexpired, if_false, hterminal, Option.some.injEq,
          Bool.false_eq_true] at hd'
        subst hd'
        simp [Holds, InteractionDocument.patched, hfields] at hx

/-! ### The requests -/

instance (log : Log) : Decidable (Cleared log) :=
  inferInstanceAs (Decidable (∃ entry ∈ log, clearsChallenge entry.1 = true))

instance (log : Log) : Decidable (Handed log) :=
  inferInstanceAs (Decidable (∃ entry ∈ log, handsChallenge entry.1 = true))

/-- A verify request in flight that has read the challenge and not cleared it yet. -/
structure Waiting (ix x : String) (t : CeremonyThread) : Prop where
  id : t.request.id = ix
  verifies : t.request.isVerify = true
  inFlight : t.prog.head.isSome = true
  expected : expectedChallenge t.log = some x
  uncleared : ¬ Cleared t.log

def Handing (ix x : String) (q : Ceremony) (log : Log) : Prop :=
  q.id = ix ∧ expectedChallenge log = some x ∧ Cleared log ∧ ¬ Handed log

instance (ix x : String) (q : Ceremony) (log : Log) : Decidable (Handing ix x q log) :=
  inferInstanceAs (Decidable (_ ∧ _ ∧ _ ∧ _))

/-- The challenge a call hands to a verification: the one of the call, or the one the request
expects in the assertion. -/
def handedChallenge (log : Log) : Op → Option String
  | .user _ (.verifyAssertion _ _) => expectedChallenge log
  | .ask (.verifyRegistration challenge) => some challenge
  | _ => none

def verified (ix : String) : CeremonyEffect → Option String
  | .thread _ t entry => if t.request.id = ix then handedChallenge t.log entry.1 else none
  | .outside _ => none

/-- The challenges handed to verifications for the interaction, one entry for each. -/
def verifications (ix : String) (effects : List CeremonyEffect) : List String :=
  effects.filterMap (verified ix)

theorem handedChallenge_eq_none (log : Log) {op : Op} (h : handsChallenge op = false) :
    handedChallenge log op = none := by
  cases op with
  | user uid call =>
    cases call with
    | verifyAssertion credentialId now => cases h
    | _ => rfl
  | ask question =>
    cases question with
    | verifyRegistration challenge => cases h
    | _ => rfl
  | interaction id call => rfl

section Stage

variable {q : Ceremony} {log : Log} {entry : Entry Op.Answer}

/-- Only a request that may do so hands its challenge on, and it is the expected one. -/
theorem handedChallenge_of_permits (hpermits : CeremonyPermits q log entry.1)
    (hhands : handsChallenge entry.1 = true) :
    MayHand log ∧ handedChallenge log entry.1 = expectedChallenge log := by
  obtain ⟨op, answer⟩ := entry
  cases op with
  | interaction id call => cases hhands
  | user uid call =>
    cases call with
    | verifyAssertion credentialId now => exact ⟨hpermits.1, rfl⟩
    | _ => cases hhands
  | ask question =>
    cases question with
    | verifyRegistration challenge => exact ⟨hpermits.1, hpermits.2.symm⟩
    | _ => cases hhands

theorem not_clearsChallenge {op : Op} (h : handsChallenge op = true) :
    clearsChallenge op = false := by
  cases op with
  | interaction id call => cases h
  | user uid call => rfl
  | ask question => rfl

theorem expectedChallenge_cons (log : Log) (h : readsDocument entry.1 = false) :
    expectedChallenge (entry :: log) = expectedChallenge log := by
  rw [expectedChallenge, snapshot_cons h, expectedChallenge]

theorem clear_permits {op : Op} (hpermits : CeremonyPermits q log op)
    (hclears : clearsChallenge op = true) :
    ∃ fields now d, op = .interaction q.id (.patch fields now) ∧
      fields.passkeyChallenge = some none ∧ q.isVerify = true ∧ ¬ Cleared log ∧ ¬ Handed log ∧
      snapshot log = some (now, d) := by
  cases op with
  | user uid call => cases hclears
  | ask question => cases hclears
  | interaction id call =>
    cases call with
    | patch fields now =>
      have hfields : fields.passkeyChallenge = some none := beq_iff_eq.mp hclears
      obtain ⟨rfl, hrest⟩ := hpermits
      rw [hfields] at hrest
      obtain ⟨hq, hcleared, hhanded, d, hd⟩ := hrest
      exact ⟨fields, now, d, rfl, hfields, hq, hcleared, hhanded, hd⟩
    | _ => cases hclears

theorem read_permits {op : Op} (hpermits : CeremonyPermits q log op)
    (hreads : readsDocument op = true) :
    ∃ now, op = .interaction q.id (.get now) ∧ ¬ Cleared log := by
  cases op with
  | user uid call => cases hreads
  | ask question => cases hreads
  | interaction id call =>
    cases call with
    | get now =>
      obtain ⟨rfl, hcleared⟩ := hpermits
      exact ⟨now, rfl, hcleared⟩
    | _ => cases hreads

/-- A challenge in hand comes from the step that cleared it and goes with the one that hands
it on. -/
theorem handing_step (ix x : String) (hpermits : CeremonyPermits q log entry.1) :
    ((if q.id = ix then handedChallenge log entry.1 else none).toList.count x) +
        (if Handing ix x q (entry :: log) then 1 else 0) =
      (if Handing ix x q log then 1 else 0) +
        (if q.id = ix ∧ expectedChallenge log = some x ∧ clearsChallenge entry.1 = true
          then 1 else 0) := by
  by_cases hid : q.id = ix
  · by_cases hhands : handsChallenge entry.1 = true
    · obtain ⟨hmay, hhanded⟩ := handedChallenge_of_permits hpermits hhands
      have hafter : ¬ Handing ix x q (entry :: log) := fun h =>
        h.2.2.2 (handed_cons.mpr (.inl hhands))
      rw [if_pos hid, hhanded, if_neg hafter, not_clearsChallenge hhands]
      by_cases hx : expectedChallenge log = some x
      · have hbefore : Handing ix x q log := ⟨hid, hx, hmay.cleared, hmay.unhanded⟩
        simp [hbefore, hx]
      · have hnot : ¬ Handing ix x q log := fun h => hx h.2.1
        have hcount : (expectedChallenge log).toList.count x = 0 := by
          rw [List.count_eq_zero, Option.mem_toList]
          exact hx
        simp [hnot, hcount]
    · have hnone := handedChallenge_eq_none log (Bool.not_eq_true _ ▸ hhands)
      have hhanded : Handed (entry :: log) ↔ Handed log := by simp [handed_cons, hhands]
      rw [if_pos hid, hnone]
      by_cases hreads : readsDocument entry.1 = true
      · obtain ⟨now, hop, hcleared⟩ := read_permits hpermits hreads
        have hclears : clearsChallenge entry.1 = false := by rw [hop]; rfl
        have hbefore : ¬ Handing ix x q log := fun h => hcleared h.2.2.1
        have hafter : ¬ Handing ix x q (entry :: log) := by
          intro h
          rcases cleared_cons.mp h.2.2.1 with h | h
          · rw [hclears] at h
            cases h
          · exact hcleared h
        simp [hbefore, hafter, hclears]
      · have hexpected := expectedChallenge_cons log (Bool.not_eq_true _ ▸ hreads)
        by_cases hclears : clearsChallenge entry.1 = true
        · obtain ⟨fields, now, d, -, -, -, hcleared, hunhanded, -⟩ :=
            clear_permits hpermits hclears
          have hbefore : ¬ Handing ix x q log := fun h => hcleared h.2.2.1
          have hafter : Handing ix x q (entry :: log) ↔ expectedChallenge log = some x := by
            simp [Handing, hid, hexpected, cleared_cons, hclears, hhanded, hunhanded]
          simp [hbefore, hafter, hid, hclears]
        · have hsame : Handing ix x q (entry :: log) ↔ Handing ix x q log := by
            simp [Handing, hexpected, cleared_cons, hclears, hhanded]
          simp [hsame, hclears]
  · simp [hid, Handing]

end Stage

/-- A request that waits after a step waited before, or has just read the challenge. -/
theorem waiting_step {t : CeremonyThread} {op : Op} {answer : op.Answer} {prog : Handler Response}
    {ix x : String} (hhead : t.prog.head = some op) (hpermits : CeremonyPermits t.request t.log op)
    (h : Waiting ix x ⟨t.request, ⟨op, answer⟩ :: t.log, prog⟩) :
    Waiting ix x t ∧ clearsChallenge op = false ∧
        snapshot (⟨op, answer⟩ :: t.log) = snapshot t.log ∨
      ∃ now d, (⟨op, answer⟩ : Entry Op.Answer) = ⟨.interaction ix (.get now), .ok d⟩ ∧
        snapshot (⟨op, answer⟩ :: t.log) = some (now, d) ∧ isTerminal d.status = false ∧
        d.status ≠ .pushed ∧ Holds x d := by
  have hclears : clearsChallenge op = false := by
    rw [← Bool.not_eq_true]
    exact fun hclears => h.uncleared (cleared_cons.mpr (.inl hclears))
  have huncleared : ¬ Cleared t.log := fun hcleared =>
    h.uncleared (cleared_cons.mpr (.inr hcleared))
  have hexpected := h.expected
  -- Only the guard's read of a document can set what the request expects.
  have hkept : snapshot (⟨op, answer⟩ :: t.log) = snapshot t.log →
      Waiting ix x t ∧ clearsChallenge op = false ∧
        snapshot (⟨op, answer⟩ :: t.log) = snapshot t.log := by
    intro hsame
    rw [expectedChallenge, hsame] at hexpected
    exact ⟨⟨h.id, h.verifies, by rw [hhead]; rfl, hexpected, huncleared⟩, hclears, hsame⟩
  by_cases hreads : readsDocument op = true
  · obtain ⟨now, rfl, -⟩ := read_permits hpermits hreads
    cases answer with
    | error e => exact .inl (hkept rfl)
    | ok d =>
      right
      have hsnapshot : snapshot (⟨.interaction t.request.id (.get now), .ok d⟩ :: t.log) =
          if isTerminal d.status = true ∨ d.status = .pushed then none else some (now, d) := rfl
      by_cases hopen : isTerminal d.status = true ∨ d.status = .pushed
      · rw [expectedChallenge, hsnapshot, if_pos hopen] at hexpected
        cases hexpected
      · rw [if_neg hopen] at hsnapshot
        rw [expectedChallenge, hsnapshot] at hexpected
        obtain ⟨c, hc, hvalue⟩ := Option.map_eq_some_iff.mp hexpected
        obtain ⟨hchallenge, -⟩ := Option.filter_eq_some_iff.mp hc
        have hx : Holds x d := by
          rw [Holds, show d.passkeyChallenge = some c from hchallenge, ← hvalue]
          rfl
        have hid : t.request.id = ix := h.id
        rw [not_or, Bool.not_eq_true] at hopen
        exact ⟨now, d, by rw [hid], hsnapshot, hopen.1, hopen.2, hx⟩
  · exact .inl (hkept (snapshot_cons (Bool.not_eq_true _ ▸ hreads) _))

theorem get_live {o : InteractionObject} {now : ℤ} {d : InteractionDocument}
    (h : o.get now = .ok d) : o.doc = some d ∧ now < d.expiresAt := by
  unfold InteractionObject.get at h
  split at h
  · cases h
  · next doc hdoc =>
    split at h
    · cases h
    · next hexpiry =>
      cases h
      exact ⟨hdoc, not_le.mp hexpiry⟩

/-! ### Drawn challenges -/

def drawnText : Entry Op.Answer → Option String
  | ⟨.ask .randomText, text⟩ => some text
  | _ => none

def pendingText : Log → Option String
  | ⟨.ask .randomText, text⟩ :: _ => some text
  | _ => none

def heldText (x : String) (log : Log) : ℕ := if pendingText log = some x then 1 else 0

theorem heldText_cons (x : String) (entry : Entry Op.Answer) (log : Log) :
    heldText x (entry :: log) = (drawnText entry).toList.count x := by
  have hpending : pendingText (entry :: log) = drawnText entry := by
    obtain ⟨op, answer⟩ := entry
    cases op with
    | ask question => cases question <;> rfl
    | _ => rfl
  rw [heldText, hpending]
  cases drawnText entry with
  | none => simp
  | some text => by_cases h : text = x <;> simp [h]

/-- A challenge is 32 random bytes: none is drawn twice, or drawn when the document had it at
the start. -/
structure FreshChallenges (w₀ : World) (ix : String) (effects : List CeremonyEffect) : Prop where
  nodup : (drawnIn drawnText effects).Nodup
  unstored : ∀ x ∈ drawnIn drawnText effects, ∀ d, w₀.doc ix = some d → ¬ Holds x d

theorem freshChallenges_fresh {ix : String} {effects : List CeremonyEffect}
    (h : (drawnIn drawnText effects).Nodup) : FreshChallenges .fresh ix effects :=
  ⟨h, fun _ _ _ hd => by cases hd⟩

theorem FreshChallenges.of_append {w₀ : World} {ix : String} {later earlier : List CeremonyEffect}
    (h : FreshChallenges w₀ ix (later ++ earlier)) : FreshChallenges w₀ ix earlier := by
  have hsplit : drawnIn drawnText (later ++ earlier) =
      drawnIn drawnText later ++ drawnIn drawnText earlier := List.filterMap_append
  refine ⟨(hsplit ▸ h.nodup).of_append_right, fun x hx => h.unstored x ?_⟩
  rw [hsplit]
  exact List.mem_append_right _ hx

theorem heldText_le_drawn (sha256 : String → Bytes) (w₀ : World) (steps : List CeremonyStep)
    (x : String) :
    ((ceremonies sha256).after w₀ steps).total (fun t => heldText x t.log) ≤
      (drawnIn drawnText ((ceremonies sha256).effects w₀ steps)).count x := by
  have hle := System.used_le_drawn drawnText (fun _ _ => none) heldText (ceremonies_follow sha256)
    (fun _ => rfl) ?_ (fun _ _ => rfl) w₀ steps x
  · exact Nat.le_trans (Nat.le_add_left _ _) hle
  · intro q log entry x _
    simp [heldText_cons]

/-! ### The invariant -/

/-- How often the challenge was handed on, with those who have cleared it and will do so. -/
def spent (ix x : String) (c : CeremonyConfig) (effects : List CeremonyEffect) : ℕ :=
  (verifications ix effects).count x +
    c.total fun t => if Handing ix x t.request t.log then 1 else 0

/-- The challenge has not been stored yet: whoever drew it still has to. -/
structure Unstored (w₀ : World) (ix x : String) (c : CeremonyConfig)
    (effects : List CeremonyEffect) : Prop where
  absent : ∀ d, w₀.doc ix = some d → ¬ Holds x d
  held : (drawnIn drawnText effects).count x ≤ c.total fun t => heldText x t.log

/-- No request can come to the challenge any more, or yet. -/
structure Unreadable (ix x : String) (c : CeremonyConfig) : Prop where
  document : ∀ d, c.shared.doc ix = some d → Holds x d → isTerminal d.status = true
  requests : ∀ t ∈ c.threads, ¬ Waiting ix x t

/-- The document a waiting request read is open until after the time it read it at. -/
def StillOpen (now : ℤ) (d : InteractionDocument) : Prop :=
  isTerminal d.status = true ∨ d.status ≠ .pushed ∧ now < d.expiresAt

structure ChallengeInv (w₀ : World) (ix x : String) (c : CeremonyConfig)
    (effects : List CeremonyEffect) : Prop where
  once : spent ix x c effects ≤ 1
  gone : 0 < spent ix x c effects → Unreadable ix x c
  unstored : Unstored w₀ ix x c effects → spent ix x c effects = 0 ∧
    (∀ d, c.shared.doc ix = some d → ¬ Holds x d) ∧ ∀ t ∈ c.threads, ¬ Waiting ix x t
  opened : ∀ t ∈ c.threads, Waiting ix x t → ∀ now d₀, snapshot t.log = some (now, d₀) →
    ∀ d, c.shared.doc ix = some d → Holds x d → StillOpen now d

theorem StillOpen.ages {now : ℤ} {d d' : InteractionDocument} (h : StillOpen now d)
    (hages : Ages d d') : StillOpen now d' := by
  rcases h with hterminal | ⟨hopened, hlive⟩
  · exact .inl (hages.terminal hterminal)
  · rcases hages.expiry hopened with hterminal | hexpiry
    · exact .inl hterminal
    · exact .inr ⟨hages.opened hopened, hexpiry ▸ hlive⟩

section Step

variable {w₀ : World} {ix x : String} {c c' : CeremonyConfig}
  {effects effects' : List CeremonyEffect}

/-- A request that waits for the challenge after a step: it did before, or it has just read it
in the open document. -/
def WaitsFrom (ix x : String) (c : CeremonyConfig) (t' : CeremonyThread) : Prop :=
  (∃ t ∈ c.threads, Waiting ix x t ∧ snapshot t'.log = snapshot t.log) ∨
    ∃ now d, snapshot t'.log = some (now, d) ∧ c.shared.doc ix = some d ∧ Holds x d ∧
      isTerminal d.status = false ∧ d.status ≠ .pushed ∧ now < d.expiresAt

/-- Steps that neither store nor clear the challenge. -/
theorem ChallengeInv.spared (h : ChallengeInv w₀ ix x c effects)
    (hspent : spent ix x c' effects' = spent ix x c effects)
    (hunstored : Unstored w₀ ix x c' effects' → Unstored w₀ ix x c effects)
    (hdoc : ∀ d', c'.shared.doc ix = some d' → Holds x d' →
      ∃ d, c.shared.doc ix = some d ∧ Holds x d ∧ Ages d d')
    (hwaiting : ∀ t' ∈ c'.threads, Waiting ix x t' → WaitsFrom ix x c t') :
    ChallengeInv w₀ ix x c' effects' where
  once := hspent ▸ h.once
  gone := by
    intro hpos
    have hgone := h.gone (hspent ▸ hpos)
    constructor
    · intro d' hd' hx
      obtain ⟨d, hd, hdx, hages⟩ := hdoc d' hd' hx
      exact hages.terminal (hgone.document d hd hdx)
    · intro t' ht' hw
      rcases hwaiting t' ht' hw with ⟨t, ht, hwt, -⟩ | ⟨now, d, -, hd, hx, hlive, -⟩
      · exact hgone.requests t ht hwt
      · rw [hgone.document d hd hx] at hlive
        cases hlive
  unstored := by
    intro hun
    obtain ⟨hzero, habsent, hnone⟩ := h.unstored (hunstored hun)
    refine ⟨hspent.trans hzero, fun d' hd' hx => ?_, fun t' ht' hw => ?_⟩
    · obtain ⟨d, hd, hdx, -⟩ := hdoc d' hd' hx
      exact habsent d hd hdx
    · rcases hwaiting t' ht' hw with ⟨t, ht, hwt, -⟩ | ⟨now, d, -, hd, hx, -⟩
      · exact hnone t ht hwt
      · exact habsent d hd hx
  opened := by
    intro t' ht' hw now d₀ hsnapshot d' hd' hx
    obtain ⟨d, hd, hdx, hages⟩ := hdoc d' hd' hx
    refine StillOpen.ages ?_ hages
    rcases hwaiting t' ht' hw with ⟨t, ht, hwt, hsame⟩ |
      ⟨now', d₁, hread, hd₁, -, -, hopened, hlive⟩
    · exact h.opened t ht hwt now d₀ (hsame ▸ hsnapshot) d hd hdx
    · cases hd.symm.trans hd₁
      cases hread.symm.trans hsnapshot
      exact .inr ⟨hopened, hlive⟩

theorem spent_thread (ix x : String) (effects : List CeremonyEffect) {i : ℕ} {t : CeremonyThread}
    (hi : c.threads[i]? = some t) (entry : Entry Op.Answer)
    (hpermits : CeremonyPermits t.request t.log entry.1) (w : World) (prog : Handler Response) :
    spent ix x ⟨w, c.threads.set i ⟨t.request, entry :: t.log, prog⟩⟩ (.thread i t entry :: effects)
      = spent ix x c effects + (if t.request.id = ix ∧ expectedChallenge t.log = some x ∧
          clearsChallenge entry.1 = true then 1 else 0) := by
  have hset := Config.total_set (fun t => if Handing ix x t.request t.log then 1 else 0) c w hi
    ⟨t.request, entry :: t.log, prog⟩
  have hstep := handing_step ix x hpermits
  simp only [spent, verifications, count_filterMap_cons, verified] at hset hstep ⊢
  omega

theorem unstored_thread {i : ℕ} {t : CeremonyThread} {entry : Entry Op.Answer}
    (hi : c.threads[i]? = some t) {w : World} {prog : Handler Response}
    (h : Unstored w₀ ix x ⟨w, c.threads.set i ⟨t.request, entry :: t.log, prog⟩⟩
      (.thread i t entry :: effects)) :
    Unstored w₀ ix x c effects ∧ (drawnIn drawnText effects).count x + heldText x t.log ≤
      c.total fun t => heldText x t.log := by
  have hset := Config.total_set (fun t => heldText x t.log) c w hi
    ⟨t.request, entry :: t.log, prog⟩
  have hheld := h.held
  simp only [drawnIn, count_filterMap_cons, Effect.entry_thread, heldText_cons] at hheld hset
  have hle : (drawnIn drawnText effects).count x + heldText x t.log ≤
      c.total fun t => heldText x t.log := by
    rw [drawnIn]
    omega
  exact ⟨⟨h.absent, by omega⟩, hle⟩

theorem unstored_outside {entry : Entry Op.Answer} {w : World}
    (h : Unstored w₀ ix x ⟨w, c.threads⟩ (.outside entry :: effects)) :
    Unstored w₀ ix x c effects := by
  have hheld := h.held
  simp only [drawnIn, count_filterMap_cons] at hheld
  exact ⟨h.absent, Nat.le_trans (Nat.le_add_left _ _) hheld⟩

/-- A request stores a challenge that it has just drawn. -/
theorem store_permits {q : Ceremony} {log : Log} {op : Op} (hstores : ¬ Spares x op)
    (hpermits : CeremonyPermits q log op) :
    heldText x log = 1 ∧ readsDocument op = false ∧ clearsChallenge op = false := by
  cases op with
  | user uid call => exact absurd trivial hstores
  | ask question => exact absurd trivial hstores
  | interaction id call =>
    cases call with
    | patch fields now =>
      simp only [Spares, not_forall, not_not] at hstores
      obtain ⟨challenge, hfields, rfl⟩ := hstores
      obtain ⟨-, hrest⟩ := hpermits
      rw [hfields] at hrest
      obtain ⟨older, rfl⟩ := hrest
      exact ⟨by simp [heldText, pendingText], rfl, by simp [clearsChallenge, hfields]⟩
    | apply operation target patch now => exact absurd hpermits hstores
    | _ => exact absurd trivial hstores

section Threads

variable {sha256 : String → Bytes} {oracle : Oracle} {i : ℕ} {t : CeremonyThread} {op : Op}

theorem ChallengeInv.stored (h : ChallengeInv w₀ ix x c effects) (hi : c.threads[i]? = some t)
    (hhead : t.prog.head = some op) (hpermits : CeremonyPermits t.request t.log op)
    (hstores : ¬ Spares x op) (hfresh : FreshChallenges w₀ ix effects)
    (hheld : (c.total fun t => heldText x t.log) ≤ (drawnIn drawnText effects).count x)
    (prog : Handler Response) :
    ChallengeInv w₀ ix x ⟨(c.shared.exec sha256 oracle op).1, c.threads.set i
        ⟨t.request, ⟨op, (c.shared.exec sha256 oracle op).2⟩ :: t.log, prog⟩⟩
      (.thread i t ⟨op, (c.shared.exec sha256 oracle op).2⟩ :: effects) := by
  obtain ⟨hone, hreads, hclears⟩ := store_permits hstores hpermits
  have hdrawn : (drawnIn drawnText effects).count x ≤ 1 :=
    List.nodup_iff_count_le_one.mp hfresh.nodup x
  have hmine : heldText x t.log ≤ c.total fun t => heldText x t.log :=
    Config.held_le_total (fun t => heldText x t.log) c hi
  have hmem : x ∈ drawnIn drawnText effects := List.count_pos_iff.mp (by omega)
  -- The only one that drew the challenge is about to store it, so nobody has seen it.
  obtain ⟨hzero, -, hnone⟩ := h.unstored ⟨hfresh.unstored x hmem, by omega⟩
  have hspent := spent_thread ix x effects hi ⟨op, (c.shared.exec sha256 oracle op).2⟩ hpermits
    (c.shared.exec sha256 oracle op).1 prog
  have hwaiting : ∀ t' ∈ c.threads.set i
      ⟨t.request, ⟨op, (c.shared.exec sha256 oracle op).2⟩ :: t.log, prog⟩, ¬ Waiting ix x t' := by
    intro t' ht' hw
    rcases List.mem_or_eq_of_mem_set ht' with ht' | rfl
    · exact hnone t' ht' hw
    · rcases waiting_step hhead hpermits hw with ⟨hwt, -⟩ | ⟨now, d, hentry, -⟩
      · exact hnone t (List.mem_of_getElem? hi) hwt
      · obtain ⟨rfl, -⟩ := Sigma.mk.inj hentry
        cases hreads
  simp only [hclears, Bool.false_eq_true, and_false, if_false, Nat.add_zero] at hspent
  refine ⟨by omega, fun hpos => by omega, fun hun => ?_,
    fun t' ht' hw => absurd hw (hwaiting t' ht')⟩
  obtain ⟨-, hle⟩ := unstored_thread hi hun
  omega

theorem ChallengeInv.cleared (h : ChallengeInv w₀ ix x c effects) (hi : c.threads[i]? = some t)
    (hhead : t.prog.head = some op) (hpermits : CeremonyPermits t.request t.log op)
    (hclears : clearsChallenge op = true) (hid : t.request.id = ix)
    (hx : expectedChallenge t.log = some x)
    (halone : ∀ j t', j ≠ i → c.threads[j]? = some t' → ¬ Waiting ix x t')
    (prog : Handler Response) :
    ChallengeInv w₀ ix x ⟨(c.shared.exec sha256 oracle op).1, c.threads.set i
        ⟨t.request, ⟨op, (c.shared.exec sha256 oracle op).2⟩ :: t.log, prog⟩⟩
      (.thread i t ⟨op, (c.shared.exec sha256 oracle op).2⟩ :: effects) := by
  have ht := List.mem_of_getElem? hi
  have hspent := spent_thread ix x effects hi ⟨op, (c.shared.exec sha256 oracle op).2⟩ hpermits
    (c.shared.exec sha256 oracle op).1 prog
  obtain ⟨fields, now, d₀, rfl, hfields, hverifies, huncleared, -, hsnapshot⟩ :=
    clear_permits hpermits hclears
  subst hid
  have hw : Waiting t.request.id x t := ⟨rfl, hverifies, by rw [hhead]; rfl, hx, huncleared⟩
  have hzero : spent t.request.id x c effects = 0 := by
    by_contra hne
    exact (h.gone (Nat.pos_of_ne_zero hne)).requests t ht hw
  have hwaiting : ∀ t' ∈ c.threads.set i ⟨t.request, ⟨.interaction t.request.id
      (.patch fields now), (c.shared.exec sha256 oracle
        (.interaction t.request.id (.patch fields now))).2⟩ :: t.log, prog⟩,
      ¬ Waiting t.request.id x t' := by
    intro t' ht' hw'
    rcases exists_of_mem_set ht' with rfl | ⟨j, hj, hj'⟩
    · exact hw'.uncleared (cleared_cons.mpr (.inl hclears))
    · exact halone j t' hj hj' hw'
  simp only [hx, hclears, and_self, if_true, hzero] at hspent
  refine ⟨by omega, fun _ => ⟨fun d' hd' hdx => ?_, hwaiting⟩, fun hun => ?_,
    fun t' ht' hw' => absurd hw' (hwaiting t' ht')⟩
  · obtain ⟨hd, hterminal | hexpired⟩ := holds_of_clear sha256 oracle hfields hd' hdx
    · exact hterminal
    · rcases h.opened t ht hw now d₀ hsnapshot d' hd hdx with hterminal | ⟨-, hlive⟩
      · exact hterminal
      · omega
  · obtain ⟨-, -, hnone⟩ := h.unstored (unstored_thread hi hun).1
    exact absurd hw (hnone t ht)

theorem ChallengeInv.passed (h : ChallengeInv w₀ ix x c effects) (hi : c.threads[i]? = some t)
    (hhead : t.prog.head = some op) (hpermits : CeremonyPermits t.request t.log op)
    (hspares : Spares x op)
    (hkept : ¬ (t.request.id = ix ∧ expectedChallenge t.log = some x ∧ clearsChallenge op = true))
    (prog : Handler Response) :
    ChallengeInv w₀ ix x ⟨(c.shared.exec sha256 oracle op).1, c.threads.set i
        ⟨t.request, ⟨op, (c.shared.exec sha256 oracle op).2⟩ :: t.log, prog⟩⟩
      (.thread i t ⟨op, (c.shared.exec sha256 oracle op).2⟩ :: effects) := by
  refine h.spared ?_ (fun hun => (unstored_thread hi hun).1)
    (fun d' hd' hx => holds_of_exec hspares hd' hx) fun t' ht' hw => ?_
  · rw [spent_thread ix x effects hi _ hpermits, if_neg hkept, Nat.add_zero]
  · rcases List.mem_or_eq_of_mem_set ht' with ht' | rfl
    · exact .inl ⟨t', ht', hw, rfl⟩
    · rcases waiting_step hhead hpermits hw with ⟨hwt, -, hsame⟩ |
        ⟨now, d, hentry, hread, hlive, hopened, hx⟩
      · exact .inl ⟨t, List.mem_of_getElem? hi, hwt, hsame⟩
      · obtain ⟨rfl, hanswer⟩ := Sigma.mk.inj hentry
        obtain ⟨hd, hexpiry⟩ := get_live (eq_of_heq hanswer)
        exact .inr ⟨now, d, hread, hd, hx, hlive, hopened, hexpiry⟩

end Threads

end Step

/-! ### Runs -/

instance (ix x : String) (t : CeremonyThread) : Decidable (Waiting ix x t) :=
  decidable_of_iff (t.request.id = ix ∧ t.request.isVerify = true ∧ t.prog.head.isSome = true ∧
      expectedChallenge t.log = some x ∧ ¬ Cleared t.log)
    ⟨fun ⟨h₁, h₂, h₃, h₄, h₅⟩ => ⟨h₁, h₂, h₃, h₄, h₅⟩,
      fun ⟨h₁, h₂, h₃, h₄, h₅⟩ => ⟨h₁, h₂, h₃, h₄, h₅⟩⟩

/-- When the step clears a challenge, no other verify request that has read the same one is in
flight before its own clearing patch. -/
def ClearsAlone (c : CeremonyConfig) : CeremonyEffect → Prop
  | .thread i t entry => clearsChallenge entry.1 = true → ∀ x ∈ expectedChallenge t.log,
      ∀ j < c.threads.length, j ≠ i → ∀ t' ∈ c.threads[j]?, ¬ Waiting t.request.id x t'
  | .outside _ => True

instance (c : CeremonyConfig) (effect : CeremonyEffect) : Decidable (ClearsAlone c effect) :=
  match effect with
  | .thread i t entry => inferInstanceAs (Decidable (clearsChallenge entry.1 = true →
      ∀ x ∈ expectedChallenge t.log, ∀ j < c.threads.length, j ≠ i → ∀ t' ∈ c.threads[j]?,
        ¬ Waiting t.request.id x t'))
  | .outside _ => inferInstanceAs (Decidable True)

/-- Every clearing step of the run is alone. -/
def AllClearAlone (sha256 : String → Bytes) (w₀ : World) : List CeremonyStep → Prop
  | [] => True
  | l :: steps =>
      (∀ effect ∈ ((ceremonies sha256).step ((ceremonies sha256).after w₀ steps) l).2,
        ClearsAlone ((ceremonies sha256).after w₀ steps) effect) ∧ AllClearAlone sha256 w₀ steps

instance allClearAloneDecidable (sha256 : String → Bytes) (w₀ : World) :
    (steps : List CeremonyStep) → Decidable (AllClearAlone sha256 w₀ steps)
  | [] => inferInstanceAs (Decidable True)
  | _ :: steps =>
      have := allClearAloneDecidable sha256 w₀ steps
      inferInstanceAs (Decidable (_ ∧ _))

theorem spares_of_sparesChallenge (x : String) {op : Op} (h : sparesChallenge op = true) :
    Spares x op := by
  cases op with
  | user uid call => trivial
  | ask question => trivial
  | interaction id call =>
    cases call with
    | patch fields now =>
      intro c hc
      rw [sparesChallenge, hc] at h
      cases h
    | apply operation target patch now => exact Option.isNone_iff_eq_none.mp h
    | _ => trivial

theorem challengeInv_run (sha256 : String → Bytes) (w₀ : World) (ix x : String)
    (steps : List CeremonyStep)
    (hfresh : FreshChallenges w₀ ix ((ceremonies sha256).effects w₀ steps))
    (halone : AllClearAlone sha256 w₀ steps) :
    ChallengeInv w₀ ix x ((ceremonies sha256).after w₀ steps)
      ((ceremonies sha256).effects w₀ steps) := by
  refine System.run_invariant (ceremonies_follow sha256)
    (C := fun steps => FreshChallenges w₀ ix ((ceremonies sha256).effects w₀ steps) ∧
      AllClearAlone sha256 w₀ steps) ?_ (J := ChallengeInv w₀ ix x) ?_ ?_ ?_ ?_ steps
      ⟨hfresh, halone⟩
  · rintro l labels ⟨hfresh, halone⟩
    rw [System.effects, System.effectsFrom_cons] at hfresh
    exact ⟨hfresh.of_append, halone.2⟩
  · exact ⟨Nat.zero_le 1, by simp [spent, verifications], fun h => ⟨rfl, h.absent, by simp⟩,
      by simp⟩
  · intro labels q hJ
    refine hJ.spared ?_ (fun hun => ?_) (fun d' hd' hx => ⟨d', hd', hx, .of_eq rfl rfl⟩) ?_
    · simp [spent, Config.total_spawn, Handing, Cleared]
    · have hheld := hun.held
      rw [Config.total_spawn] at hheld
      exact ⟨hun.absent, hheld⟩
    · intro t' ht' hw
      rcases List.mem_append.mp ht' with ht' | ht'
      · exact .inl ⟨t', ht', hw, rfl⟩
      · rw [List.mem_singleton.mp ht'] at hw
        cases hw.expected
  · rintro labels i t op answer prog ⟨hfresh, halone⟩ heffect hJ hi hhead hpermits
    rw [System.effects, System.effectsFrom_cons] at hfresh
    by_cases hspares : Spares x op
    · by_cases hclears : t.request.id = ix ∧ expectedChallenge t.log = some x ∧
          clearsChallenge op = true
      · obtain ⟨hid, hx, hclears⟩ := hclears
        have hothers := halone.1 _ heffect hclears x hx
        refine hJ.cleared hi hhead hpermits hclears hid hx (fun j t' hj hj' => ?_) prog
        exact hid ▸ hothers j (List.getElem?_eq_some_iff.mp hj').1 hj t' hj'
      · exact hJ.passed hi hhead hpermits hspares hclears prog
    · exact hJ.stored hi hhead hpermits hspares hfresh.of_append
        (heldText_le_drawn sha256 w₀ labels x) prog
  · intro labels op answer hJ hop
    exact hJ.spared rfl unstored_outside
      (fun d' hd' hx => holds_of_exec (spares_of_sparesChallenge x hop) hd' hx)
      fun t' ht' hw => .inl ⟨t', ht', hw, rfl⟩

/-- Over the whole life of an interaction, a challenge reaches at most one verification, when no
verify request clears it while another that has read it is still to do so. -/
theorem challenge_verified_once_of_clears_alone (sha256 : String → Bytes) (w₀ : World)
    (steps : List CeremonyStep) (ix x : String)
    (hfresh : FreshChallenges w₀ ix ((ceremonies sha256).effects w₀ steps))
    (halone : AllClearAlone sha256 w₀ steps) :
    (verifications ix ((ceremonies sha256).effects w₀ steps)).count x ≤ 1 :=
  Nat.le_trans (Nat.le_add_right _ _) (challengeInv_run sha256 w₀ ix x steps hfresh halone).once

namespace Sample

/-- The interaction `ix`, waiting for its login, and a user with a passkey. -/
def opened : List CeremonyStep :=
  [.outside (.interaction ix (.create
      { id := ix, kind := .authorize, status := .loginRequired
        bindingHash := Util.encodeBase64Url [1], clientId := some "app" } 0 600)) (oracle ix),
    .outside (.user "u1" (.init ⟨"u1", none, none, false, none, []⟩ 0 [])) (oracle ix),
    .outside (.user "u1" (.addPasskey
      ⟨"p", "c", [], 0, 0, [], none, false, false, none, .me⟩ 0 20)) (oracle ix)]

def verify : Ceremony := .passkeyVerify (api ix) false (some ⟨"c", some "u1"⟩)

/-- The request makes its next `n` calls. -/
def proceed (i n : ℕ) : List CeremonyStep := List.replicate n (.step i (oracle ix))

/-- A challenge is stored for the login. -/
def challenged : List CeremonyStep :=
  opened ++ .spawn (.passkeyOptions (api ix)) :: proceed 0 7

def verifiedOnce : List CeremonyStep := (challenged ++ .spawn verify :: proceed 1 12).reverse

/-- Two verify requests whose guards both read the document before either clears it. -/
def verifiedTwice : List CeremonyStep :=
  (challenged ++ .spawn verify :: proceed 1 4 ++ .spawn verify :: proceed 2 4 ++ proceed 1 8 ++
    proceed 2 8).reverse

end Sample

theorem challenge_verified_once_sample :
    (verifications Sample.ix ((ceremonies fun _ => []).effects .fresh Sample.verifiedOnce)).count
      "text" ≤ 1 := by
  refine challenge_verified_once_of_clears_alone (fun _ => []) .fresh Sample.verifiedOnce Sample.ix
    "text" (freshChallenges_fresh (by decide +kernel)) (by decide +kernel)

/-- Both requests hand the challenge to a verification. -/
theorem challenge_verified_twice :
    FreshChallenges .fresh Sample.ix
      ((ceremonies fun _ => []).effects .fresh Sample.verifiedTwice) ∧
    (verifications Sample.ix ((ceremonies fun _ => []).effects .fresh Sample.verifiedTwice)).count
      "text" = 2 :=
  ⟨freshChallenges_fresh (by decide +kernel), by decide +kernel⟩

end TinyOidc.Interaction
