import Mathlib.Data.List.Infix
import TinyOidc.Interaction.Runs

/-! A failed interaction yields nothing, as long as it does not fail under a completion. A
completion decides on the document it read before its claim, and the claim takes failed
interactions too: a failure that lands between the read and the call that issues the code goes
unnoticed. -/
namespace TinyOidc.Interaction
open TinyOidc.User Threads

def storedStatus (c : RunConfig) (id : String) : Option InteractionStatus :=
  (c.shared.doc id).map (·.status)

def Request.completes (id : String) : Request → Bool
  | .complete id' _ _ => id' == id
  | _ => false

theorem completes_iff {id : String} {q : Request} :
    q.completes id = true ↔ ∃ binding cookie, q = .complete id binding cookie := by
  cases q <;> simp [Request.completes]

def isTransition (id : String) : Op → Bool
  | .interaction id' (.apply _ _ _ _) => id' == id
  | _ => false

/-- A completion that read a ready document and is still to act on it: it has neither issued a
code nor moved the interaction, and it is not about to move it. -/
structure Underway (id : String) (t : RunThread) : Prop where
  request : ∃ binding cookie, t.request = .complete id binding cookie
  read : ∃ d, Seen t.log id d ∧ d.status = .ready
  unsettled : ∀ e ∈ t.log, settles id e = false
  unissued : ∀ e ∈ t.log, issuedCode e = none
  next : ∃ op, t.prog.head = some op ∧ isTransition id op = false

theorem underway_iff {id : String} {t : RunThread} :
    Underway id t ↔ t.request.completes id = true ∧
      t.log.any (fun e => (openDocument id e).any (·.status = .ready)) = true ∧
      (∀ e ∈ t.log, settles id e = false) ∧ (∀ e ∈ t.log, (issuedCode e).isNone = true) ∧
      t.prog.head.any (fun op => !isTransition id op) = true := by
  simp only [List.any_eq_true, Option.any_eq_true, decide_eq_true_eq, Option.isNone_iff_eq_none,
    Bool.not_eq_true', completes_iff]
  constructor
  · rintro ⟨hrequest, ⟨d, ⟨e, he, hopen⟩, hready⟩, hunsettled, hunissued, hnext⟩
    exact ⟨hrequest, ⟨e, he, d, hopen, hready⟩, hunsettled, hunissued, hnext⟩
  · rintro ⟨hrequest, ⟨e, he, d, hopen, hready⟩, hunsettled, hunissued, hnext⟩
    exact ⟨hrequest, ⟨d, ⟨e, he, hopen⟩, hready⟩, hunsettled, hunissued, hnext⟩

instance (id : String) (t : RunThread) : Decidable (Underway id t) :=
  decidable_of_iff _ underway_iff.symm

/-- No step of the run fails the interaction under a completion. -/
def NoFailureUnderway (sha256 : String → Bytes) (id : String) (steps : List Step) : Prop :=
  ∀ l earlier, l :: earlier <:+ steps →
    storedStatus (runState sha256 earlier) id ≠ some .failed →
    storedStatus (runState sha256 (l :: earlier)) id = some .failed →
    ∀ t ∈ (runState sha256 earlier).threads, ¬ Underway id t

def failsUnderway (sha256 : String → Bytes) (id : String) : List Step → Bool
  | [] => false
  | l :: earlier =>
      storedStatus (runState sha256 earlier) id != some .failed &&
        storedStatus (runState sha256 (l :: earlier)) id == some .failed &&
        (runState sha256 earlier).threads.any (Underway id ·)

theorem noFailureUnderway_iff {sha256 : String → Bytes} {id : String} {steps : List Step} :
    NoFailureUnderway sha256 id steps ↔ ∀ s ∈ steps.tails, failsUnderway sha256 id s = false := by
  simp only [List.mem_tails]
  constructor
  · intro h s hs
    cases s with
    | nil => rfl
    | cons l earlier =>
      simp only [failsUnderway, Bool.and_eq_false_iff, bne_eq_false_iff_eq, beq_eq_false_iff_ne,
        List.any_eq_false, decide_eq_true_eq]
      by_cases hbefore : storedStatus (runState sha256 earlier) id = some .failed
      · exact .inl (.inl hbefore)
      · by_cases hafter : storedStatus (runState sha256 (l :: earlier)) id = some .failed
        · exact .inr (h l earlier hs hbefore hafter)
        · exact .inl (.inr hafter)
  · intro h l earlier hs hbefore hafter t ht hunderway
    have hstep := h (l :: earlier) hs
    simp only [failsUnderway, Bool.and_eq_false_iff, bne_eq_false_iff_eq, beq_eq_false_iff_ne,
      List.any_eq_false, decide_eq_true_eq] at hstep
    rcases hstep with (h1 | h1) | h1
    · exact hbefore h1
    · exact h1 hafter
    · exact h1 t ht hunderway

instance (sha256 : String → Bytes) (id : String) (steps : List Step) :
    Decidable (NoFailureUnderway sha256 id steps) :=
  decidable_of_iff _ noFailureUnderway_iff.symm

/-- Whether an entry issued a code or asked for the end of a session. -/
def yields : Entry Op.Answer → Bool
  | ⟨.user _ (.revokeSession _ _ _), _⟩ => true
  | entry => (issuedCode entry).isSome

/-- The thread, a completion of the interaction, issues a code or ends a session. -/
def yieldsBy (i : ℕ) (id : String) : RunEffect → Bool
  | .thread j t entry => j == i && t.request.completes id && yields entry
  | .outside _ => false

def claimsBy (i : ℕ) (id : String) : RunEffect → Bool
  | .thread j _ ⟨.interaction id' (.claimCompletion _), .ok _⟩ => j == i && id' == id
  | _ => false

/-- Whenever a completion issues a code or ends a session, the interaction was not failed at any
moment from its claim to that call. -/
def FailedYieldsNothing (sha256 : String → Bytes) (id : String) (steps : List Step) : Prop :=
  ∀ i l earlier claim claimed between, l :: earlier <:+ steps → claim :: claimed <:+ earlier →
    ((deployment sha256).step (runState sha256 earlier) l).2.any (yieldsBy i id) = true →
    ((deployment sha256).step (runState sha256 claimed) claim).2.any (claimsBy i id) = true →
    claimed <:+ between → between <:+ earlier →
    storedStatus (runState sha256 between) id ≠ some .failed

/-! ### The invariant -/

theorem NoFailureUnderway.suffix {sha256 : String → Bytes} {id : String} {steps earlier : List Step}
    (h : NoFailureUnderway sha256 id steps) (hsuffix : earlier <:+ steps) :
    NoFailureUnderway sha256 id earlier :=
  fun l s hs => h l s (hs.trans hsuffix)

theorem settles_of_isTransition {id : String} {entry : Entry Op.Answer} :
    settles id entry = isTransition id entry.1 := by
  obtain ⟨op, answer⟩ := entry
  cases op with
  | interaction id' call => cases call <;> rfl
  | _ => rfl

/-- While a completion is under way, the interaction is not failed. -/
theorem not_failed_of_underway {sha256 : String → Bytes} {id : String} {steps : List Step}
    (hcond : NoFailureUnderway sha256 id steps) :
    ∀ t ∈ (runState sha256 steps).threads, Underway id t →
      storedStatus (runState sha256 steps) id ≠ some .failed := by
  induction steps with
  | nil => simp
  | cons l steps ih =>
    have hkept : ∀ t ∈ (runState sha256 steps).threads, Underway id t →
        storedStatus (runState sha256 (l :: steps)) id ≠ some .failed := by
      intro t ht hunderway hfailed
      have hbefore := ih (hcond.suffix (List.suffix_cons l steps)) t ht hunderway
      exact hcond l steps (List.suffix_refl _) hbefore hfailed t ht hunderway
    have hmoves := run_moves sha256 steps l
    generalize runState sha256 (l :: steps) = c' at hmoves hkept ⊢
    generalize ((deployment sha256).step (runState sha256 steps) l).2 = effect at hmoves
    intro t' ht' hunderway
    cases hmoves with
    | idle => exact hkept t' ht' hunderway
    | outside entry w hop performed => exact hkept t' ht' hunderway
    | spawn q =>
      rcases List.mem_append.mp ht' with ht' | ht'
      · exact hkept t' ht' hunderway
      · rw [List.mem_singleton.mp ht'] at hunderway
        obtain ⟨d, ⟨e, he, -⟩, -⟩ := hunderway.read
        cases he
    | thread i t entry w prog hi next permitted performed =>
      rcases List.mem_or_eq_of_mem_set ht' with ht' | rfl
      · exact hkept t' ht' hunderway
      · obtain ⟨d, ⟨e, he, hopen⟩, hready⟩ := hunderway.read
        rcases List.mem_cons.mp he with rfl | he
        · obtain ⟨hdoc, -, -⟩ := openDocument_performed performed hopen
          simp [storedStatus, hdoc, hready]
        · have hsettles := hunderway.unsettled entry List.mem_cons_self
          refine hkept t (List.mem_of_getElem? hi) ⟨hunderway.request, ⟨d, ⟨e, he, hopen⟩, hready⟩,
            fun x hx => hunderway.unsettled x (List.mem_cons_of_mem _ hx),
            fun x hx => hunderway.unissued x (List.mem_cons_of_mem _ hx), entry.1, next, ?_⟩
          rw [← settles_of_isTransition, hsettles]

/-! ### The completion's log -/

theorem yields_of_quiet {uid : String} {call : Call} (h : quietCall call = true) {answer : Reply} :
    yields ⟨.user uid call, answer⟩ = false := by
  cases call <;> first | rfl | cases h

/-- A completion that yields something has the interaction in hand, on a ready document. -/
theorem completing_of_yields {id : String} {q : Request} {log : Log} {entry : Entry Op.Answer}
    (permitted : Permits q log entry.1) (hq : q.completes id = true)
    (hyields : yields entry = true) : ∃ d, Completing id log d := by
  obtain ⟨binding, cookie, rfl⟩ := completes_iff.mp hq
  obtain ⟨op, answer⟩ := entry
  cases op with
  | ask question => cases hyields
  | interaction id' call => cases call <;> cases hyields
  | user uid call =>
    change Calls _ log uid call at permitted
    cases permitted with
    | quiet call hquiet =>
      rw [yields_of_quiet hquiet] at hyields
      cases hyields
    | evaluated ref clientId client record request settings now secretHash holding hne =>
      exact absurd rfl (hne id binding cookie)
    | onSession id' binding' cookie' hq' d completing =>
      cases hq'
      exact ⟨d, completing⟩
    | login id' binding' cookie' hq' d completing =>
      cases hq'
      exact ⟨d, completing⟩
    | granted client scopes now hne => exact absurd rfl (hne id binding cookie)
    | ended sid now reason hended => exact hended id binding cookie rfl

/-- Nothing has taken the interaction before a call that takes it. -/
theorem unclaimed_of_takes {id : String} {q : Request} {log : Log} {entry : Entry Op.Answer}
    (permitted : Permits q log entry.1) (htakes : takes id entry = true) : Unclaimed id log := by
  obtain ⟨op, answer⟩ := entry
  cases op with
  | ask question => cases htakes
  | user uid call => cases htakes
  | interaction id' call =>
    cases call with
    | claimPushed clientId bindingHash now ttlSeconds =>
      cases answer with
      | error e => cases htakes
      | ok d =>
        rw [← beq_iff_eq.mp htakes]
        exact permitted.2
    | claimCompletion now =>
      cases answer with
      | error e => cases htakes
      | ok d =>
        rw [← beq_iff_eq.mp htakes]
        exact permitted.2
    | _ => cases htakes

section Between

variable {sha256 : String → Bytes}

/-- A step of a thread, with the thread as it was and as it is after. -/
theorem thread_of_step {steps : List Step} {l : Step} {i : ℕ} {t : RunThread}
    {entry : Entry Op.Answer}
    (h : ((deployment sha256).step (runState sha256 steps) l).2 = some (.thread i t entry)) :
    (runState sha256 steps).threads[i]? = some t ∧ t.prog.head = some entry.1 ∧
      Permits t.request t.log entry.1 ∧
      ∃ prog, (runState sha256 (l :: steps)).threads[i]? =
        some ⟨t.request, entry :: t.log, prog⟩ := by
  have hmoves := run_moves sha256 steps l
  generalize runState sha256 (l :: steps) = c' at hmoves ⊢
  rw [h] at hmoves
  cases hmoves with
  | thread _ _ _ w prog hi next permitted performed =>
    refine ⟨hi, next, permitted, prog, ?_⟩
    rw [List.getElem?_set_self (List.getElem?_eq_some_iff.mp hi).1]

/-- A completion read the document it acts on before its claim: the log at any claim of the
thread already holds the ready document. -/
theorem read_before_claim {earlier claimed : List Step} {claim : Step} {i : ℕ} {t t₀ : RunThread}
    {id : String} {e : Entry Op.Answer} {d : InteractionDocument}
    (hi : (runState sha256 earlier).threads[i]? = some t)
    (hclaim : ((deployment sha256).step (runState sha256 claimed) claim).2 = some (.thread i t₀ e))
    (htakes : takes id e = true) (hsuffix : claim :: claimed <:+ earlier)
    (hread : ReadFirst t.log id d) : Seen t₀.log id d := by
  obtain ⟨-, -, hpermitted, prog, hafter⟩ := thread_of_step hclaim
  have hunclaimed := unclaimed_of_takes hpermitted htakes
  have hgrown : e :: t₀.log <:+ t.log := by
    obtain ⟨later, rfl⟩ := hsuffix
    obtain ⟨t', hi', -, hgrows⟩ := (deployment sha256).thread_grows .fresh later _ hafter
    cases hi.symm.trans hi'
    rcases hgrows with rfl | ⟨op, next, r, -, hlog⟩
    · exact List.suffix_refl _
    · exact (List.suffix_cons _ _).trans hlog
  obtain ⟨e', older, hsuffix', htakes', hseen⟩ := hread
  rcases List.suffix_or_suffix_of_suffix hsuffix' hgrown with hle | hle
  · rcases List.suffix_cons_iff.mp hle with heq | hle
    · obtain ⟨-, rfl⟩ := List.cons.inj heq
      exact hseen
    · rw [(hunclaimed e' (hle.subset List.mem_cons_self)).1] at htakes'
      cases htakes'
  · rcases List.suffix_cons_iff.mp hle with heq | hle
    · obtain ⟨-, rfl⟩ := List.cons.inj heq
      exact hseen
    · have hpermitted' := System.log_permitted (deployment_follows sha256) .fresh earlier t
        (List.mem_of_getElem? hi) e' older hsuffix'
      have hunclaimed' := unclaimed_of_takes hpermitted' htakes'
      rw [(hunclaimed' e (hle.subset List.mem_cons_self)).1] at htakes
      cases htakes

/-- Between its claim and the call that yields something, a completion is under way. -/
theorem underway_between {earlier claimed between : List Step} {l claim : Step} {i : ℕ}
    {t t₀ : RunThread} {id : String} {entry e : Entry Op.Answer}
    (hstep : ((deployment sha256).step (runState sha256 earlier) l).2 = some (.thread i t entry))
    (hq : t.request.completes id = true) (hyields : yields entry = true)
    (hclaim : ((deployment sha256).step (runState sha256 claimed) claim).2 = some (.thread i t₀ e))
    (htakes : takes id e = true) (hsuffix : claim :: claimed <:+ earlier)
    (hlow : claimed <:+ between) (hhigh : between <:+ earlier) :
    ∃ t' ∈ (runState sha256 between).threads, Underway id t' := by
  obtain ⟨hi, hnext, hpermitted, -⟩ := thread_of_step hstep
  obtain ⟨d, hcompleting⟩ := completing_of_yields hpermitted hq hyields
  have hseen := read_before_claim hi hclaim htakes hsuffix hcompleting.seen
  obtain ⟨hi₀, -⟩ := thread_of_step hclaim
  obtain ⟨later, rfl⟩ := hlow
  obtain ⟨t', hi', hrequest, hgrown⟩ := (deployment sha256).thread_grows .fresh later _ hi₀
  obtain ⟨last, rfl⟩ := hhigh
  obtain ⟨t'', hi'', hrequest', hgrown'⟩ := (deployment sha256).thread_grows .fresh last _ hi'
  cases hi.symm.trans hi''
  have hread : t₀.log ⊆ t'.log := by
    rcases hgrown with rfl | ⟨op, next, r, -, hlog⟩
    · exact List.Subset.refl _
    · exact fun x hx => hlog.subset (List.mem_cons_of_mem _ hx)
  have hlog : t'.log ⊆ t.log := by
    rcases hgrown' with rfl | ⟨op, next, r, -, hlog⟩
    · exact List.Subset.refl _
    · exact fun x hx => hlog.subset (List.mem_cons_of_mem _ hx)
  refine ⟨t', List.mem_of_getElem? hi', ?_, ⟨d, hseen.mono hread, hcompleting.ready⟩,
    fun x hx => hcompleting.unsettled x (hlog hx), fun x hx => hcompleting.unissued x (hlog hx), ?_⟩
  · rw [← hrequest']
    exact completes_iff.mp hq
  · rcases hgrown' with rfl | ⟨op, next, r, hp, hlog⟩
    · refine ⟨entry.1, hnext, ?_⟩
      obtain ⟨op, answer⟩ := entry
      cases op with
      | ask question => rfl
      | user uid call => rfl
      | interaction id' call => cases call <;> cases hyields
    · refine ⟨op, by rw [hp]; rfl, ?_⟩
      rw [← hcompleting.unsettled ⟨op, r⟩ (hlog.subset List.mem_cons_self), settles_of_isTransition]

end Between

theorem yieldsBy_iff {i : ℕ} {id : String} {effect : RunEffect} :
    yieldsBy i id effect = true ↔ ∃ t entry, effect = .thread i t entry ∧
      t.request.completes id = true ∧ yields entry = true := by
  cases effect with
  | outside entry => simp [yieldsBy]
  | thread j t entry =>
    simp only [yieldsBy, Bool.and_eq_true, beq_iff_eq]
    constructor
    · rintro ⟨⟨rfl, hq⟩, hyields⟩
      exact ⟨t, entry, rfl, hq, hyields⟩
    · rintro ⟨t', entry', heq, hq, hyields⟩
      cases heq
      exact ⟨⟨rfl, hq⟩, hyields⟩

theorem exists_of_claimsBy {i : ℕ} {id : String} {effect : RunEffect}
    (h : claimsBy i id effect = true) :
    ∃ t e, effect = .thread i t e ∧ takes id e = true := by
  unfold claimsBy at h
  split at h
  · next j t id' now d =>
    rw [Bool.and_eq_true, beq_iff_eq] at h
    obtain ⟨rfl, hid⟩ := h
    exact ⟨t, _, rfl, hid⟩
  · cases h

/-- In every run in which the interaction never fails under a completion, a completion of a
failed interaction issues no code and ends no session. -/
theorem failed_yields_nothing_of_not_underway (sha256 : String → Bytes) (id : String)
    (steps : List Step) (hcond : NoFailureUnderway sha256 id steps) :
    FailedYieldsNothing sha256 id steps := by
  intro i l earlier claim claimed between hl hsuffix hyields hclaims hlow hhigh
  obtain ⟨effect, hstep, hyields⟩ := (Option.any_eq_true _ _).mp hyields
  obtain ⟨effect₀, hclaim, hclaims⟩ := (Option.any_eq_true _ _).mp hclaims
  obtain ⟨t, entry, rfl, hq, hyields⟩ := yieldsBy_iff.mp hyields
  obtain ⟨t₀, e, rfl, htakes⟩ := exists_of_claimsBy hclaims
  obtain ⟨t', ht', hunderway⟩ :=
    underway_between hstep hq hyields hclaim htakes hsuffix hlow hhigh
  have hbetween : between <:+ steps := hhigh.trans ((List.suffix_cons l earlier).trans hl)
  exact not_failed_of_underway (hcond.suffix hbetween) t' ht' hunderway

theorem failed_yields_nothing_sample :
    NoFailureUnderway User.Sample.sha256 Sample.ix Sample.completedOnce ∧
      (runEffects User.Sample.sha256 Sample.completedOnce).any (yieldsBy 4 Sample.ix) = true ∧
      FailedYieldsNothing User.Sample.sha256 Sample.ix Sample.completedOnce :=
  ⟨by decide +kernel, by decide +kernel, failed_yields_nothing_of_not_underway User.Sample.sha256
    Sample.ix Sample.completedOnce (by decide +kernel)⟩

/-- The abort lands between the read and the claim of a completion, which goes on to issue. -/
def Sample.abortedUnderway : List Step :=
  (ready ++ .spawn complete :: serve 4 3 ix ++ whole 5 ix (.abort (api ix))).reverse

def Sample.issuedAfterAbort : List Step := serve 4 7 ix ++ abortedUnderway

/-- The code is issued although the interaction was failed when it was claimed. -/
theorem aborted_interaction_issues_code :
    ¬ FailedYieldsNothing User.Sample.sha256 Sample.ix Sample.issuedAfterAbort := by
  intro h
  refine h 4 (.step 4 (Sample.oracle Sample.ix)) (Sample.serve 4 6 Sample.ix ++
    Sample.abortedUnderway)
    (.step 4 (Sample.oracle Sample.ix)) Sample.abortedUnderway Sample.abortedUnderway ?_ ?_ ?_ ?_ ?_
    ?_ ?_
  · exact List.suffix_refl _
  · exact List.suffix_append (Sample.serve 4 5 Sample.ix) _
  · decide +kernel
  · decide +kernel
  · exact List.suffix_refl _
  · exact List.suffix_append _ _
  · decide +kernel

end TinyOidc.Interaction
