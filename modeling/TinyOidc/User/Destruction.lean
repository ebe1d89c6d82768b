import TinyOidc.User.Beside

/-! The refusals after `destroy`. They rest on a field of the instance: an instance loaded after an
eviction knows nothing of the deletion, and its `init` starts a new user. -/
namespace TinyOidc.User
open RowTable

/-! ### Refusals -/

def Outcome.error {α : Type} : Outcome α → Option UserDoError
  | .fail e => some e
  | _ => none

def exchangeError : Started ExchangeOutcome → Option UserDoError
  | .done (.fail e _) => some e
  | _ => none

def rotateError : RotateOutcome → Option UserDoError
  | .fail e _ _ => some e
  | _ => none

def assertionError : Started AssertionOutcome → Option UserDoError
  | .done (.fail e) => some e
  | _ => none

def Reply.error : Reply → Option UserDoError
  | .none => Option.none
  | .profile r => r.error
  | .disabled r => r.error
  | .unit r => r.error
  | .authorize r => r.error
  | .login r => r.error
  | .session r => r.error
  | .revokedSession r => r.error
  | .revokedSessions r => r.error
  | .sessions r => r.error
  | .count r => r.error
  | .challenge r => r.error
  | .exchange r => exchangeError r
  | .rotate r => rotateError r
  | .flag r => r.error
  | .families r => r.error
  | .grant r => r.error
  | .clientIds r => r.error
  | .grants r => r.error
  | .passkey r => r.error
  | .passkeys r => r.error
  | .assertion r => assertionError r
  | .identity r => r.error
  | .identities r => r.error

/-- The two errors of an object that holds no user. -/
def refused (r : Reply) : Bool :=
  r.error == some .userDestroyed || r.error == some .userNotInitialized

/-- The steps of a run that are calls: an eviction is the runtime's, and the end of a suspended
call belongs to the call that began it. -/
def isCall : Call → Bool
  | .evict | .resumeExchange _ | .resumeAssertion _ _ => false
  | _ => true

/-- The calls that `guard` refuses. -/
def isGuarded : Call → Bool
  | .init _ _ _ | .destroy => false
  | c => isCall c

theorem guarded_error {α : Type} {o : UserObject} {e : UserDoError} {reply : α → Reply}
    {fail : UserDoError → α} {body : UserRow → UserObject × α} (h : o.guard = .error e)
    (hreply : (reply (fail e)).error = some e) :
    (answered reply (o.guarded fail body)).1 = o ∧
      (answered reply (o.guarded fail body)).2.error = some e := by
  unfold UserObject.guarded
  rw [h]
  exact ⟨rfl, hreply⟩

/-- What `guard` refuses changes nothing and answers the guard's error. -/
theorem call_of_guard_error (sha256 : String → Bytes) {o : UserObject} {e : UserDoError} {c : Call}
    (h : o.guard = .error e) (hc : isGuarded c = true) :
    (o.call sha256 c).1 = o ∧ (o.call sha256 c).2.error = some e := by
  cases c with
  | init _ _ _ | destroy | evict | resumeExchange _ | resumeAssertion _ _ =>
    simp [isGuarded, isCall] at hc
  | exchangeCode input =>
    simp only [UserObject.call, UserObject.exchangeCode, h, answered, Reply.error, exchangeError,
      and_self]
  | _ => exact guarded_error h rfl

/-! ### After a deletion -/

/-- Whether the instance was dropped since the last deletion, along a run, newest first. -/
def evictedSince : List Call → Bool
  | [] => false
  | .destroy :: _ => false
  | .evict :: _ => true
  | _ :: calls => evictedSince calls

/-- Some `init` of the run was made on an instance loaded since the last deletion. -/
def initAfterEviction : List Call → Bool
  | [] => false
  | .init _ _ _ :: calls => evictedSince calls || initAfterEviction calls
  | _ :: calls => initAfterEviction calls

/-- The object holds no user: its instance refuses everything, or, loaded since the deletion, it
refuses everything but `init` and has no call to finish. -/
structure Gone (evicted : Bool) (o : UserObject) : Prop where
  user : o.tables.user = none
  flag : o.destroyed = !evicted
  suspended : evicted = true → o.suspended = []

theorem Gone.guard {evicted : Bool} {o : UserObject} (h : Gone evicted o) :
    o.guard = .error (if evicted then .userNotInitialized else .userDestroyed) := by
  unfold UserObject.guard
  rw [h.flag, h.user]
  cases evicted <;> rfl

theorem Gone.refused_of_guarded (sha256 : String → Bytes) {evicted : Bool} {o : UserObject}
    {c : Call} (h : Gone evicted o) (hc : isGuarded c = true) :
    (o.call sha256 c).1 = o ∧ refused (o.call sha256 c).2 = true := by
  obtain ⟨hsame, herror⟩ := call_of_guard_error sha256 h.guard hc
  constructor
  · exact hsame
  · unfold refused
    rw [herror]
    cases evicted <;> rfl

/-- A suspended call that finishes on a destroyed instance writes nothing to its tables. -/
theorem Gone.resumeExchange {evicted : Bool} {o : UserObject} (h : Gone evicted o) (call : ℕ) :
    Gone evicted (o.resumeExchange call).1 := by
  unfold UserObject.resumeExchange
  cases evicted with
  | true =>
    rw [h.suspended rfl]
    exact h
  | false =>
    split
    · have hdestroyed : o.destroyed = true := h.flag
      dsimp only
      rw [if_pos hdestroyed]
      refine ⟨h.user, ?_, by simp⟩
      unfold UserObject.purgeIfDue UserObject.store
      split <;> exact hdestroyed
    · exact h

theorem Gone.resumeAssertion {evicted : Bool} {o : UserObject} (h : Gone evicted o) (call : ℕ)
    (verified : Option ℕ) : Gone evicted (o.resumeAssertion call verified).1 := by
  unfold UserObject.resumeAssertion
  cases evicted with
  | true =>
    rw [h.suspended rfl]
    exact h
  | false =>
    have hdestroyed : o.destroyed = true := h.flag
    split
    · split
      · exact ⟨h.user, h.flag, by simp⟩
      · dsimp only
        rw [if_pos hdestroyed]
        exact ⟨h.user, hdestroyed, by simp⟩
    · exact h

/-- One step of an object without a user leaves it without one, unless it is the `init` of an
instance loaded since. -/
theorem Gone.step (sha256 : String → Bytes) {calls : List Call} {o : UserObject} {c : Call}
    (h : Gone (evictedSince calls) o) (hc : initAfterEviction (c :: calls) = false) :
    Gone (evictedSince (c :: calls)) (o.call sha256 c).1 := by
  cases hguarded : isGuarded c with
  | true =>
    have hsame := (h.refused_of_guarded sha256 hguarded).1
    rw [hsame]
    cases c <;> first | exact h | simp [isGuarded, isCall] at hguarded
  | false =>
    cases c with
    | init p now identities =>
      simp only [initAfterEviction, Bool.or_eq_false_iff] at hc
      have hdestroyed : o.destroyed = true := by rw [h.flag, hc.1]; rfl
      have hsame : (o.call sha256 (.init p now identities)).1 = o := by
        simp [UserObject.call, UserObject.init, answered, hdestroyed]
      rw [hsame]
      exact h
    | destroy => exact ⟨rfl, rfl, by simp [evictedSince]⟩
    | evict => exact ⟨h.user, rfl, fun _ => rfl⟩
    | resumeExchange call => exact h.resumeExchange call
    | resumeAssertion call verified => exact h.resumeAssertion call verified
    | _ => simp [isGuarded, isCall] at hguarded

theorem initAfterEviction_tail {c : Call} {calls : List Call}
    (h : initAfterEviction (c :: calls) = false) : initAfterEviction calls = false := by
  cases c <;> first | exact h | exact (Bool.or_eq_false_iff.mp h).2

/-- The object after a deletion and a run without such an `init`. -/
theorem gone_after_destroy (sha256 : String → Bytes) (earlier later : List Call)
    (h : initAfterEviction later = false) :
    Gone (evictedSince later)
      (Machine.after (UserObject.call sha256) (after sha256 (.destroy :: earlier)) later) := by
  induction later with
  | nil => exact ⟨rfl, rfl, by simp [evictedSince]⟩
  | cons c later ih => exact (ih (initAfterEviction_tail h)).step sha256 h

/-- An `init` that a deleted object's new instance answers is no refusal: it stores the user, or
its insert fails. -/
theorem Gone.init_not_refused (sha256 : String → Bytes) {o : UserObject} (h : Gone true o)
    (p : InitProfile) (now : ℤ) (identities : List NewIdentity) :
    refused (o.call sha256 (.init p now identities)).2 = false := by
  have hflag : o.destroyed = false := h.flag
  simp only [UserObject.call, UserObject.init, answered, hflag, h.user, Bool.false_eq_true,
    if_false]
  split <;> rfl

/-- A destroyed instance refuses `init` too. -/
theorem Gone.init_refused (sha256 : String → Bytes) {o : UserObject} (h : Gone false o)
    (p : InitProfile) (now : ℤ) (identities : List NewIdentity) :
    refused (o.call sha256 (.init p now identities)).2 = true := by
  have hflag : o.destroyed = true := h.flag
  simp only [UserObject.call, UserObject.init, answered, hflag, if_true]
  rfl

/-- Every later call but `destroy` is refused. -/
def FinallyDestroyed (sha256 : String → Bytes) (earlier later : List Call) : Prop :=
  ∀ e ∈ Machine.events (UserObject.call sha256) (after sha256 (.destroy :: earlier)) later,
    isCall e.input = true → e.input ≠ .destroy → refused e.reply = true

instance (sha256 : String → Bytes) (earlier later : List Call) :
    Decidable (FinallyDestroyed sha256 earlier later) :=
  inferInstanceAs (Decidable (∀ e ∈ Machine.events (UserObject.call sha256)
    (after sha256 (.destroy :: earlier)) later,
      isCall e.input = true → e.input ≠ .destroy → refused e.reply = true))

/-- A deleted object refuses every later call exactly as long as no instance loaded after the
deletion is asked to `init`. -/
theorem finallyDestroyed_iff (sha256 : String → Bytes) (earlier later : List Call) :
    FinallyDestroyed sha256 earlier later ↔ initAfterEviction later = false := by
  constructor
  · intro hfinal
    induction later with
    | nil => rfl
    | cons c later ih =>
      have hlater : initAfterEviction later = false :=
        ih fun e he => hfinal e (List.mem_cons_of_mem _ he)
      have hgone := gone_after_destroy sha256 earlier later hlater
      cases c with
      | init p now identities =>
        cases hevicted : evictedSince later with
        | false => simp [initAfterEviction, hevicted, hlater]
        | true =>
          rw [hevicted] at hgone
          have hrefused := hfinal _ List.mem_cons_self rfl (by simp)
          rw [Machine.event_reply, hgone.init_not_refused] at hrefused
          cases hrefused
      | _ => exact hlater
  · intro hnone
    induction later with
    | nil => simp [FinallyDestroyed]
    | cons c later ih =>
      have hlater := initAfterEviction_tail hnone
      have hgone := gone_after_destroy sha256 earlier later hlater
      intro e he hcall hdestroy
      rcases List.mem_cons.mp he with rfl | he
      · cases hguarded : isGuarded c with
        | true => exact (hgone.refused_of_guarded sha256 hguarded).2
        | false =>
          cases c with
          | init p now identities =>
            rw [(Bool.or_eq_false_iff.mp hnone).1] at hgone
            exact hgone.init_refused sha256 p now identities
          | destroy => exact absurd rfl hdestroy
          | _ => simp_all [isGuarded, isCall]
      · exact ih hlater e he hcall hdestroy

/-- An instance that was dropped after the deletion takes the user back. -/
theorem finallyDestroyed_evicted :
    ¬ FinallyDestroyed Sample.sha256 [Sample.init] [Sample.init, .evict] := by
  decide

example : FinallyDestroyed Sample.sha256 [Sample.init] [.getProfile, Sample.init, .getProfile] := by
  decide

end TinyOidc.User
