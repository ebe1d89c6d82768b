import Mathlib.Data.List.Basic

/-! The interaction state machine (`src/interaction/state-machine.ts`): which operation may
move an interaction from one status to which statuses. -/
namespace TinyOidc.Interaction

inductive InteractionStatus where
  | pushed | loginRequired | linkRequired | consentRequired | ready | completed | failed
  deriving DecidableEq, Repr

inductive InteractionOperation where
  | consumePar | authenticate | link | consent | logoutDecision | abort | fail | restart | complete
  deriving DecidableEq, Repr

/-- The statuses an operation may lead to; none when it is not permitted. -/
def transitions : InteractionStatus → InteractionOperation → List InteractionStatus
  | .pushed, .consumePar => [.loginRequired, .consentRequired, .completed]
  | .loginRequired, .authenticate => [.ready, .consentRequired, .linkRequired, .failed]
  | .loginRequired, .logoutDecision => [.ready]
  | .linkRequired, .link => [.ready, .consentRequired, .failed]
  | .consentRequired, .consent => [.ready, .failed]
  | .ready, .restart => [.loginRequired]
  | .ready, .complete => [.completed]
  | .failed, .complete => [.completed]
  | .pushed, .abort | .pushed, .fail | .loginRequired, .abort | .loginRequired, .fail
  | .linkRequired, .abort | .linkRequired, .fail | .consentRequired, .abort
  | .consentRequired, .fail | .ready, .abort | .ready, .fail => [.failed]
  | _, _ => []

def isTerminal : InteractionStatus → Bool
  | .completed | .failed => true
  | _ => false

/-- Whether `operation` may move an interaction from `source` to `target`. -/
def canTransition (source : InteractionStatus) (operation : InteractionOperation)
    (target : InteractionStatus) : Bool :=
  (transitions source operation).contains target

/-- A pushed request is only ever created, never returned to. -/
theorem ne_pushed_of_canTransition {source target : InteractionStatus}
    {operation : InteractionOperation} (h : canTransition source operation target = true) :
    target ≠ .pushed := by
  cases source <;> cases operation <;> revert h <;> cases target <;> decide

/-- Only a pushed interaction and an open one move on; a completed one stays. -/
theorem ne_completed_of_canTransition {source target : InteractionStatus}
    {operation : InteractionOperation} (h : canTransition source operation target = true) :
    source ≠ .completed := by
  rintro rfl
  revert h
  cases operation <;> cases target <;> decide

/-- The operations that move a decided interaction on: all others start from one that still
waits for its login, its link, its consent or its pushed request. -/
theorem open_of_canTransition {source target : InteractionStatus}
    {operation : InteractionOperation} (h : canTransition source operation target = true) :
    operation = .abort ∨ operation = .fail ∨ operation = .restart ∨ operation = .complete ∨
      source ≠ .ready ∧ source ≠ .failed ∧ source ≠ .completed := by
  cases source <;> cases operation <;> revert h <;> cases target <;> decide

theorem consentRequired_of_canTransition {source target : InteractionStatus}
    (h : canTransition source .consent target = true) : source = .consentRequired := by
  cases source <;> revert h <;> cases target <;> decide

theorem ne_ready_of_consumePar {source target : InteractionStatus}
    (h : canTransition source .consumePar target = true) : target ≠ .ready := by
  cases source <;> revert h <;> cases target <;> decide

end TinyOidc.Interaction
