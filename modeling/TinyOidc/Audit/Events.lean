import Mathlib.Data.Int.Basic

/-! Audit events (`src/audit/events.ts`). -/
namespace TinyOidc.Audit

inductive Outcome where
  | success | failure
  deriving DecidableEq, Repr

/-- An event, with data of the type `δ`. -/
structure AuditEvent (δ : Type) where
  id : String
  type : String
  ts : ℤ
  outcome : Outcome
  actorKind : String
  actorId : Option String
  userId : Option String
  clientId : Option String
  upstream : Option String
  sid : Option String
  interactionId : Option String
  ipHash : Option String
  country : Option String
  uaFamily : Option String
  requestId : String
  reason : Option String
  data : δ
  deriving DecidableEq, Repr

end TinyOidc.Audit
