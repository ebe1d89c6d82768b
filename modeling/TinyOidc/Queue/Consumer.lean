import TinyOidc.Audit.Sink

/-! The consumer of the task queue (`src/queue/consumer.ts`). Audit messages are written in groups,
each acknowledged when its rows and its archive object are stored; what cannot be read is
acknowledged at once. -/
namespace TinyOidc.Queue
open TinyOidc.Audit

/-- Events per archive object. -/
def archiveGroupEvents : ℕ := 1000

/-- `audit_hot` statements that one invocation may send. -/
def hotStatementsPerInvocation : ℕ := 800

/-- What the consumer reads of a body: `kind` when it is a string, `events` when it is an array. -/
structure Body (ρ : Type) where
  kind : Option String
  events : Option (List ρ)
  deriving DecidableEq, Repr

/-- The events of a message of kind `audit`, as many as the schema admits. -/
structure AuditTask (δ : Type) where
  events : List (AuditEvent δ)
  length_range : 1 ≤ events.length ∧ events.length ≤ auditBatchSize

/-- `AuditTaskSchema.safeParse`, where `parseEvent` is the schema of one event. -/
def parseAuditTask {δ ρ : Type} (parseEvent : ρ → Option (AuditEvent δ)) (body : Body ρ) :
    Option (AuditTask δ) := do
  let raws ← body.events
  let events ← raws.mapM parseEvent
  if h : 1 ≤ events.length ∧ events.length ≤ auditBatchSize then some ⟨events, h⟩ else none

/-- A message of the batch, by its number, and its events. -/
structure AuditMessage (δ : Type) where
  message : ℕ
  task : AuditTask δ

def eventsOf {δ : Type} (group : List (AuditMessage δ)) : List (AuditEvent δ) :=
  group.flatMap fun m => m.task.events

structure QueueDeps where
  archiveGroupEvents? : Option ℕ
  hotStatementsPerInvocation? : Option ℕ

def QueueDeps.groupEvents (deps : QueueDeps) : ℕ :=
  deps.archiveGroupEvents?.getD archiveGroupEvents

def QueueDeps.statementBudget (deps : QueueDeps) : ℕ :=
  deps.hotStatementsPerInvocation?.getD hotStatementsPerInvocation

/-- What an invocation meets: whether its configuration is valid, whether the retry of a logout
token returns, and for each group the attempt's id and how D1 and R2 answer. -/
structure Invocation (δ ρ : Type) where
  configured : Bool
  parseEvent : ρ → Option (AuditEvent δ)
  retryBackchannel : ℕ → Bool
  attempt : ℕ → String
  batchAnswer : ℕ → Answer
  putAnswer : ℕ → Answer

section Consume
variable {δ ρ : Type} (w : Serializer δ) (inv : Invocation δ ρ)

/-- The loop over the messages: audit messages that parse are kept, the others settled. -/
def triage : ℕ → List (Body ρ) → List Action × List (AuditMessage δ)
  | _, [] => ([], [])
  | i, body :: rest =>
    let (actions, audit) := triage (i + 1) rest
    if body.kind = some "audit" then
      match parseAuditTask inv.parseEvent body with
      | none => (.ack i :: actions, audit)
      | some task => (actions, ⟨i, task⟩ :: audit)
    else if body.kind ≠ some "backchannel_logout" then (.ack i :: actions, audit)
    else if inv.retryBackchannel i then (.ack i :: actions, audit)
    else (.retry i :: actions, audit)

/-- A message into the last group, when its events fit there, or into a new one. -/
def place (groupEvents : ℕ) (groups : List (List (AuditMessage δ))) (item : AuditMessage δ) :
    List (List (AuditMessage δ)) :=
  match groups.getLast? with
  | none => groups ++ [[item]]
  | some last =>
    let size := (last.map fun m => m.task.events.length).sum
    if size + item.task.events.length ≤ groupEvents then groups.dropLast ++ [last ++ [item]]
    else groups ++ [[item]]

def archiveGroups (groupEvents : ℕ) (audit : List (AuditMessage δ)) :
    List (List (AuditMessage δ)) :=
  audit.foldl (place groupEvents) []

/-- The loop over the groups: those beyond the budget are retried, not written. -/
def storeGroups (budget : ℕ) : ℕ → ℕ → List (List (AuditMessage δ)) → List Action
  | _, _, [] => []
  | i, statements, group :: rest =>
    let events := eventsOf group
    let statements := statements + hotStatementsFor events
    if budget < statements then
      .deferred (group.map AuditMessage.message) ::
        (group.map fun m => Action.retry m.message) ++ storeGroups budget (i + 1) statements rest
    else
      let (actions, stored) :=
        storeAuditBatch w events (inv.attempt i) (inv.batchAnswer i) (inv.putAnswer i)
      actions ++ (group.map fun m => if stored then Action.ack m.message else .retry m.message) ++
        storeGroups budget (i + 1) statements rest

def queue (deps : QueueDeps) (bodies : List (Body ρ)) : List Action :=
  if !inv.configured then [.retryAll]
  else
    let (actions, audit) := triage inv 0 bodies
    actions ++ storeGroups w inv deps.statementBudget 0 0 (archiveGroups deps.groupEvents audit)

end Consume

end TinyOidc.Queue
