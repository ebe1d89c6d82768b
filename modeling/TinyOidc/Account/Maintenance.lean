import TinyOidc.Account.Administration

/-! The maintenance of the registry (`src/maintenance/run.ts`): users left in `creating` are
repaired or dropped, users left in `deleting` are deleted. The steps on other tables are left out;
a run still checks its time budget before each of these two steps and before each row. -/
namespace TinyOidc.Account
open TinyOidc.User
open TinyOidc.Interaction (UserStatus)

/-- A `creating` row older than this is initialized again. -/
def creatingRepairAfterSeconds : ℤ := 60

/-- A `creating` row older than this is dropped. -/
def creatingDeleteAfterSeconds : ℤ := 3600

def repairBatch : ℕ := 100

/-- The clock when a run starts, what its budget checks give in turn, and the ids it draws. -/
structure Maintenance where
  now : ℤ
  within : ℕ → Bool
  uuid : String × String → String

structure MaintenanceReport where
  usersRepaired : ℕ
  usersDropped : ℕ
  usersDeleted : ℕ
  ended : List (String × List RevokedSession)
  deriving DecidableEq

def MaintenanceReport.empty : MaintenanceReport := ⟨0, 0, 0, []⟩

variable (m : Maintenance)

/-- Links the pairs the index claims; an object may hold one already. -/
def linkPairs (uid : String) : List (String × String) → Program Bool
  | [] => return true
  | pair :: rest => do
    match ← userCall uid (.addIdentity
        { id := m.uuid pair, issuer := pair.1, subject := pair.2
          email := none, emailVerified := none, name := none } m.now) with
    | some (.identity (.ok _)) => linkPairs uid rest
    | some (.identity (.fail .identityExists)) => linkPairs uid rest
    | _ => return false

def repairProfile (row : RegistryUser) (groups : List String) : InitProfile where
  id := row.id
  email := row.email
  emailNorm := row.emailNorm
  emailVerified := row.emailVerified
  displayName := row.displayName
  groups := groups

/-- Initializes the object from the row and the pairs the index claims, then activates the row. -/
def repairCreating (row : RegistryUser) : Program Bool := do
  match ← d1 (.groupNamesOfUser row.id) with
  | .error _ => return false
  | .ok groups =>
    match ← userCall row.id (.init (repairProfile row groups) m.now []) with
    | some (.profile (.ok _)) =>
      match ← d1 (.identitiesOfUser row.id) with
      | .error _ => return false
      | .ok pairs =>
        if ← linkPairs m row.id pairs then
          match ← d1 (.setUserStatus row.id .active m.now) with
          | .error _ => return false
          | .ok _ => return true
        else return false
    | _ => return false

/-- The rows left in `creating`: the old are dropped, the others repaired. The answer has the
number of budget checks made; `none` when a statement throws. -/
def creatingUsers : List RegistryUser → ℕ → MaintenanceReport →
    Program (Option (ℕ × MaintenanceReport))
  | [], checks, report => return some (checks, report)
  | row :: rest, checks, report => do
    if !m.within checks then return some (checks + 1, report)
    if row.createdAt < m.now - creatingDeleteAfterSeconds then
      match ← d1 (.deleteUserRow row.id) with
      | .error _ => return none
      | .ok _ =>
        creatingUsers rest (checks + 1) { report with usersDropped := report.usersDropped + 1 }
    else
      let repaired ← repairCreating m row
      creatingUsers rest (checks + 1)
        { report with usersRepaired := report.usersRepaired + if repaired then 1 else 0 }

/-- The rows left in `deleting`: each deletion is finished as its request would have. -/
def deletingUsers : List RegistryUser → ℕ → MaintenanceReport →
    Program (Option (ℕ × MaintenanceReport))
  | [], checks, report => return some (checks, report)
  | row :: rest, checks, report => do
    if !m.within checks then return some (checks + 1, report)
    match ← userCall row.id (.setDisabled (some m.now) m.now) with
    | none | some (.disabled (.thrown _)) => return none
    | some reply =>
      match ← userCall row.id .destroy with
      | none => return none
      | some _ =>
        match ← d1 (.deleteUserRow row.id) with
        | .error _ => return none
        | .ok _ =>
          deletingUsers rest (checks + 1)
            { report with
              usersDeleted := report.usersDeleted + 1
              ended := report.ended ++ [(row.id, revokedBy reply)] }

/-- A step of a run, unless the budget is spent. -/
def maintenanceStep (status : UserStatus) (createdBefore : Option ℤ)
    (step : List RegistryUser → ℕ → MaintenanceReport → Program (Option (ℕ × MaintenanceReport)))
    (checks : ℕ) (report : MaintenanceReport) : Program (Option (ℕ × MaintenanceReport)) := do
  if !m.within checks then return some (checks + 1, report)
  match ← d1 (.listUsers status createdBefore repairBatch) with
  | .error _ => return none
  | .ok rows => step rows (checks + 1) report

def runMaintenance : Program (Option MaintenanceReport) := do
  match ← maintenanceStep m .creating (some (m.now - creatingRepairAfterSeconds))
      (creatingUsers m) 0 .empty with
  | none => return none
  | some (checks, report) =>
    match ← maintenanceStep m .deleting none (deletingUsers m) checks report with
    | none => return none
    | some (_, report) => return some report

end TinyOidc.Account
