import TinyOidc.Account.Maintenance
import TinyOidc.Account.Statuses

/-! What a run of maintenance calls: it lists rows and works through its last listing, row by row.
What it does to a user depends on the row it has listed, not on the one that is there by then. -/
namespace TinyOidc.Account
open RowTable TinyOidc.User
open TinyOidc.Interaction (UserStatus)
open Threads (Prog Entry)
open Threads.Prog (Obeys)

def ListedRows : Entry Op.Answer → Prop
  | ⟨.d1 (.listUsers status createdBefore _), .ok rows⟩ =>
      (rows.map (·.id)).Nodup ∧ ∀ row ∈ rows, row.status = status ∧
        ∀ instant, createdBefore = some instant → row.createdAt ≤ instant
  | _ => True

/-- The rows a call leaves to work through. -/
def leftBy (entry : Entry Op.Answer) (rows : List RegistryUser) : List RegistryUser :=
  match entry with
  | ⟨.d1 (.listUsers _ _ _), .ok listed⟩ => listed
  | ⟨.d1 (.deleteUserRow uid), _⟩ => rows.filter (·.id != uid)
  | _ => rows

/-- The rows of the last listing, without those of the users deleted since. -/
def pending (log : Log) : List RegistryUser := log.foldr leftBy []

@[simp] theorem pending_cons (entry : Entry Op.Answer) (log : Log) :
    pending (entry :: log) = leftBy entry (pending log) := rfl

def Repairs (uid : String) : Op → Prop
  | .user id (.init _ _ _) | .user id (.addIdentity _ _) | .d1 (.groupNamesOfUser id)
  | .d1 (.identitiesOfUser id) => id = uid
  | .d1 (.setUserStatus id status _) => id = uid ∧ status = .active
  | _ => False

def Deletes (uid : String) : Op → Prop
  | .user id (.setDisabled _ _) | .user id .destroy | .d1 (.deleteUserRow id) => id = uid
  | _ => False

inductive Handles (m : Maintenance) (row : RegistryUser) : Op → Prop
  | dropped (hstatus : row.status = .creating)
      (hold : row.createdAt < m.now - creatingDeleteAfterSeconds) :
      Handles m row (.d1 (.deleteUserRow row.id))
  | repaired {op : Op} (hstatus : row.status = .creating) (hop : Repairs row.id op) :
      Handles m row op
  | deleted {op : Op} (hstatus : row.status = .deleting) (hop : Deletes row.id op) :
      Handles m row op

def IsListing (m : Maintenance) : Op → Prop
  | .d1 (.listUsers status createdBefore _) =>
      status = .creating ∧ createdBefore = some (m.now - creatingRepairAfterSeconds) ∨
        status = .deleting
  | _ => False

/-- A run lists rows, or works through those D1 has answered. -/
def MaintenancePermits (m : Maintenance) (log : Log) (op : Op) : Prop :=
  IsListing m op ∨ ((∀ entry ∈ log, ListedRows entry) → ∃ row ∈ pending log, Handles m row op)

/-- Rows of one status that are left to work through, each once. -/
structure Works (status : UserStatus) (log : Log) (rows : List RegistryUser) : Prop where
  left : ∀ row ∈ rows, row ∈ pending log
  nodup : (rows.map (·.id)).Nodup
  status : ∀ row ∈ rows, row.status = status

section Protocol
variable {m : Maintenance} {log : Log} {status : UserStatus} {row : RegistryUser}
  {rows : List RegistryUser} {op : Op}

theorem linkPairs_only (uid : String) (pairs : List (String × String)) :
    (linkPairs m uid pairs).Only (Repairs uid) := by
  induction pairs with
  | nil => trivial
  | cons pair rest ih =>
    refine Prog.Only.perform rfl fun r => ?_
    split
    · exact ih
    · exact ih
    · trivial

theorem repairCreating_only (row : RegistryUser) :
    (repairCreating m row).Only (Repairs row.id) := by
  refine Prog.Only.perform rfl fun r => ?_
  cases r with
  | error e => trivial
  | ok groups =>
    refine Prog.Only.perform rfl fun r => ?_
    split
    · refine Prog.Only.perform rfl fun r => ?_
      cases r with
      | error e => trivial
      | ok pairs =>
        refine Prog.Only.bind (linkPairs_only row.id pairs) fun done => ?_
        split
        · refine Prog.Only.perform ⟨rfl, rfl⟩ fun r => ?_
          cases r <;> trivial
        · trivial
    · trivial

/-- A repair leaves the rows to work through. -/
theorem pending_of_repairs {uid : String} (hop : Repairs uid op) (r : op.Answer) :
    pending (⟨op, r⟩ :: log) = pending log := by
  rw [pending_cons]
  unfold leftBy
  split
  · next heq =>
    cases heq
    exact hop.elim
  · next heq =>
    cases heq
    exact hop.elim
  · rfl

theorem Works.tail (h : Works status log (row :: rows)) : Works status log rows where
  left := fun other hother => h.left other (List.mem_cons_of_mem _ hother)
  nodup := (List.nodup_cons.mp h.nodup).2
  status := fun other hother => h.status other (List.mem_cons_of_mem _ hother)

theorem Works.of_pending {log' : Log} (h : Works status log rows)
    (hpending : pending log' = pending log) : Works status log' rows :=
  ⟨fun row hrow => hpending ▸ h.left row hrow, h.nodup, h.status⟩

/-- The row of a user is deleted once. -/
theorem Works.deleted (h : Works status log (row :: rows)) (r : Except D1Error Unit) :
    Works status (⟨.d1 (.deleteUserRow row.id), r⟩ :: log) rows := by
  refine ⟨fun other hother => ?_, h.tail.nodup, h.tail.status⟩
  have hne : other.id ≠ row.id := by
    intro heq
    have hmem : other.id ∈ rows.map (·.id) := List.mem_map_of_mem hother
    rw [heq] at hmem
    exact (List.nodup_cons.mp h.nodup).1 hmem
  exact List.mem_filter.mpr ⟨h.tail.left other hother, by simpa using hne⟩

/-- What a run knows of its rows, when the statements answer as D1 does. -/
def Knows (status : UserStatus) (rows : List RegistryUser) (log : Log) : Prop :=
  (∀ entry ∈ log, ListedRows entry) → Works status log rows

theorem Knows.permits (h : Knows status (row :: rows) log)
    (hop : row.status = status → Handles m row op) : MaintenancePermits m log op := by
  refine .inr fun hlisted => ⟨row, (h hlisted).left row List.mem_cons_self, ?_⟩
  exact hop ((h hlisted).status row List.mem_cons_self)

theorem Knows.tail (h : Knows status (row :: rows) log) : Knows status rows log :=
  fun hlisted => (h hlisted).tail

theorem Knows.cons {entry : Entry Op.Answer} (h : Knows status rows log)
    (hpending : pending (entry :: log) = pending log) : Knows status rows (entry :: log) :=
  fun hlisted => (h fun e he => hlisted e (List.mem_cons_of_mem _ he)).of_pending hpending

theorem Knows.deleted (h : Knows status (row :: rows) log) (r : Except D1Error Unit) :
    Knows status rows (⟨.d1 (.deleteUserRow row.id), r⟩ :: log) :=
  fun hlisted => (h fun e he => hlisted e (List.mem_cons_of_mem _ he)).deleted r

theorem creatingUsers_obeys_listed (rows : List RegistryUser) (checks : ℕ)
    (report : MaintenanceReport)
    (h : Knows .creating rows log) :
    Obeys (MaintenancePermits m) (fun _ _ => True) log (creatingUsers m rows checks report) := by
  induction rows generalizing log checks report with
  | nil => trivial
  | cons row rest ih =>
    unfold creatingUsers
    split
    · trivial
    · split
      · next hold =>
        refine Obeys.perform (h.permits fun hstatus => .dropped hstatus hold) fun r => ?_
        cases r with
        | error e => trivial
        | ok _ => exact ih _ _ (h.deleted _)
      · refine Obeys.bind (((repairCreating_only row).obeys_while h ?_ ?_).mono ?_)
        · exact fun log' op hknows hop => hknows.permits fun hstatus => .repaired hstatus hop
        · exact fun log' op r hknows hop => hknows.cons (pending_of_repairs hop r)
        · exact fun log' repaired hknows => ih _ _ hknows.tail

theorem deletingUsers_obeys_listed (rows : List RegistryUser) (checks : ℕ)
    (report : MaintenanceReport)
    (h : Knows .deleting rows log) :
    Obeys (MaintenancePermits m) (fun _ _ => True) log (deletingUsers m rows checks report) := by
  induction rows generalizing log checks report with
  | nil => trivial
  | cons row rest ih =>
    unfold deletingUsers
    split
    · trivial
    · refine Obeys.perform (h.permits fun hstatus => .deleted hstatus rfl) fun r => ?_
      have h₁ : Knows .deleting (row :: rest)
          (⟨.user row.id (.setDisabled (some m.now) m.now), r⟩ :: log) := h.cons rfl
      split
      · trivial
      · trivial
      · refine Obeys.perform (h₁.permits fun hstatus => .deleted hstatus rfl) fun r => ?_
        have h₂ : Knows .deleting (row :: rest) (⟨.user row.id .destroy, r⟩ :: _) := h₁.cons rfl
        split
        · trivial
        · refine Obeys.perform (h₂.permits fun hstatus => .deleted hstatus rfl) fun r => ?_
          cases r with
          | error e => trivial
          | ok _ => exact ih _ _ (h₂.deleted _)

theorem maintenanceStep_obeys_listed {createdBefore : Option ℤ}
    {step : List RegistryUser → ℕ → MaintenanceReport → Program (Option (ℕ × MaintenanceReport))}
    (hlists : IsListing m (.d1 (.listUsers status createdBefore repairBatch)))
    (hstep : ∀ log rows checks report, Knows status rows log →
      Obeys (MaintenancePermits m) (fun _ _ => True) log (step rows checks report))
    (checks : ℕ) (report : MaintenanceReport) :
    Obeys (MaintenancePermits m) (fun _ _ => True) log
      (maintenanceStep m status createdBefore step checks report) := by
  unfold maintenanceStep
  split
  · trivial
  · refine Obeys.perform (.inl hlists) fun r => ?_
    cases r with
    | error e => trivial
    | ok rows =>
      refine hstep _ rows (checks + 1) report fun hlisted => ?_
      obtain ⟨hnodup, hrows⟩ := hlisted _ List.mem_cons_self
      exact ⟨fun row hrow => hrow, hnodup, fun row hrow => (hrows row hrow).1⟩

theorem runMaintenance_obeys_listed (m : Maintenance) :
    Obeys (MaintenancePermits m) (fun _ _ => True) [] (runMaintenance m) := by
  refine Obeys.bind ((maintenanceStep_obeys_listed (.inl ⟨rfl, rfl⟩)
    (fun _ => creatingUsers_obeys_listed) _ _).mono fun log₁ first _ => ?_)
  split
  · trivial
  · refine Obeys.bind ((maintenanceStep_obeys_listed (.inr rfl)
      (fun _ => deletingUsers_obeys_listed) _ _).mono fun log₂ second _ => ?_)
    split <;> trivial

end Protocol

/-- A listing answers rows of the table as they are. -/
theorem getUser_of_listUsers {d : Directory} {status : UserStatus} {createdBefore : Option ℤ}
    {limit : ℕ} {row : RegistryUser} (h : row ∈ d.listUsers status createdBefore limit) :
    d.getUser row.id = some row := by
  have hmem := (List.mem_insertionSort _).mp (List.mem_of_mem_take h)
  exact Table.find_eq_some.mpr ⟨(List.mem_filter.mp hmem).1, rfl⟩

theorem listUsers_rows (d : Directory) (status : UserStatus) (createdBefore : Option ℤ)
    (limit : ℕ) : ((d.listUsers status createdBefore limit).map (·.id)).Nodup ∧
      ∀ row ∈ d.listUsers status createdBefore limit, row.status = status ∧
        ∀ instant, createdBefore = some instant → row.createdAt ≤ instant := by
  constructor
  · refine List.Nodup.sublist ((List.take_sublist _ _).map _) ?_
    have hsorted := List.perm_insertionSort Directory.userLe (d.users.rows.filter fun u =>
      u.status == status && createdBefore.all fun instant => u.createdAt ≤ instant)
    refine (hsorted.map (·.id)).nodup_iff.mpr ?_
    exact d.users.nodup.sublist (List.filter_sublist.map _)
  · intro row hrow
    have hmem := (List.mem_insertionSort _).mp (List.mem_of_mem_take hrow)
    have hfilter := (List.mem_filter.mp hmem).2
    rw [Bool.and_eq_true, beq_iff_eq, Option.all_eq_true] at hfilter
    exact ⟨hfilter.1, fun instant h => of_decide_eq_true (hfilter.2 instant h)⟩

theorem perform_listedRows (sha256 : String → Bytes) (w : World) (op : Op) :
    ListedRows ⟨op, (w.perform sha256 op).2⟩ := by
  unfold ListedRows
  split
  · next status createdBefore limit rows heq =>
    cases heq
    exact listUsers_rows w.directory status createdBefore limit
  · trivial

end TinyOidc.Account
