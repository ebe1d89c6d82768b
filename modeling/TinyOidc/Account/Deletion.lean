import TinyOidc.Account.Creation
import TinyOidc.Account.Maintenance

/-! Deletion is one-way while no request that has yet to write a status is overtaken by the mark
of a deletion, and none settles on writing one afterwards. -/
namespace TinyOidc.Account
open TinyOidc.User TinyOidc.Util
open TinyOidc.Interaction (UserStatus)
open Threads (Prog Entry Label Thread Config System)
open Threads.Prog (Obeys)

/-! ### The requests that write a status -/

inductive RegistryRequest where
  | setDisabled (id : String) (disabled : Bool) (now : ℤ)
  | delete (id : String) (now : ℤ)
  | create (inputs : List NewUser) (now : ℤ)
  | maintain (m : Maintenance)

inductive RegistryAnswer where
  | admin (response : AdminResponse)
  | created (results : Option (List CreateUserResult))
  | maintained (report : Option MaintenanceReport)

def RegistryRequest.run : RegistryRequest → Program RegistryAnswer
  | setDisabled id disabled now => do return .admin (← setDisabledHandler id disabled now)
  | delete id now => do return .admin (← deleteUserHandler id now)
  | create inputs now => do return .created (← createUsers inputs now)
  | maintain m => do return .maintained (← runMaintenance m)

def registry (sha256 : String → Bytes) :
    System RegistryRequest Fault World Op.Answer RegistryAnswer where
  start := RegistryRequest.run
  exec := World.exec sha256
  isOutside _ := false

abbrev RegistryConfig := Config RegistryRequest World Op.Answer RegistryAnswer

abbrev RegistryLabel := Label RegistryRequest Op Fault

/-! ### What a request has still to write -/

/-- The user whose row a call settles to write: the object has been enabled or disabled, or
initialized. -/
def settlesOn : RegistryRequest → Entry Op.Answer → Option String
  | .setDisabled _ _ _, ⟨.user uid (.setDisabled _ _), some (.disabled (.ok _))⟩ => some uid
  | _, ⟨.user uid (.init _ _ _), some (.profile (.ok _))⟩ => some uid
  | _, _ => none

/-- A link after which a repair goes on. -/
def linked : Option Reply → Bool
  | some (.identity (.ok _)) | some (.identity (.fail .identityExists)) => true
  | _ => false

/-- A call that writes the row of a user, or gives its repair up. -/
def leaves (uid : String) : Entry Op.Answer → Bool
  | ⟨.d1 (.setUserStatus id _ _), _⟩ => id == uid
  | ⟨.d1 (.activateUsers rows), _⟩ => rows.any (·.1 == uid)
  | ⟨.d1 (.identitiesOfUser id), .error _⟩ => id == uid
  | ⟨.user id (.addIdentity _ _), reply⟩ => id == uid && !linked reply
  | _ => false

/-- The users whose rows a request has settled to write and not written yet. -/
def unwritten (q : RegistryRequest) : Log → List String
  | [] => []
  | entry :: log =>
      (settlesOn q entry).toList ++ (unwritten q log).filter fun uid => !leaves uid entry

def RegistryPermits (q : RegistryRequest) (log : Log) : Op → Prop
  | .d1 (.setUserStatus uid status _) => status = .deleting ∨ uid ∈ unwritten q log
  | .d1 (.activateUsers rows) => ∀ row ∈ rows, row.1 ∈ unwritten q log
  | _ => True

section Protocol
variable {q : RegistryRequest} {log log' : Log} {uid : String}

theorem mem_unwritten_cons {entry : Entry Op.Answer} : uid ∈ unwritten q (entry :: log) ↔
    settlesOn q entry = some uid ∨ uid ∈ unwritten q log ∧ leaves uid entry = false := by
  simp [unwritten]

/-- The first two steps of a creation leave nothing unwritten that was initialized. -/
theorem unwritten_of_initialized (hlog : ∀ entry ∈ log, isCreating entry.1 = true)
    (h : Initialized log uid) : uid ∈ unwritten q log := by
  obtain ⟨p, now, identities, profile, hmem⟩ := h
  induction log with
  | nil => cases hmem
  | cons entry log ih =>
    rw [mem_unwritten_cons]
    rcases List.mem_cons.mp hmem with rfl | hmem
    · left
      cases q <;> rfl
    · refine .inr ⟨ih (fun e he => hlog e (List.mem_cons_of_mem _ he)) hmem, ?_⟩
      have hentry := hlog entry List.mem_cons_self
      unfold leaves
      split <;> first | rfl | simp [isCreating] at hentry

theorem creation_permitted (log : Log) (op : Op) (h : CreationPermits log op) :
    RegistryPermits q log op := by
  unfold RegistryPermits
  split
  · exact h.elim
  · next rows => exact fun row hrow => unwritten_of_initialized h.1 (h.2 row hrow)
  · trivial

theorem linkPairs_obeys (m : Maintenance) (pairs : List (String × String))
    (h : uid ∈ unwritten q log) :
    Obeys (RegistryPermits q) (fun log' done => done = true → uid ∈ unwritten q log') log
      (linkPairs m uid pairs) := by
  induction pairs generalizing log with
  | nil => exact fun _ => h
  | cons pair rest ih =>
    refine Obeys.perform trivial fun r => ?_
    have hlinked : linked r = true → uid ∈ unwritten q (⟨.user uid (.addIdentity
        { id := m.uuid pair, issuer := pair.1, subject := pair.2
          email := none, emailVerified := none, name := none } m.now), r⟩ :: log) := by
      intro hr
      rw [mem_unwritten_cons]
      simp [h, leaves, hr]
    split
    · exact ih (hlinked rfl)
    · exact ih (hlinked rfl)
    · intro hdone
      cases hdone

theorem repairCreating_obeys (m : Maintenance) (row : RegistryUser) :
    Obeys (RegistryPermits q) (fun _ _ => True) log (repairCreating m row) := by
  refine Obeys.perform trivial fun r => ?_
  cases r with
  | error e => trivial
  | ok groups =>
    refine Obeys.perform trivial fun r => ?_
    split
    · next profile =>
      have hinit : row.id ∈ unwritten q (⟨.user row.id (.init (repairProfile row groups) m.now []),
          some (.profile (.ok profile))⟩ :: ⟨.d1 (.groupNamesOfUser row.id), .ok groups⟩ ::
            log) := by
        rw [mem_unwritten_cons]
        left
        cases q <;> rfl
      refine Obeys.perform trivial fun r => ?_
      cases r with
      | error e => trivial
      | ok pairs =>
        refine Obeys.bind ((linkPairs_obeys m pairs
          (mem_unwritten_cons.mpr (.inr ⟨hinit, rfl⟩))).mono fun log' done hdone => ?_)
        split
        · next hlinks =>
          refine Obeys.perform (.inr (hdone hlinks)) fun r => ?_
          cases r <;> trivial
        · trivial
    · trivial

theorem creatingUsers_obeys (m : Maintenance) (rows : List RegistryUser) (checks : ℕ)
    (report : MaintenanceReport) :
    Obeys (RegistryPermits q) (fun _ _ => True) log (creatingUsers m rows checks report) := by
  induction rows generalizing log checks report with
  | nil => trivial
  | cons row rest ih =>
    unfold creatingUsers
    split
    · trivial
    · split
      · refine Obeys.perform trivial fun r => ?_
        cases r with
        | error e => trivial
        | ok _ => exact ih _ _
      · exact Obeys.bind ((repairCreating_obeys m row).mono fun log' repaired _ => ih _ _)

theorem deletingUsers_obeys (m : Maintenance) (rows : List RegistryUser) (checks : ℕ)
    (report : MaintenanceReport) :
    Obeys (RegistryPermits q) (fun _ _ => True) log (deletingUsers m rows checks report) := by
  induction rows generalizing log checks report with
  | nil => trivial
  | cons row rest ih =>
    unfold deletingUsers
    split
    · trivial
    · refine Obeys.perform trivial fun r => ?_
      split
      · trivial
      · trivial
      · refine Obeys.perform trivial fun r => ?_
        split
        · trivial
        · refine Obeys.perform trivial fun r => ?_
          cases r with
          | error e => trivial
          | ok _ => exact ih _ _

theorem maintenanceStep_obeys (m : Maintenance) (status : UserStatus) (createdBefore : Option ℤ)
    {step : List RegistryUser → ℕ → MaintenanceReport → Program (Option (ℕ × MaintenanceReport))}
    (hstep : ∀ log rows checks report,
      Obeys (RegistryPermits q) (fun _ _ => True) log (step rows checks report))
    (checks : ℕ) (report : MaintenanceReport) :
    Obeys (RegistryPermits q) (fun _ _ => True) log
      (maintenanceStep m status createdBefore step checks report) := by
  unfold maintenanceStep
  split
  · trivial
  · refine Obeys.perform trivial fun r => ?_
    cases r with
    | error e => trivial
    | ok rows => exact hstep _ rows _ _

theorem runMaintenance_obeys (m : Maintenance) :
    Obeys (RegistryPermits q) (fun _ _ => True) log (runMaintenance m) := by
  refine Obeys.bind ((maintenanceStep_obeys m _ _
    (fun _ => creatingUsers_obeys m) _ _).mono fun log₁ first _ => ?_)
  split
  · trivial
  · refine Obeys.bind ((maintenanceStep_obeys m _ _
      (fun _ => deletingUsers_obeys m) _ _).mono fun log₂ second _ => ?_)
    split <;> trivial

theorem loadUser_obeys (id : String) :
    Obeys (RegistryPermits q) (fun _ _ => True) log (loadUser id) := by
  unfold loadUser
  split
  · trivial
  · refine Obeys.perform trivial fun r => ?_
    split
    · trivial
    · trivial
    · split <;> trivial

/-- The object has answered when the row is written. -/
theorem setUserDisabled_obeys {id : String} {disabled : Bool} {now : ℤ} (uid : String) (off : Bool)
    (at' : ℤ) : Obeys (RegistryPermits (.setDisabled id disabled now)) (fun _ _ => True) log
      (setUserDisabled uid off at') := by
  refine Obeys.perform trivial fun (r : Option Reply) => ?_
  generalize (if off = true then some at' else none) = disabledAt
  split
  · refine Obeys.perform (.inr (mem_unwritten_cons.mpr (.inl rfl))) fun r => ?_
    cases r <;> trivial
  · trivial
  · trivial

theorem setDisabledHandler_obeys (id : String) (disabled : Bool) (now : ℤ) :
    Obeys (RegistryPermits (.setDisabled id disabled now)) (fun _ _ => True) log
      (setDisabledHandler id disabled now) := by
  refine Obeys.bind ((loadUser_obeys id).mono fun log₁ loaded _ => ?_)
  split
  · trivial
  · next row =>
    refine Obeys.perform trivial fun r => ?_
    split
    · refine Obeys.bind ((setUserDisabled_obeys row.id disabled now).mono fun log₂ result _ => ?_)
      split <;> trivial
    · trivial
    · trivial

theorem deleteUserHandler_obeys (id : String) (now : ℤ) :
    Obeys (RegistryPermits q) (fun _ _ => True) log (deleteUserHandler id now) := by
  refine Obeys.bind ((loadUser_obeys id).mono fun log₁ loaded _ => ?_)
  split
  · trivial
  · next row =>
    have hdelete : Obeys (RegistryPermits q) (fun _ _ => True) log₁ (deleteUser row.id now) := by
      refine Obeys.perform (.inl rfl) fun r => ?_
      cases r with
      | error e => trivial
      | ok _ =>
        refine Obeys.perform trivial fun r => ?_
        split
        · trivial
        · trivial
        · refine Obeys.perform trivial fun r => ?_
          split
          · trivial
          · refine Obeys.perform trivial fun r => ?_
            cases r <;> trivial
    refine Obeys.bind (hdelete.mono fun log₂ result _ => ?_)
    split <;> trivial

theorem registry_follows (sha256 : String → Bytes) :
    (registry sha256).Follows RegistryPermits := by
  intro q
  cases q with
  | setDisabled id disabled now =>
    exact Obeys.bind ((setDisabledHandler_obeys id disabled now).mono fun _ _ _ => trivial)
  | delete id now => exact Obeys.bind ((deleteUserHandler_obeys id now).mono fun _ _ _ => trivial)
  | create inputs now =>
    exact Obeys.bind (((createUsers_creates inputs now).weaken creation_permitted).mono
      fun _ _ _ => trivial)
  | maintain m => exact Obeys.bind ((runMaintenance_obeys m).mono fun _ _ _ => trivial)

end Protocol

/-! ### The condition -/

/-- A request settles on writing a row only while the row is not `deleting`, and a deletion marks
a row that is there only when no request has still to write it. -/
def settlesInOrder (sha256 : String → Bytes) (c : RegistryConfig) : RegistryLabel → Bool
  | .step i fault =>
      match c.threads[i]? with
      | none => true
      | some t =>
        match t.prog.head with
        | some (.d1 (.setUserStatus uid .deleting _)) =>
            fault == .before || c.shared.status uid == none ||
              c.threads.all fun t' => !(unwritten t'.request t'.log).contains uid
        | some op =>
            (settlesOn t.request ⟨op, (c.shared.exec sha256 fault op).2⟩).all fun uid =>
              c.shared.status uid != some .deleting
        | none => true
  | _ => true

def SettlesInOrder (sha256 : String → Bytes) (w : World) : List RegistryLabel → Prop
  | [] => True
  | l :: labels => settlesInOrder sha256 ((registry sha256).after w labels) l = true ∧
      SettlesInOrder sha256 w labels

instance decidableSettlesInOrder (sha256 : String → Bytes) (w : World) :
    (labels : List RegistryLabel) → Decidable (SettlesInOrder sha256 w labels)
  | [] => isTrue trivial
  | _ :: labels =>
      have := decidableSettlesInOrder sha256 w labels
      inferInstanceAs (Decidable (_ ∧ _))

/-! ### Runs -/

/-- No request has still to write a row that is marked. -/
def MarkedLast (c : RegistryConfig) : Prop :=
  ∀ uid, c.shared.status uid = some .deleting → ∀ t ∈ c.threads, uid ∉ unwritten t.request t.log

theorem settlesOn_d1 {q : RegistryRequest} {statement : Statement}
    {r : Except D1Error statement.Answer} : settlesOn q ⟨.d1 statement, r⟩ = none := by
  cases q <;> rfl

section Steps
variable {c : RegistryConfig} {i : ℕ} {t : Thread RegistryRequest Op.Answer RegistryAnswer}
  {sha256 : String → Bytes} {fault : Fault} {op : Op} {uid : String}
  {prog : Program RegistryAnswer}

/-- A marked row stays marked until it is removed. -/
theorem MarkedLast.final (h : MarkedLast c) (ht : t ∈ c.threads)
    (hperm : RegistryPermits t.request t.log op)
    (hdeleting : c.shared.status uid = some .deleting) :
    (c.shared.exec sha256 fault op).1.status uid = some .deleting ∨
      (c.shared.exec sha256 fault op).1.status uid = none := by
  have hrow := exec_rowStep sha256 c.shared fault op uid
  have hnot := h uid hdeleting t ht
  rw [hdeleting] at hrow
  generalize (c.shared.exec sha256 fault op).1.status uid = after at hrow ⊢
  cases hrow with
  | kept op s => exact .inl rfl
  | written status now s =>
    rcases hperm with rfl | hunwritten
    · exact .inl rfl
    · exact absurd hunwritten hnot
  | activated rows s hmem =>
    obtain ⟨row, hrow, rfl⟩ := List.mem_map.mp hmem
    exact absurd (hperm row hrow) hnot
  | removed s => exact .inr rfl

/-- What is marked after a call was marked before, or the call is its mark. -/
theorem marked_before (hmarked : (c.shared.exec sha256 fault op).1.status uid = some .deleting) :
    c.shared.status uid = some .deleting ∨
      ∃ now, op = .d1 (.setUserStatus uid .deleting now) ∧ fault ≠ .before ∧
        c.shared.status uid ≠ none := by
  by_cases hfault : fault = .before
  · subst hfault
    exact .inl hmarked
  · have hrow := exec_rowStep sha256 c.shared fault op uid
    rw [hmarked] at hrow
    generalize c.shared.status uid = before at hrow ⊢
    cases hrow with
    | kept op s => exact .inl rfl
    | written status now s => exact .inr ⟨now, rfl, hfault, by simp⟩

theorem MarkedLast.step (h : MarkedLast c) (hi : c.threads[i]? = some t)
    (hhead : t.prog.head = some op) (horder : settlesInOrder sha256 c (.step i fault) = true) :
    MarkedLast ⟨(c.shared.exec sha256 fault op).1, c.threads.set i
      ⟨t.request, ⟨op, (c.shared.exec sha256 fault op).2⟩ :: t.log, prog⟩⟩ := by
  intro uid hmarked
  have hold : ∀ t' ∈ c.threads, uid ∉ unwritten t'.request t'.log := by
    rcases marked_before hmarked with hbefore | ⟨now, rfl, hfault, hsome⟩
    · exact h uid hbefore
    · simpa [settlesInOrder, hi, hhead, hfault, hsome] using horder
  intro t' ht' hunwritten
  rcases Threads.exists_of_mem_set ht' with rfl | ⟨j, -, hj⟩
  · rcases mem_unwritten_cons.mp hunwritten with hsettles | ⟨hbefore, -⟩
    · cases op with
      | user v call =>
        simp only [settlesInOrder, hi, hhead, hsettles, Option.all_some, bne_iff_ne] at horder
        rcases marked_before hmarked with hbefore | ⟨now, heq, -⟩
        · exact horder hbefore
        · cases heq
      | d1 statement =>
        rw [settlesOn_d1] at hsettles
        cases hsettles
    · exact hold t (List.mem_of_getElem? hi) hbefore
  · exact hold t' (List.mem_of_getElem? hj) hunwritten

end Steps

theorem markedLast_run {sha256 : String → Bytes} {w : World} {labels : List RegistryLabel}
    (horder : SettlesInOrder sha256 w labels) : MarkedLast ((registry sha256).after w labels) := by
  refine System.run_invariant (registry_follows sha256) (C := SettlesInOrder sha256 w)
    (fun _ _ h => h.2) (J := fun c _ => MarkedLast c) ?_ ?_ ?_ ?_ labels horder
  · intro uid _ t ht
    cases ht
  · intro labels q hinv uid hmarked t ht
    rcases List.mem_append.mp ht with ht | ht
    · exact hinv uid hmarked t ht
    · cases List.mem_singleton.mp ht
      simp [unwritten]
  · rintro labels i t op fault prog ⟨horder, -⟩ - hinv hi hhead -
    exact hinv.step hi hhead horder
  · intro labels op answer _ hop
    cases hop

/-- A row that is `deleting` stays so until it is removed, in every run whose requests settle
on a status in order. -/
theorem deletion_one_way (sha256 : String → Bytes) (w : World) (l : RegistryLabel)
    (labels : List RegistryLabel) (horder : SettlesInOrder sha256 w labels) (uid : String)
    (hdeleting : ((registry sha256).after w labels).shared.status uid = some .deleting) :
    ((registry sha256).after w (l :: labels)).shared.status uid = some .deleting ∨
      ((registry sha256).after w (l :: labels)).shared.status uid = none := by
  have hinv := markedLast_run horder
  have hobeys := System.thread_obeys (registry_follows sha256) w labels
  have hsteps := (registry sha256).step_steps ((registry sha256).after w labels) l
  rw [System.after, Machine.after_cons]
  generalize (registry sha256).step ((registry sha256).after w labels) l = stepped at hsteps ⊢
  obtain ⟨c', e⟩ := stepped
  dsimp only at hsteps ⊢
  cases hsteps with
  | idle => exact .inl hdeleting
  | spawn q => exact .inl hdeleting
  | thread i t op next fault hi hp =>
    have ht := List.mem_of_getElem? hi
    have hpermitted := hobeys t ht
    rw [hp] at hpermitted
    exact hinv.final ht hpermitted.1 hdeleting
  | outside op answer hop => cases hop

/-! ### A deletion that stopped short, and the user enabled again -/

namespace Sample

def holder : String := "0190a1b2-c3d4-7e5f-8a6b-7c8d9e0f1a2b"

def activeUser : World where
  directory :=
    { Directory.empty with
      users := ⟨[registered holder], by decide⟩
      verifiedEmails := by decide }
  objects := Function.update (fun _ => UserObject.fresh) holder (initialized holder)

def calls (thread : ℕ) (faults : List Fault) : List RegistryLabel :=
  (faults.map fun fault => .step thread fault).reverse

/-- The user is disabled, and then a deletion marks the row and disables the object. -/
def disabledThenDeleted : List RegistryLabel :=
  calls 1 [.none, .none, .none] ++ .spawn (.delete holder 9) ::
    calls 0 [.none, .none, .none, .none] ++ [.spawn (.setDisabled holder true 8)]

/-- A deletion throws after it has marked the row; then the user is enabled, up to the row. -/
def deletedThenEnabled : List RegistryLabel :=
  calls 1 [.none, .none, .none] ++ .spawn (.setDisabled holder false 9) ::
    calls 0 [.none, .none, .before] ++ [.spawn (.delete holder 8)]

end Sample

theorem deletion_one_way_sample :
    ((registry fun _ => []).after Sample.activeUser
        (.step 1 .none :: Sample.disabledThenDeleted)).shared.status Sample.holder =
          some .deleting ∨
      ((registry fun _ => []).after Sample.activeUser
        (.step 1 .none :: Sample.disabledThenDeleted)).shared.status Sample.holder = none :=
  deletion_one_way (fun _ => []) Sample.activeUser (.step 1 .none) Sample.disabledThenDeleted
    (by decide +kernel) Sample.holder (by decide)

/-- The handler that enables a user takes a row that a deletion has left `deleting`, and writes
`active` over the mark. -/
theorem enabled_after_deletion :
    ¬ ∀ (sha256 : String → Bytes) (w : World) (l : RegistryLabel) (labels : List RegistryLabel)
      (uid : String), ((registry sha256).after w labels).shared.status uid = some .deleting →
        ((registry sha256).after w (l :: labels)).shared.status uid = some .deleting ∨
          ((registry sha256).after w (l :: labels)).shared.status uid = none := by
  intro hall
  have hkept := hall (fun _ => []) Sample.activeUser (.step 1 .none) Sample.deletedThenEnabled
    Sample.holder (by decide)
  exact absurd hkept (by decide)

end TinyOidc.Account
