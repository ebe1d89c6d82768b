import TinyOidc.Account.VerifiedEmails
import TinyOidc.Mirror.Statuses

/-! What a reindex repairs. After any run of the admin operations, with any of their calls failing,
a reindex that succeeds leaves the rows of the user as the object has them; the status, which it
does not write, agrees only when the last write of the row is the last the object was asked. -/
namespace TinyOidc.Mirror
open RowTable TinyOidc.User TinyOidc.Account
open TinyOidc.Interaction (UserStatus)
open Threads (Prog Label Config System)
open Threads.Prog (Only)

/-! ### The operations -/

inductive Request where
  | updateProfile (uid : String) (update : ProfileUpdate) (now : ℤ)
  | setGroups (uid : String) (groups : List String) (now : ℤ)
  | addMembership (uid : String) (group : GroupRow) (now : ℤ)
  | removeMembership (uid : String) (group : GroupRow) (now : ℤ)
  | setDisabled (uid : String) (disabled : Bool) (now : ℤ)
  | deletePasskey (uid pid : String)
  | deleteIdentity (uid iid : String)
  | renameGroup (group : GroupRow) (patch : GroupPatch) (name : GroupName) (now : ℤ)
  | deleteGroup (group : GroupRow) (now : ℤ)
  | reindex (uid : String) (now : ℤ)

inductive Answer where
  | profile (result : UpdateProfileResult)
  | groups (result : SetGroupsResult)
  | membership (result : MembershipResult)
  | disabled (result : SetDisabledResult)
  | removal (result : RemovalResult)
  | group (result : GroupResult)
  | reindex (result : ReindexResult)

def Answer.isPartialFailure : Answer → Bool
  | .profile (.partialFailure _) | .groups (.partialFailure _) | .membership (.partialFailure _)
  | .disabled (.partialFailure _ _) => true
  | _ => false

def Request.run : Request → Program Answer
  | .updateProfile uid update now => do
    return .profile (← onStores (updateUserProfile uid update now))
  | .setGroups uid groups now => do return .groups (← setUserGroups uid groups now)
  | .addMembership uid group now => do
    return .membership (← onStores (Account.addMembership uid group now))
  | .removeMembership uid group now => do
    return .membership (← onStores (Account.removeMembership uid group now))
  | .setDisabled uid disabled now => do
    return .disabled (← onStores (setUserDisabled uid disabled now))
  | .deletePasskey uid pid => do return .removal (← deletePasskeyHandler uid pid)
  | .deleteIdentity uid iid => do return .removal (← deleteIdentityHandler uid iid)
  | .renameGroup group patch name now =>
    do return .group (← Mirror.renameGroup group patch name now)
  | .deleteGroup group now => do return .group (← Mirror.deleteGroup group now)
  | .reindex uid now => do return .reindex (← reindexUser uid now)

/-- The calls of a user's object on the user's own behalf. -/
def isOwn : Op → Bool
  | .account (.user _ (.setDisabled _ _)) => false
  | .account (.user v call) => keepsUsers (.user v call)
  | _ => false

/-- The operations, among the users' own calls. -/
def operations (sha256 : String → Bytes) (system : String → Bool) :
    System Request Fault Stores Op.Answer Answer where
  start := Request.run
  exec := Stores.exec sha256 system
  isOutside := isOwn

abbrev Step := Label Request Op Fault

abbrev Configuration := Config Request Stores Op.Answer Answer

/-! ### What they call -/

/-- The calls that no operation leaves: none makes or removes a user. -/
abbrev Keeps (op : Op) : Prop := op.keepsUsers = true

section Calls

theorem onStores_keeps {α : Type} {p : Account.Program α}
    (h : p.Only fun op => keepsUsers op = true) : (onStores p).Only Keeps := by
  induction p with
  | done a => trivial
  | call op next ih => exact ⟨h.1, fun r => ih r (h.2 r)⟩

theorem updateUserProfile_keeps (uid : String) (update : ProfileUpdate) (now : ℤ) :
    (updateUserProfile uid update now).Only fun op => keepsUsers op = true := by
  have hwrite : ∀ patch, (writeProfile uid patch now).Only fun op => keepsUsers op = true := by
    intro patch
    refine .perform rfl fun r => ?_
    split
    · trivial
    · refine .perform rfl fun r => ?_
      cases r <;> trivial
    · trivial
  refine .perform rfl fun r => ?_
  split
  · trivial
  · dsimp only
    split
    · trivial
    · split
      · exact hwrite _
      · refine .perform rfl fun holder => ?_
        split
        · trivial
        · split
          · trivial
          · exact hwrite _
  · trivial

theorem changeMembership_keeps {uid : String} {next : List String → Option (List String)}
    {mirror : Statement} {now : ℤ} (hmirror : keepsUsers (.d1 mirror) = true) :
    (changeMembership uid next mirror now).Only fun op => keepsUsers op = true := by
  have hmirrored : ∀ profile changed, (changeMembership.mirrored mirror profile changed).Only
      fun op => keepsUsers op = true := by
    intro profile changed
    refine .perform hmirror fun r => ?_
    cases r <;> trivial
  refine .perform rfl fun r => ?_
  split
  · trivial
  · split
    · exact hmirrored _ _
    · refine .perform rfl fun r => ?_
      split
      · trivial
      · exact hmirrored _ _
      · trivial
  · trivial

theorem setUserDisabled_keeps (uid : String) (disabled : Bool) (now : ℤ) :
    (setUserDisabled uid disabled now).Only fun op => keepsUsers op = true := by
  refine .perform rfl fun r => ?_
  split
  · refine .perform rfl fun r => ?_
    cases r <;> trivial
  · trivial
  · trivial

theorem propagateToMembers_keeps (groupId : String) (rewrite : List String → List String)
    (now : ℤ) : (propagateToMembers groupId rewrite now).Only fun op => keepsUsers op = true := by
  have hone : ∀ uid, (propagateTo uid rewrite now).Only fun op => keepsUsers op = true := by
    intro uid
    refine .perform rfl fun r => ?_
    split
    · trivial
    · split
      · trivial
      · refine .perform rfl fun r => ?_
        split <;> trivial
    · trivial
  have heach : ∀ uids, (propagateEach rewrite now uids).Only fun op => keepsUsers op = true := by
    intro uids
    induction uids with
    | nil => trivial
    | cons uid rest ih => exact Only.bind (hone uid) fun failed => Only.bind ih fun _ => trivial
  refine .perform rfl fun r => ?_
  cases r with
  | error e => trivial
  | ok members =>
    dsimp only
    split
    · trivial
    · exact Only.bind (heach members) fun _ => trivial

theorem setUserGroups_keeps (uid : String) (groups : List String) (now : ℤ) :
    (setUserGroups uid groups now).Only Keeps := by
  refine .perform rfl fun r => ?_
  split
  · trivial
  · split
    · trivial
    · refine .perform rfl fun r => ?_
      split
      · trivial
      · split
        · trivial
        · refine .perform rfl fun r => ?_
          cases r <;> trivial

theorem deletePasskeyHandler_keeps (uid pid : String) :
    (deletePasskeyHandler uid pid).Only Keeps := by
  have hunregister : ∀ passkey, (unregisterPasskey uid passkey).Only Keeps := by
    intro passkey
    refine .perform rfl fun r => ?_
    split
    · trivial
    · refine .perform rfl fun r => ?_
      cases r <;> trivial
    · trivial
  refine .perform rfl fun r => ?_
  split
  · trivial
  · split
    · trivial
    · split
      · trivial
      · refine Only.bind (hunregister _) fun removed => ?_
        cases removed <;> trivial

theorem deleteIdentityHandler_keeps (uid iid : String) :
    (deleteIdentityHandler uid iid).Only Keeps := by
  refine .perform rfl fun r => ?_
  split
  · trivial
  · split
    · trivial
    · split
      · trivial
      · refine .perform rfl fun r => ?_
        split
        · trivial
        · refine .perform rfl fun r => ?_
          cases r <;> trivial
        · trivial

theorem renameGroup_keeps (group : GroupRow) (patch : GroupPatch) (name : GroupName) (now : ℤ) :
    (renameGroup group patch name now).Only Keeps := by
  refine .perform rfl fun r => ?_
  split
  · trivial
  · trivial
  · refine Only.bind (onStores_keeps (propagateToMembers_keeps _ _ _)) fun result => ?_
    cases result with
    | ok members failed =>
      refine .perform rfl fun r => ?_
      split
      · trivial
      · exact Only.bind (onStores_keeps (propagateToMembers_keeps _ _ _)) fun _ => trivial
      · trivial
    | _ => trivial

theorem deleteGroup_keeps (group : GroupRow) (now : ℤ) :
    (Mirror.deleteGroup group now).Only Keeps := by
  refine Only.bind (onStores_keeps (propagateToMembers_keeps _ _ _)) fun result => ?_
  cases result with
  | ok members failed =>
    refine .perform rfl fun r => ?_
    cases r <;> trivial
  | _ => trivial

theorem reindexUser_keeps (uid : String) (now : ℤ) : (reindexUser uid now).Only Keeps := by
  have hread : (readObject uid).Only Keeps := by
    refine .perform rfl fun profile => .perform rfl fun passkeys =>
      .perform rfl fun identities => ?_
    split <;> trivial
  refine Only.bind hread fun held => ?_
  split
  · trivial
  · trivial
  · refine .perform rfl fun r => ?_
    split
    · trivial
    · refine .perform rfl fun r => ?_
      cases r <;> trivial

theorem run_keeps (q : Request) : q.run.Only Keeps := by
  have hdone : ∀ {α : Type} {p : Program α} {f : α → Answer}, p.Only Keeps →
      (p >>= fun a => pure (f a)).Only Keeps := fun h => Only.bind h fun _ => trivial
  cases q with
  | updateProfile uid update now => exact hdone (onStores_keeps (updateUserProfile_keeps _ _ _))
  | setGroups uid groups now => exact hdone (setUserGroups_keeps _ _ _)
  | addMembership uid group now => exact hdone (onStores_keeps (changeMembership_keeps rfl))
  | removeMembership uid group now => exact hdone (onStores_keeps (changeMembership_keeps rfl))
  | setDisabled uid disabled now => exact hdone (onStores_keeps (setUserDisabled_keeps _ _ _))
  | deletePasskey uid pid => exact hdone (deletePasskeyHandler_keeps _ _)
  | deleteIdentity uid iid => exact hdone (deleteIdentityHandler_keeps _ _)
  | renameGroup group patch name now => exact hdone (renameGroup_keeps _ _ _ _)
  | deleteGroup group now => exact hdone (deleteGroup_keeps _ _)
  | reindex uid now => exact hdone (reindexUser_keeps _ _)

theorem isOwn_keeps {op : Op} (h : isOwn op = true) : Keeps op := by
  unfold isOwn at h
  split at h
  · cases h
  · exact h
  · cases h

theorem operations_follows (sha256 : String → Bytes) (system : String → Bool) :
    (operations sha256 system).Follows fun _ _ op => Keeps op :=
  fun q => ((run_keeps q).obeys fun _ _ h => h).mono fun _ _ _ => trivial

end Calls

/-! ### The last status -/

/-- How the call of a step fails. -/
def faultOf : Step → Fault
  | .spawn _ => .none
  | .step _ fault | .outside _ fault => fault

abbrev Event := Machine.Event Configuration Step (Option (Threads.Effect Request Op.Answer Answer))

def askedBy (uid : String) (e : Event) : Option UserStatus :=
  e.reply.bind fun effect => asked uid e.pre.shared (faultOf e.input) effect.entry.1

def writtenBy (uid : String) (e : Event) : Option UserStatus :=
  e.reply.bind fun effect => written uid (faultOf e.input) effect.entry.1

def lastOf (status : Event → Option UserStatus) (h : List Event) (start : UserStatus) :
    UserStatus :=
  (h.findSome? status).getD start

theorem lastOf_cons (status : Event → Option UserStatus) (e : Event) (h : List Event)
    (start : UserStatus) :
    lastOf status (e :: h) start = (status e).getD (lastOf status h start) := by
  unfold lastOf
  rw [List.findSome?_cons]
  cases status e <;> rfl

section Run
variable (sha256 : String → Bytes) (system : String → Bool) (uid : String)

/-- What a step does to the two statuses of a user. -/
theorem step_statuses {c : Configuration}
    (hkeeps : ∀ t ∈ c.threads, t.prog.Obeys (fun _ op => Keeps op) (fun _ _ => True) t.log)
    (l : Step) :
    ((operations sha256 system).step c l).1.shared.heldStatus uid =
        (c.shared.heldStatus uid).map (fun old =>
          (askedBy uid (Machine.event (operations sha256 system).step c l)).getD old) ∧
      ((operations sha256 system).step c l).1.shared.directory.status uid =
        (c.shared.directory.status uid).map fun old =>
          (writtenBy uid (Machine.event (operations sha256 system).step c l)).getD old := by
  simp only [askedBy, writtenBy, Machine.event_pre, Machine.event_input, Machine.event_reply]
  have hidle : c.shared.heldStatus uid =
        (c.shared.heldStatus uid).map (fun old => (none : Option UserStatus).getD old) ∧
      c.shared.directory.status uid =
        (c.shared.directory.status uid).map fun old => (none : Option UserStatus).getD old :=
    ⟨(map_getD_none _).symm, (map_getD_none _).symm⟩
  cases l with
  | spawn q => exact hidle
  | step i fault =>
    rcases (operations sha256 system).step_turn c i fault with
      ⟨hstep, -⟩ | ⟨t, op, next, hi, hp, hstep⟩
    · rw [hstep]
      exact hidle
    · have ht := hkeeps t (List.mem_of_getElem? hi)
      rw [hp] at ht
      rw [hstep]
      exact exec_statuses sha256 system uid ht.1 fault
  | outside op fault =>
    by_cases hop : isOwn op = true
    · have hstep : (operations sha256 system).step c (.outside op fault) =
          (⟨(c.shared.exec sha256 system fault op).1, c.threads⟩,
            some (.outside ⟨op, (c.shared.exec sha256 system fault op).2⟩)) := if_pos hop
      rw [hstep]
      exact exec_statuses sha256 system uid (isOwn_keeps hop) fault
    · have hstep : (operations sha256 system).step c (.outside op fault) = (c, none) := if_neg hop
      rw [hstep]
      exact hidle

/-- A run leaves the object with the status last asked of it, and the row with the one last
written. -/
theorem run_statuses (s : Stores) (labels : List Step) :
    ((operations sha256 system).after s labels).shared.heldStatus uid =
        (s.heldStatus uid).map
          (lastOf (askedBy uid) ((operations sha256 system).history s labels)) ∧
      ((operations sha256 system).after s labels).shared.directory.status uid =
        (s.directory.status uid).map
          (lastOf (writtenBy uid) ((operations sha256 system).history s labels)) := by
  induction labels with
  | nil => exact ⟨(map_getD_none _).symm, (map_getD_none _).symm⟩
  | cons l labels ih =>
    obtain ⟨hheld, hstatus⟩ := step_statuses sha256 system uid
      (System.thread_obeys (operations_follows sha256 system) s labels) l
    obtain ⟨iheld, istatus⟩ := ih
    rw [iheld, Option.map_map] at hheld
    rw [istatus, Option.map_map] at hstatus
    refine ⟨hheld.trans ?_, hstatus.trans ?_⟩
    · congr 1
      funext start
      exact (lastOf_cons _ _ _ _).symm
    · congr 1
      funext start
      exact (lastOf_cons _ _ _ _).symm

/-- The status that the run last wrote to the row is the one it last asked of the object. -/
def statusCurrent (s : Stores) (labels : List Step) : Bool :=
  (s.heldStatus uid).all fun start =>
    lastOf (writtenBy uid) ((operations sha256 system).history s labels) start ==
      lastOf (askedBy uid) ((operations sha256 system).history s labels) start

end Run

/-! ### The repair -/

/-- A user known to the object and to the directory, both with one status, whatever the other rows
are; any run of the operations; and then a reindex that succeeds. -/
theorem reindex_repairs_iff (sha256 : String → Bytes) (system : String → Bool) (uid : String)
    (s : Stores) (hstart : s.directory.status uid = s.heldStatus uid) (labels : List Step)
    (faults : Op → Fault) (now : ℤ) (s' : Stores) (report : ReindexReport)
    (h : reindexed sha256 system faults uid now
      ((operations sha256 system).after s labels).shared = (s', .ok report)) :
    s'.Agrees uid report.unknownGroups ↔ statusCurrent sha256 system uid s labels = true := by
  obtain ⟨user, held, hread, rfl, hrebuilt⟩ := reindexed_ok sha256 system h
  obtain ⟨hheld, hstatus⟩ := run_statuses sha256 system uid s labels
  have huser : ((operations sha256 system).after s labels).shared.world.user uid = some user :=
    (guard_ok hread.guard).2
  have husers : s'.world.user uid = some user := by
    rw [World.user, hrebuilt.objects]
    exact huser
  rw [Stores.heldStatus, huser] at hheld
  obtain ⟨start, hstarted, hasked⟩ := Option.map_eq_some_iff.mp hheld.symm
  rw [hstart, hstarted, ← hrebuilt.status] at hstatus
  have hcurrent : statusCurrent sha256 system uid s labels = true ↔
      lastOf (writtenBy uid) ((operations sha256 system).history s labels) start =
        statusOf user.disabledAt.isSome := by
    have hlast : lastOf (askedBy uid) ((operations sha256 system).history s labels) start =
        statusOf user.disabledAt.isSome := hasked
    rw [statusCurrent, hstarted, ← hlast]
    exact beq_iff_eq
  rw [hcurrent]
  constructor
  · rintro ⟨user', row, huser', hrow, hagrees, -⟩
    cases husers.symm.trans huser'
    rw [Directory.status, hrow] at hstatus
    exact (Option.some.inj hstatus).symm.trans hagrees
  · intro hagrees
    obtain ⟨row, hrow, hrowstatus⟩ := Option.map_eq_some_iff.mp hstatus
    exact ⟨user, row, husers, hrow, hrowstatus.trans hagrees,
      mirrors_of_rebuilt hread hrebuilt hrow⟩

/-! ### A disabling whose write of the row fails -/

namespace Sample

def start : Stores := ⟨Account.Sample.users, .empty⟩

def finish (faults : List Fault) : List Step := (faults.map (.step 0)).reverse

/-- The user is disabled, and the write of the row throws. -/
def disabledHalf : List Step := finish [.none, .before] ++ [.spawn (.setDisabled "u1" true 5)]

/-- The profile changes, and the write of the row throws. -/
def patchedHalf : List Step :=
  finish [.none, .none, .before] ++
    [.spawn (.updateProfile "u1" ⟨none, none, some (some "Ada")⟩ 5)]

def afterSteps (labels : List Step) : Configuration :=
  (operations (fun _ => []) fun _ => false).after start labels

def repaired (labels : List Step) : Stores × ReindexResult :=
  reindexed (fun _ => []) (fun _ => false) (fun _ => .none) "u1" 6 (afterSteps labels).shared

theorem start_agrees : start.Agrees "u1" [] := by
  have hpasskeys : (start.world.objects "u1").tables.passkeys.rows = [] := rfl
  have hidentities : (start.world.objects "u1").tables.identities.rows = [] := rfl
  refine ⟨_, _, rfl, rfl, by decide, rfl, rfl, rfl, rfl, fun credentialId => ?_,
    fun issuer subject => ?_, fun groupId h => absurd h ?_, fun name h => absurd h ?_,
    fun name h => absurd h ?_⟩
  · have hnone : start.lookupCredential credentialId = none := rfl
    rw [hnone, hpasskeys]
    simp
  · have hnone : start.directory.identities.find (issuer, subject) = none := rfl
    rw [hnone, hidentities]
    simp
  · have hnone : start.directory.members.find (groupId, "u1") = none := rfl
    simp [hnone]
  · exact List.not_mem_nil
  · exact List.not_mem_nil

theorem repaired_ok (labels : List Step)
    (h : (repaired labels).2 = .ok ⟨0, 0, 0, []⟩) :
    repaired labels = ((repaired labels).1, .ok ⟨0, 0, 0, []⟩) := by
  rw [← h]

end Sample

theorem reindex_repairs_sample :
    (Sample.afterSteps Sample.patchedHalf).threads.map (·.prog.result.any (·.isPartialFailure)) =
        [true] ∧
      ((Sample.repaired Sample.patchedHalf).1.Agrees "u1" [] ↔
        statusCurrent (fun _ => []) (fun _ => false) "u1" Sample.start Sample.patchedHalf = true) :=
  ⟨by decide, reindex_repairs_iff (fun _ => []) (fun _ => false) "u1" Sample.start
    (by decide) Sample.patchedHalf (fun _ => .none) 6 _ ⟨0, 0, 0, []⟩
    (Sample.repaired_ok Sample.patchedHalf (by decide))⟩

/-- The reindex writes the mirror, and leaves the row `active`. -/
theorem reindex_leaves_status :
    ¬ ∀ (sha256 : String → Bytes) (system : String → Bool) (uid : String) (s : Stores)
      (labels : List Step) (faults : Op → Fault) (now : ℤ) (s' : Stores) (report : ReindexReport),
      s.Agrees uid [] →
      (∀ t ∈ ((operations sha256 system).after s labels).threads,
        ∃ answer, t.prog.result = some answer ∧ answer.isPartialFailure = true) →
      reindexed sha256 system faults uid now
        ((operations sha256 system).after s labels).shared = (s', .ok report) →
      s'.Agrees uid report.unknownGroups := by
  intro hall
  have hpartial : (Sample.afterSteps Sample.disabledHalf).threads.all
      (·.prog.result.any (·.isPartialFailure)) = true := by decide
  have hstatus : (Sample.repaired Sample.disabledHalf).1.directory.status "u1" = some .active := by
    decide
  have hheld : (Sample.repaired Sample.disabledHalf).1.heldStatus "u1" = some .disabled := by
    decide
  obtain ⟨user, row, huser, hrow, hsame, -⟩ := hall (fun _ => []) (fun _ => false) "u1"
    Sample.start Sample.disabledHalf (fun _ => .none) 6 _ ⟨0, 0, 0, []⟩ Sample.start_agrees
    (fun t ht => (Option.any_eq_true _ _).mp (List.all_eq_true.mp hpartial t ht))
    (Sample.repaired_ok Sample.disabledHalf (by decide))
  rw [Directory.status, hrow] at hstatus
  rw [Stores.heldStatus, huser] at hheld
  cases (Option.some.inj hheld).symm.trans (hsame.symm.trans (Option.some.inj hstatus))

end TinyOidc.Mirror

