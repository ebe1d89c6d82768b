import TinyOidc.Account.GroupChanges

/-! Groups in the Admin API (`src/admin/groups.ts`, `src/db/groups.ts`): creation, rename and
deletion, one request after the other. D1 answers; the calls of a member's object may throw. The
column `system` is a parameter, and `description` is not kept. -/
namespace TinyOidc.Account
open RowTable TinyOidc.User TinyOidc.Util
open Threads (Prog)

structure GroupPatch where
  name : Option GroupName
  description : Option (Option String)
  deriving DecidableEq

/-! ### Statements -/

namespace Directory

inductive UpdateGroupResult where
  | changed (d : Directory)
  | notFound | systemGroup | groupExists

variable (d : Directory) (system : String → Bool)

def getGroupById (id : String) : Option GroupRow := d.groups.find id

def getGroupByName (name : GroupName) : Option GroupRow := d.groups.rows.find? (·.name == name)

def countMembers (groupId : String) : ℕ := (d.members.rows.filter (·.groupId == groupId)).length

/-- The groups after a write, which the unique index on the name may refuse. -/
def withGroups (groups : Table GroupRow GroupRow.id) : Option Directory :=
  if h : (groups.rows.map GroupRow.name).Nodup then
    some { d with groups := groups, groupNames := h }
  else none

/-- `INSERT OR IGNORE`; `none` is `group_exists`. -/
def insertGroup (group : GroupRow) : Option Directory := (d.groups.insert group).bind d.withGroups

def updateGroup (id : String) (patch : GroupPatch) : UpdateGroupResult :=
  match d.getGroupById id with
  | none => .notFound
  | some current =>
    if patch.name.any (· != current.name) && system id then .systemGroup
    else
      match d.withGroups (d.groups.updateWhere (·.id == id)
          ({ · with name := patch.name.getD current.name }) fun _ => rfl) with
      | none => .groupExists
      | some d' => .changed d'

/-- Deletes a group with its memberships; system groups stay. -/
def deleteGroup (id : String) : Directory :=
  if system id then d
  else
    { d with
      groups := d.groups.deleteWhere (·.id == id)
      members := d.members.deleteWhere (·.groupId == id)
      groupNames := d.groupNames.sublist (List.filter_sublist.map _) }

end Directory

/-! ### Handlers -/

/-- Which calls of the members' objects throw in one propagation: each reads and writes a member at
most once. -/
structure MemberFaults where
  read : String → Fault
  write : String → Fault

def MemberFaults.of (f : MemberFaults) : Op → Fault
  | .user uid .getProfile => f.read uid
  | .user uid _ => f.write uid
  | .d1 _ => .none

structure GroupFaults where
  walk : MemberFaults
  undo : MemberFaults

def propagated (sha256 : String → Bytes) (f : MemberFaults) (w : World) (groupId : String)
    (r : Rewrite) (now : ℤ) : World × PropagationResult :=
  (propagateToMembers groupId r.apply now).run (fun w op => w.exec sha256 (f.of op) op) w

inductive GroupResponse where
  | error (status : ℕ) (error description : String)
  | group (row : GroupRow) (members : ℕ) (propagation : Option (ℕ × List String))
  | propagation (members : ℕ) (failed : List String)
  deriving DecidableEq

def groupNotFound : GroupResponse := .error 404 "group_not_found" "group not found"

def groupsUnavailable : GroupResponse :=
  .error 503 "temporarily_unavailable" "group directory unavailable"

def groupTaken : GroupResponse := .error 409 "group_exists" "a group with this name exists"

/-- `POST /admin/groups` for a new row; `none` when it is refused. -/
def createGroup (w : World) (group : GroupRow) : Option World :=
  (w.directory.insertGroup group).map fun d => { w with directory := d }

section Handlers
variable (sha256 : String → Bytes) (system : String → Bool) (f : GroupFaults) (w : World)

def groupUpdated (w : World) (id : String) (propagation : Option (ℕ × List String)) :
    World × GroupResponse :=
  match w.directory.getGroupById id with
  | none => (w, groupsUnavailable)
  | some after => (w, .group after (w.directory.countMembers id) propagation)

def groupChanged (w : World) (id : String) (patch : GroupPatch) : World :=
  match w.directory.updateGroup system id patch with
  | .changed d => { w with directory := d }
  | _ => w

/-- A rename reaches every member's object before the directory changes. -/
def renameHandler (group : GroupRow) (patch : GroupPatch) (name : GroupName) (now : ℤ) :
    World × GroupResponse :=
  if (w.directory.getGroupByName name).isSome then (w, groupTaken)
  else
    match propagated sha256 f.walk w group.id (.rename group.name name) now with
    | (w', .thrown) => (w', groupsUnavailable)
    | (w', .groupTooLarge) =>
      (w', .error 409 "group_too_large" "rename groups of at most 1,000 members")
    | (w', .ok members failed) =>
      match w'.directory.updateGroup system group.id patch with
      | .groupExists =>
        -- Taken between the check and the write: the members get the old name back.
        ((propagated sha256 f.undo w' group.id (.rename name group.name) now).1, groupTaken)
      | _ => groupUpdated (groupChanged system w' group.id patch) group.id (some (members, failed))

/-- `PATCH /admin/groups/{id}`; the body is none when the schema refuses it. -/
def patchGroupHandler (id : String) (body : Option GroupPatch) (now : ℤ) : World × GroupResponse :=
  match w.directory.getGroupById id with
  | none => (w, groupNotFound)
  | some group =>
    match body with
    | none => (w, .error 400 "invalid_request" "invalid body")
    | some patch =>
      if patch.name.isNone && patch.description.isNone then
        (w, .error 400 "invalid_request" "nothing to update")
      else
        match patch.name.filter (· != group.name) with
        | none => groupUpdated (groupChanged system w id patch) id none
        | some name =>
          if system id then (w, .error 409 "system_group" "a system group keeps its name")
          else renameHandler sha256 system f w group patch name now

/-- `DELETE /admin/groups/{id}`. -/
def deleteGroupHandler (id : String) (now : ℤ) : World × GroupResponse :=
  match w.directory.getGroupById id with
  | none => (w, groupNotFound)
  | some group =>
    if system id then (w, .error 409 "system_group" "a system group cannot be deleted")
    else
      match propagated sha256 f.walk w group.id (.drop group.name) now with
      | (w', .thrown) => (w', groupsUnavailable)
      | (w', .groupTooLarge) =>
        (w', .error 409 "group_too_large" "delete groups of at most 1,000 members")
      | (w', .ok members failed) =>
        ({ w' with directory := w'.directory.deleteGroup system group.id },
          .propagation members failed)

end Handlers

inductive GroupRequest where
  | patch (id : String) (body : Option GroupPatch) (now : ℤ)
  | delete (id : String) (now : ℤ)
  deriving DecidableEq

namespace GroupRequest

def id : GroupRequest → String
  | patch id _ _ | delete id _ => id

def now : GroupRequest → ℤ
  | patch _ _ now | delete _ now => now

def handle (sha256 : String → Bytes) (system : String → Bool) (f : GroupFaults) (w : World) :
    GroupRequest → World × GroupResponse
  | patch id body now => patchGroupHandler sha256 system f w id body now
  | delete id now => deleteGroupHandler sha256 system f w id now

/-- The world after the request was sent as often as the list is long. -/
def sent (sha256 : String → Bytes) (system : String → Bool) (q : GroupRequest)
    (faults : List GroupFaults) (w : World) : World :=
  faults.foldl (fun w f => (q.handle sha256 system f w).1) w

end GroupRequest

end TinyOidc.Account
