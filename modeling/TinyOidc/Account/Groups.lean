import TinyOidc.Account.World

/-! Memberships (`src/users/groups.ts`): adding a user to a group, removing one, and carrying a
rename or a deletion to the objects of the members. -/
namespace TinyOidc.Account
open TinyOidc.User TinyOidc.Util
open Threads (Prog Entry)

inductive MembershipResult where
  | ok (profile : UserProfile) (changed : Bool)
  | userNotAvailable
  | partialFailure (profile : UserProfile)
  | thrown

/-- Reads the user's list and writes the next one, if a change is due; then the mirror row. -/
def changeMembership (uid : String) (next : List String → Option (List String))
    (mirror : Statement) (now : ℤ) : Program MembershipResult := do
  match ← userCall uid .getProfile with
  | none => return .thrown
  | some (.profile (.ok current)) =>
    match next current.groups with
    | none => mirrored current false
    | some groups =>
      match ← userCall uid (.setGroups groups now) with
      | none => return .thrown
      | some (.profile (.ok updated)) => mirrored updated true
      | some _ => return .userNotAvailable
  | some _ => return .userNotAvailable
where
  mirrored (profile : UserProfile) (changed : Bool) : Program MembershipResult := do
    match ← d1 mirror with
    | .error _ => return .partialFailure profile
    | .ok _ => return .ok profile changed

def adding (name : String) (groups : List String) : Option (List String) :=
  if groups.contains name then none else some (groups ++ [name])

def removing (name : String) (groups : List String) : Option (List String) :=
  if groups.contains name then some (groups.filter (· != name)) else none

/-- Adds the user to the group: the object's list first, then the mirror row. -/
def addMembership (uid : String) (group : GroupRow) (now : ℤ) : Program MembershipResult :=
  changeMembership uid (adding group.name.text) (.insertMembership group.id uid now) now

/-- Removes the user from the group: the object first, then the mirror row. -/
def removeMembership (uid : String) (group : GroupRow) (now : ℤ) : Program MembershipResult :=
  changeMembership uid (removing group.name.text) (.deleteMembership group.id uid) now

/-! ### Propagation to the members -/

def propagationLimit : ℕ := 1000

/-- `groups.join("\n")`. -/
def joinLines : List String → String
  | [] => ""
  | [line] => line
  | line :: rest => line ++ "\n" ++ joinLines rest

/-- The rewritten list, unless it joins to the same text. -/
def rewriting (rewrite : List String → List String) (groups : List String) :
    Option (List String) :=
  if joinLines (rewrite groups) = joinLines groups then none else some (rewrite groups)

/-- What the callers rewrite: a rename, or a deletion. -/
inductive Rewrite where
  | rename (old new : GroupName)
  | drop (name : GroupName)
  deriving DecidableEq

def Rewrite.apply : Rewrite → List String → List String
  | rename old new, groups => groups.map fun name => if name = old.text then new.text else name
  | drop name, groups => groups.filter (· != name.text)

/-- One member; whether it failed. -/
def propagateTo (uid : String) (rewrite : List String → List String) (now : ℤ) :
    Program Bool := do
  match ← userCall uid .getProfile with
  | none => return true
  | some (.profile (.ok current)) =>
    match rewriting rewrite current.groups with
    | none => return false
    | some next =>
      match ← userCall uid (.setGroups next now) with
      | some (.profile (.ok _)) => return false
      | _ => return true
  | some _ => return false

/-- The members in turn, and those that failed. The source runs up to twenty at once, each on an
object of its own. -/
def propagateEach (rewrite : List String → List String) (now : ℤ) :
    List String → Program (List String)
  | [] => return []
  | uid :: rest => do
    let failed ← propagateTo uid rewrite now
    let others ← propagateEach rewrite now rest
    return if failed then uid :: others else others

inductive PropagationResult where
  | ok (members : ℕ) (failed : List String)
  | groupTooLarge
  | thrown

/-- Applies `rewrite` to the list of every member's object; the mirror is the caller's. -/
def propagateToMembers (groupId : String) (rewrite : List String → List String) (now : ℤ) :
    Program PropagationResult := do
  match ← d1 (.memberUserIds groupId (propagationLimit + 1)) with
  | .error _ => return .thrown
  | .ok members =>
    if propagationLimit < members.length then return .groupTooLarge
    let failed ← propagateEach rewrite now members
    return .ok members.length (sortTexts failed)

end TinyOidc.Account
