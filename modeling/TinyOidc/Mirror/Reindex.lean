import TinyOidc.Mirror.Stores

/-! The admin operations on users that write the object first and D1 after it (`src/users/admin.ts`,
`src/users/groups.ts`, `src/users/passkeys.ts`, `src/admin/users.ts`, `src/admin/groups.ts`), behind
the lookups of their handlers, and the reindex that rebuilds a user's rows from the object. -/
namespace TinyOidc.Mirror
open RowTable TinyOidc.User TinyOidc.Account TinyOidc.Util
open Threads (Prog)

/-! ### Statements -/

def updateUserMirrorStatement (userId : String) (profile : UserProfile) (now : ℤ) : Write :=
  .updateUserMirror userId
    { email := profile.email
      emailNorm := profile.emailNorm
      emailVerified := profile.emailVerified
      displayName := profile.displayName } now

def replacePasskeyIndexStatements (userId : String) (credentialIds : List String) (now : ℤ) :
    List Write :=
  .deletePasskeyIndex userId :: credentialIds.map (.replacePasskeyIndex · userId now)

def replaceIdentityIndexStatements (userId : String) (identities : List (String × String))
    (now : ℤ) : List Write :=
  .deleteIdentityIndex userId ::
    identities.map fun pair => .replaceIdentityIndex pair.1 pair.2 userId now

def replaceMembershipStatements (userId : String) (groupIds : List String) (now : ℤ) :
    List Write :=
  .deleteMemberships userId :: groupIds.map (.insertMembership · userId now)

/-! ### Reindex -/

structure ReindexReport where
  passkeys : ℕ
  identities : ℕ
  groups : ℕ
  /-- Group names held by the object that no longer exist in D1. -/
  unknownGroups : List String
  deriving DecidableEq, Repr

inductive ReindexResult where
  | ok (report : ReindexReport)
  | userNotAvailable
  | thrown
  deriving DecidableEq, Repr

structure Held where
  profile : UserProfile
  passkeys : List PasskeyRow
  identities : List IdentityRow

def profileOf : Reply → Option UserProfile
  | .profile (.ok profile) => some profile
  | _ => none

def passkeysOf : Reply → Option (List PasskeyRow)
  | .passkeys (.ok passkeys) => some passkeys
  | _ => none

def identitiesOf : Reply → Option (List IdentityRow)
  | .identities (.ok identities) => some identities
  | _ => none

namespace Held
variable (held : Held) (groupIds : List (String × String))

def known : List String := held.profile.groups.filterMap (groupIds.lookup ·)

def unknown : List String := held.profile.groups.filter fun name => (groupIds.lookup name).isNone

def report : ReindexReport where
  passkeys := held.passkeys.length
  identities := held.identities.length
  groups := (held.known groupIds).length
  unknownGroups := held.unknown groupIds

def statements (userId : String) (now : ℤ) : List Write :=
  updateUserMirrorStatement userId held.profile now ::
    (replacePasskeyIndexStatements userId (held.passkeys.map (·.credentialId)) now ++
      (replaceIdentityIndexStatements userId
          (held.identities.map fun i => (i.issuer, i.subject)) now ++
        replaceMembershipStatements userId (held.known groupIds) now))

end Held

/-- The reads, which the source makes at once: `none` when one throws, and `some none` when the
object refuses one. -/
def readObject (uid : String) : Program (Option (Option Held)) := do
  let profile ← userCall uid .getProfile
  let passkeys ← userCall uid .listPasskeys
  let identities ← userCall uid .listIdentities
  match profile, passkeys, identities with
  | some profile, some passkeys, some identities =>
    return some do
      return ⟨← profileOf profile, ← passkeysOf passkeys, ← identitiesOf identities⟩
  | _, _, _ => return none

/-- Rebuilds the user's mirror row and index rows from the object. -/
def reindexUser (uid : String) (now : ℤ) : Program ReindexResult := do
  match ← readObject uid with
  | none => return .thrown
  | some none => return .userNotAvailable
  | some (some held) =>
    match ← d1 .groupIdsByName with
    | .error _ => return .thrown
    | .ok groupIds =>
      match ← batch (held.statements groupIds uid now) with
      | .error _ => return .thrown
      | .ok _ => return .ok (held.report groupIds)

/-! ### The operations that it repairs -/

inductive SetGroupsResult where
  | ok (profile : UserProfile)
  | groupUnknown
  | userNotAvailable
  | partialFailure (profile : UserProfile)
  | thrown

/-- Replaces a user's groups: the object first, then the D1 mirror. -/
def setUserGroups (uid : String) (groups : List String) (now : ℤ) : Program SetGroupsResult := do
  match ← d1 .groupIdsByName with
  | .error _ => return .thrown
  | .ok ids =>
    match (uniqueTexts groups).mapM (ids.lookup ·) with
    | none => return .groupUnknown
    | some groupIds =>
      match ← userCall uid (.setGroups groups now) with
      | none => return .thrown
      | some reply =>
        match profileOf reply with
        | none => return .userNotAvailable
        | some updated =>
          match ← batch (replaceMembershipStatements uid groupIds now) with
          | .error _ => return .partialFailure updated
          | .ok _ => return .ok updated

/-- How a removal of a credential answers. -/
inductive RemovalResult where
  | revoked (removed : Bool)
  | notFound
  | unavailable
  deriving DecidableEq, Repr

/-- Removes a passkey from the object, then its index row; `none` when a call throws. -/
def unregisterPasskey (uid : String) (passkey : PasskeyRow) : Program (Option Bool) := do
  match ← userCall uid (.removePasskey passkey.id .admin) with
  | none => return none
  | some (.flag (.ok true)) =>
    match ← Prog.perform (Op.releaseCredential passkey.credentialId) with
    | .error _ => return none
    | .ok _ => return some true
  | some _ => return some false

def deletePasskeyHandler (uid pid : String) : Program RemovalResult := do
  match ← userCall uid .listPasskeys with
  | none => return .unavailable
  | some reply =>
    match passkeysOf reply with
    | none => return .notFound
    | some listed =>
      match listed.find? (·.id == pid) with
      | none => return .revoked false
      | some passkey =>
        match ← unregisterPasskey uid passkey with
        | none => return .unavailable
        | some removed => return .revoked removed

/-- The index row goes whether or not the object still had the record. -/
def deleteIdentityHandler (uid iid : String) : Program RemovalResult := do
  match ← userCall uid .listIdentities with
  | none => return .unavailable
  | some reply =>
    match identitiesOf reply with
    | none => return .notFound
    | some listed =>
      match listed.find? (·.id == iid) with
      | none => return .revoked false
      | some identity =>
        match ← userCall uid (.removeIdentity iid .admin) with
        | none => return .unavailable
        | some (.flag (.ok _)) =>
          match ← Prog.perform (Op.releaseIdentity identity.issuer identity.subject) with
          | .error _ => return .unavailable
          | .ok _ => return .revoked true
        | some _ => return .notFound

inductive GroupResult where
  | changed (failed : List String)
  | taken
  | tooLarge
  | unavailable
  deriving DecidableEq, Repr

/-- A rename reaches every member's object before the directory changes. -/
def renameGroup (group : GroupRow) (patch : GroupPatch) (name : GroupName) (now : ℤ) :
    Program GroupResult := do
  match ← Prog.perform (Op.getGroupByName name) with
  | .error _ => return .unavailable
  | .ok (some _) => return .taken
  | .ok none =>
    match ← onStores (propagateToMembers group.id (Rewrite.rename group.name name).apply now) with
    | .thrown => return .unavailable
    | .groupTooLarge => return .tooLarge
    | .ok _ failed =>
      match ← Prog.perform (Op.updateGroup group.id patch) with
      | .error _ => return .unavailable
      | .ok .groupExists =>
        let _ ← onStores (propagateToMembers group.id (Rewrite.rename name group.name).apply now)
        return .taken
      | .ok _ => return .changed failed

def deleteGroup (group : GroupRow) (now : ℤ) : Program GroupResult := do
  match ← onStores (propagateToMembers group.id (Rewrite.drop group.name).apply now) with
  | .thrown => return .unavailable
  | .groupTooLarge => return .tooLarge
  | .ok _ failed =>
    match ← Prog.perform (Op.deleteGroup group.id) with
    | .error _ => return .unavailable
    | .ok _ => return .changed failed

end TinyOidc.Mirror
