import TinyOidc.Account.Administration
import TinyOidc.Account.GroupAdmin
import TinyOidc.Lib.Rewrites
import TinyOidc.Registration.Deployment

/-! The stores that the admin operations on users write (`src/db/users.ts`, `src/db/groups.ts`,
`src/db/identities.ts`): the objects of the users, the D1 directory, and the index of credentials.
A batch is one transaction. -/
namespace TinyOidc.Mirror
open RowTable TinyOidc.User TinyOidc.Account
open TinyOidc.Interaction (UserStatus)
open TinyOidc.Registration (CredentialRow)
open Threads (Prog)

structure Stores where
  world : World
  credentials : Table CredentialRow CredentialRow.credentialId

/-- A statement of a batch. -/
inductive Write where
  | updateUserMirror (id : String) (mirror : Directory.UserMirror) (now : ℤ)
  | deletePasskeyIndex (userId : String)
  | replacePasskeyIndex (credentialId userId : String) (now : ℤ)
  | deleteIdentityIndex (userId : String)
  | replaceIdentityIndex (issuer subject userId : String) (now : ℤ)
  | deleteMemberships (userId : String)
  | insertMembership (groupId userId : String) (now : ℤ)
  deriving DecidableEq

/-- How an update of a group ends, as `updateGroup` says it. -/
inductive GroupUpdate where
  | changed | notFound | systemGroup | groupExists
  deriving DecidableEq

/-- A call of an object or statement of the directory, and what else the operations call. -/
inductive Op where
  | account (op : Account.Op)
  | batch (writes : List Write)
  | releaseCredential (credentialId : String)
  | releaseIdentity (issuer subject : String)
  | getGroupByName (name : GroupName)
  | updateGroup (id : String) (patch : GroupPatch)
  | deleteGroup (id : String)
  deriving DecidableEq

@[reducible] def Op.Answer : Op → Type
  | .account op => op.Answer
  | .batch _ | .releaseCredential _ | .releaseIdentity _ _ | .deleteGroup _ => Except D1Error Unit
  | .getGroupByName _ => Except D1Error (Option GroupRow)
  | .updateGroup _ _ => Except D1Error GroupUpdate

namespace Stores

def directory (s : Stores) : Directory := s.world.directory

def withDirectory (s : Stores) (d : Directory) : Stores :=
  { s with world := { s.world with directory := d } }

def lookupCredential (s : Stores) (credentialId : String) : Option String :=
  (s.credentials.find credentialId).map (·.userId)

/-! ### Batches -/

/-- `INSERT OR REPLACE`, which a user without a row makes throw. -/
def replacePasskeyIndex (s : Stores) (row : CredentialRow) : Except D1Error Stores :=
  if (s.directory.getUser row.userId).isSome then
    .ok { s with credentials := s.credentials.upsert row }
  else .error .failed

/-- As `replacePasskeyIndex`, for a pair. -/
def replaceIdentityIndex (s : Stores) (row : IdentityIndexRow) : Except D1Error Stores :=
  if (s.directory.getUser row.userId).isSome then
    .ok (s.withDirectory { s.directory with identities := s.directory.identities.upsert row })
  else .error .failed

def write (s : Stores) : Write → Except D1Error Stores
  | .updateUserMirror id mirror now => do
      return s.withDirectory (← s.directory.updateUserMirror id mirror now)
  | .deletePasskeyIndex userId =>
      .ok { s with credentials := s.credentials.deleteWhere (·.userId == userId) }
  | .replacePasskeyIndex credentialId userId now =>
      s.replacePasskeyIndex ⟨credentialId, userId, now⟩
  | .deleteIdentityIndex userId =>
      .ok (s.withDirectory
        { s.directory with identities := s.directory.identities.deleteWhere (·.userId == userId) })
  | .replaceIdentityIndex issuer subject userId now =>
      s.replaceIdentityIndex ⟨issuer, subject, userId, now⟩
  | .deleteMemberships userId =>
      .ok (s.withDirectory
        { s.directory with members := s.directory.members.deleteWhere (·.userId == userId) })
  | .insertMembership groupId userId now => do
      return s.withDirectory (← s.directory.insertMembership groupId userId now)

def batch (s : Stores) (writes : List Write) : Except D1Error Stores := writes.foldlM write s

/-! ### Calls -/

/-- The index rows that a statement of the directory takes with it. -/
def cascade (s : Stores) : Account.Op → Table CredentialRow CredentialRow.credentialId
  | .d1 (.deleteUserRow id) => s.credentials.deleteWhere (·.userId == id)
  | _ => s.credentials

def updateGroup (s : Stores) (system : String → Bool) (id : String) (patch : GroupPatch) :
    Stores × GroupUpdate :=
  match s.directory.updateGroup system id patch with
  | .changed d => (s.withDirectory d, .changed)
  | .notFound => (s, .notFound)
  | .systemGroup => (s, .systemGroup)
  | .groupExists => (s, .groupExists)

/-- A batch that throws changes nothing. -/
def ended (s : Stores) : Except D1Error Stores → Stores × Except D1Error Unit
  | .ok s' => (s', .ok ())
  | .error e => (s, .error e)

def perform (sha256 : String → Bytes) (system : String → Bool) (s : Stores) :
    (op : Op) → Stores × op.Answer
  | .account op =>
      let answered := s.world.perform sha256 op
      (⟨answered.1, s.cascade op⟩, answered.2)
  | .batch writes => s.ended (s.batch writes)
  | .releaseCredential credentialId =>
      ({ s with credentials := s.credentials.deleteWhere (·.credentialId == credentialId) }, .ok ())
  | .releaseIdentity issuer subject =>
      (s.withDirectory (s.directory.releaseIdentity issuer subject), .ok ())
  | .getGroupByName name => (s, .ok (s.directory.getGroupByName name))
  | .updateGroup id patch =>
      let updated := s.updateGroup system id patch
      (updated.1, .ok updated.2)
  | .deleteGroup id => (s.withDirectory (s.directory.deleteGroup system id), .ok ())

end Stores

def thrown : (op : Op) → op.Answer
  | .account op => Account.thrown op
  | .batch _ | .releaseCredential _ | .releaseIdentity _ _ | .deleteGroup _ => .error .failed
  | .getGroupByName _ => .error .failed
  | .updateGroup _ _ => .error .failed

def Stores.exec (sha256 : String → Bytes) (system : String → Bool) (s : Stores) (fault : Fault)
    (op : Op) : Stores × op.Answer :=
  match fault with
  | .none => s.perform sha256 system op
  | .before => (s, thrown op)
  | .after => ((s.perform sha256 system op).1, thrown op)

abbrev Program := Prog Op Op.Answer

def onStores {α : Type} : Account.Program α → Program α
  | .done a => .done a
  | .call op next => .call (.account op) fun r => onStores (next r)

def userCall (uid : String) (call : Call) : Program (Option Reply) :=
  .perform (Op.account (.user uid call))

def d1 (statement : Statement) : Program (Except D1Error statement.Answer) :=
  .perform (Op.account (.d1 statement))

def batch (writes : List Write) : Program (Except D1Error Unit) := .perform (Op.batch writes)

end TinyOidc.Mirror
