import TinyOidc.Identity.Deployment

/-! The registration of a passkey (`src/users/passkeys.ts`, `src/interaction/register.ts`) on the
stores it writes: the users' objects, the D1 directory with the index of credentials
(`src/db/users.ts`), and the invitations (`src/db/invitations.ts`). -/
namespace TinyOidc.Registration
open RowTable TinyOidc.Interaction TinyOidc.User
open TinyOidc.Account (Directory)
open Threads (Delivery)

/-- A row of the D1 `passkey_index` table. -/
structure CredentialRow where
  credentialId : String
  userId : String
  createdAt : ℤ
  deriving DecidableEq

structure Deployment where
  objects : World
  directory : Directory
  credentials : Table CredentialRow CredentialRow.credentialId
  invitations : Table InvitationRow InvitationRow.id

/-- Unused and unexpired. -/
def isOpen (now : ℤ) (row : InvitationRow) : Bool :=
  row.usedAt.isNone && decide (now < row.expiresAt)

namespace Deployment

def user (s : Deployment) (uid : String) : UserObject := s.objects.users uid

def setUser (s : Deployment) (uid : String) (o : UserObject) : Deployment :=
  { s with objects := { s.objects with users := Function.update s.objects.users uid o } }

@[simp] theorem user_setUser (s : Deployment) (uid : String) (o : UserObject) :
    (s.setUser uid o).user uid = o := by
  simp [user, setUser]

@[simp] theorem setUser_user (s : Deployment) (uid : String) : s.setUser uid (s.user uid) = s := by
  simp [user, setUser]

@[simp] theorem setUser_credentials (s : Deployment) (uid : String) (o : UserObject) :
    (s.setUser uid o).credentials = s.credentials := rfl

@[simp] theorem setUser_directory (s : Deployment) (uid : String) (o : UserObject) :
    (s.setUser uid o).directory = s.directory := rfl

@[simp] theorem setUser_invitations (s : Deployment) (uid : String) (o : UserObject) :
    (s.setUser uid o).invitations = s.invitations := rfl

/-- `INSERT OR IGNORE`, which a user without a row makes throw. -/
def claimCredential (s : Deployment) (credentialId uid : String) (now : ℤ) :
    Deployment × CredentialClaim :=
  match s.credentials.insert ⟨credentialId, uid, now⟩ with
  | none => (s, .taken)
  | some credentials =>
    if (s.directory.getUser uid).isSome then ({ s with credentials := credentials }, .claimed)
    else (s, .failed)

/-- The update succeeds only while the invitation is open. -/
def consumeInvitation (s : Deployment) (id : String) (now : ℤ) : Deployment × Bool :=
  ({ s with
      invitations := s.invitations.updateWhere (fun row => row.id == id && isOpen now row)
        (fun row => { row with usedAt := some now }) fun _ => rfl },
    (s.invitations.find id).any (isOpen now))

/-- The stores answer for what they hold, the oracle for the rest. -/
def respond (s : Deployment) (oracle : Oracle) :
    (question : Question) → Deployment × question.Answer
  | .lookupCredential credentialId => (s, (s.credentials.find credentialId).map (·.userId))
  | .claimCredential credentialId uid now => s.claimCredential credentialId uid now
  | .releaseCredential credentialId =>
      ({ s with credentials := s.credentials.deleteWhere (·.credentialId == credentialId) }, ())
  | .getInvitation id => (s, s.invitations.find id)
  | .consumeInvitation id _ now => s.consumeInvitation id now
  | question =>
      let answered := Identity.respond s.directory oracle question
      ({ s with directory := answered.1 }, answered.2)

def exec (sha256 : String → Bytes) (oracle : Oracle) (s : Deployment) :
    (op : Op) → Deployment × op.Answer
  | .ask question => s.respond oracle question
  | .interaction id call =>
      let answered := s.objects.exec sha256 oracle (.interaction id call)
      ({ s with objects := answered.1 }, answered.2)
  | .user uid call =>
      let answered := (s.user uid).call sha256 call
      (s.setUser uid answered.1, answered.2)

end Deployment

/-- The deployment with the ends of the credential claims to come, which answer after these. -/
abbrev Faulty := Deployment × List Delivery

/-- Storage on which only claims of credentials may throw. -/
def Faulty.exec (sha256 : String → Bytes) (oracle : Oracle) (s : Faulty) :
    (op : Op) → Faulty × op.Answer
  | .ask (.claimCredential credentialId uid now) =>
      let ended := (s.2.headD .answers).deliver s.1 (s.1.claimCredential credentialId uid now)
      ((ended.1, s.2.tail), ended.2.getD .failed)
  | op =>
      let answered := s.1.exec sha256 oracle op
      ((answered.1, s.2), answered.2)

end TinyOidc.Registration
