import TinyOidc.Interaction.World
import TinyOidc.Lib.Table
import TinyOidc.Util.Text

/-! The D1 directory (`src/db/users.ts`, `src/db/groups.ts`, `src/db/identities.ts`): the registry
of users, the groups with their members, and the index of upstream identities. A statement that
breaks a constraint throws and changes nothing; a batch is one transaction. -/
namespace TinyOidc.Account
open RowTable
open TinyOidc.Interaction (UserStatus IdentityHolder)

structure RegistryUser where
  id : String
  email : Option String
  emailNorm : Option String
  emailVerified : Bool
  displayName : Option String
  status : UserStatus
  createdAt : ℤ
  updatedAt : ℤ
  deriving DecidableEq, Repr

/-- What the partial unique index `users_verified_email` holds of a row. -/
def RegistryUser.verifiedEmail (u : RegistryUser) : Option String :=
  u.emailNorm.filter fun _ => u.emailVerified

def isNameStart (c : Char) : Bool := c.isLower || c.isDigit

/-- `/^[a-z0-9][a-z0-9._-]{0,63}$/`. -/
def isGroupName (text : String) : Bool :=
  match text.toList with
  | [] => false
  | c :: rest => isNameStart c && rest.length ≤ 63 &&
      rest.all fun c => isNameStart c || c == '.' || c == '_' || c == '-'

/-- The name of a group, as the Admin API admits it. -/
structure GroupName where
  text : String
  admitted : isGroupName text = true
  deriving DecidableEq

theorem GroupName.toList_ne_nil (name : GroupName) : name.text.toList ≠ [] := by
  intro hempty
  have hadmitted := name.admitted
  simp [isGroupName, hempty] at hadmitted

structure GroupRow where
  id : String
  name : GroupName
  deriving DecidableEq

structure MemberRow where
  groupId : String
  userId : String
  addedAt : ℤ
  deriving DecidableEq, Repr

def MemberRow.key (m : MemberRow) : String × String := (m.groupId, m.userId)

structure IdentityIndexRow where
  issuer : String
  subject : String
  userId : String
  createdAt : ℤ
  deriving DecidableEq, Repr

def IdentityIndexRow.pair (i : IdentityIndexRow) : String × String := (i.issuer, i.subject)

structure Directory where
  users : Table RegistryUser RegistryUser.id
  groups : Table GroupRow GroupRow.id
  members : Table MemberRow MemberRow.key
  identities : Table IdentityIndexRow IdentityIndexRow.pair
  verifiedEmails : (users.rows.filterMap RegistryUser.verifiedEmail).Nodup
  groupNames : (groups.rows.map GroupRow.name).Nodup

def Directory.empty : Directory where
  users := .empty
  groups := .empty
  members := .empty
  identities := .empty
  verifiedEmails := List.nodup_nil
  groupNames := List.nodup_nil

/-- The tables whose uniqueness violations the code tells apart. -/
inductive UniqueTable where
  | users | groupMembers | identityIndex
  deriving DecidableEq, Repr

/-- Why a statement threw: a uniqueness violation, or anything else. -/
inductive D1Error where
  | unique (table : UniqueTable)
  | failed
  deriving DecidableEq, Repr

namespace Directory

/-! ### Users -/

/-- The registry after a write, which the partial unique index may refuse. -/
def withUsers (d : Directory) (users : Table RegistryUser RegistryUser.id) :
    Except D1Error Directory :=
  if h : (users.rows.filterMap RegistryUser.verifiedEmail).Nodup then
    .ok { d with users := users, verifiedEmails := h }
  else .error (.unique .users)

def insertUser (d : Directory) (u : RegistryUser) : Except D1Error Directory :=
  match d.users.insert u with
  | none => .error (.unique .users)
  | some users => d.withUsers users

/-- The attributes of the row that mirror the object. -/
structure UserMirror where
  email : Option String
  emailNorm : Option String
  emailVerified : Bool
  displayName : Option String
  deriving DecidableEq, Repr

def mirrored (mirror : UserMirror) (now : ℤ) (u : RegistryUser) : RegistryUser :=
  { u with
    email := mirror.email
    emailNorm := mirror.emailNorm
    emailVerified := mirror.emailVerified
    displayName := mirror.displayName
    updatedAt := now }

def updateUserMirror (d : Directory) (id : String) (mirror : UserMirror) (now : ℤ) :
    Except D1Error Directory :=
  d.withUsers (d.users.updateWhere (·.id == id) (mirrored mirror now) fun _ => rfl)

theorem verifiedEmails_of_map {rows : List RegistryUser} {f : RegistryUser → RegistryUser}
    (h : (rows.filterMap RegistryUser.verifiedEmail).Nodup)
    (hf : ∀ u, (f u).verifiedEmail = u.verifiedEmail) :
    ((rows.map f).filterMap RegistryUser.verifiedEmail).Nodup := by
  have hcomp : RegistryUser.verifiedEmail ∘ f = RegistryUser.verifiedEmail := funext hf
  rw [List.filterMap_map, hcomp]
  exact h

def withStatus (status : UserStatus) (now : ℤ) (u : RegistryUser) : RegistryUser :=
  { u with status := status, updatedAt := now }

def setUserStatus (d : Directory) (id : String) (status : UserStatus) (now : ℤ) : Directory :=
  { d with
    users := d.users.updateWhere (·.id == id) (withStatus status now) fun _ => rfl
    verifiedEmails := verifiedEmails_of_map d.verifiedEmails fun u => by split <;> rfl }

def getUser (d : Directory) (id : String) : Option RegistryUser := d.users.find id

/-- The active or disabled user that holds this email as verified. -/
def findVerifiedUser (d : Directory) (emailNorm : String) : Option RegistryUser :=
  d.users.rows.find? fun u => u.emailNorm == some emailNorm && u.emailVerified &&
    (u.status == .active || u.status == .disabled)

/-- `ORDER BY created_at, id`. -/
def userLe (a b : RegistryUser) : Prop :=
  a.createdAt < b.createdAt ∨ a.createdAt = b.createdAt ∧ a.id ≤ b.id

instance : DecidableRel userLe := fun _ _ => inferInstanceAs (Decidable (_ ∨ _ ∧ _))

/-- The first page of the rows in a status, created at an instant or before. -/
def listUsers (d : Directory) (status : UserStatus) (createdBefore : Option ℤ) (limit : ℕ) :
    List RegistryUser :=
  ((d.users.rows.filter fun u => u.status == status &&
    createdBefore.all fun instant => u.createdAt ≤ instant).insertionSort userLe).take limit

/-- Removes the row; its memberships and identity index rows go with it. -/
def deleteUserRow (d : Directory) (id : String) : Directory :=
  { d with
    users := d.users.deleteWhere (·.id == id)
    members := d.members.deleteWhere (·.userId == id)
    identities := d.identities.deleteWhere (·.userId == id)
    verifiedEmails := d.verifiedEmails.sublist (List.filter_sublist.filterMap _) }

/-! ### Groups -/

def groupNamesOfUser (d : Directory) (id : String) : List String :=
  ((d.members.rows.filter (·.userId == id)).filterMap fun m =>
    (d.groups.find m.groupId).map (·.name.text)).insertionSort (· ≤ ·)

def groupIdsByName (d : Directory) : List (String × String) :=
  d.groups.rows.map fun g => (g.name.text, g.id)

/-- `ORDER BY added_at, user_id`. -/
def memberLe (a b : MemberRow) : Prop :=
  a.addedAt < b.addedAt ∨ a.addedAt = b.addedAt ∧ Util.textLe a.userId b.userId

instance : DecidableRel memberLe := fun _ _ => inferInstanceAs (Decidable (_ ∨ _ ∧ _))

def memberUserIds (d : Directory) (groupId : String) (limit : ℕ) : List String :=
  (((d.members.rows.filter (·.groupId == groupId)).insertionSort memberLe).take limit).map
    (·.userId)

def referenced (d : Directory) (groupId userId : String) : Bool :=
  (d.groups.find groupId).isSome && (d.users.find userId).isSome

def insertMembership (d : Directory) (groupId userId : String) (now : ℤ) :
    Except D1Error Directory :=
  match d.members.insert ⟨groupId, userId, now⟩ with
  | none => .error (.unique .groupMembers)
  | some members =>
      if d.referenced groupId userId then .ok { d with members := members } else .error .failed

/-- `INSERT OR IGNORE`, which a missing reference still makes throw. -/
def insertMembershipOrIgnore (d : Directory) (groupId userId : String) (now : ℤ) :
    Except D1Error Directory :=
  match d.insertMembership groupId userId now with
  | .error (.unique _) => .ok d
  | written => written

def deleteMembership (d : Directory) (groupId userId : String) : Directory :=
  { d with members := d.members.deleteWhere fun m => m.groupId == groupId && m.userId == userId }

/-! ### Identities -/

def insertIdentity (d : Directory) (issuer subject userId : String) (now : ℤ) :
    Except D1Error Directory :=
  match d.identities.insert ⟨issuer, subject, userId, now⟩ with
  | none => .error (.unique .identityIndex)
  | some identities =>
      if (d.users.find userId).isSome then .ok { d with identities := identities }
      else .error .failed

/-- The holder of the pair, with the status of its row in the registry. -/
def lookupIdentity (d : Directory) (issuer subject : String) : Option IdentityHolder :=
  (d.identities.find (issuer, subject)).map fun row =>
    ⟨row.userId, (d.users.find row.userId).map (·.status)⟩

/-- `ORDER BY created_at, issuer, subject`. -/
def identityLe (a b : IdentityIndexRow) : Prop :=
  a.createdAt < b.createdAt ∨ a.createdAt = b.createdAt ∧
    (a.issuer < b.issuer ∨ a.issuer = b.issuer ∧ a.subject ≤ b.subject)

instance : DecidableRel identityLe := fun _ _ =>
  inferInstanceAs (Decidable (_ ∨ _ ∧ (_ ∨ _ ∧ _)))

def identitiesOfUser (d : Directory) (id : String) : List (String × String) :=
  ((d.identities.rows.filter (·.userId == id)).insertionSort identityLe).map (·.pair)

def releaseIdentity (d : Directory) (issuer subject : String) : Directory :=
  { d with
    identities := d.identities.deleteWhere fun i => i.issuer == issuer && i.subject == subject }

/-! ### Claims of new users -/

structure UserClaim where
  id : String
  email : Option String
  emailNorm : Option String
  emailVerified : Bool
  displayName : Option String
  groupIds : List String
  identities : List (String × String)
  createdAt : ℤ
  deriving DecidableEq, Repr

def UserClaim.row (c : UserClaim) : RegistryUser where
  id := c.id
  email := c.email
  emailNorm := c.emailNorm
  emailVerified := c.emailVerified
  displayName := c.displayName
  status := .creating
  createdAt := c.createdAt
  updatedAt := c.createdAt

/-- The statements of one user: the row in status `creating`, the memberships, the pairs. -/
def claimUser (d : Directory) (c : UserClaim) : Except D1Error Directory := do
  let d ← d.insertUser c.row
  let d ← c.groupIds.foldlM (fun d groupId => d.insertMembership groupId c.id c.createdAt) d
  c.identities.foldlM (fun d pair => d.insertIdentity pair.1 pair.2 c.id c.createdAt) d

def claimUsers (d : Directory) (claims : List UserClaim) : Except D1Error Directory :=
  claims.foldlM claimUser d

def activateUsers (d : Directory) (rows : List (String × ℤ)) : Directory :=
  rows.foldl (fun d row => d.setUserStatus row.1 .active row.2) d

end Directory
end TinyOidc.Account
