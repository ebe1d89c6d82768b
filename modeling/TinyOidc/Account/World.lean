import TinyOidc.Account.Directory
import TinyOidc.Lib.Threads
import TinyOidc.User.Calls

/-! What the account operations call: the users' objects and the D1 directory. A call of an object
and a statement or batch are one step each, and each may throw, before or after it took effect, as
the schedule says. -/
namespace TinyOidc.Account
open TinyOidc.User
open TinyOidc.Interaction (UserStatus)
open Threads (Prog)

inductive Statement where
  | groupIdsByName
  | memberUserIds (groupId : String) (limit : ℕ)
  | insertMembership (groupId userId : String) (now : ℤ)
  | deleteMembership (groupId userId : String)
  | findVerifiedUser (emailNorm : String)
  | updateUserMirror (id : String) (mirror : Directory.UserMirror) (now : ℤ)
  | claimUsers (claims : List Directory.UserClaim)
  | activateUsers (rows : List (String × ℤ))
  | getUser (id : String)
  | listUsers (status : UserStatus) (createdBefore : Option ℤ) (limit : ℕ)
  | groupNamesOfUser (id : String)
  | identitiesOfUser (id : String)
  | setUserStatus (id : String) (status : UserStatus) (now : ℤ)
  | deleteUserRow (id : String)
  deriving DecidableEq

@[reducible] def Statement.Answer : Statement → Type
  | .groupIdsByName => List (String × String)
  | .memberUserIds _ _ => List String
  | .findVerifiedUser _ => Option RegistryUser
  | .getUser _ => Option RegistryUser
  | .listUsers _ _ _ => List RegistryUser
  | .groupNamesOfUser _ => List String
  | .identitiesOfUser _ => List (String × String)
  | .insertMembership _ _ _ | .deleteMembership _ _ | .updateUserMirror _ _ _ | .claimUsers _
  | .activateUsers _ | .setUserStatus _ _ _ | .deleteUserRow _ => Unit

def Directory.write (d : Directory) (written : Except D1Error Directory) :
    Directory × Except D1Error Unit :=
  match written with
  | .ok d' => (d', .ok ())
  | .error e => (d, .error e)

def Directory.run (d : Directory) : (s : Statement) → Directory × Except D1Error s.Answer
  | .groupIdsByName => (d, .ok d.groupIdsByName)
  | .memberUserIds groupId limit => (d, .ok (d.memberUserIds groupId limit))
  | .insertMembership groupId userId now => d.write (d.insertMembershipOrIgnore groupId userId now)
  | .deleteMembership groupId userId => (d.deleteMembership groupId userId, .ok ())
  | .findVerifiedUser emailNorm => (d, .ok (d.findVerifiedUser emailNorm))
  | .updateUserMirror id mirror now => d.write (d.updateUserMirror id mirror now)
  | .claimUsers claims => d.write (d.claimUsers claims)
  | .activateUsers rows => (d.activateUsers rows, .ok ())
  | .getUser id => (d, .ok (d.getUser id))
  | .listUsers status createdBefore limit => (d, .ok (d.listUsers status createdBefore limit))
  | .groupNamesOfUser id => (d, .ok (d.groupNamesOfUser id))
  | .identitiesOfUser id => (d, .ok (d.identitiesOfUser id))
  | .setUserStatus id status now => (d.setUserStatus id status now, .ok ())
  | .deleteUserRow id => (d.deleteUserRow id, .ok ())

inductive Op where
  | user (uid : String) (call : Call)
  | d1 (statement : Statement)
  deriving DecidableEq

/-- A call of an object gives no reply when it throws. -/
@[reducible] def Op.Answer : Op → Type
  | .user _ _ => Option Reply
  | .d1 statement => Except D1Error statement.Answer

/-- Whether a call throws, and whether it took effect then. -/
inductive Fault where
  | none | before | after
  deriving DecidableEq, Repr

structure World where
  directory : Directory
  objects : String → UserObject

def World.fresh : World := ⟨.empty, fun _ => .fresh⟩

def World.user (w : World) (uid : String) : Option UserRow := (w.objects uid).tables.user

def World.setObject (w : World) (uid : String) (o : UserObject) : World :=
  { w with objects := Function.update w.objects uid o }

def World.perform (sha256 : String → Bytes) (w : World) : (op : Op) → World × op.Answer
  | .user uid call =>
      let answered := (w.objects uid).call sha256 call
      (w.setObject uid answered.1, some answered.2)
  | .d1 statement =>
      let answered := w.directory.run statement
      ({ w with directory := answered.1 }, answered.2)

def thrown : (op : Op) → op.Answer
  | .user _ _ => none
  | .d1 _ => .error .failed

def World.exec (sha256 : String → Bytes) (w : World) (fault : Fault) (op : Op) :
    World × op.Answer :=
  match fault with
  | .none => w.perform sha256 op
  | .before => (w, thrown op)
  | .after => ((w.perform sha256 op).1, thrown op)

abbrev Program := Prog Op Op.Answer

def userCall (uid : String) (call : Call) : Program (Option Reply) := .perform (Op.user uid call)

def d1 (statement : Statement) : Program (Except D1Error statement.Answer) :=
  .perform (Op.d1 statement)

end TinyOidc.Account
