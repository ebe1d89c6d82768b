import TinyOidc.Account.Profiles
import TinyOidc.Interaction.Login

/-! The handlers that link and unlink upstream identities, on one D1 directory: the federation
callback and the passkey verification of the Interaction API, and the unlinks of the account page
(`src/me/handlers.ts`) and the Admin API (`src/admin/users.ts`). -/
namespace TinyOidc.Identity
open TinyOidc.Interaction TinyOidc.User
open TinyOidc.Account (Directory RegistryUser)
open Threads (System Thread Config Label Effect Entry)

/-! ### The index behind the handlers -/

/-- The objects and the D1 directory. -/
structure Deployment where
  objects : World
  directory : Directory

def directoryUser (u : RegistryUser) : DirectoryUser where
  id := u.id
  email := u.email
  emailVerified := u.emailVerified
  displayName := u.displayName
  status := u.status

/-- A creation of one user, as the directory takes it. -/
def newUserInput (user : NewUser) : Account.NewUser where
  id := user.id
  email := user.email
  emailVerified := user.emailVerified
  displayName := user.displayName
  groups := user.groups
  identities := user.identities
  createdAt := none

/-- Step 1 of a creation: the checks, then the claim batch. -/
def claimUser (d : Directory) (user : NewUser) (now : ℤ) : Except CreateUserError Directory :=
  match Account.prepare d.groupIdsByName now (newUserInput user) with
  | .error e => .error e
  | .ok p =>
    match d.claimUsers [p.claim] with
    | .ok d' => .ok d'
    | .error e => .error ((Account.uniquenessFailure e).getD .temporarilyUnavailable)

/-- Step 3 of a creation, at the instant of the row. -/
def activateUser (d : Directory) (uid : String) : Directory :=
  match d.getUser uid with
  | none => d
  | some row => d.setUserStatus uid .active row.createdAt

/-- The directory answers for the registry and the index, the oracle for the rest. An insertion
for a user without a row throws; like a refused one it changes nothing. -/
def respond (d : Directory) (oracle : Oracle) : (question : Question) → Directory × question.Answer
  | .getUser uid => (d, (d.getUser uid).map directoryUser)
  | .claimUser user now =>
      match claimUser d user now with
      | .ok d' => (d', .ok ())
      | .error e => (d, .error e)
  | .activateUser uid => (activateUser d uid, ())
  | .lookupIdentity issuer subject => (d, d.lookupIdentity issuer subject)
  | .insertIdentity issuer subject uid now =>
      match d.insertIdentity issuer subject uid now with
      | .ok d' => (d', true)
      | .error _ => (d, false)
  | .releaseIdentity issuer subject => (d.releaseIdentity issuer subject, ())
  | question => (d, directoryAnswer question (oracle question))

def Deployment.exec (sha256 : String → Bytes) (s : Deployment) (oracle : Oracle) :
    (op : Op) → Deployment × op.Answer
  | .ask question =>
      let answered := respond s.directory oracle question
      ({ s with directory := answered.1 }, answered.2)
  | .interaction id call =>
      let answered := s.objects.exec sha256 oracle (.interaction id call)
      ({ s with objects := answered.1 }, answered.2)
  | .user uid call =>
      let answered := s.objects.exec sha256 oracle (.user uid call)
      ({ s with objects := answered.1 }, answered.2)

/-! ### Unlinking -/

inductive UnlinkResponse where
  | noContent
  | revoked (removed : Bool)
  | notFound
  | lastLoginMethod
  | unavailable
  deriving DecidableEq

/-- `DELETE /me/identities/{id}`. -/
def Me.deleteIdentityHandler (uid id : String) : Handler UnlinkResponse := do
  match ← userCall uid .listIdentities with
  | .identities (.ok identities) =>
    match identities.find? (·.id == id) with
    | none => return .notFound
    | some identity =>
      match ← userCall uid (.removeIdentity id .self) with
      | .flag (.ok true) =>
        let _ ← ask (.releaseIdentity identity.issuer identity.subject)
        return .noContent
      | .flag (.ok false) => return .notFound
      | .flag (.fail .lastLoginMethod) => return .lastLoginMethod
      | _ => return .unavailable
  | _ => return .unavailable

/-- `DELETE /users/{id}/identities/{iid}`: the index row goes whether or not the object still had
the record. -/
def Admin.deleteIdentityHandler (uid id : String) : Handler UnlinkResponse := do
  let row ← ask (.getUser uid)
  if row.all (·.status == .creating) then return .notFound
  match ← userCall uid .listIdentities with
  | .identities (.ok identities) =>
    match identities.find? (·.id == id) with
    | none => return .revoked false
    | some identity =>
      match ← userCall uid (.removeIdentity id .admin) with
      | .flag (.ok _) =>
        let _ ← ask (.releaseIdentity identity.issuer identity.subject)
        return .revoked true
      | .flag (.fail _) => return .notFound
      | _ => return .unavailable
  | .identities (.fail _) => return .notFound
  | _ => return .unavailable

/-! ### Requests -/

inductive LinkRequest where
  | callback (malformed : Bool) (state : Option FederationRef) (binding : Option BindingRef)
      (error code : Option String)
  | passkeyVerify (request : ApiRequest) (malformed : Bool) (assertion : Option Assertion)
  | unlink (uid id : String)
  | adminUnlink (uid id : String)
  deriving DecidableEq

inductive LinkResponse where
  | page (response : Response)
  | unlinked (response : UnlinkResponse)

def LinkRequest.run : LinkRequest → Handler LinkResponse
  | callback malformed state binding error code => do
    return .page (← federationCallbackHandler malformed state binding error code)
  | passkeyVerify request malformed assertion => do
    return .page (← passkeyVerifyHandler request malformed assertion)
  | unlink uid id => do return .unlinked (← Me.deleteIdentityHandler uid id)
  | adminUnlink uid id => do return .unlinked (← Admin.deleteIdentityHandler uid id)

/-- The requests on a storage that does not fail; what else happens to the interactions happens
in between. -/
def linking (sha256 : String → Bytes) :
    System LinkRequest Oracle Deployment Op.Answer LinkResponse where
  start := LinkRequest.run
  exec := Deployment.exec sha256
  isOutside
    | .interaction _ _ => true
    | _ => false

abbrev LinkThread := Thread LinkRequest Op.Answer LinkResponse

abbrev LinkConfig := Config LinkRequest Deployment Op.Answer LinkResponse

abbrev LinkEffect := Effect LinkRequest Op.Answer LinkResponse

abbrev LinkStep := Label LinkRequest Op Oracle

abbrev Log := List (Entry Op.Answer)

end TinyOidc.Identity
