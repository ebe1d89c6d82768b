import TinyOidc.Account.Profiles

/-! Administrative operations on one user (`src/users/admin.ts`) behind their handlers
(`src/admin/users.ts`): enabling, disabling and deleting. The object first, then the row of the
registry; a deletion marks the row first. -/
namespace TinyOidc.Account
open TinyOidc.User TinyOidc.Util
open TinyOidc.Interaction (UserStatus)

inductive SetDisabledResult where
  | ok (profile : UserProfile) (revoked : List RevokedSession)
  | userNotAvailable
  | partialFailure (profile : UserProfile) (revoked : List RevokedSession)
  | thrown

def statusOf (disabled : Bool) : UserStatus := if disabled then .disabled else .active

/-- Disables, revoking every session and family, or enables a user. -/
def setUserDisabled (uid : String) (disabled : Bool) (now : ℤ) : Program SetDisabledResult := do
  match ← userCall uid (.setDisabled (if disabled then some now else none) now) with
  | some (.disabled (.ok (profile, revoked))) =>
    match ← d1 (.setUserStatus uid (statusOf disabled) now) with
    | .error _ => return .partialFailure profile revoked
    | .ok _ => return .ok profile revoked
  | some (.disabled (.fail _)) => return .userNotAvailable
  | _ => return .thrown

/-- The sessions a call of `setDisabled` revoked; an object that is gone has none. -/
def revokedBy : Reply → List RevokedSession
  | .disabled (.ok (_, revoked)) => revoked
  | _ => []

/-- The row goes to `deleting`, the object is revoked and destroyed, then the row goes; `none` when
a call throws. -/
def deleteUser (uid : String) (now : ℤ) : Program (Option (List RevokedSession)) := do
  match ← d1 (.setUserStatus uid .deleting now) with
  | .error _ => return none
  | .ok _ =>
    match ← userCall uid (.setDisabled (some now) now) with
    | none | some (.disabled (.thrown _)) => return none
    | some reply =>
      match ← userCall uid .destroy with
      | none => return none
      | some _ =>
        match ← d1 (.deleteUserRow uid) with
        | .error _ => return none
        | .ok _ => return some (revokedBy reply)

/-! ### Handlers -/

inductive AdminResponse where
  | error (status : ℕ) (code description : String)
  | user (profile : UserProfile) (status : UserStatus) (revoked : List RevokedSession)
      (partialFailure : Bool)
  | deleted (revoked : List RevokedSession)

def userNotFound : AdminResponse := .error 404 "user_not_found" "user not found"

def storageUnavailable : AdminResponse :=
  .error 503 "temporarily_unavailable" "user storage unavailable"

/-- The row of the user a path names. Rows still `creating` are invisible. -/
def loadUser (id : String) : Program (Except AdminResponse RegistryUser) := do
  if !isUuid id then return .error userNotFound
  match ← d1 (.getUser id) with
  | .error _ => return .error (.error 503 "temporarily_unavailable" "user directory unavailable")
  | .ok none => return .error userNotFound
  | .ok (some row) =>
    if row.status = .creating then return .error userNotFound else return .ok row

def setDisabledHandler (id : String) (disabled : Bool) (now : ℤ) : Program AdminResponse := do
  match ← loadUser id with
  | .error response => return response
  | .ok row =>
    match ← userCall row.id .getProfile with
    | some (.profile (.ok _)) =>
      match ← setUserDisabled row.id disabled now with
      | .userNotAvailable => return userNotFound
      | .thrown => return storageUnavailable
      | .ok profile revoked => return .user profile (statusOf disabled) revoked false
      | .partialFailure profile revoked => return .user profile row.status revoked true
    | some (.profile (.fail _)) => return userNotFound
    | _ => return storageUnavailable

def deleteUserHandler (id : String) (now : ℤ) : Program AdminResponse := do
  match ← loadUser id with
  | .error response => return response
  | .ok row =>
    match ← deleteUser row.id now with
    | none => return storageUnavailable
    | some revoked => return .deleted revoked

end TinyOidc.Account
