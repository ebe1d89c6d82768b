import TinyOidc.Account.Maintenance
import TinyOidc.Lib.Embedding
import TinyOidc.User.Announced

/-! The requests that end sessions, with what they hand to the back-channel notifier
(`src/logout/rp-logout.ts`, `src/admin/users.ts`, `src/me/handlers.ts`,
`src/interaction/register.ts`, `src/maintenance/run.ts`, `src/admin/import.ts`,
`src/oidc/token-endpoint.ts`). -/
namespace TinyOidc.Logout
open TinyOidc.User TinyOidc.Account
open Threads (Prog)

structure EndedSession where
  uid : String
  sid : String
  clients : List String
  deriving DecidableEq, Repr

inductive Op where
  | account (op : Account.Op)
  | notify (ended : List EndedSession)

@[reducible] def Op.Answer : Op → Type
  | .account op => op.Answer
  | .notify _ => Unit

abbrev Program := Prog Op Op.Answer

def lift {α : Type} (p : Account.Program α) : Program α := p.embed Op.account fun _ r => r

def userCall (uid : String) (call : Call) : Program (Option Reply) :=
  .perform (Op.account (.user uid call))

/-- The notifier never fails the request. -/
def notifyEndedSessions (ended : List EndedSession) : Program Unit :=
  if ended = [] then return () else .perform (Op.notify ended)

def endedOf (uid : String) (revoked : List RevokedSession) : List EndedSession :=
  revoked.map fun s => ⟨uid, s.sid, s.clients⟩

inductive EndingResponse where
  | admin (response : AdminResponse)
  | removed (revoked : Bool)
  | revoked (count : ℕ)
  | ended (session : Option EndedSession)
  | recovered (profile : Option UserProfile)
  | maintained (usersDeleted : ℕ)
  | imported (result : SetDisabledResult)
  | refreshed (outcome : RotateOutcome)
  /-- A call threw. -/
  | unavailable

/-- A request that a call made fail by throwing. -/
def EndingResponse.failed : EndingResponse → Bool
  | .unavailable => true
  | .admin (.error status _ _) => status = 503
  | _ => false

/-! ### One session -/

/-- Ends a session on its user's object and notifies the session's clients; the outer `none` is a
call that threw. -/
def endSession (uid sid : String) (now : ℤ) (reason : String) :
    Program (Option (Option EndedSession)) := do
  match ← userCall uid (.revokeSession sid now reason) with
  | some (.revokedSession (.ok (some revoked))) =>
    let ended : EndedSession := ⟨uid, sid, revoked.clients⟩
    notifyEndedSessions [ended]
    return some (some ended)
  | some (.revokedSession (.ok none)) | some (.revokedSession (.fail _)) => return some none
  | _ => return none

namespace Me

/-- `DELETE /me/sessions/:sid`; no such session is a 404. -/
def deleteSessionHandler (uid sid : String) (now : ℤ) : Program EndingResponse := do
  match ← endSession uid sid now "self" with
  | none => return .unavailable
  | some ended => return .ended ended

/-- `DELETE /me/sessions`: `except` is the token's own session unless it is included. -/
def deleteSessionsHandler (uid : String) (except : Option String) (now : ℤ) :
    Program EndingResponse := do
  match ← userCall uid (.revokeSessions except now "self") with
  | some (.revokedSessions (.ok revoked)) =>
    notifyEndedSessions (endedOf uid revoked)
    return .revoked revoked.length
  | _ => return .unavailable

end Me

/-! ### Administration -/

namespace Admin

def deleteSessionHandler (id sid : String) (now : ℤ) : Program EndingResponse := do
  match ← lift (loadUser id) with
  | .error response => return .admin response
  | .ok row =>
    match ← userCall row.id (.revokeSession sid now "admin") with
    | some (.revokedSession (.ok (some revoked))) =>
      notifyEndedSessions (endedOf row.id [revoked])
      return .removed true
    | some (.revokedSession (.ok none)) => return .removed false
    | some (.revokedSession (.fail _)) => return .admin userNotFound
    | _ => return .admin storageUnavailable

def deleteSessionsHandler (id : String) (now : ℤ) : Program EndingResponse := do
  match ← lift (loadUser id) with
  | .error response => return .admin response
  | .ok row =>
    match ← userCall row.id (.revokeAll now "admin") with
    | some (.revokedSessions (.ok revoked)) =>
      notifyEndedSessions (endedOf row.id revoked)
      return .revoked revoked.length
    | some (.revokedSessions (.fail _)) => return .admin userNotFound
    | _ => return .admin storageUnavailable

def setDisabledHandler (id : String) (disabled : Bool) (now : ℤ) : Program EndingResponse := do
  match ← lift (loadUser id) with
  | .error response => return .admin response
  | .ok row =>
    match ← userCall row.id .getProfile with
    | some (.profile (.ok _)) =>
      match ← lift (setUserDisabled row.id disabled now) with
      | .userNotAvailable => return .admin userNotFound
      | .thrown => return .admin storageUnavailable
      | .ok profile revoked =>
        notifyEndedSessions (endedOf row.id revoked)
        return .admin (.user profile (statusOf disabled) revoked false)
      | .partialFailure profile revoked =>
        notifyEndedSessions (endedOf row.id revoked)
        return .admin (.user profile row.status revoked true)
    | some (.profile (.fail _)) => return .admin userNotFound
    | _ => return .admin storageUnavailable

def deleteUserHandler (id : String) (now : ℤ) : Program EndingResponse := do
  match ← lift (loadUser id) with
  | .error response => return .admin response
  | .ok row =>
    match ← lift (deleteUser row.id now) with
    | none => return .admin storageUnavailable
    | some revoked =>
      notifyEndedSessions (endedOf row.id revoked)
      return .admin (.deleted revoked)

/-- The line of an import that creates a disabled user: what the disable revokes is not passed
on. -/
def importDisabled (id : String) (now : ℤ) : Program EndingResponse := do
  return .imported (← lift (setUserDisabled id true now))

end Admin

/-! ### Refresh tokens, recovery and maintenance -/

/-- The refresh grant of `tokenHandler`: of the clients of a session that a reuse ends it writes a
log line and an audit event. -/
def refreshGrant (uid : String) (input : RotateRefreshInput) : Program EndingResponse := do
  match ← userCall uid (.rotateRefreshToken input) with
  | some (.rotate (.ok grant serial kind)) => return .refreshed (.ok grant serial kind)
  | some (.rotate (.fail err reuse clients)) => return .refreshed (.fail err reuse clients)
  | _ => return .unavailable

/-- The part of a registration that recovers an account: every session and family ends before the
new passkey is added. -/
def recoverAccount (uid : String) (now : ℤ) : Program EndingResponse := do
  match ← userCall uid .getProfile with
  | some (.profile (.ok profile)) =>
    match ← userCall uid (.revokeAll now "recover") with
    | some (.revokedSessions (.ok revoked)) =>
      notifyEndedSessions (endedOf uid revoked)
      return .recovered (some profile)
    | some (.revokedSessions (.fail _)) => return .recovered (some profile)
    | _ => return .unavailable
  | some (.profile (.fail _)) => return .recovered none
  | _ => return .unavailable

/-- The rows left in `deleting`: each deletion is finished, and then its sessions are notified. -/
def deletingUsers (m : Maintenance) : List RegistryUser → ℕ → ℕ → Program EndingResponse
  | [], _, deleted => return .maintained deleted
  | row :: rest, checks, deleted => do
    if !m.within checks then return .maintained deleted
    match ← userCall row.id (.setDisabled (some m.now) m.now) with
    | none | some (.disabled (.thrown _)) => return .unavailable
    | some reply =>
      match ← userCall row.id .destroy with
      | none => return .unavailable
      | some _ =>
        match ← lift (Account.d1 (.deleteUserRow row.id)) with
        | .error _ => return .unavailable
        | .ok _ =>
          notifyEndedSessions (endedOf row.id (revokedBy reply))
          deletingUsers m rest (checks + 1) (deleted + 1)

/-- The step of a maintenance run that finishes deletions. -/
def deletingStep (m : Maintenance) : Program EndingResponse := do
  match ← lift (Account.d1 (.listUsers .deleting none repairBatch)) with
  | .error _ => return .unavailable
  | .ok rows => deletingUsers m rows 0 0

/-! ### Requests -/

inductive EndingRequest where
  | endSession (uid sid : String) (now : ℤ) (reason : String)
  | deleteOwnSession (uid sid : String) (now : ℤ)
  | deleteOwnSessions (uid : String) (except : Option String) (now : ℤ)
  | deleteSession (id sid : String) (now : ℤ)
  | deleteSessions (id : String) (now : ℤ)
  | setDisabled (id : String) (disabled : Bool) (now : ℤ)
  | deleteUser (id : String) (now : ℤ)
  | importDisabled (id : String) (now : ℤ)
  | refresh (uid : String) (input : RotateRefreshInput)
  | recover (uid : String) (now : ℤ)
  | maintain (m : Maintenance)

/-- `endSession` stands for the three paths that end with it: a logout with a hint, a confirmed
logout interaction, and a login over another user's session. -/
def EndingRequest.run : EndingRequest → Program EndingResponse
  | endSession uid sid now reason => do
    match ← Logout.endSession uid sid now reason with
    | none => return .unavailable
    | some ended => return .ended ended
  | deleteOwnSession uid sid now => Me.deleteSessionHandler uid sid now
  | deleteOwnSessions uid except now => Me.deleteSessionsHandler uid except now
  | deleteSession id sid now => Admin.deleteSessionHandler id sid now
  | deleteSessions id now => Admin.deleteSessionsHandler id now
  | setDisabled id disabled now => Admin.setDisabledHandler id disabled now
  | deleteUser id now => Admin.deleteUserHandler id now
  | importDisabled id now => Admin.importDisabled id now
  | refresh uid input => refreshGrant uid input
  | recover uid now => recoverAccount uid now
  | maintain m => deletingStep m

/-- The calls of an object whose reply names sessions that it ended. -/
def announces : Call → Bool
  | .setDisabled _ _ | .revokeSession _ _ _ | .revokeSessions _ _ _ | .revokeAll _ _ => true
  | _ => false

/-- The requests above, beside any other call of an object and any statement on D1. -/
def endings (sha256 : String → Bytes) :
    Threads.System EndingRequest Fault World Op.Answer EndingResponse where
  start := EndingRequest.run
  exec w fault op :=
    match op with
    | .account op => w.exec sha256 fault op
    | .notify _ => (w, ())
  isOutside op :=
    match op with
    | .account (.user _ call) => !announces call
    | .account (.d1 _) => true
    | .notify _ => false

end TinyOidc.Logout
