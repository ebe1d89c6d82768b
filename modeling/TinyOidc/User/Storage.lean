import TinyOidc.User.Schema
import TinyOidc.Util.Text

/-! The statements of `src/do/UserDO.ts` on the tables: what its private helpers read and
write, and the bodies of the two long transactions. -/
namespace TinyOidc.User
open RowTable TinyOidc.Util

def purgeIntervalSeconds : ℤ := 60
def purgeGraceSeconds : ℤ := 86400
def codeTtlSeconds : ℤ := 60
def sessionTouchIntervalSeconds : ℤ := 60
def maxRefreshFamiliesPerClient : ℕ := 20
def passkeyAttemptLimit : ℕ := 10
def passkeyAttemptWindowSeconds : ℤ := 600

def profile (row : UserRow) : UserProfile where
  id := row.id
  email := row.email
  emailNorm := row.emailNorm
  emailVerified := row.emailVerified
  displayName := row.displayName
  groups := row.groups
  disabledAt := row.disabledAt
  createdAt := row.createdAt
  updatedAt := row.updatedAt

/-- Whether the user satisfies the client's `allowed_groups`. -/
def allowed (user : UserRow) (client : ClientRef) : Bool :=
  match client.allowedGroups with
  | none => true
  | some groups => groups.any (fun g => user.groups.contains g)

/-- The admin scope needs membership of `admins`. -/
def adminAllowed (user : UserRow) (scope : List String) : Bool :=
  !scope.contains "admin" || user.groups.contains "admins"

/-- RFC 7636: 43 to 128 characters of the unreserved alphabet. -/
def isVerifierChar (c : Char) : Bool :=
  c.isAlphanum || c == '.' || c == '_' || c == '~' || c == '-'

def pkceVerifier (verifier : String) : Bool :=
  43 ≤ verifier.length && verifier.length ≤ 128 && verifier.toList.all isVerifierChar

def grantContext (user : UserRow) (scope : List String) (sid : Option String) (authTime : ℤ)
    (amr : List String) (acr : String) : GrantContext where
  sub := user.id
  scope := scope.filter (fun s => 0 < s.length)
  sid := sid
  authTime := authTime
  amr := amr
  acr := acr
  profile := profile user

namespace Tables

/-- Families are deleted with their tokens (`ON DELETE CASCADE`). -/
def deleteFamilies (t : Tables) (p : FamilyRow → Bool) : Tables :=
  { t with
    refreshFamilies := t.refreshFamilies.deleteWhere p
    refreshTokens := t.refreshTokens.deleteWhere
      (fun tok => t.refreshFamilies.rows.any (fun f => p f && f.id == tok.familyId)) }

/-- Sessions are deleted with their clients (`ON DELETE CASCADE`). -/
def deleteSessions (t : Tables) (p : SessionRow → Bool) : Tables :=
  { t with
    sessions := t.sessions.deleteWhere p
    sessionClients := t.sessionClients.deleteWhere
      (fun c => t.sessions.rows.any (fun s => p s && s.sid == c.sid)) }

/-- A token was consumed when its successor was created. -/
def consumedBefore (t : Tables) (limit : ℤ) (tok : TokenRow) : Bool :=
  t.refreshTokens.rows.any (fun later =>
    later.familyId == tok.familyId && later.serial == tok.serial + 1 && later.createdAt < limit)

def familyGone (grace : ℤ) (f : FamilyRow) : Bool :=
  f.revokedAt.any (· < grace) || f.absoluteExpiresAt < grace || f.idleExpiresAt < grace

def sessionGone (grace : ℤ) (s : SessionRow) : Bool :=
  s.revokedAt.any (· < grace) || s.absoluteExpiresAt < grace || s.idleExpiresAt < grace

def purgeCodes (t : Tables) (now : ℤ) : Tables :=
  { t with authCodes := t.authCodes.deleteWhere (fun c => c.expiresAt < now) }

def purgeTokens (t : Tables) (limit : ℤ) : Tables :=
  { t with refreshTokens := t.refreshTokens.deleteWhere (t.consumedBefore limit) }

def purgeChallenges (t : Tables) (now : ℤ) : Tables :=
  { t with challenges := t.challenges.deleteWhere (fun c => c.expiresAt < now) }

/-- The five statements of the purge, in order. -/
def purge (t : Tables) (now reuseWindow : ℤ) : Tables :=
  let grace := now - purgeGraceSeconds
  ((((t.purgeCodes now).purgeTokens (now - reuseWindow)).deleteFamilies
    (familyGone grace)).deleteSessions (sessionGone grace)).purgeChallenges now

def clientLe (a b : SessionClientRow) : Prop :=
  a.firstAt < b.firstAt ∨ a.firstAt = b.firstAt ∧ a.clientId ≤ b.clientId

instance : DecidableRel clientLe := fun a b =>
  inferInstanceAs (Decidable
    (a.firstAt < b.firstAt ∨ a.firstAt = b.firstAt ∧ a.clientId ≤ b.clientId))

def clientsOf (t : Tables) (sid : String) : List String :=
  ((t.sessionClients.rows.filter (·.sid == sid)).insertionSort clientLe).map (·.clientId)

def snapshot (t : Tables) (row : SessionRow) : SessionSnapshot where
  sid := row.sid
  authTime := row.authTime
  amr := row.amr
  acr := row.acr
  upstream := row.upstream
  createdAt := row.createdAt
  lastSeenAt := row.lastSeenAt
  idleExpiresAt := row.idleExpiresAt
  absoluteExpiresAt := row.absoluteExpiresAt
  clients := t.clientsOf row.sid
  country := row.country
  uaFamily := row.uaFamily

/-- A session usable at `now`: stored, with this secret, not revoked, not expired. -/
def liveSession (t : Tables) (sid : String) (secretHash : Bytes) (now : ℤ) :
    Option SessionRow :=
  match t.sessions.find sid with
  | none => none
  | some row =>
      if row.revokedAt.isSome then none
      else if row.secretHash ≠ secretHash then none
      else if row.idleExpiresAt ≤ now ∨ row.absoluteExpiresAt ≤ now then none
      else some row

/-- Extends idle expiry, never beyond the absolute expiry, at most once a minute. -/
def touchSession (t : Tables) (row : SessionRow) (now idleTtl : ℤ) : Tables :=
  if now - row.lastSeenAt < sessionTouchIntervalSeconds then t
  else
    { t with
      sessions := t.sessions.updateWhere (·.sid == row.sid)
        (fun r => { r with
          lastSeenAt := now, idleExpiresAt := min (now + idleTtl) row.absoluteExpiresAt })
        (fun _ => rfl) }

def newSessionRow (input : NewSession) (now : ℤ) : SessionRow where
  sid := input.sid
  secretHash := input.secretHash
  createdAt := now
  lastSeenAt := now
  idleExpiresAt := min (now + input.idleTtl) (now + input.absoluteTtl)
  absoluteExpiresAt := now + input.absoluteTtl
  authTime := input.auth.authTime
  amr := input.auth.amr
  acr := input.auth.acr
  upstream := input.auth.upstream
  ipHash := input.metadata.ipHash
  uaFamily := input.metadata.uaFamily
  country := input.metadata.country
  revokedAt := none
  revokeReason := none

/-- `sid` is the primary key and `secret_hash` is unique. -/
def insertSession (t : Tables) (input : NewSession) (now : ℤ) : Except SqlError Tables :=
  if t.sessions.rows.any (·.secretHash == input.secretHash) then .error .uniqueViolation
  else
    match t.sessions.insert (newSessionRow input now) with
    | none => .error .uniqueViolation
    | some sessions => .ok { t with sessions := sessions }

/-- The `UPDATE` of the rotate branch of `finalizeLogin`. -/
def rotateSession (t : Tables) (existing : SessionRow) (secretHash : Bytes) (auth : AuthContext)
    (now idleTtl : ℤ) : Except SqlError Tables :=
  if t.sessions.rows.any (fun r => r.sid != existing.sid && r.secretHash == secretHash) then
    .error .uniqueViolation
  else
    .ok { t with
      sessions := t.sessions.updateWhere (·.sid == existing.sid)
        (fun r => { r with
          secretHash := secretHash, authTime := auth.authTime, amr := auth.amr, acr := auth.acr
          upstream := auth.upstream, lastSeenAt := now
          idleExpiresAt := min (now + idleTtl) existing.absoluteExpiresAt })
        (fun _ => rfl) }

def revokeSessionsWhere (t : Tables) (p : SessionRow → Bool) (now : ℤ) (reason : String) :
    Tables :=
  { t with
    sessions := t.sessions.updateWhere (fun s => p s && s.revokedAt.isNone)
      (fun s => { s with revokedAt := some now, revokeReason := some reason }) (fun _ => rfl) }

def revokeFamiliesWhere (t : Tables) (p : FamilyRow → Bool) (now : ℤ) (reason : String) :
    Tables :=
  { t with
    refreshFamilies := t.refreshFamilies.updateWhere (fun f => p f && f.revokedAt.isNone)
      (fun f => { f with revokedAt := some now, revokeReason := some reason }) (fun _ => rfl) }

/-- Ends a session and its session-bound families; returns the clients to notify. -/
def revokeSessionRows (t : Tables) (sid : String) (now : ℤ) (reason : String) :
    Tables × List String :=
  ((t.revokeSessionsWhere (·.sid == sid) now reason).revokeFamiliesWhere
    (fun f => f.sid == some sid && f.kind == .session) now reason, t.clientsOf sid)

def revokeEach (now : ℤ) (reason : String) : Tables → List String → Tables × List RevokedSession
  | t, [] => (t, [])
  | t, sid :: sids =>
      let ended := t.revokeSessionRows sid now reason
      let rest := revokeEach now reason ended.1 sids
      (rest.1, ⟨sid, ended.2⟩ :: rest.2)

def unrevokedSids (t : Tables) : List String :=
  (t.sessions.rows.filter (·.revokedAt.isNone)).map (·.sid)

/-- Sessions not yet revoked or expired, oldest first. -/
def liveSessions (t : Tables) (now : ℤ) : List SessionRow :=
  (t.sessions.rows.filter (fun s =>
    s.revokedAt.isNone && now < s.idleExpiresAt && now < s.absoluteExpiresAt)).insertionSort
      (fun a b => a.createdAt ≤ b.createdAt)

def codeRow (code : CodeInput) (session : SessionRow) (now : ℤ) : CodeRow where
  secretHash := code.secretHash
  clientId := code.clientId
  redirectUri := code.redirectUri
  scope := code.scope
  nonce := code.nonce
  codeChallenge := code.codeChallenge
  sid := session.sid
  authTime := session.authTime
  amr := session.amr
  acr := session.acr
  createdAt := now
  expiresAt := now + codeTtlSeconds
  consumedAt := none

/-- `ON CONFLICT(sid, client_id) DO NOTHING`. -/
def noteClient (t : Tables) (sid clientId : String) (now : ℤ) : Tables :=
  { t with sessionClients := (t.sessionClients.insert ⟨sid, clientId, now⟩).getD t.sessionClients }

/-- Inserts the code, records the client under the session and touches the session. -/
def issueCodeRows (t : Tables) (code : CodeInput) (session : SessionRow) (now idleTtl : ℤ) :
    Except SqlError Tables :=
  match t.authCodes.insert (codeRow code session now) with
  | none => .error .uniqueViolation
  | some codes =>
      .ok ((({ t with authCodes := codes }).noteClient session.sid code.clientId now).touchSession
        session now idleTtl)

/-- The grant of a client; one left by a deleted, re-created client is deleted. -/
def grantFor (t : Tables) (client : ClientRef) : Tables × Option GrantRow :=
  match t.grants.find client.clientId with
  | none => (t, none)
  | some row =>
      if row.clientCreatedAt ≠ client.createdAt then
        ({ t with grants := t.grants.deleteWhere (·.clientId == client.clientId) }, none)
      else (t, some row)

def revokeFamily (t : Tables) (id : String) (now : ℤ) (reason : String) : Tables :=
  t.revokeFamiliesWhere (·.id == id) now reason

def familyLive (now : ℤ) (f : FamilyRow) : Bool :=
  f.revokedAt.isNone && now < f.idleExpiresAt && now < f.absoluteExpiresAt

/-- `ORDER BY created_at DESC, id DESC`. -/
def familyNewer (a b : FamilyRow) : Prop :=
  b.createdAt < a.createdAt ∨ b.createdAt = a.createdAt ∧ b.id ≤ a.id

instance : DecidableRel familyNewer := fun a b =>
  inferInstanceAs (Decidable (b.createdAt < a.createdAt ∨ b.createdAt = a.createdAt ∧ b.id ≤ a.id))

/-- The live families of a client beyond the newest ones it may keep. -/
def familiesBeyondLimit (t : Tables) (clientId : String) (now : ℤ) : List String :=
  (((t.refreshFamilies.rows.filter
    (fun f => f.clientId == clientId && familyLive now f)).insertionSort
    familyNewer).drop maxRefreshFamiliesPerClient).map (·.id)

/-- The cap on live families. Its `UPDATE` has no `revoked_at IS NULL` of its own: the ids
it names are those of live families. -/
def limitFamilies (t : Tables) (clientId : String) (now : ℤ) : Tables :=
  let ids := t.familiesBeyondLimit clientId now
  { t with
    refreshFamilies := t.refreshFamilies.updateWhere (fun f => ids.contains f.id)
      (fun f => { f with revokedAt := some now, revokeReason := some "family_limit" })
      (fun _ => rfl) }

def consumeCode (t : Tables) (secretHash : Bytes) (now : ℤ) : Tables :=
  { t with
    authCodes := t.authCodes.updateWhere (·.secretHash == secretHash)
      (fun c => { c with consumedAt := some now }) (fun _ => rfl) }

/-- A bound challenge needs its verifier; a code without one refuses any verifier. -/
def challengeRefused (code : CodeRow) (expectedChallenge codeVerifier : Option String) : Bool :=
  match code.codeChallenge with
  | none => codeVerifier.isSome
  | some challenge => expectedChallenge != some challenge

def familyKind (r : RefreshInput) (code : CodeRow) : FamilyKind :=
  if r.offlineAllowed && code.scope.contains "offline_access" then .offline else .session

/-- The family a code opens: a session one ends with the session, an offline one has its
own lifetime. -/
def newFamilyRow (input : ExchangeCodeInput) (r : RefreshInput) (code : CodeRow)
    (session : SessionRow) : FamilyRow :=
  let kind := familyKind r code
  let absolute := if kind = .session then session.absoluteExpiresAt else input.now + r.absoluteTtl
  { id := r.familyId
    clientId := input.client.clientId
    clientCreatedAt := input.client.createdAt
    codeSecretHash := some input.secretHash
    kind := kind
    sid := if kind = .session then some code.sid else none
    scope := code.scope
    authTime := code.authTime
    amr := code.amr
    acr := code.acr
    createdAt := input.now
    absoluteExpiresAt := absolute
    idleExpiresAt := min (input.now + r.idleTtl) absolute
    currentSerial := 1
    revokedAt := none
    revokeReason := none }

def openFamily (t : Tables) (input : ExchangeCodeInput) (r : RefreshInput) (code : CodeRow)
    (session : SessionRow) : Except SqlError Tables :=
  match t.refreshFamilies.insert (newFamilyRow input r code session) with
  | none => .error .uniqueViolation
  | some families =>
      match t.refreshTokens.insert ⟨r.familyId, r.secretHash, 1, input.now⟩ with
      | none => .error .uniqueViolation
      | some tokens =>
          .ok (({ t with refreshFamilies := families, refreshTokens := tokens }).limitFamilies
            input.client.clientId input.now)

/-- The transaction of `exchangeCode` after its purge; `user` is the row read before the
verifier was hashed. -/
def exchangeTransaction (t : Tables) (user : UserRow) (expectedChallenge : Option String)
    (input : ExchangeCodeInput) : Except SqlError (Tables × ExchangeOutcome) :=
  match t.authCodes.find input.secretHash with
  | none => .ok (t, .fail .invalidGrant false)
  | some code =>
      if code.consumedAt.isSome then
        .ok (t.revokeFamiliesWhere (fun f => f.codeSecretHash == some input.secretHash)
          input.now "code_replay", .fail .invalidGrant true)
      else if code.expiresAt ≤ input.now then .ok (t, .fail .invalidGrant false)
      else if code.clientId ≠ input.client.clientId then .ok (t, .fail .invalidGrant false)
      else if code.redirectUri ≠ input.redirectUri then .ok (t, .fail .invalidGrant false)
      else if challengeRefused code expectedChallenge input.codeVerifier then
        .ok (t, .fail .invalidGrant false)
      else if user.disabledAt.isSome then .ok (t, .fail .invalidGrant false)
      else if !allowed user input.client then .ok (t, .fail .invalidGrant false)
      else if !adminAllowed user code.scope then .ok (t, .fail .invalidGrant false)
      else
        match t.sessions.find code.sid with
        | none => .ok (t, .fail .invalidGrant false)
        | some session =>
            if session.revokedAt.isSome then .ok (t, .fail .invalidGrant false)
            else
              let grant :=
                grantContext user code.scope (some code.sid) code.authTime code.amr code.acr
              let consumed := t.consumeCode input.secretHash input.now
              match input.refresh with
              | none => .ok (consumed, .ok grant code.nonce none none)
              | some r =>
                  match consumed.openFamily input r code session with
                  | .error e => .error e
                  | .ok opened =>
                      .ok (opened, .ok grant code.nonce (some r.familyId)
                        (some (familyKind r code)))

/-- The new token and the family's serial and idle expiry, which consume the presented token. -/
def advanceFamily (t : Tables) (family : FamilyRow) (newSecretHash : Bytes) (now idleTtl : ℤ) :
    Except SqlError Tables :=
  match t.refreshTokens.insert ⟨family.id, newSecretHash, family.currentSerial + 1, now⟩ with
  | none => .error .uniqueViolation
  | some tokens =>
      .ok { t with
        refreshTokens := tokens
        refreshFamilies := t.refreshFamilies.updateWhere (·.id == family.id)
          (fun f => { f with
            currentSerial := family.currentSerial + 1
            idleExpiresAt := min (now + idleTtl) family.absoluteExpiresAt })
          (fun _ => rfl) }

/-- A session-bound family needs its session live; an offline one has none. -/
def boundSessionLive (t : Tables) (family : FamilyRow) (now : ℤ) : Bool :=
  match family.sid with
  | none => true
  | some sid =>
      match t.sessions.find sid with
      | none => false
      | some s => s.revokedAt.isNone && now < s.idleExpiresAt && now < s.absoluteExpiresAt

def touchBound (t : Tables) (family : FamilyRow) (now idleTtl : ℤ) (bound : Tables) : Tables :=
  match family.sid.bind t.sessions.find with
  | none => bound
  | some session => bound.touchSession session now idleTtl

/-- Reuse: the family dies, and its session when session-bound. -/
def revokeReused (t : Tables) (family : FamilyRow) (now : ℤ) : Tables × RotateOutcome :=
  let revoked := t.revokeFamily family.id now "reuse"
  match family.sid with
  | none => (revoked, .fail .invalidGrant true none)
  | some sid =>
      let ended := revoked.revokeSessionRows sid now "refresh_reuse"
      (ended.1, .fail .invalidGrant true (some ended.2))

/-- The scope of the tokens a rotation issues; a request may only narrow the family's. -/
def rotatedScope (family : FamilyRow) (requested : Option (List String)) : Option (List String) :=
  let familyScope := family.scope.filter (fun s => 0 < s.length)
  match requested with
  | none => some familyScope
  | some scope => if scope.all (fun s => familyScope.contains s) then some scope else none

/-- The transaction of `rotateRefreshToken` after its purge. -/
def rotateTransaction (t : Tables) (user : UserRow) (input : RotateRefreshInput) :
    Except SqlError (Tables × RotateOutcome) :=
  match t.refreshFamilies.find input.familyId with
  | none => .ok (t, .fail .invalidGrant false none)
  | some family =>
      if family.revokedAt.isSome then .ok (t, .fail .invalidGrant false none)
      else if family.absoluteExpiresAt ≤ input.now ∨ family.idleExpiresAt ≤ input.now then
        .ok (t, .fail .invalidGrant false none)
      else if family.clientId ≠ input.client.clientId then .ok (t, .fail .invalidGrant false none)
      -- A re-created client id does not inherit the family.
      else if family.clientCreatedAt ≠ input.client.createdAt then
        .ok (t.deleteFamilies (·.id == family.id), .fail .invalidGrant false none)
      else
        match t.refreshTokens.find (family.id, input.secretHash) with
        | none => .ok (t, .fail .invalidGrant false none)
        | some token =>
            if token.serial < family.currentSerial then .ok (t.revokeReused family input.now)
            else if token.serial ≠ family.currentSerial then
              .ok (t, .fail .invalidGrant false none)
            else if user.disabledAt.isSome then .ok (t, .fail .invalidGrant false none)
            else if !allowed user input.client then .ok (t, .fail .invalidGrant false none)
            else if !t.boundSessionLive family input.now then
              .ok (t, .fail .invalidGrant false none)
            else
              match rotatedScope family input.requestedScope with
              | none => .ok (t, .fail .invalidScope false none)
              | some scope =>
                  if !adminAllowed user scope then .ok (t, .fail .invalidGrant false none)
                  else
                    match t.advanceFamily family input.newSecretHash input.now input.idleTtl with
                    | .error e => .error e
                    | .ok advanced =>
                        .ok (t.touchBound family input.now input.sessionIdleTtl advanced,
                          .ok (grantContext user scope family.sid family.authTime family.amr
                            family.acr) (family.currentSerial + 1) family.kind)

end Tables
end TinyOidc.User
