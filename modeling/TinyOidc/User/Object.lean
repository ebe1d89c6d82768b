import TinyOidc.User.Storage

/-! A user's object (`UserDO`): its tables, its in-memory fields, the calls suspended at an
`await`, and its methods. Each method maps the object to the object after it and its answer;
a method whose transaction throws keeps its in-memory writes and none of the stored ones. -/
namespace TinyOidc.User
open RowTable TinyOidc.Util

/-- A call that waits for Web Crypto, with what it read before. -/
inductive Suspended where
  | exchange (input : ExchangeCodeInput) (user : UserRow) (expectedChallenge : String)
  | assertion (credentialId : String) (now : ℤ)
  deriving DecidableEq, Repr

structure UserObject where
  tables : Tables
  destroyed : Bool
  lastPurgeAt : Option ℤ
  suspended : List (ℕ × Suspended)
  nextCall : ℕ

/-- An object nobody has called yet. -/
def UserObject.fresh : UserObject where
  tables := .empty
  destroyed := false
  lastPurgeAt := none
  suspended := []
  nextCall := 0

inductive AssertionOutcome where
  | ok (profile : UserProfile) (passkey : PasskeyRow)
  | fail (error : UserDoError)
  | regression (passkeyId : String) (stored observed : ℕ)
  | thrown (error : SqlError)
  deriving DecidableEq, Repr

/-- The answer of an asynchronous method up to its `await`: its result, or the suspended call. -/
inductive Started (α : Type) where
  | done (result : α)
  | suspended (call : ℕ)
  deriving DecidableEq, Repr

inductive CounterVerdict where
  | accept | regression
  deriving DecidableEq, Repr

def counterPolicy (stored observed : ℕ) : CounterVerdict :=
  if stored = 0 ∧ observed = 0 then .accept
  else if stored < observed then .accept else .regression

namespace UserObject

/-- Every method but `init` and `destroy` needs an initialized, undestroyed object. -/
def guard (o : UserObject) : Except UserDoError UserRow :=
  if o.destroyed then .error .userDestroyed
  else
    match o.tables.user with
    | none => .error .userNotInitialized
    | some row => .ok row

/-- Runs `body` for an initialized object. -/
def guarded {α : Type} (o : UserObject) (fail : UserDoError → α)
    (body : UserRow → UserObject × α) : UserObject × α :=
  match o.guard with
  | .error e => (o, fail e)
  | .ok user => body user

def store (o : UserObject) (t : Tables) : UserObject := { o with tables := t }

/-- The purge on write, at most once a minute. -/
def purgeIfDue (o : UserObject) (now reuseWindow : ℤ) : UserObject :=
  if o.lastPurgeAt.any (fun last => now - last < purgeIntervalSeconds) then o
  else { o with lastPurgeAt := some now, tables := o.tables.purge now reuseWindow }

/-- A transaction that starts with the purge. -/
def purging {α : Type} (o : UserObject) (now reuseWindow : ℤ) (thrown : SqlError → α)
    (body : Tables → Except SqlError (Tables × α)) : UserObject × α :=
  let purged := o.purgeIfDue now reuseWindow
  match body purged.tables with
  | .ok (t, a) => (purged.store t, a)
  | .error e => (purged.store o.tables, thrown e)

/-! ### Lifecycle -/

def identityRow (identity : NewIdentity) (now : ℤ) : IdentityRow where
  id := identity.id
  issuer := identity.issuer
  subject := identity.subject
  email := identity.email
  emailVerified := identity.emailVerified
  name := identity.name
  createdAt := now
  lastLoginAt := none

/-- `(issuer, subject)` is unique beside the key. -/
def insertIdentity (t : Tables) (identity : NewIdentity) (now : ℤ) : Except SqlError Tables :=
  if t.identities.rows.any
      (fun r => r.issuer == identity.issuer && r.subject == identity.subject) then
    .error .uniqueViolation
  else
    match t.identities.insert (identityRow identity now) with
    | none => .error .uniqueViolation
    | some identities => .ok { t with identities := identities }

def insertIdentities (now : ℤ) : Tables → List NewIdentity → Except SqlError Tables
  | t, [] => .ok t
  | t, identity :: rest =>
      match insertIdentity t identity now with
      | .error e => .error e
      | .ok t' => insertIdentities now t' rest

def newUserRow (p : InitProfile) (now : ℤ) : UserRow where
  id := p.id
  email := p.email
  emailNorm := p.emailNorm
  emailVerified := p.emailVerified
  displayName := p.displayName
  groups := sortTexts p.groups
  disabledAt := none
  createdAt := now
  updatedAt := now

def init (o : UserObject) (p : InitProfile) (now : ℤ) (identities : List NewIdentity) :
    UserObject × Outcome UserProfile :=
  if o.destroyed then (o, .fail .userDestroyed)
  else
    match o.tables.user with
    | some existing =>
        if existing.id = p.id then (o, .ok (profile existing)) else (o, .fail .userIdMismatch)
    | none =>
        match insertIdentities now { o.tables with user := some (newUserRow p now) } identities with
        | .error e => (o, .thrown e)
        | .ok t => (o.store t, .ok (profile (newUserRow p now)))

/-- Deletes everything and refuses every later call of this instance. -/
def destroy (o : UserObject) : UserObject := { o with tables := .empty, destroyed := true }

/-- The runtime drops the instance: the tables stay, its fields and suspended calls go. -/
def evict (o : UserObject) : UserObject := { UserObject.fresh with tables := o.tables }

def getProfile (o : UserObject) : UserObject × Outcome UserProfile :=
  o.guarded .fail fun user => (o, .ok (profile user))

def setUser (o : UserObject) (user : UserRow) : UserObject :=
  o.store { o.tables with user := some user }

def setGroups (o : UserObject) (groups : List String) (now : ℤ) :
    UserObject × Outcome UserProfile :=
  o.guarded .fail fun user =>
    let updated := { user with groups := sortTexts (uniqueTexts groups), updatedAt := now }
    (o.setUser updated, .ok (profile updated))

/-- Disables the user, revoking every session and family, or enables it again. -/
def setDisabled (o : UserObject) (disabledAt : Option ℤ) (now : ℤ) :
    UserObject × Outcome (UserProfile × List RevokedSession) :=
  o.guarded .fail fun user =>
    let updated := { user with disabledAt := disabledAt, updatedAt := now }
    let t := { o.tables with user := some updated }
    match disabledAt with
    | none => (o.store t, .ok (profile updated, []))
    | some _ =>
        let ended := Tables.revokeEach now "disabled" t t.unrevokedSids
        (o.store (ended.1.revokeFamiliesWhere (fun _ => true) now "disabled"),
          .ok (profile updated, ended.2))

def touch (o : UserObject) (now reuseWindow : ℤ) : UserObject × Outcome Unit :=
  o.guarded .fail fun _ => (o.purgeIfDue now reuseWindow, .ok ())

/-! ### Sessions -/

/-- Whether the stored consent covers a request, deleting a stale grant on the way. -/
def consentCovered (t : Tables) (input : AuthorizeWithSessionInput) : Tables × Bool :=
  if input.client.skipConsent then (t, true)
  else
    let grant := t.grantFor input.client
    let granted := (grant.2.map (·.scopes)).getD []
    (grant.1, !input.promptConsent && input.scope.all (fun s => granted.contains s))

def authTooOld (session : SessionRow) (maxAge : Option ℤ) (now : ℤ) : Bool :=
  maxAge.any (fun age => session.authTime + age ≤ now)

/-- The session-hit path of `/authorize`. Nothing is touched unless a code is issued. -/
def authorizeWithSession (o : UserObject) (input : AuthorizeWithSessionInput) :
    UserObject × Outcome Authorized :=
  o.guarded .fail fun user =>
    match o.tables.liveSession input.sid input.secretHash input.now with
    | none => (o, .fail .sessionInvalid)
    | some session =>
        if user.disabledAt.isSome then (o, .fail .userDisabled)
        else if !allowed user input.client then (o, .fail .userNotAllowed)
        else if !adminAllowed user input.scope then (o, .fail .userNotAllowed)
        else if input.promptLogin || authTooOld session input.maxAge input.now then
          (o, .ok ⟨.loginRequired, o.tables.snapshot session, profile user⟩)
        else
          let consent := consentCovered o.tables input
          if !consent.2 then
            (o.store consent.1, .ok ⟨.consentRequired, o.tables.snapshot session, profile user⟩)
          else
            match input.code with
            | none =>
                (o.store consent.1, .ok ⟨.authorized, o.tables.snapshot session, profile user⟩)
            | some code =>
                let purged := (o.store consent.1).purgeIfDue input.now purgeGraceSeconds
                match purged.tables.issueCodeRows code session input.now input.sessionIdleTtl with
                | .error e => (purged.store o.tables, .thrown e)
                | .ok t =>
                    (purged.store t, .ok ⟨.authorized,
                      t.snapshot ((t.sessions.find session.sid).getD session), profile user⟩)

def issueOptional (t : Tables) (code : Option CodeInput) (session : SessionRow)
    (now idleTtl : ℤ) : Except SqlError Tables :=
  match code with
  | none => .ok t
  | some c => t.issueCodeRows c session now idleTtl

/-- The rest of `finalizeLogin` once the session row `sid` is written. -/
def finishLogin (t : Tables) (user : UserRow) (sid : String) (input : FinalizeLoginInput) :
    Except SqlError (Tables × Outcome Finalized) :=
  match t.sessions.find sid with
  | none => .ok (t, .fail .sessionInvalid)
  | some session =>
      match issueOptional t input.code session input.now input.sessionIdleTtl with
      | .error e => .error e
      | .ok issued =>
          .ok (issued, .ok ⟨sid, issued.snapshot ((issued.sessions.find sid).getD session),
            profile user⟩)

/-- The transaction of `finalizeLogin` after its purge. The rotate branch checks the row's
revocation and absolute expiry. -/
def loginTransaction (t : Tables) (user : UserRow) (input : FinalizeLoginInput) :
    Except SqlError (Tables × Outcome Finalized) :=
  match input.session with
  | .create session =>
      match t.insertSession session input.now with
      | .error e => .error e
      | .ok created => finishLogin created user session.sid input
  | .rotate sid secretHash auth =>
      match t.sessions.find sid with
      | none => .ok (t, .fail .sessionInvalid)
      | some existing =>
          if existing.revokedAt.isSome ∨ existing.absoluteExpiresAt ≤ input.now then
            .ok (t, .fail .sessionInvalid)
          else
            match t.rotateSession existing secretHash auth input.now input.sessionIdleTtl with
            | .error e => .error e
            | .ok rotated => finishLogin rotated user sid input

/-- Creates the session or rotates the existing one, then issues the code. -/
def finalizeLogin (o : UserObject) (input : FinalizeLoginInput) :
    UserObject × Outcome Finalized :=
  o.guarded .fail fun user =>
    if user.disabledAt.isSome then (o, .fail .userDisabled)
    else if input.client.any (fun c => !allowed user c) then (o, .fail .userNotAllowed)
    else if input.code.any (fun c => !adminAllowed user c.scope) then (o, .fail .userNotAllowed)
    else
      o.purging input.now purgeGraceSeconds .thrown fun t => loginTransaction t user input

def getSession (o : UserObject) (sid : String) (secretHash : Bytes) (now : ℤ) :
    UserObject × Outcome (SessionSnapshot × UserProfile) :=
  o.guarded .fail fun user =>
    match o.tables.liveSession sid secretHash now with
    | none => (o, .fail .sessionInvalid)
    | some session =>
        if user.disabledAt.isSome then (o, .fail .userDisabled)
        else (o, .ok (o.tables.snapshot session, profile user))

/-- Ends one session. Idempotent; returns the clients to notify. -/
def revokeSession (o : UserObject) (sid : String) (now : ℤ) (reason : String) :
    UserObject × Outcome (Option RevokedSession) :=
  o.guarded .fail fun _ =>
    o.purging now purgeGraceSeconds .thrown fun t =>
      match t.sessions.find sid with
      | none => .ok (t, .ok none)
      | some row =>
          if row.revokedAt.isSome then .ok (t, .ok none)
          else
            let ended := t.revokeSessionRows sid now reason
            .ok (ended.1, .ok (some ⟨sid, ended.2⟩))

def listSessions (o : UserObject) (now : ℤ) : UserObject × Outcome (List SessionSnapshot) :=
  o.guarded .fail fun _ => (o, .ok ((o.tables.liveSessions now).map o.tables.snapshot))

/-- Revokes every live session but `except`, with their families. -/
def revokeSessions (o : UserObject) (except : Option String) (now : ℤ) (reason : String) :
    UserObject × Outcome (List RevokedSession) :=
  o.guarded .fail fun _ =>
    o.purging now purgeGraceSeconds .thrown fun t =>
      let sids := ((t.liveSessions now).map (·.sid)).filter (fun sid => some sid != except)
      let ended := Tables.revokeEach now reason t sids
      .ok (ended.1, .ok ended.2)

def countPasskeyAttempt (o : UserObject) (now : ℤ) : UserObject × Outcome ℕ :=
  o.guarded .fail fun _ =>
    let stored := o.tables.passkeyAttempts.getD ⟨now, 0⟩
    let window := if passkeyAttemptWindowSeconds ≤ now - stored.since then ⟨now, 0⟩ else stored
    if passkeyAttemptLimit ≤ window.count then (o, .fail .tooManyAttempts)
    else
      (o.store { o.tables with passkeyAttempts := some ⟨window.since, window.count + 1⟩ },
        .ok (passkeyAttemptLimit - (window.count + 1)))

/-- Stores a single-use challenge under `key`, replacing any previous one. -/
def putChallenge (o : UserObject) (key value : String) (expiresAt : ℤ) :
    UserObject × Outcome Unit :=
  o.guarded .fail fun _ =>
    let row : ChallengeRow := ⟨key, value, expiresAt⟩
    let challenges :=
      match o.tables.challenges.insert row with
      | some inserted => inserted
      | none => o.tables.challenges.updateWhere (·.key == key)
          (fun c => { c with value := value, expiresAt := expiresAt }) (fun _ => rfl)
    (o.store { o.tables with challenges := challenges }, .ok ())

def takeChallenge (o : UserObject) (key : String) (now : ℤ) :
    UserObject × Outcome (Option String) :=
  o.guarded .fail fun _ =>
    let row := o.tables.challenges.find key
    (o.store { o.tables with challenges := o.tables.challenges.deleteWhere (·.key == key) },
      .ok ((row.filter (fun r => now < r.expiresAt)).map (·.value)))

/-- Revokes every session and every family. -/
def revokeAll (o : UserObject) (now : ℤ) (reason : String) :
    UserObject × Outcome (List RevokedSession) :=
  o.guarded .fail fun _ =>
    let ended := Tables.revokeEach now reason o.tables o.tables.unrevokedSids
    (o.store (ended.1.revokeFamiliesWhere (fun _ => true) now reason), .ok ended.2)

/-! ### Codes and refresh tokens -/

/-- The transaction of a code exchange, with the user row the call read when it started. -/
def commitExchange (o : UserObject) (user : UserRow) (expectedChallenge : Option String)
    (input : ExchangeCodeInput) : UserObject × ExchangeOutcome :=
  o.purging input.now purgeGraceSeconds .thrown fun t =>
    t.exchangeTransaction user expectedChallenge input

def suspend (o : UserObject) (call : Suspended) : UserObject :=
  { o with suspended := (o.nextCall, call) :: o.suspended, nextCall := o.nextCall + 1 }

/-- `exchangeCode` up to its `await`: only a well-formed verifier is hashed, so without one
the transaction runs at once. -/
def exchangeCode (sha256 : String → Bytes) (o : UserObject) (input : ExchangeCodeInput) :
    UserObject × Started ExchangeOutcome :=
  match o.guard with
  | .error e => (o, .done (.fail e false))
  | .ok user =>
      match input.codeVerifier.filter pkceVerifier with
      | some verifier =>
          (o.suspend (.exchange input user (encodeBase64Url (sha256 verifier))),
            .suspended o.nextCall)
      | none =>
          let committed := o.commitExchange user none input
          (committed.1, .done committed.2)

/-- The end of a suspended exchange. On a destroyed object its statements find no table. -/
def resumeExchange (o : UserObject) (call : ℕ) : UserObject × Option ExchangeOutcome :=
  match o.suspended.lookup call with
  | some (.exchange input user expectedChallenge) =>
      let rest := { o with suspended := o.suspended.filter (fun c => c.1 != call) }
      if o.destroyed then
        ((rest.purgeIfDue input.now purgeGraceSeconds).store o.tables,
          some (.thrown .noSuchTable))
      else
        let committed := rest.commitExchange user (some expectedChallenge) input
        (committed.1, some committed.2)
  | _ => (o, none)

def rotateRefreshToken (o : UserObject) (input : RotateRefreshInput) :
    UserObject × RotateOutcome :=
  o.guarded (fun e => .fail e false none) fun user =>
    o.purging input.now input.reuseWindow .thrown fun t => t.rotateTransaction user input

/-- Revokes one family; a family of another client is ignored. -/
def revokeFamilyById (o : UserObject) (familyId : String) (now : ℤ) (reason : String)
    (clientId : Option String) : UserObject × Outcome Bool :=
  o.guarded .fail fun _ =>
    match o.tables.refreshFamilies.find familyId with
    | none => (o, .ok false)
    | some family =>
        if family.revokedAt.isSome then (o, .ok false)
        else if clientId.any (fun c => family.clientId != c) then (o, .ok false)
        else (o.store (o.tables.revokeFamily familyId now reason), .ok true)

def unrevokedFamilies (t : Tables) (p : FamilyRow → Bool) : ℕ :=
  t.refreshFamilies.rows.countP (fun f => p f && f.revokedAt.isNone)

/-- One `UPDATE` of the families `p` names; the answer counts the rows it wrote. -/
def revokeFamilies (o : UserObject) (p : FamilyRow → Bool) (now : ℤ) (reason : String) :
    UserObject × Outcome ℕ :=
  o.guarded .fail fun _ =>
    (o.store (o.tables.revokeFamiliesWhere p now reason), .ok (unrevokedFamilies o.tables p))

def revokeSessionFamiliesOfClient (o : UserObject) (sid clientId : String) (now : ℤ) :
    UserObject × Outcome ℕ :=
  o.revokeFamilies (fun f => f.sid == some sid && f.clientId == clientId) now "client_revoke"

def revokeFamiliesOfClient (o : UserObject) (clientId : String) (now : ℤ) (reason : String) :
    UserObject × Outcome ℕ :=
  o.revokeFamilies (fun f => f.clientId == clientId) now reason

/-- Families not yet revoked or expired, oldest first. -/
def listFamilies (o : UserObject) (now : ℤ) : UserObject × Outcome (List FamilySnapshot) :=
  o.guarded .fail fun _ =>
    let live := (o.tables.refreshFamilies.rows.filter (Tables.familyLive now)).insertionSort
      (fun a b => Tables.familyNewer b a)
    (o, .ok (live.map fun f =>
      { id := f.id, clientId := f.clientId, kind := f.kind, sid := f.sid
        scope := f.scope.filter (fun s => 0 < s.length), authTime := f.authTime, amr := f.amr
        acr := f.acr, createdAt := f.createdAt, absoluteExpiresAt := f.absoluteExpiresAt
        idleExpiresAt := f.idleExpiresAt, currentSerial := f.currentSerial }))

/-! ### Consent grants -/

def grantRecord (row : GrantRow) : GrantRecord where
  clientId := row.clientId
  clientCreatedAt := row.clientCreatedAt
  scopes := row.scopes
  grantedAt := row.grantedAt
  updatedAt := row.updatedAt

/-- The row `grantConsent` writes: the union of the existing grant and `scopes`. -/
def grantRow (client : ClientRef) (existing : Option GrantRow) (scopes : List String) (now : ℤ) :
    GrantRow where
  clientId := client.clientId
  clientCreatedAt := client.createdAt
  scopes := sortTexts (uniqueTexts ((existing.map (·.scopes)).getD [] ++ scopes))
  grantedAt := (existing.map (·.grantedAt)).getD now
  updatedAt := now

/-- `ON CONFLICT(client_id) DO UPDATE SET scopes, updated_at`. -/
def upsertGrant (t : Tables) (row : GrantRow) : Tables :=
  { t with
    grants :=
      match t.grants.insert row with
      | some inserted => inserted
      | none => t.grants.updateWhere (·.clientId == row.clientId)
          (fun g => { g with scopes := row.scopes, updatedAt := row.updatedAt }) (fun _ => rfl) }

def grantConsent (o : UserObject) (client : ClientRef) (scopes : List String) (now : ℤ) :
    UserObject × Outcome GrantRecord :=
  o.guarded .fail fun _ =>
    let existing := o.tables.grantFor client
    let row := grantRow client existing.2 scopes now
    let t := upsertGrant existing.1 row
    (o.store t, .ok (grantRecord ((t.grantFor client).2.getD row)))

def grantLe (a b : GrantRow) : Prop :=
  a.grantedAt < b.grantedAt ∨ a.grantedAt = b.grantedAt ∧ a.clientId ≤ b.clientId

instance : DecidableRel grantLe := fun a b =>
  inferInstanceAs
    (Decidable (a.grantedAt < b.grantedAt ∨ a.grantedAt = b.grantedAt ∧ a.clientId ≤ b.clientId))

def grantClientIds (o : UserObject) : UserObject × Outcome (List String) :=
  o.guarded .fail fun _ =>
    (o, .ok ((o.tables.grants.rows.insertionSort grantLe).map (·.clientId)))

/-- `new Map(clients.map((c) => [c.client_id, c]))`: the last record of an id wins. -/
def knownClient (clients : List ClientRef) (clientId : String) : Option ClientRef :=
  clients.reverse.find? (fun c => c.clientId == clientId)

def grantCurrent (clients : List ClientRef) (row : GrantRow) : Bool :=
  (knownClient clients row.clientId).any (fun c => c.createdAt == row.clientCreatedAt)

/-- The grants whose client the caller confirms; every other row is deleted. -/
def listGrants (o : UserObject) (clients : List ClientRef) :
    UserObject × Outcome (List GrantRecord) :=
  o.guarded .fail fun _ =>
    (o.store { o.tables with grants := o.tables.grants.deleteWhere (!grantCurrent clients ·) },
      .ok (((o.tables.grants.rows.insertionSort grantLe).filter (grantCurrent clients)).map
        grantRecord))

/-- Deletes the grant and revokes every family of that client. -/
def revokeGrant (o : UserObject) (clientId : String) (now : ℤ) : UserObject × Outcome Bool :=
  o.guarded .fail fun _ =>
    let t := { o.tables with grants := o.tables.grants.deleteWhere (·.clientId == clientId) }
    (o.store (t.revokeFamiliesWhere (·.clientId == clientId) now "consent_revoked"),
      .ok (o.tables.grants.find clientId).isSome)

/-! ### Passkeys and identities -/

def passkeyRow (p : NewPasskey) (now : ℤ) : PasskeyRow where
  id := p.id
  credentialId := p.credentialId
  publicKey := p.publicKey
  alg := p.alg
  counter := p.counter
  transports := p.transports
  aaguid := p.aaguid
  backupEligible := p.backupEligible
  backedUp := p.backedUp
  name := p.name
  createdVia := p.createdVia
  createdAt := now
  lastUsedAt := none

def addPasskey (o : UserObject) (p : NewPasskey) (now : ℤ) (maxPerUser : ℕ) :
    UserObject × Outcome PasskeyRow :=
  o.guarded .fail fun _ =>
    if maxPerUser ≤ o.tables.passkeys.rows.length then (o, .fail .passkeyLimitReached)
    else if o.tables.passkeys.rows.any
      (fun r => r.credentialId == p.credentialId || r.id == p.id) then
      (o, .fail .passkeyExists)
    else
      match o.tables.passkeys.insert (passkeyRow p now) with
      | none => (o, .thrown .uniqueViolation)
      | some passkeys =>
          (o.store { o.tables with passkeys := passkeys }, .ok (passkeyRow p now))

def passkeyByCredential (t : Tables) (credentialId : String) : Option PasskeyRow :=
  t.passkeys.rows.find? (fun r => r.credentialId == credentialId)

/-- `verifyAssertion` up to the signature check. -/
def verifyAssertion (o : UserObject) (credentialId : String) (now : ℤ) :
    UserObject × Started AssertionOutcome :=
  o.guarded (fun e => .done (.fail e)) fun _ =>
    match passkeyByCredential o.tables credentialId with
    | none => (o, .done (.fail .passkeyVerificationFailed))
    | some _ => (o.suspend (.assertion credentialId now), .suspended o.nextCall)

/-- The transaction of `verifyAssertion` on the row as it is now. -/
def commitAssertion (o : UserObject) (credentialId : String) (now : ℤ) (newCounter : ℕ) :
    UserObject × AssertionOutcome :=
  match passkeyByCredential o.tables credentialId, o.tables.user with
  | some row, some user =>
      if counterPolicy row.counter newCounter = .regression then
        (o, .regression row.id row.counter newCounter)
      else
        let updated := { row with counter := newCounter, lastUsedAt := some now }
        (o.store { o.tables with
            passkeys := o.tables.passkeys.updateWhere (·.id == row.id)
              (fun r => { r with counter := newCounter, lastUsedAt := some now }) (fun _ => rfl) },
          .ok (profile user) updated)
  | _, _ => (o, .fail .passkeyVerificationFailed)

/-- The end of a suspended assertion; `verified` is the new counter of a valid signature. -/
def resumeAssertion (o : UserObject) (call : ℕ) (verified : Option ℕ) :
    UserObject × Option AssertionOutcome :=
  match o.suspended.lookup call with
  | some (.assertion credentialId now) =>
      let rest := { o with suspended := o.suspended.filter (fun c => c.1 != call) }
      match verified with
      | none => (rest, some (.fail .passkeyVerificationFailed))
      | some newCounter =>
          if o.destroyed then (rest, some (.thrown .noSuchTable))
          else
            let committed := rest.commitAssertion credentialId now newCounter
            (committed.1, some committed.2)
  | _ => (o, none)

def listPasskeys (o : UserObject) : UserObject × Outcome (List PasskeyRow) :=
  o.guarded .fail fun _ =>
    (o, .ok (o.tables.passkeys.rows.insertionSort
      (fun a b => a.createdAt < b.createdAt ∨ a.createdAt = b.createdAt ∧ a.id ≤ b.id)))

def isLastLoginMethod (t : Tables) (present : Bool) : Bool :=
  present && t.passkeys.rows.length + t.identities.rows.length == 1

def removePasskey (o : UserObject) (id : String) (actor : RemovalActor) :
    UserObject × Outcome Bool :=
  o.guarded .fail fun _ =>
    let present := (o.tables.passkeys.find id).isSome
    if actor = .self ∧ isLastLoginMethod o.tables present then (o, .fail .lastLoginMethod)
    else
      (o.store { o.tables with passkeys := o.tables.passkeys.deleteWhere (·.id == id) },
        .ok present)

def renamePasskey (o : UserObject) (id : String) (name : Option String) :
    UserObject × Outcome Bool :=
  o.guarded .fail fun _ =>
    (o.store { o.tables with
        passkeys := o.tables.passkeys.updateWhere (·.id == id)
          (fun r => { r with name := name }) (fun _ => rfl) },
      .ok (o.tables.passkeys.find id).isSome)

def addIdentity (o : UserObject) (identity : NewIdentity) (now : ℤ) :
    UserObject × Outcome IdentityRow :=
  o.guarded .fail fun _ =>
    if o.tables.identities.rows.any (fun r =>
        r.issuer == identity.issuer && r.subject == identity.subject || r.id == identity.id) then
      (o, .fail .identityExists)
    else
      match insertIdentity o.tables identity now with
      | .error e => (o, .thrown e)
      | .ok t => (o.store t, .ok (identityRow identity now))

/-- Records a federated login on an identity; `false` when the pair is not linked. -/
def touchIdentity (o : UserObject) (issuer subject : String) (claims : IdentityClaims) (now : ℤ) :
    UserObject × Outcome Bool :=
  o.guarded .fail fun _ =>
    let named (r : IdentityRow) : Bool := r.issuer == issuer && r.subject == subject
    (o.store { o.tables with
        identities := o.tables.identities.updateWhere named
          (fun r => { r with
            email := claims.email, emailVerified := some claims.emailVerified
            name := claims.name, lastLoginAt := some now })
          (fun _ => rfl) },
      .ok (o.tables.identities.rows.any named))

def listIdentities (o : UserObject) : UserObject × Outcome (List IdentityRow) :=
  o.guarded .fail fun _ =>
    (o, .ok (o.tables.identities.rows.insertionSort
      (fun a b => a.createdAt < b.createdAt ∨ a.createdAt = b.createdAt ∧ a.id ≤ b.id)))

def removeIdentity (o : UserObject) (id : String) (actor : RemovalActor) :
    UserObject × Outcome Bool :=
  o.guarded .fail fun _ =>
    let present := (o.tables.identities.find id).isSome
    if actor = .self ∧ isLastLoginMethod o.tables present then (o, .fail .lastLoginMethod)
    else
      (o.store { o.tables with identities := o.tables.identities.deleteWhere (·.id == id) },
        .ok present)

/-- A partial profile update; a changed email resets its verification unless the caller sets it. -/
def updateProfile (o : UserObject) (patch : ProfilePatch) (now : ℤ) :
    UserObject × Outcome UserProfile :=
  o.guarded .fail fun row =>
    let email := patch.email.getD row.email
    let emailNorm := if patch.email.isNone then row.emailNorm else patch.emailNorm.getD none
    let verified :=
      patch.emailVerified.getD (if email ≠ row.email then false else row.emailVerified)
    let updated := { row with
      email := email, emailNorm := emailNorm, emailVerified := verified
      displayName := patch.displayName.getD row.displayName, updatedAt := now }
    (o.setUser updated, .ok (profile updated))

end UserObject
end TinyOidc.User
