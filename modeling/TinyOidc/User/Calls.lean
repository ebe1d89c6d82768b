import TinyOidc.Lib.Machine
import TinyOidc.User.Object

/-! Runs of one object: its calls, the parts of a suspended call as steps of their own,
eviction, and what an answered call stored. -/
namespace TinyOidc.User
open RowTable

inductive Call where
  | init (p : InitProfile) (now : ℤ) (identities : List NewIdentity)
  | destroy
  | evict
  | getProfile
  | setGroups (groups : List String) (now : ℤ)
  | setDisabled (disabledAt : Option ℤ) (now : ℤ)
  | touch (now reuseWindow : ℤ)
  | authorizeWithSession (input : AuthorizeWithSessionInput)
  | finalizeLogin (input : FinalizeLoginInput)
  | getSession (sid : String) (secretHash : Bytes) (now : ℤ)
  | revokeSession (sid : String) (now : ℤ) (reason : String)
  | listSessions (now : ℤ)
  | revokeSessions (except : Option String) (now : ℤ) (reason : String)
  | countPasskeyAttempt (now : ℤ)
  | putChallenge (key value : String) (expiresAt : ℤ)
  | takeChallenge (key : String) (now : ℤ)
  | revokeAll (now : ℤ) (reason : String)
  | exchangeCode (input : ExchangeCodeInput)
  | resumeExchange (call : ℕ)
  | rotateRefreshToken (input : RotateRefreshInput)
  | revokeFamilyById (familyId : String) (now : ℤ) (reason : String) (clientId : Option String)
  | revokeSessionFamiliesOfClient (sid clientId : String) (now : ℤ)
  | revokeFamiliesOfClient (clientId : String) (now : ℤ) (reason : String)
  | listFamilies (now : ℤ)
  | grantConsent (client : ClientRef) (scopes : List String) (now : ℤ)
  | grantClientIds
  | listGrants (clients : List ClientRef)
  | revokeGrant (clientId : String) (now : ℤ)
  | addPasskey (passkey : NewPasskey) (now : ℤ) (maxPerUser : ℕ)
  | verifyAssertion (credentialId : String) (now : ℤ)
  | resumeAssertion (call : ℕ) (verified : Option ℕ)
  | listPasskeys
  | removePasskey (id : String) (actor : RemovalActor)
  | renamePasskey (id : String) (name : Option String)
  | addIdentity (identity : NewIdentity) (now : ℤ)
  | touchIdentity (issuer subject : String) (claims : IdentityClaims) (now : ℤ)
  | listIdentities
  | removeIdentity (id : String) (actor : RemovalActor)
  | updateProfile (patch : ProfilePatch) (now : ℤ)
  deriving DecidableEq, Repr

inductive Reply where
  | none
  | profile (result : Outcome UserProfile)
  | disabled (result : Outcome (UserProfile × List RevokedSession))
  | unit (result : Outcome Unit)
  | authorize (result : Outcome Authorized)
  | login (result : Outcome Finalized)
  | session (result : Outcome (SessionSnapshot × UserProfile))
  | revokedSession (result : Outcome (Option RevokedSession))
  | revokedSessions (result : Outcome (List RevokedSession))
  | sessions (result : Outcome (List SessionSnapshot))
  | count (result : Outcome ℕ)
  | challenge (result : Outcome (Option String))
  | exchange (result : Started ExchangeOutcome)
  | rotate (result : RotateOutcome)
  | flag (result : Outcome Bool)
  | families (result : Outcome (List FamilySnapshot))
  | grant (result : Outcome GrantRecord)
  | clientIds (result : Outcome (List String))
  | grants (result : Outcome (List GrantRecord))
  | passkey (result : Outcome PasskeyRow)
  | passkeys (result : Outcome (List PasskeyRow))
  | assertion (result : Started AssertionOutcome)
  | identity (result : Outcome IdentityRow)
  | identities (result : Outcome (List IdentityRow))
  deriving DecidableEq, Repr

/-- The reply a resumed exchange gives; resuming a call that is not suspended does nothing. -/
def exchangeReply : Option ExchangeOutcome → Reply
  | some outcome => .exchange (.done outcome)
  | none => .none

def assertionReply : Option AssertionOutcome → Reply
  | some outcome => .assertion (.done outcome)
  | none => .none

def answered {α : Type} (reply : α → Reply) (r : UserObject × α) : UserObject × Reply :=
  (r.1, reply r.2)

def UserObject.call (sha256 : String → Bytes) (o : UserObject) : Call → UserObject × Reply
  | .init p now identities => answered .profile (o.init p now identities)
  | .destroy => (o.destroy, .none)
  | .evict => (o.evict, .none)
  | .getProfile => answered .profile o.getProfile
  | .setGroups groups now => answered .profile (o.setGroups groups now)
  | .setDisabled disabledAt now => answered .disabled (o.setDisabled disabledAt now)
  | .touch now reuseWindow => answered .unit (o.touch now reuseWindow)
  | .authorizeWithSession input => answered .authorize (o.authorizeWithSession input)
  | .finalizeLogin input => answered .login (o.finalizeLogin input)
  | .getSession sid secretHash now => answered .session (o.getSession sid secretHash now)
  | .revokeSession sid now reason => answered .revokedSession (o.revokeSession sid now reason)
  | .listSessions now => answered .sessions (o.listSessions now)
  | .revokeSessions except now reason =>
      answered .revokedSessions (o.revokeSessions except now reason)
  | .countPasskeyAttempt now => answered .count (o.countPasskeyAttempt now)
  | .putChallenge key value expiresAt => answered .unit (o.putChallenge key value expiresAt)
  | .takeChallenge key now => answered .challenge (o.takeChallenge key now)
  | .revokeAll now reason => answered .revokedSessions (o.revokeAll now reason)
  | .exchangeCode input => answered .exchange (o.exchangeCode sha256 input)
  | .resumeExchange call => answered exchangeReply (o.resumeExchange call)
  | .rotateRefreshToken input => answered .rotate (o.rotateRefreshToken input)
  | .revokeFamilyById familyId now reason clientId =>
      answered .flag (o.revokeFamilyById familyId now reason clientId)
  | .revokeSessionFamiliesOfClient sid clientId now =>
      answered .count (o.revokeSessionFamiliesOfClient sid clientId now)
  | .revokeFamiliesOfClient clientId now reason =>
      answered .count (o.revokeFamiliesOfClient clientId now reason)
  | .listFamilies now => answered .families (o.listFamilies now)
  | .grantConsent client scopes now => answered .grant (o.grantConsent client scopes now)
  | .grantClientIds => answered .clientIds o.grantClientIds
  | .listGrants clients => answered .grants (o.listGrants clients)
  | .revokeGrant clientId now => answered .flag (o.revokeGrant clientId now)
  | .addPasskey passkey now maxPerUser => answered .passkey (o.addPasskey passkey now maxPerUser)
  | .verifyAssertion credentialId now => answered .assertion (o.verifyAssertion credentialId now)
  | .resumeAssertion call verified => answered assertionReply (o.resumeAssertion call verified)
  | .listPasskeys => answered .passkeys o.listPasskeys
  | .removePasskey id actor => answered .flag (o.removePasskey id actor)
  | .renamePasskey id name => answered .flag (o.renamePasskey id name)
  | .addIdentity identity now => answered .identity (o.addIdentity identity now)
  | .touchIdentity issuer subject claims now =>
      answered .flag (o.touchIdentity issuer subject claims now)
  | .listIdentities => answered .identities o.listIdentities
  | .removeIdentity id actor => answered .flag (o.removeIdentity id actor)
  | .updateProfile patch now => answered .profile (o.updateProfile patch now)

/-- The clock reading a call was given; the end of a suspended call has none of its own. -/
def Call.now? : Call → Option ℤ
  | .init _ now _ | .setGroups _ now | .setDisabled _ now | .touch now _ | .getSession _ _ now
  | .revokeSession _ now _ | .listSessions now | .revokeSessions _ now _
  | .countPasskeyAttempt now | .takeChallenge _ now | .revokeAll now _
  | .revokeFamilyById _ now _ _ | .revokeSessionFamiliesOfClient _ _ now
  | .revokeFamiliesOfClient _ now _ | .listFamilies now | .grantConsent _ _ now
  | .revokeGrant _ now | .addPasskey _ now _ | .verifyAssertion _ now | .addIdentity _ now
  | .touchIdentity _ _ _ now | .updateProfile _ now => some now
  | .authorizeWithSession input => some input.now
  | .finalizeLogin input => some input.now
  | .exchangeCode input => some input.now
  | .rotateRefreshToken input => some input.now
  | .destroy | .evict | .getProfile | .putChallenge _ _ _ | .resumeExchange _ | .grantClientIds
  | .listGrants _ | .resumeAssertion _ _ | .listPasskeys | .removePasskey _ _
  | .renamePasskey _ _ | .listIdentities | .removeIdentity _ _ => none

abbrev CallEvent := Machine.Event UserObject Call Reply

/-- The object after a run of calls, newest first, from a fresh one. -/
abbrev after (sha256 : String → Bytes) (calls : List Call) : UserObject :=
  Machine.after (UserObject.call sha256) .fresh calls

abbrev history (sha256 : String → Bytes) (calls : List Call) : List CallEvent :=
  Machine.events (UserObject.call sha256) .fresh calls

def sessionCreated (e : CallEvent) : Option String :=
  match e.input, e.reply with
  | .finalizeLogin input, .login (.ok _) =>
      match input.session with
      | .create session => some session.sid
      | .rotate _ _ _ => none
  | _, _ => none

def codeIssued (e : CallEvent) : Option Bytes :=
  match e.input, e.reply with
  | .finalizeLogin input, .login (.ok _) => input.code.map (·.secretHash)
  | .authorizeWithSession input, .authorize (.ok a) =>
      if a.outcome = .authorized then input.code.map (·.secretHash) else none
  | _, _ => none

def exchangeRun (e : CallEvent) : Option ExchangeCodeInput :=
  match e.input with
  | .exchangeCode input => some input
  | .resumeExchange call =>
      match e.pre.suspended.lookup call with
      | some (.exchange input _ _) => some input
      | _ => none
  | _ => none

def exchangeOk (e : CallEvent) : Bool :=
  match e.reply with
  | .exchange (.done (.ok _ _ _ _)) => true
  | _ => false

def exchangeSucceeded (e : CallEvent) : Option ExchangeCodeInput :=
  if exchangeOk e then exchangeRun e else none

def codeExchanged (e : CallEvent) : Option Bytes := (exchangeSucceeded e).map (·.secretHash)

def familyOpened (e : CallEvent) : Option String :=
  (exchangeSucceeded e).bind (fun input => input.refresh.map (·.familyId))

def rotationSucceeded (e : CallEvent) : Option RotateRefreshInput :=
  match e.input, e.reply with
  | .rotateRefreshToken input, .rotate (.ok _ _ _) => some input
  | _, _ => none

def tokenIssued (e : CallEvent) : Option (String × Bytes) :=
  match rotationSucceeded e with
  | some input => some (input.familyId, input.newSecretHash)
  | none =>
      (exchangeSucceeded e).bind
        (fun input => input.refresh.map (fun r => (r.familyId, r.secretHash)))

def tokenRedeemed (e : CallEvent) : Option (String × Bytes) :=
  (rotationSucceeded e).map (fun input => (input.familyId, input.secretHash))

def sessionRead (e : CallEvent) : Option String :=
  match e.input, e.reply with
  | .getSession sid _ _, .session (.ok _) => some sid
  | .authorizeWithSession input, .authorize (.ok _) => some input.sid
  | _, _ => none

/-- The session a successful call used: read, authorized with, or rotated. -/
def sessionUsed (e : CallEvent) : Option String :=
  match e.input, e.reply with
  | .finalizeLogin input, .login (.ok _) =>
      match input.session with
      | .create _ => none
      | .rotate sid _ _ => some sid
  | _, _ => sessionRead e

/-- Ids and secrets are fresh: what a call stores was never stored before in the run. -/
structure Fresh (h : List CallEvent) : Prop where
  sessions : (h.filterMap sessionCreated).Nodup
  codes : (h.filterMap codeIssued).Nodup
  families : (h.filterMap familyOpened).Nodup
  tokens : (h.filterMap tokenIssued).Nodup

instance (h : List CallEvent) : Decidable (Fresh h) :=
  decidable_of_iff ((h.filterMap sessionCreated).Nodup ∧ (h.filterMap codeIssued).Nodup ∧
      (h.filterMap familyOpened).Nodup ∧ (h.filterMap tokenIssued).Nodup)
    ⟨fun ⟨a, b, c, d⟩ => ⟨a, b, c, d⟩, fun ⟨a, b, c, d⟩ => ⟨a, b, c, d⟩⟩

theorem nodup_filterMap_tail {α β : Type} {f : α → Option β} {a : α} {l : List α}
    (h : ((a :: l).filterMap f).Nodup) : (l.filterMap f).Nodup := by
  cases hf : f a with
  | none => rwa [List.filterMap_cons_none hf] at h
  | some b =>
    rw [List.filterMap_cons_some hf] at h
    exact (List.nodup_cons.mp h).2

theorem Fresh.tail {e : CallEvent} {h : List CallEvent} (hf : Fresh (e :: h)) : Fresh h :=
  ⟨nodup_filterMap_tail hf.sessions, nodup_filterMap_tail hf.codes,
    nodup_filterMap_tail hf.families, nodup_filterMap_tail hf.tokens⟩

/-- A fresh value is not among those stored earlier. -/
theorem notMem_of_nodup {α β : Type} {f : α → Option β} {a : α} {l : List α} {b : β}
    (h : ((a :: l).filterMap f).Nodup) (hf : f a = some b) : b ∉ l.filterMap f := by
  rw [List.filterMap_cons_some hf] at h
  exact (List.nodup_cons.mp h).1

/-- The clock readings of the calls, newest first, do not decrease along the run. -/
def ClockMonotone (calls : List Call) : Prop :=
  (calls.filterMap Call.now?).Pairwise (fun later earlier => earlier ≤ later)

instance (calls : List Call) : Decidable (ClockMonotone calls) :=
  inferInstanceAs (Decidable ((calls.filterMap Call.now?).Pairwise _))

/-! ### Sample calls -/

namespace Sample

/-- The verifier of RFC 7636, appendix B. -/
def verifier : String := "dBjftJeZ4CVP-mB92K27uhbUJU1p1r_wW1gFWFOEjXk"

/-- SHA-256 on the one text the samples hash. -/
def sha256 (text : String) : Bytes :=
  if text = verifier then
    [19, 211, 30, 150, 26, 26, 216, 236, 47, 22, 177, 12, 76, 152, 46, 8, 118, 168, 120, 173, 109,
      241, 68, 86, 110, 225, 137, 74, 203, 112, 249, 195]
  else []

def client : ClientRef := ⟨"app", 5, true, none⟩

def auth : AuthContext := ⟨0, ["user", "hwk"], "urn:tinyoidc:acr:passkey", none⟩

def code (secretHash : Bytes) : CodeInput :=
  ⟨secretHash, "app", "https://app.test/cb", ["openid", "offline_access"], none, none⟩

def init : Call := .init ⟨"u1", none, none, false, none, []⟩ 0 []

def login (sid : String) (secretHash : Bytes) (now : ℤ) (code : Option CodeInput) : Call :=
  .finalizeLogin ⟨now, .create ⟨sid, secretHash, auth, ⟨none, none, none⟩, 900, 86400⟩, code,
    some client, 900⟩

/-- A login that rotates the session `sid`. -/
def relogin (sid : String) (secretHash : Bytes) (now : ℤ) : Call :=
  .finalizeLogin ⟨now, .rotate sid secretHash auth, none, some client, 900⟩

def refresh (familyId : String) (secretHash : Bytes) (offline : Bool) : RefreshInput :=
  ⟨secretHash, familyId, offline, 864000, 8640000⟩

def exchange (secretHash : Bytes) (now : ℤ) (refresh : Option RefreshInput) : Call :=
  .exchangeCode ⟨secretHash, client, "https://app.test/cb", none, now, refresh⟩

def rotation (familyId : String) (secretHash newSecretHash : Bytes) (now reuseWindow : ℤ) :
    RotateRefreshInput :=
  ⟨familyId, secretHash, client, now, none, newSecretHash, 864000, 900, reuseWindow⟩

def rotate (familyId : String) (secretHash newSecretHash : Bytes) (now reuseWindow : ℤ) : Call :=
  .rotateRefreshToken (rotation familyId secretHash newSecretHash now reuseWindow)

end Sample
end TinyOidc.User
