import TinyOidc.Lib.Machine
import TinyOidc.Token.Claims

/-! Back-channel logout (`src/logout/backchannel.ts`, `src/oidc/tokens.ts`): one logout token for
each client of an ended session, posted at once, and retried by the consumer of the task queue
when the post fails. What a post is answered, what the registry says of a client and whether the
queue accepts a message are inputs. -/
namespace TinyOidc.Logout
open TinyOidc.Token (SignedJwt signJwt)
open TinyOidc.Keys (LoadedKeys)

/-! ### Logout tokens -/

def logoutTokenTtl : ℤ := 120

structure LogoutTokenInput where
  issuer : String
  clientId : String
  sub : String
  sid : String
  jti : String
  now : ℤ
  deriving DecidableEq, Repr

/-- `event` is the one key of the `events` claim. -/
structure LogoutTokenClaims where
  iss : String
  sub : String
  aud : String
  iat : ℤ
  exp : ℤ
  jti : String
  sid : String
  event : String
  deriving DecidableEq, Repr

def logoutTokenClaims (input : LogoutTokenInput) : LogoutTokenClaims where
  iss := input.issuer
  sub := input.sub
  aud := input.clientId
  iat := input.now
  exp := input.now + logoutTokenTtl
  jti := input.jti
  sid := input.sid
  event := "http://schemas.openid.net/event/backchannel-logout"

abbrev LogoutJwt := SignedJwt LogoutTokenClaims

def mintLogoutToken (keys : LoadedKeys) (input : LogoutTokenInput) : LogoutJwt :=
  signJwt keys .logoutToken (logoutTokenClaims input)

/-- The text of a token: one the provider minted, or another with the `jti` it decodes to. -/
inductive TokenText where
  | minted (jwt : LogoutJwt)
  | other (text : String) (jti : Option String)
  deriving DecidableEq, Repr

def decodeJwtId : TokenText → Option String
  | .minted jwt => some jwt.claims.jti
  | .other _ jti => jti

/-! ### Delivery -/

/-- How a `fetch` ends: with a status, or with an error of a name. -/
inductive FetchAnswer where
  | status (code : ℕ)
  | error (name : String)
  deriving DecidableEq, Repr

inductive DeliveryResult where
  | ok
  | failed (reason : String)
  deriving DecidableEq, Repr

/-- Anything but 2xx is a failure. -/
def deliverLogoutToken (answer : FetchAnswer) : DeliveryResult :=
  match answer with
  | .status code =>
      if 200 ≤ code ∧ code ≤ 299 then .ok else .failed ("status_" ++ toString code)
  | .error name => .failed (if name = "TimeoutError" then "timeout" else "unreachable")

/-- Seconds before each retry. -/
def retryDelaysSeconds : List ℤ := [30, 120, 600, 1800, 7200]

def maxAttempts : ℕ := retryDelaysSeconds.length

/-- A task of the queue; `attempt` counts from 1. -/
structure BackchannelTask where
  clientId : String
  uri : String
  token : TokenText
  attempt : ℕ
  sid : String
  uid : String
  deriving DecidableEq, Repr

/-- What the consumer reads of a message: a field of another type is absent. -/
structure TaskBody where
  kind : Option String
  clientId : Option String
  uri : Option String
  token : Option TokenText
  attempt : Option ℤ
  sid : Option String
  uid : Option String
  deriving DecidableEq, Repr

def BackchannelTask.body (task : BackchannelTask) : TaskBody where
  kind := some "backchannel_logout"
  clientId := some task.clientId
  uri := some task.uri
  token := some task.token
  attempt := some task.attempt
  sid := some task.sid
  uid := some task.uid

def TokenText.isEmpty : TokenText → Bool
  | .minted _ => false
  | .other text _ => text = ""

/-- `BackchannelTaskSchema.safeParse`. -/
def parseTask (body : TaskBody) : Option BackchannelTask :=
  match body with
  | ⟨some kind, some clientId, some uri, some token, some attempt, some sid, some uid⟩ =>
      if kind = "backchannel_logout" ∧ clientId ≠ "" ∧ uri ≠ "" ∧ token.isEmpty = false ∧
          1 ≤ attempt ∧ sid ≠ "" ∧ uid ≠ "" then
        some ⟨clientId, uri, token, attempt.toNat, sid, uid⟩
      else none
  | _ => none

/-! ### Notices and retries -/

inductive ClientAnswer where
  | unavailable
  | missing
  | found (backchannelLogoutUri : Option String)
  deriving DecidableEq, Repr

def ClientAnswer.uri : ClientAnswer → Option String
  | .found uri => uri
  | .unavailable | .missing => none

/-- A client of the session, the answer of the registry and the id drawn for its token. -/
structure SessionClient where
  clientId : String
  answer : ClientAnswer
  jti : String
  deriving DecidableEq, Repr

inductive Action where
  /-- The event `logout.backchannel_sent`. -/
  | sent (uid clientId sid jti : String)
  | posted (uri : String) (token : LogoutJwt)
  | answered (uri : String) (token : LogoutJwt) (result : DeliveryResult)
  /-- The event `logout.backchannel_failed`. -/
  | gaveUp (uid clientId sid reason jti : String) (attempts : ℕ)
  /-- The log of a retry that the queue did not take. -/
  | unqueued (task : BackchannelTask)
  /-- The log of a message that is dropped unread. -/
  | malformed
  deriving DecidableEq, Repr

/-- A client to notify, with the place and the id of its token. -/
structure Notice where
  uid : String
  sid : String
  clientId : String
  uri : String
  jti : String
  deriving DecidableEq, Repr

/-- The clients of an ended session that registered a `backchannel_logout_uri`. -/
def noticesOf (uid sid : String) (clients : List SessionClient) : List Notice :=
  clients.filterMap fun c => c.answer.uri.map fun uri => ⟨uid, sid, c.clientId, uri, c.jti⟩

/-- The token of an attempt made at `now`. -/
def Notice.token (issuer : String) (keys : LoadedKeys) (now : ℤ) (n : Notice) : LogoutJwt :=
  mintLogoutToken keys ⟨issuer, n.clientId, n.uid, n.sid, n.jti, now⟩

/-- The task of the first retry. -/
def Notice.task (issuer : String) (keys : LoadedKeys) (now : ℤ) (n : Notice) : BackchannelTask where
  clientId := n.clientId
  uri := n.uri
  token := .minted (n.token issuer keys now)
  attempt := 1
  sid := n.sid
  uid := n.uid

/-- A first post that is not answered yet, with the task of its retry. -/
structure FirstPost where
  token : LogoutJwt
  task : BackchannelTask
  deriving DecidableEq, Repr

def Notice.first (issuer : String) (keys : LoadedKeys) (now : ℤ) (n : Notice) : FirstPost where
  token := n.token issuer keys now
  task := n.task issuer keys now

def Notice.actions (issuer : String) (keys : LoadedKeys) (now : ℤ) (n : Notice) : List Action :=
  [.sent n.uid n.clientId n.sid n.jti, .posted n.uri (n.token issuer keys now)]

/-- What a retry does, and the message it leaves for the next one with its delay. -/
def retryBackchannel (issuer : String) (keys : LoadedKeys) (now : ℤ) (body : TaskBody)
    (answer : FetchAnswer) : List Action × Option (BackchannelTask × ℤ) :=
  match parseTask body with
  | none => ([.malformed], none)
  | some task =>
      match decodeJwtId task.token with
      | none => ([.malformed], none)
      | some jti =>
          let token := mintLogoutToken keys ⟨issuer, task.clientId, task.uid, task.sid, jti, now⟩
          let delivered := deliverLogoutToken answer
          let done := [.posted task.uri token, .answered task.uri token delivered]
          match delivered with
          | .ok => (done, none)
          | .failed reason =>
              if maxAttempts ≤ task.attempt then
                (done ++ [.gaveUp task.uid task.clientId task.sid reason jti task.attempt], none)
              else
                (done, some ({ task with token := .minted token, attempt := task.attempt + 1 },
                  retryDelaysSeconds.getD task.attempt 0))

/-! ### Runs -/

structure Message where
  body : TaskBody
  delaySeconds : ℤ
  deriving DecidableEq, Repr

/-- The first posts under way in `waitUntil`, the messages of the task queue and those it gave
up after their redeliveries. -/
structure Deliveries where
  inFlight : List FirstPost
  queued : List Message
  dead : List Message
  deriving DecidableEq, Repr

def Deliveries.empty : Deliveries := ⟨[], [], []⟩

/-- What happens next: a session ended, a first post is answered, the queue hands out a message or
gives one up. `accepted` is whether the queue takes the retry; `keys` are absent when the key store
throws; a message that is not `acked` is handed out again. -/
inductive Turn where
  | notify (keys : LoadedKeys) (now : ℤ) (uid sid : String) (clients : List SessionClient)
  | answer (post : ℕ) (answer : FetchAnswer) (accepted : Bool)
  | consume (message : ℕ) (keys : Option LoadedKeys) (now : ℤ) (answer : FetchAnswer)
      (accepted acked : Bool)
  | giveUp (message : ℕ)
  deriving DecidableEq, Repr

def Turn.notices : Turn → List Notice
  | .notify _ _ uid sid clients => noticesOf uid sid clients
  | _ => []

def enqueueRetry (s : Deliveries) (task : BackchannelTask) (delaySeconds : ℤ) (accepted : Bool) :
    Deliveries × List Action :=
  if accepted then ({ s with queued := s.queued ++ [⟨task.body, delaySeconds⟩] }, [])
  else (s, [.unqueued task])

def notifyClients (issuer : String) (keys : LoadedKeys) (now : ℤ) (uid sid : String)
    (clients : List SessionClient) (s : Deliveries) : Deliveries × List Action :=
  let notices := noticesOf uid sid clients
  ({ s with inFlight := s.inFlight ++ notices.map (Notice.first issuer keys now) },
    notices.flatMap (Notice.actions issuer keys now))

def firstAnswered (s : Deliveries) (post : FirstPost) (answer : FetchAnswer) (accepted : Bool) :
    Deliveries × List Action :=
  let delivered := deliverLogoutToken answer
  let done := .answered post.task.uri post.token delivered
  match delivered with
  | .ok => (s, [done])
  | .failed _ =>
      let rest := enqueueRetry s post.task (retryDelaysSeconds.getD 0 0) accepted
      (rest.1, done :: rest.2)

def consumed (issuer : String) (s : Deliveries) (keys : LoadedKeys) (now : ℤ) (body : TaskBody)
    (answer : FetchAnswer) (accepted : Bool) : Deliveries × List Action :=
  let retry := retryBackchannel issuer keys now body answer
  match retry.2 with
  | none => (s, retry.1)
  | some next =>
      let rest := enqueueRetry s next.1 next.2 accepted
      (rest.1, retry.1 ++ rest.2)

def Deliveries.step (issuer : String) (s : Deliveries) : Turn → Deliveries × List Action
  | .notify keys now uid sid clients => notifyClients issuer keys now uid sid clients s
  | .answer post answer accepted =>
      match s.inFlight[post]? with
      | none => (s, [])
      | some p => firstAnswered { s with inFlight := s.inFlight.eraseIdx post } p answer accepted
  | .consume message keys now answer accepted acked =>
      match s.queued[message]?, keys with
      | some m, some keys =>
          let left := if acked then { s with queued := s.queued.eraseIdx message } else s
          consumed issuer left keys now m.body answer accepted
      | _, _ => (s, [])
  | .giveUp message =>
      match s.queued[message]? with
      | none => (s, [])
      | some m => ({ s with queued := s.queued.eraseIdx message, dead := s.dead ++ [m] }, [])

end TinyOidc.Logout
