import TinyOidc.Interaction.Flow

/-! What each request may call, given what it has called before: the one statement about the
programs of the handlers that the run theorems use. A request keeps a log of its own calls;
the protocol reads off it which documents the request has seen, whether it holds the claim on
an interaction, and whether it has issued a code. -/
namespace TinyOidc.Interaction
open TinyOidc.User Threads
open Threads.Prog (Obeys Only)

abbrev Log := List (Entry Op.Answer)

/-! ### Reading a log -/

/-- The document of `id` an entry showed, once it was past being a pushed request. -/
def openDocument (id : String) : Entry Op.Answer → Option InteractionDocument
  | ⟨.interaction id' (.get _), .ok d⟩ => if id' = id ∧ d.status ≠ .pushed then some d else none
  | ⟨.interaction id' (.consumeFederation _ _), .ok (d, _)⟩ => if id' = id then some d else none
  | _ => none

/-- Whether an entry took the interaction, for `/authorize` or for `/complete`. -/
def takes (id : String) : Entry Op.Answer → Bool
  | ⟨.interaction id' (.claimPushed _ _ _ _), .ok _⟩ => id' == id
  | ⟨.interaction id' (.claimCompletion _), .ok _⟩ => id' == id
  | _ => false

def settles (id : String) : Entry Op.Answer → Bool
  | ⟨.interaction id' (.apply _ _ _ _), _⟩ => id' == id
  | _ => false

def issuedCode : Entry Op.Answer → Option (String × CodeInput)
  | ⟨.user uid (.finalizeLogin input), .login (.ok _)⟩ => input.code.map (uid, ·)
  | ⟨.user uid (.authorizeWithSession input), .authorize (.ok a)⟩ =>
      if a.outcome = .authorized then input.code.map (uid, ·) else none
  | _ => none

/-- Whether the request has drawn the id and created no interaction since. -/
def pendingId (id : String) : Log → Bool
  | [] => false
  | ⟨.ask .newInteractionId, drawn⟩ :: log => drawn == id || pendingId id log
  | ⟨.interaction _ (.create _ _ _), _⟩ :: _ => false
  | _ :: log => pendingId id log

/-- The directory answered `client` for the id. -/
def directoryEntry (clientId : String) (client : Client) : Entry Op.Answer :=
  ⟨.ask (.client clientId), some (some client)⟩

def Seen (log : Log) (id : String) (d : InteractionDocument) : Prop :=
  ∃ e ∈ log, openDocument id e = some d

def ReadFirst (log : Log) (id : String) (d : InteractionDocument) : Prop :=
  ∃ e older, e :: older <:+ log ∧ takes id e = true ∧ Seen older id d

/-- Nothing of the log took or moved the interaction or issued a code. -/
def Unclaimed (id : String) (log : Log) : Prop :=
  ∀ e ∈ log, takes id e = false ∧ settles id e = false ∧ issuedCode e = none

/-- The request has taken the interaction and has neither moved it nor issued a code since. -/
structure Holding (id : String) (log : Log) : Prop where
  claimed : ∃ e ∈ log, takes id e = true
  unsettled : ∀ e ∈ log, settles id e = false
  unissued : ∀ e ∈ log, issuedCode e = none

/-- The request holds a completion that it decided on a ready document. -/
structure Completing (id : String) (log : Log) (d : InteractionDocument) : Prop
    extends Holding id log where
  seen : ReadFirst log id d
  ready : d.status = .ready

theorem Seen.mono {log log' : Log} {id : String} {d : InteractionDocument} (h : Seen log id d)
    (hsub : log ⊆ log') : Seen log' id d := by
  obtain ⟨e, he, hd⟩ := h
  exact ⟨e, hsub he, hd⟩

theorem Seen.cons {log : Log} {id : String} {d : InteractionDocument} (h : Seen log id d)
    {e : Entry Op.Answer} : Seen (e :: log) id d := h.mono (List.subset_cons_self e log)

theorem ReadFirst.cons {log : Log} {id : String} {d : InteractionDocument} (h : ReadFirst log id d)
    {e : Entry Op.Answer} : ReadFirst (e :: log) id d := by
  obtain ⟨claim, older, hsuffix, hrest⟩ := h
  exact ⟨claim, older, hsuffix.trans (List.suffix_cons e log), hrest⟩

theorem ReadFirst.seen {log : Log} {id : String} {d : InteractionDocument}
    (h : ReadFirst log id d) :
    Seen log id d := by
  obtain ⟨claim, older, hsuffix, -, hseen⟩ := h
  exact hseen.mono fun e he => hsuffix.subset (List.mem_cons_of_mem _ he)

theorem Holding.cons {id : String} {log : Log} (h : Holding id log) {e : Entry Op.Answer}
    (hsettles : settles id e = false) (hissued : issuedCode e = none) : Holding id (e :: log) where
  claimed := by
    obtain ⟨x, hx, hxe⟩ := h.claimed
    exact ⟨x, List.mem_cons_of_mem _ hx, hxe⟩
  unsettled := by simpa [hsettles] using h.unsettled
  unissued := by simpa [hissued] using h.unissued

theorem Completing.cons {id : String} {log : Log} {d : InteractionDocument}
    (h : Completing id log d) {e : Entry Op.Answer} (hsettles : settles id e = false)
    (hissued : issuedCode e = none) : Completing id (e :: log) d where
  toHolding := h.toHolding.cons hsettles hissued
  seen := h.seen.cons
  ready := h.ready

/-! ### The protocol -/

/-- The interaction a request issues its code for. -/
def Request.behalf : Request → Option String
  | .authorize (some params) _ =>
      match params.requestUri.map parseRequestUri with
      | some (.pushed id) => some id
      | _ => none
  | .complete id _ _ => some id
  | _ => none

/-- Calls that neither issue a code, nor record consent, nor end one named session. -/
def quietCall : Call → Bool
  | .authorizeWithSession _ | .finalizeLogin _ | .grantConsent _ _ _ | .revokeSession _ _ _ => false
  | _ => true

/-- The listing of a user's grants for the client showed every requested scope, or there was
no need to look. -/
def Covered (log : Log) (d : InteractionDocument) (client : Client) (uid : String) : Prop :=
  client.skipConsent = true ∨ d.request = none ∨
    ∃ request reply, d.request = some request ∧
      (⟨.user uid (.listGrants [clientRef client]), reply⟩ : Entry Op.Answer) ∈ log ∧
      ∀ s ∈ request.scope, s ∈ grantedScopes reply

inductive Applies (q : Request) (log : Log) (id : String) :
    InteractionOperation → InteractionStatus → TransitionPatch → Prop where
  | failed (operation : InteractionOperation) (error description : String)
      (d : InteractionDocument) (seen : Seen log id d) :
      Applies q log id operation .failed (errorPatch error description)
  | linked (link : LinkCandidate) (d : InteractionDocument) (seen : Seen log id d) :
      Applies q log id .authenticate .linkRequired { link := some (some link) }
  | authenticated (operation : InteractionOperation)
      (hop : operation = .authenticate ∨ operation = .link) (target : InteractionStatus)
      (auth : InteractionAuth) (d : InteractionDocument) (seen : Seen log id d)
      (clientId : String) (client : Client) (hclient : d.clientId = some clientId)
      (record : directoryEntry clientId client ∈ log)
      (htarget : target = .consentRequired ∨ target = .ready ∧ Covered log d client auth.uid) :
      Applies q log id operation target { auth := some (some auth) }
  | consented (d : InteractionDocument) (seen : Seen log id d) (uid : String)
      (huid : interactionUid d = some uid) (clientId : String) (client : Client)
      (hclient : d.clientId = some clientId) (record : directoryEntry clientId client ∈ log)
      (scopes : List String) (now : ℤ) (granted : GrantRecord)
      (hgrant : (⟨.user uid (.grantConsent (clientRef client) scopes now), .grant (.ok granted)⟩ :
        Entry Op.Answer) ∈ log) :
      Applies q log id .consent .ready { consent := some (some scopes) }
  | decided (logout : LogoutRequest) (d : InteractionDocument) (seen : Seen log id d)
      (hkind : d.kind = .logout) :
      Applies q log id .logoutDecision .ready { logout := some (some logout) }
  | parFailed (error description : String) (hq : q.behalf = some id) (holding : Holding id log) :
      Applies q log id .fail .failed (errorPatch error description)
  | parTaken (target : InteractionStatus) (existing : Option ExistingSession)
      (hq : q.behalf = some id) (holding : Holding id log) :
      Applies q log id .consumePar target { existingSession := some existing }
  | parCompleted : Applies q log id .consumePar .completed {}
  | restarted (hq : q.behalf = some id) (holding : Holding id log) :
      Applies q log id .restart .loginRequired restartPatch
  | completed : Applies q log id .complete .completed {}

inductive Calls (q : Request) (log : Log) (uid : String) : Call → Prop where
  | quiet (call : Call) (h : quietCall call = true) : Calls q log uid call
  | evaluated (ref : SessionRef) (clientId : String) (client : Client)
      (record : directoryEntry clientId client ∈ log) (request : AuthorizeRequest)
      (settings : Settings) (now : ℤ) (secretHash : Bytes)
      (holding : ∀ id, q.behalf = some id → Holding id log)
      (hq : ∀ id binding cookie, q ≠ .complete id binding cookie) :
      Calls q log uid (.authorizeWithSession
        (evaluationInput ref (clientRef client) request settings now secretHash))
  | onSession (id : String) (binding : Option BindingRef) (cookie : SessionCookie)
      (hq : q = .complete id binding cookie) (d : InteractionDocument)
      (completing : Completing id log d) (clientId : String) (client : Client)
      (record : directoryEntry clientId client ∈ log) (session : ExistingSession)
      (code : CodeInput) (hcode : code.clientId = client.clientId) (settings : Settings)
      (now : ℤ) :
      Calls q log uid (.authorizeWithSession
        (sessionInput session cookie (clientRef client) code settings now))
  | login (id : String) (binding : Option BindingRef) (cookie : SessionCookie)
      (hq : q = .complete id binding cookie) (d : InteractionDocument)
      (completing : Completing id log d) (hkind : d.kind ≠ .logout) (clientId : String)
      (client : Client) (hclient : d.clientId = some clientId)
      (record : directoryEntry clientId client ∈ log) (request : AuthorizeRequest)
      (hrequest : d.request = some request) (auth : InteractionAuth) (hauth : d.auth = some auth)
      (huid : uid = auth.uid) (secretHash : Bytes) (input : FinalizeLoginInput)
      (hcode : input.code = some (interactionCode d request client secretHash)) :
      Calls q log uid (.finalizeLogin input)
  | granted (client : ClientRef) (scopes : List String) (now : ℤ)
      (hq : ∀ id binding cookie, q ≠ .complete id binding cookie) :
      Calls q log uid (.grantConsent client scopes now)
  | ended (sid : String) (now : ℤ) (reason : String)
      (hq : ∀ id binding cookie, q = .complete id binding cookie → ∃ d, Completing id log d) :
      Calls q log uid (.revokeSession sid now reason)

def InteractionCalls (q : Request) (log : Log) (id : String) : InteractionCall → Prop
  | .create _ _ _ => pendingId id log = true
  | .get _ | .consumeFederation _ _ => True
  | .claimPushed _ _ _ _ => q.behalf = some id ∧ Unclaimed id log
  | .claimCompletion _ => q.behalf = some id ∧ Unclaimed id log
  | .patch _ _ | .attempt _ _ => ∃ d, Seen log id d
  | .apply operation target patch _ => Applies q log id operation target patch
  | .alarm _ => False

def Permits (q : Request) (log : Log) : Op → Prop
  | .ask _ => True
  | .user uid call => Calls q log uid call
  | .interaction id call => InteractionCalls q log id call

/-- Operations that are always permitted. -/
def Quiet : Op → Prop
  | .ask _ => True
  | .user _ call => quietCall call = true
  | .interaction _ call => ∃ now, call = .get now

/-- Questions that check no response against a challenge. -/
def plainQuestion : Question → Bool
  | .verifySignature _ _ | .verifyRegistration _ => false
  | _ => true

/-- Quiet calls other than those that verify an assertion. -/
def plainCall : Call → Bool
  | .verifyAssertion _ _ | .resumeAssertion _ _ => false
  | call => quietCall call

/-- Operations beside the interaction that verify nothing. -/
def Plain : Op → Prop
  | .ask question => plainQuestion question = true
  | .user _ call => plainCall call = true
  | .interaction _ _ => False

/-- Plain questions that claim no account. -/
def bareQuestion : Question → Bool
  | .claimUser _ _ => false
  | question => plainQuestion question

/-- Plain calls that initialize no object. -/
def bareCall : Call → Bool
  | .init _ _ _ => false
  | call => plainCall call

/-- Plain operations that create no account. -/
def Bare : Op → Prop
  | .ask question => bareQuestion question = true
  | .user _ call => bareCall call = true
  | .interaction _ _ => False

theorem quietCall_of_plainCall {call : Call} (h : plainCall call = true) :
    quietCall call = true := by
  cases call with
  | verifyAssertion credentialId now => rfl
  | resumeAssertion suspended verified => rfl
  | _ => exact h

theorem quiet_of_plain (op : Op) (h : Plain op) : Quiet op := by
  cases op with
  | ask question => trivial
  | user uid call => exact quietCall_of_plainCall h
  | interaction id call => exact h.elim

theorem plain_of_bare (op : Op) (h : Bare op) : Plain op := by
  cases op with
  | ask question =>
    cases question with
    | claimUser user now => rfl
    | _ => exact h
  | user uid call =>
    cases call with
    | init p now identities => rfl
    | _ => exact h
  | interaction id call => exact h.elim

theorem permits_of_quiet {q : Request} (log : Log) (op : Op) (h : Quiet op) : Permits q log op := by
  match op, h with
  | .ask _, _ => trivial
  | .user _ call, h => exact .quiet call h
  | .interaction _ _, ⟨_, rfl⟩ => trivial

variable {q : Request} {log : Log}

theorem unclaimed_nil (id : String) : Unclaimed id [] := by simp [Unclaimed]

theorem Unclaimed.ask {id : String} (h : Unclaimed id log) {question : Question}
    {r : question.Answer} : Unclaimed id (⟨.ask question, r⟩ :: log) := by
  intro e he
  rcases List.mem_cons.mp he with rfl | he
  · exact ⟨rfl, rfl, rfl⟩
  · exact h e he

theorem Unclaimed.holding {id : String} (h : Unclaimed id log) {e : Entry Op.Answer}
    (htakes : takes id e = true) (hsettles : settles id e = false)
    (hissued : issuedCode e = none) : Holding id (e :: log) where
  claimed := ⟨e, List.mem_cons_self, htakes⟩
  unsettled := by
    intro x hx
    rcases List.mem_cons.mp hx with rfl | hx
    · exact hsettles
    · exact (h x hx).2.1
  unissued := by
    intro x hx
    rcases List.mem_cons.mp hx with rfl | hx
    · exact hissued
    · exact (h x hx).2.2

theorem Holding.ask {id : String} (h : Holding id log) {question : Question}
    {r : question.Answer} : Holding id (⟨.ask question, r⟩ :: log) := h.cons rfl rfl

theorem Completing.ask {id : String} {d : InteractionDocument} (h : Completing id log d)
    {question : Question} {r : question.Answer} :
    Completing id (⟨.ask question, r⟩ :: log) d := h.cons rfl rfl

section Calls

variable {α : Type} {post : Log → α → Prop}

theorem obeys_ask {question : Question} {f : question.Answer → Handler α}
    (h : ∀ r, Obeys (Permits q) post (⟨.ask question, r⟩ :: log) (f r)) :
    Obeys (Permits q) post log (ask question >>= f) := ⟨trivial, h⟩

theorem obeys_userCall {uid : String} {call : Call} {f : Reply → Handler α}
    (hcall : Calls q log uid call)
    (h : ∀ r, Obeys (Permits q) post (⟨.user uid call, r⟩ :: log) (f r)) :
    Obeys (Permits q) post log (userCall uid call >>= f) := ⟨hcall, h⟩

theorem obeys_interactionCall {id : String} {call : InteractionCall}
    {f : call.Answer → Handler α} (hcall : InteractionCalls q log id call)
    (h : ∀ r, Obeys (Permits q) post (⟨.interaction id call, r⟩ :: log) (f r)) :
    Obeys (Permits q) post log (interactionCall id call >>= f) := ⟨hcall, h⟩

/-- A refusal promises nothing about the value it does not return. -/
theorem obeys_refused {β : Type} {permits : Log → Op → Prop} {known : Log → β → Prop}
    {response : Response} :
    Obeys permits (fun log' result => ∀ b, result = .ok b → known log' b) log
      (pure (.error response) : Handler (Except Response β)) := by
  intro b h
  cases h

end Calls

end TinyOidc.Interaction
