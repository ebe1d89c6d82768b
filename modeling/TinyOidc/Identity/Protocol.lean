import TinyOidc.Identity.Deployment

/-! What a linking or unlinking request may call, given its own log: it claims a pair in the index
before it stores the identity in an object, and releases what it has removed. -/
namespace TinyOidc.Identity
open TinyOidc.Interaction TinyOidc.User
open Threads (Prog Entry System)
open Threads.Prog (Obeys Only)

abbrev Pair := String × String

def identityPair (identity : NewIdentity) : Pair := (identity.issuer, identity.subject)

def rowPair (row : IdentityRow) : Pair := (row.issuer, row.subject)

/-! ### Reading a log -/

/-- The pair of an identity, as the user's identities were listed last. -/
def listedPair (uid id : String) : Log → Option Pair
  | [] => none
  | ⟨.user v .listIdentities, .identities (.ok rows)⟩ :: log =>
      if v = uid then (rows.find? (·.id == id)).map rowPair else listedPair uid id log
  | _ :: log => listedPair uid id log

/-- What a request has still to do about a pair: initialize the user it claimed it for, add it to
the user's object, or release its row. -/
inductive Stand where
  | creates (uid : String) (pair : Pair)
  | links (uid : String) (pair : Pair)
  | owes (pair : Pair)
  deriving DecidableEq

/-- The pair claimed in the index and not stored in an object yet. -/
def Stand.claim : Stand → Option Pair
  | creates _ pair | links _ pair => some pair
  | owes _ => none

def stand : Log → Option Stand
  | [] => none
  | ⟨.ask (.insertIdentity issuer subject uid _), inserted⟩ :: _ =>
      if inserted then some (.links uid (issuer, subject)) else none
  | ⟨.ask (.claimUser user _), .ok _⟩ :: _ =>
      user.identities.head?.map fun identity => .creates user.id (identityPair identity)
  | ⟨.ask (.claimUser _ _), .error _⟩ :: _ => none
  | ⟨.ask (.releaseIdentity _ _), _⟩ :: _ => none
  | ⟨.user _ (.init _ _ _), .profile (.ok _)⟩ :: _ => none
  | ⟨.user _ (.addIdentity _ _), .identity (.ok _)⟩ :: _ => none
  | ⟨.user _ (.addIdentity identity _), .identity (.fail _)⟩ :: _ =>
      some (.owes (identityPair identity))
  | ⟨.user uid (.removeIdentity id _), .flag (.ok true)⟩ :: log =>
      (listedPair uid id log).map .owes
  | _ :: log => stand log

def drawnUuid : Entry Op.Answer → Option String
  | ⟨.ask .newUuid, id⟩ => some id
  | _ => none

def storedId : Entry Op.Answer → Option String
  | ⟨.user _ (.init _ _ identities), .profile (.ok _)⟩ => identities.head?.map (·.id)
  | ⟨.user _ (.addIdentity identity _), .identity (.ok _)⟩ => some identity.id
  | _ => none

/-- The ids drawn and not stored since. -/
def heldIds : Log → List String
  | [] => []
  | entry :: log =>
      (drawnUuid entry).toList ++ ((storedId entry).elim (heldIds log) (heldIds log).erase)

/-- Answers that neither an object that can be initialized nor one that takes an identity gives. -/
def irregular : Entry Op.Answer → Bool
  | ⟨.user _ (.init _ _ _), .profile (.ok _)⟩ => false
  | ⟨.user _ (.init _ _ _), _⟩ => true
  | ⟨.user _ (.addIdentity _ _), .identity (.ok _)⟩ => false
  | ⟨.user _ (.addIdentity _ _), .identity (.fail _)⟩ => false
  | ⟨.user _ (.addIdentity _ _), _⟩ => true
  | _ => false

def Irregular (log : Log) : Prop := ∃ entry ∈ log, irregular entry = true

/-! ### The protocol -/

/-- The calls of these handlers that keep the pairs of an object. -/
def sparesPairs : Call → Bool
  | .getProfile | .listGrants _ | .verifyAssertion _ _ | .resumeAssertion _ _ | .listIdentities
  | .touchIdentity _ _ _ _ => true
  | _ => false

/-- Operations that touch no pair, in the index or an object. -/
def Aside : Op → Prop
  | .ask (.insertIdentity _ _ _ _) | .ask (.releaseIdentity _ _) | .ask (.claimUser _ _) => False
  | .user _ call => sparesPairs call = true
  | _ => True

def LinkPermits (log : Log) : Op → Prop
  | .ask (.insertIdentity _ _ _ _) => stand log = none
  | .ask (.claimUser user _) =>
    stand log = none ∧ (⟨.ask .newUuid, user.id⟩ : Entry Op.Answer) ∈ log ∧
      ∃ identity, user.identities = [identity]
  | .ask (.releaseIdentity issuer subject) =>
      stand log = none ∨ stand log = some (.owes (issuer, subject))
  | .user uid (.init p _ identities) => p.id = uid ∧ ∃ identity, identities = [identity] ∧
      stand log = some (.creates uid (identityPair identity)) ∧ identity.id ∈ heldIds log
  | .user uid (.addIdentity identity _) =>
      stand log = some (.links uid (identityPair identity)) ∧ identity.id ∈ heldIds log
  | .user uid (.removeIdentity id _) => stand log = none ∧ (listedPair uid id log).isSome = true
  | op => Aside op

/-- After an irregular answer anything goes. -/
def Permits (_q : LinkRequest) (log : Log) (op : Op) : Prop := Irregular log ∨ LinkPermits log op

/-- A request ends with nothing left to do. -/
def Settled (log : Log) : Prop := Irregular log ∨ stand log = none

section Logs
variable {q : LinkRequest} {log : Log} {α β : Type}

theorem Irregular.cons (h : Irregular log) {entry : Entry Op.Answer} :
    Irregular (entry :: log) := by
  obtain ⟨e, he, hirregular⟩ := h
  exact ⟨e, List.mem_cons_of_mem _ he, hirregular⟩

theorem Irregular.obeys (h : Irregular log) (p : Handler α) :
    Obeys (Permits q) (fun log' _ => Settled log') log p := by
  induction p generalizing log with
  | done a => exact .inl h
  | call op next ih => exact ⟨.inl h, fun r => ih r h.cons⟩

theorem stand_aside {op : Op} (h : Aside op) (r : op.Answer) :
    stand (⟨op, r⟩ :: log) = stand log := by
  cases op with
  | interaction id call => rfl
  | user uid call => cases call <;> first | rfl | cases h
  | ask question => cases question <;> first | rfl | exact h.elim

theorem heldIds_aside {op : Op} (h : Aside op) (r : op.Answer) :
    heldIds log ⊆ heldIds (⟨op, r⟩ :: log) := by
  have hstored : storedId ⟨op, r⟩ = none := by
    cases op with
    | interaction id call => rfl
    | user uid call => cases call <;> first | rfl | cases h
    | ask question => rfl
  rw [heldIds, hstored]
  exact List.subset_append_right _ _

theorem permits_aside (log : Log) (op : Op) (h : Aside op) : Permits q log op := by
  right
  cases op with
  | interaction id call => exact h
  | user uid call => cases call <;> first | exact h | cases h
  | ask question => cases question <;> first | exact h | exact h.elim

/-- What operations aside keep of a log. -/
structure Keeps (log log' : Log) : Prop where
  stand : stand log' = stand log
  ids : heldIds log ⊆ heldIds log'
  entries : log ⊆ log'

theorem Only.keeps {p : Handler α} (h : Only Aside p) :
    Obeys (Permits q) (fun log' _ => Keeps log log') log p := by
  refine h.obeys_keeping permits_aside (fun log => ⟨rfl, fun _ h => h, fun _ h => h⟩) ?_
  intro log log' op r haside hkeeps
  exact ⟨hkeeps.stand.trans (stand_aside haside r),
    fun _ hid => hkeeps.ids (heldIds_aside haside r hid),
    fun _ he => hkeeps.entries (List.mem_cons_of_mem _ he)⟩

theorem obeys_aside {post : Log → β → Prop} {p : Handler α} {f : α → Handler β}
    (hp : Only Aside p) (h : ∀ log' a, Keeps log log' → Obeys (Permits q) post log' (f a)) :
    Obeys (Permits q) post log (p >>= f) :=
  Obeys.bind ((Only.keeps hp).mono h)

/-- A program of operations aside leaves a settled request settled. -/
theorem settled_aside {p : Handler α} (hp : Only Aside p) (h : stand log = none) :
    Obeys (Permits q) (fun log' _ => Settled log') log p :=
  (Only.keeps hp).mono fun _ _ hkeeps => .inr (hkeeps.stand.trans h)

theorem obeys_ask {post : Log → β → Prop} {question : Question} {f : question.Answer → Handler β}
    (hop : LinkPermits log (.ask question))
    (h : ∀ r, Obeys (Permits q) post (⟨.ask question, r⟩ :: log) (f r)) :
    Obeys (Permits q) post log (ask question >>= f) := ⟨.inr hop, h⟩

theorem obeys_user {post : Log → β → Prop} {uid : String} {call : Call} {f : Reply → Handler β}
    (hop : LinkPermits log (.user uid call))
    (h : ∀ r, Obeys (Permits q) post (⟨.user uid call, r⟩ :: log) (f r)) :
    Obeys (Permits q) post log (userCall uid call >>= f) := ⟨.inr hop, h⟩

end Logs

/-! ### Programs aside -/

section Aside
variable {α : Type}

theorem only_ask {question : Question} {f : question.Answer → Handler α}
    (h : Aside (.ask question)) (hf : ∀ r, Only Aside (f r)) :
    Only Aside (ask question >>= f) := ⟨h, hf⟩

theorem only_user {uid : String} {call : Call} {f : Reply → Handler α}
    (h : sparesPairs call = true) (hf : ∀ r, Only Aside (f r)) :
    Only Aside (userCall uid call >>= f) := ⟨h, hf⟩

theorem only_interaction {id : String} {call : InteractionCall} {f : call.Answer → Handler α}
    (hf : ∀ r, Only Aside (f r)) : Only Aside (interactionCall id call >>= f) := ⟨trivial, hf⟩

theorem guard_aside (r : ApiRequest) (isGet : Bool) : Only Aside (Interaction.guard r isGet) := by
  unfold Interaction.guard
  refine only_ask trivial fun refused => ?_
  split
  · trivial
  split
  · trivial
  refine only_ask trivial fun settings => ?_
  split
  · trivial
  split
  · trivial
  split
  · trivial
  split
  · trivial
  refine only_ask trivial fun now => only_interaction fun answer => ?_
  split
  · trivial
  repeat' split
  all_goals trivial

theorem countAttempt_aside (g : Guarded) : Only Aside (countAttempt g) := by
  refine only_interaction fun counted => ?_
  split <;> trivial

theorem interactionClient_aside (doc : InteractionDocument) :
    Only Aside (interactionClient doc) := by
  unfold interactionClient
  split
  · trivial
  · exact only_ask trivial fun _ => trivial

theorem consentNeeded_aside (doc : InteractionDocument) (client : Client) (uid : String) :
    Only Aside (consentNeeded doc client uid) := by
  unfold consentNeeded
  repeat' split
  · trivial
  · trivial
  · trivial
  · exact only_user rfl fun _ => trivial

theorem authenticateInteraction_aside (g : Guarded) (client : Client) (profile : UserProfile)
    (method : AuthMethod) (operation : InteractionOperation) :
    Only Aside (authenticateInteraction g client profile method operation) := by
  unfold authenticateInteraction
  split
  · exact only_interaction fun _ => trivial
  · refine Only.bind (consentNeeded_aside _ _ _) fun needed => only_interaction fun applied => ?_
    split <;> trivial

theorem assertionUser_aside (assertion : Assertion) : Only Aside (assertionUser assertion) := by
  unfold assertionUser
  split
  · trivial
  · exact only_ask trivial fun uid => trivial

theorem verifyAssertion_aside (uid credentialId challenge : String) (now : ℤ) :
    Only Aside (verifyAssertion uid credentialId challenge now) := by
  refine only_user rfl fun reply => ?_
  split
  · exact only_ask trivial fun verified => ⟨rfl, fun _ => trivial⟩
  · trivial

theorem resolveOwner_aside (claims : Resolved) (settings : Settings) :
    Only Aside (resolveOwner claims settings) := by
  unfold resolveOwner
  split
  · trivial
  · refine only_ask trivial fun owner => ?_
    split
    · trivial
    · split <;> trivial

theorem legInvitation_aside (leg : FederationLeg) (now : ℤ) :
    Only Aside (legInvitation leg now) := by
  unfold legInvitation
  split
  · trivial
  · refine only_ask trivial fun row => ?_
    split <;> trivial

theorem takeLegInvitation_aside (invitation : Option InvitationRow) (uid : String) (now : ℤ) :
    Only Aside (resolveCreation.takeLegInvitation now invitation uid) := by
  unfold resolveCreation.takeLegInvitation
  split
  · trivial
  · exact ⟨trivial, fun _ => trivial⟩

theorem normalizedEmail_aside (email : Option String) : Only Aside (normalizedEmail email) := by
  unfold normalizedEmail
  split
  · trivial
  · exact only_ask trivial fun _ => trivial

theorem failInteraction_aside (id : String) (now : ℤ) (error description : String) :
    Only Aside (failInteraction id now error description) :=
  only_interaction fun _ => trivial

end Aside

/-! ### The handlers -/

section Handlers
variable {q : LinkRequest} {log : Log}

theorem irregular_addIdentity {uid : String} {identity : NewIdentity} {now : ℤ} {r : Reply}
    (hok : ∀ row, r ≠ .identity (.ok row)) (hfail : ∀ e, r ≠ .identity (.fail e)) :
    irregular ⟨.user uid (.addIdentity identity now), r⟩ = true := by
  cases r with
  | identity result =>
    cases result with
    | ok row => exact absurd rfl (hok row)
    | fail e => exact absurd rfl (hfail e)
    | thrown e => rfl
  | _ => rfl

theorem irregular_init {uid : String} {p : InitProfile} {now : ℤ} {identities : List NewIdentity}
    {r : Reply} (hok : ∀ profile, r ≠ .profile (.ok profile)) :
    irregular ⟨.user uid (.init p now identities), r⟩ = true := by
  cases r with
  | profile result =>
    cases result with
    | ok profile => exact absurd rfl (hok profile)
    | fail e => rfl
    | thrown e => rfl
  | _ => rfl

theorem linkIdentity_obeys (uid : String) (link : LinkCandidate) (h : stand log = none) :
    Obeys (Permits q) (fun log' _ => Irregular log' ∨ stand log' = none) log
      (linkIdentity uid link) := by
  unfold linkIdentity
  refine obeys_ask trivial fun now => obeys_ask trivial fun upstream => ?_
  split
  · exact .inr h
  · exact .inr h
  · next upstream =>
    refine obeys_ask h fun inserted => ?_
    cases inserted with
    | false => exact .inr rfl
    | true =>
      refine obeys_ask trivial fun id => ?_
      refine obeys_user ⟨rfl, List.mem_cons_self⟩ fun added => ?_
      split
      · exact .inr rfl
      · exact obeys_ask (.inr rfl) fun _ => .inr rfl
      · next hok hfail =>
        exact .inl ⟨_, List.mem_cons_self, irregular_addIdentity hok hfail⟩

theorem passkeyVerified_obeys (g : Guarded) (profile : UserProfile) (passkey : PasskeyRow)
    (h : stand log = none) :
    Obeys (Permits q) (fun log' _ => Settled log') log (passkeyVerified g profile passkey) := by
  unfold passkeyVerified
  refine obeys_aside (interactionClient_aside _) fun log₁ client hkeeps => ?_
  have h₁ : stand log₁ = none := hkeeps.stand.trans h
  cases client with
  | none => exact .inr h₁
  | some client =>
    dsimp only
    split
    · split
      · exact .inr h₁
      · split
        · exact .inr h₁
        · refine Obeys.bind ((linkIdentity_obeys _ _ h₁).mono fun log₂ linked h₂ => ?_)
          rcases h₂ with hirregular | h₂
          · exact hirregular.obeys _
          · split
            · exact .inr h₂
            · exact .inr h₂
            · exact settled_aside (authenticateInteraction_aside _ _ _ _ _) h₂
    · exact settled_aside (authenticateInteraction_aside _ _ _ _ _) h₁

theorem passkeyVerifyHandler_obeys (r : ApiRequest) (malformed : Bool)
    (assertion : Option Assertion) (h : stand log = none) :
    Obeys (Permits q) (fun log' _ => Settled log') log
      (passkeyVerifyHandler r malformed assertion) := by
  unfold passkeyVerifyHandler
  refine obeys_aside (guard_aside _ _) fun log₁ guarded hkeeps₁ => ?_
  have h₁ : stand log₁ = none := hkeeps₁.stand.trans h
  cases guarded with
  | error response => exact .inr h₁
  | ok g =>
    dsimp only
    split
    · exact .inr h₁
    refine obeys_aside (countAttempt_aside g) fun log₂ counted hkeeps₂ => ?_
    have h₂ : stand log₂ = none := hkeeps₂.stand.trans h₁
    cases counted with
    | some refused => exact .inr h₂
    | none =>
      dsimp only
      split
      · exact .inr h₂
      refine obeys_aside (only_interaction (f := pure) fun _ => trivial) fun log₃ _ hkeeps₃ => ?_
      have h₃ : stand log₃ = none := hkeeps₃.stand.trans h₂
      split
      · refine obeys_aside (assertionUser_aside _) fun log₄ routed hkeeps₄ => ?_
        have h₄ : stand log₄ = none := hkeeps₄.stand.trans h₃
        split
        · exact .inr h₄
        · refine obeys_aside (verifyAssertion_aside _ _ _ _) fun log₅ reply hkeeps₅ => ?_
          have h₅ : stand log₅ = none := hkeeps₅.stand.trans h₄
          split
          · exact passkeyVerified_obeys _ _ _ h₅
          · exact .inr h₅
          · split
            · exact obeys_ask trivial fun _ => .inr h₅
            · exact .inr h₅
          · exact .inr h₅
      · exact .inr h₃

/-- A stale row is released at once. -/
theorem resolveHolder_obeys (issuer subject : String) (claims : Resolved) (now : ℤ)
    (holder : IdentityHolder) (h : stand log = none) :
    Obeys (Permits q) (fun log' _ => stand log' = none) log
      (resolveHolder issuer subject claims now holder) := by
  unfold resolveHolder
  split
  · exact h
  · refine obeys_user rfl fun touched => ?_
    split
    · refine obeys_user rfl fun profile => ?_
      split
      · exact h
      · exact obeys_ask (.inl h) fun _ => rfl
    · exact obeys_ask (.inl h) fun _ => rfl

theorem initializeUser_obeys (p : InitProfile) (now : ℤ) (identity : NewIdentity)
    (h : stand log = some (.creates p.id (identityPair identity)))
    (hid : identity.id ∈ heldIds log) :
    Obeys (Permits q) (fun log' _ => Irregular log' ∨ stand log' = none) log
      (initializeUser p now [identity]) := by
  unfold initializeUser
  refine obeys_user ⟨rfl, identity, rfl, h, hid⟩ fun r => ?_
  split
  · exact .inr rfl
  · exact .inl ⟨_, List.mem_cons_self, rfl⟩
  · next hok hfail =>
    have hirregular : Irregular (⟨.user p.id (.init p now [identity]), r⟩ :: log) :=
      ⟨_, List.mem_cons_self, irregular_init hok⟩
    exact hirregular.obeys _

theorem createUser_obeys (user : NewUser) (now : ℤ) (identity : NewIdentity)
    (hidentities : user.identities = [identity]) (h : stand log = none)
    (hdrawn : (⟨.ask .newUuid, user.id⟩ : Entry Op.Answer) ∈ log)
    (hid : identity.id ∈ heldIds log) :
    Obeys (Permits q) (fun log' _ => Irregular log' ∨ stand log' = none) log
      (createUser user now) := by
  unfold createUser
  refine obeys_aside (normalizedEmail_aside _) fun log₁ emailNorm hkeeps => ?_
  refine obeys_ask ⟨hkeeps.stand.trans h, hkeeps.entries hdrawn, identity, hidentities⟩
    fun claimed => ?_
  cases claimed with
  | error e => exact .inr rfl
  | ok _ =>
    have hstand : stand (⟨.ask (.claimUser user now), .ok ()⟩ :: log₁) =
        some (.creates user.id (identityPair identity)) := by
      simp [stand, hidentities]
    have hheld : identity.id ∈ heldIds (⟨.ask (.claimUser user now), .ok ()⟩ :: log₁) :=
      hkeeps.ids hid
    dsimp only
    rw [hidentities]
    refine Obeys.bind ((initializeUser_obeys _ _ _ hstand hheld).mono ?_)
    intro log₂ created hended
    rcases hended with hirregular | h₂
    · exact hirregular.obeys _
    · split
      · exact .inr h₂
      · exact obeys_ask trivial fun _ => .inr h₂

theorem resolveCreation_obeys (upstream : Upstream) (leg : FederationLeg) (claims : Resolved)
    (settings : Settings) (now : ℤ) (h : stand log = none) :
    Obeys (Permits q) (fun log' _ => Irregular log' ∨ stand log' = none) log
      (resolveCreation upstream leg claims settings now) := by
  unfold resolveCreation
  refine obeys_aside (legInvitation_aside _ _) fun log₁ invitation hkeeps₁ => ?_
  have h₁ : stand log₁ = none := hkeeps₁.stand.trans h
  cases invitation with
  | error fault => exact .inr h₁
  | ok invitation =>
    dsimp only
    split
    · exact .inr h₁
    refine obeys_ask trivial fun id => ?_
    refine obeys_aside (takeLegInvitation_aside _ _ _) fun log₂ taken hkeeps₂ => ?_
    have h₂ : stand log₂ = none := hkeeps₂.stand.trans h₁
    split
    · exact .inr h₂
    refine obeys_ask trivial fun identityId => ?_
    have h₃ : stand (⟨.ask .newUuid, identityId⟩ :: log₂) = none := h₂
    refine Obeys.bind ((createUser_obeys _ _ _ rfl h₃
      (List.mem_cons_of_mem _ (hkeeps₂.entries List.mem_cons_self)) List.mem_cons_self).mono ?_)
    intro log₃ created hended
    rcases hended with hirregular | h₄
    · exact hirregular.obeys _
    · split <;> exact .inr h₄

theorem resolveAccount_obeys (upstream : Upstream) (leg : FederationLeg) (claims : Resolved)
    (settings : Settings) (h : stand log = none) :
    Obeys (Permits q) (fun log' _ => Irregular log' ∨ stand log' = none) log
      (resolveAccount upstream leg claims settings) := by
  unfold resolveAccount resolveAccount.linked
  refine obeys_ask trivial fun now => ?_
  have hlinked : Obeys (Permits q) (fun log' _ => stand log' = none)
      (⟨.ask .now, now⟩ :: log) (resolveAccount.linked upstream claims now) := by
    refine obeys_ask trivial fun holder => ?_
    split
    · exact h
    · exact resolveHolder_obeys _ _ _ _ _ h
  refine Obeys.bind (hlinked.mono fun log₁ held h₁ => ?_)
  split
  · exact .inr h₁
  · refine obeys_aside (resolveOwner_aside _ _) fun log₂ owner hkeeps => ?_
    have h₂ : stand log₂ = none := hkeeps.stand.trans h₁
    split
    · exact .inr h₂
    · exact resolveCreation_obeys _ _ _ _ _ h₂

theorem federationResolved_obeys (g : Guarded) (upstream : Upstream) (leg : FederationLeg)
    (claims : Resolved) (h : stand log = none) :
    Obeys (Permits q) (fun log' _ => Settled log') log
      (federationResolved g upstream leg claims) := by
  unfold federationResolved
  refine obeys_aside (interactionClient_aside _) fun log₁ client hkeeps => ?_
  have h₁ : stand log₁ = none := hkeeps.stand.trans h
  cases client with
  | none => exact settled_aside (failInteraction_aside _ _ _ _) h₁
  | some client =>
    refine Obeys.bind ((resolveAccount_obeys _ _ _ _ h₁).mono fun log₂ resolution hended => ?_)
    rcases hended with hirregular | h₂
    · exact hirregular.obeys _
    · cases resolution with
      | fail fault => exact settled_aside (failInteraction_aside _ _ _ _) h₂
      | link candidateUid =>
        refine settled_aside (only_interaction fun applied => ?_) h₂
        split <;> trivial
      | user profile =>
        refine settled_aside (Only.bind (authenticateInteraction_aside _ _ _ _ _) ?_) h₂
        intro step
        split <;> trivial

theorem federationAnswer_obeys (g : Guarded) (leg : FederationLeg) (error code : Option String)
    (h : stand log = none) :
    Obeys (Permits q) (fun log' _ => Settled log') log (federationAnswer g leg error code) := by
  unfold federationAnswer
  split
  · exact settled_aside (failInteraction_aside _ _ _ _) h
  · exact settled_aside (failInteraction_aside _ _ _ _) h
  · refine obeys_ask trivial fun upstream => ?_
    split
    · exact settled_aside (failInteraction_aside _ _ _ _) h
    · exact settled_aside (failInteraction_aside _ _ _ _) h
    · split
      · exact settled_aside (failInteraction_aside _ _ _ _) h
      · refine obeys_ask trivial fun reachable => ?_
        split
        · exact settled_aside (failInteraction_aside _ _ _ _) h
        · refine obeys_ask trivial fun answered => ?_
          split
          · exact settled_aside (failInteraction_aside _ _ _ _) h
          · exact federationResolved_obeys _ _ _ _ h

theorem federationCallbackHandler_obeys (malformed : Bool) (state : Option FederationRef)
    (binding : Option BindingRef) (error code : Option String) (h : stand log = none) :
    Obeys (Permits q) (fun log' _ => Settled log') log
      (federationCallbackHandler malformed state binding error code) := by
  unfold federationCallbackHandler
  refine obeys_ask trivial fun refused => ?_
  split
  · exact .inr h
  refine obeys_ask trivial fun settings => ?_
  split
  · exact .inr h
  split
  · exact .inr h
  split
  · exact .inr h
  split
  · exact .inr h
  split
  · exact .inr h
  refine obeys_ask trivial fun now => ⟨.inr trivial, fun consumed => ?_⟩
  cases consumed with
  | error e => exact .inr h
  | ok consumed =>
    dsimp only [Prog.bind]
    split
    · exact .inr h
    · exact federationAnswer_obeys _ _ _ _ h

theorem stand_not_removed {uid id : String} {actor : RemovalActor} {r : Reply}
    (h : r ≠ .flag (.ok true)) :
    stand (⟨.user uid (.removeIdentity id actor), r⟩ :: log) = stand log := by
  cases r with
  | flag result =>
    cases result with
    | ok removed =>
      cases removed with
      | true => exact absurd rfl h
      | false => rfl
    | fail e => rfl
    | thrown e => rfl
  | _ => rfl

theorem stand_removed {uid id : String} (actor : RemovalActor) {pair : Pair}
    (h : listedPair uid id log = some pair) :
    stand (⟨.user uid (.removeIdentity id actor), .flag (.ok true)⟩ :: log) =
      some (.owes pair) := by
  rw [stand, h]
  rfl

theorem listedPair_found (log : Log) (uid : String) {id : String} {rows : List IdentityRow}
    {identity : IdentityRow}
    (h : rows.find? (·.id == id) = some identity) :
    listedPair uid id (⟨.user uid .listIdentities, .identities (.ok rows)⟩ :: log) =
      some (rowPair identity) := by
  simp [listedPair, h]

theorem me_deleteIdentityHandler_obeys (uid id : String) (h : stand log = none) :
    Obeys (Permits q) (fun log' _ => Settled log') log (Me.deleteIdentityHandler uid id) := by
  unfold Me.deleteIdentityHandler
  refine obeys_user rfl fun listed => ?_
  split
  · next rows =>
    cases hfound : rows.find? (·.id == id) with
    | none => exact .inr h
    | some identity =>
      have hlisted := listedPair_found log uid hfound
      refine obeys_user ⟨h, by rw [hlisted]; rfl⟩ fun removed => ?_
      split
      · exact obeys_ask (.inr (stand_removed _ hlisted)) fun _ => .inr rfl
      · exact .inr h
      · exact .inr h
      · next hok _ _ => exact .inr ((stand_not_removed hok).trans h)
  · exact .inr h

theorem admin_deleteIdentityHandler_obeys (uid id : String) (h : stand log = none) :
    Obeys (Permits q) (fun log' _ => Settled log') log (Admin.deleteIdentityHandler uid id) := by
  unfold Admin.deleteIdentityHandler
  refine obeys_ask trivial fun row => ?_
  split
  · exact .inr h
  refine obeys_user rfl fun listed => ?_
  split
  · next rows =>
    cases hfound : rows.find? (·.id == id) with
    | none => exact .inr h
    | some identity =>
      have hlisted := listedPair_found (⟨.ask (.getUser uid), row⟩ :: log) uid hfound
      refine obeys_user ⟨h, by rw [hlisted]; rfl⟩ fun removed => ?_
      split
      · next found =>
        cases found with
        | true => exact obeys_ask (.inr (stand_removed _ hlisted)) fun _ => .inr rfl
        | false => exact obeys_ask (.inl h) fun _ => .inr rfl
      · exact .inr h
      · next hok hfail => exact .inr ((stand_not_removed (hok true)).trans h)
  · exact .inr h
  · exact .inr h

theorem linking_obeys (q : LinkRequest) :
    Obeys (Permits q) (fun log _ => Settled log) [] q.run := by
  cases q with
  | callback malformed state binding error code =>
    exact Obeys.bind ((federationCallbackHandler_obeys malformed state binding error code rfl).mono
      fun _ _ h => h)
  | passkeyVerify request malformed assertion =>
    exact Obeys.bind ((passkeyVerifyHandler_obeys request malformed assertion rfl).mono
      fun _ _ h => h)
  | unlink uid id =>
    exact Obeys.bind ((me_deleteIdentityHandler_obeys uid id rfl).mono fun _ _ h => h)
  | adminUnlink uid id =>
    exact Obeys.bind ((admin_deleteIdentityHandler_obeys uid id rfl).mono fun _ _ h => h)

theorem linking_follows (sha256 : String → Bytes) : (linking sha256).Follows Permits :=
  fun q => (linking_obeys q).mono fun _ _ _ => trivial

end Handlers

end TinyOidc.Identity
