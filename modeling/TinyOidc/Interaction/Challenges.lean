import TinyOidc.Interaction.Runs

/-! WebAuthn challenges of an interaction. The options requests store one, the verify requests
read it with their guard, clear it by a patch that looks at nothing, and go on with the one they
have read. Here is when a challenge still reaches one verification only. -/
namespace TinyOidc.Interaction
open TinyOidc.User Threads
open Threads.Prog (Obeys Only)

/-! ### The ceremonies -/

/-- The requests that store a challenge, and those that verify a response against it. -/
inductive Ceremony where
  | passkeyOptions (r : ApiRequest)
  | passkeyVerify (r : ApiRequest) (malformed : Bool) (assertion : Option Assertion)
  | registerOptions (r : ApiRequest) (body : Option RegisterOptionsBody)
  | registerVerify (r : ApiRequest) (malformed : Bool) (name : Option String)

namespace Ceremony

def handler : Ceremony → Handler Response
  | passkeyOptions r => passkeyOptionsHandler r
  | passkeyVerify r malformed assertion => passkeyVerifyHandler r malformed assertion
  | registerOptions r body => registerOptionsHandler r body
  | registerVerify r malformed name => registerVerifyHandler r malformed name

/-- The interaction the request is about. -/
def id : Ceremony → String
  | passkeyOptions r | passkeyVerify r _ _ | registerOptions r _ | registerVerify r _ _ => r.id

def isVerify : Ceremony → Bool
  | passkeyVerify _ _ _ | registerVerify _ _ _ => true
  | _ => false

end Ceremony

/-- What all other endpoints may do beside: anything but set a challenge or verify a response. -/
def sparesChallenge : Op → Bool
  | .interaction _ (.patch fields _) => fields.passkeyChallenge.isNone
  | .interaction _ (.apply _ _ patch _) => patch.passkeyChallenge.isNone
  | .interaction _ _ => true
  | .user _ (.verifyAssertion _ _) => false
  | .user _ _ => true
  | .ask question => plainQuestion question

abbrev CeremonyStep := Label Ceremony Op Oracle

abbrev CeremonyThread := Thread Ceremony Op.Answer Response

abbrev CeremonyEffect := Effect Ceremony Op.Answer Response

abbrev CeremonyConfig := Config Ceremony World Op.Answer Response

def ceremonies (sha256 : String → Bytes) : System Ceremony Oracle World Op.Answer Response where
  start := Ceremony.handler
  exec := World.exec sha256
  isOutside := sparesChallenge

/-! ### Reading a log -/

def snapshot : Log → Option (ℤ × InteractionDocument)
  | [] => none
  | ⟨.interaction _ (.get now), .ok d⟩ :: _ =>
      if isTerminal d.status = true ∨ d.status = .pushed then none else some (now, d)
  | _ :: log => snapshot log

/-- The challenge the request expects in its response: the one of the document it read. -/
def expectedChallenge (log : Log) : Option String :=
  (snapshot log).bind fun read =>
    (read.2.passkeyChallenge.filter fun c => read.1 < c.expiresAt).map (·.value)

def clearsChallenge : Op → Bool
  | .interaction _ (.patch fields _) => fields.passkeyChallenge == some none
  | _ => false

/-- Whether a call hands the expected challenge to the verification of a response. -/
def handsChallenge : Op → Bool
  | .user _ (.verifyAssertion _ _) | .ask (.verifyRegistration _) => true
  | _ => false

def readsDocument : Op → Bool
  | .interaction _ (.get _) => true
  | _ => false

def Cleared (log : Log) : Prop := ∃ entry ∈ log, clearsChallenge entry.1 = true

def Handed (log : Log) : Prop := ∃ entry ∈ log, handsChallenge entry.1 = true

/-- Calls that neither read the document, nor clear the challenge, nor hand it on. -/
def inert (op : Op) : Bool := !readsDocument op && !clearsChallenge op && !handsChallenge op

/-- What a request knows of its challenge is as before. -/
structure SameStage (log log' : Log) : Prop where
  snapshot : snapshot log' = snapshot log
  cleared : Cleared log' ↔ Cleared log
  handed : Handed log' ↔ Handed log

theorem snapshot_cons {entry : Entry Op.Answer} (h : readsDocument entry.1 = false) (log : Log) :
    snapshot (entry :: log) = snapshot log := by
  obtain ⟨op, answer⟩ := entry
  cases op with
  | interaction id call =>
    cases call with
    | get now => cases h
    | _ => rfl
  | user uid call => rfl
  | ask question => rfl

theorem cleared_cons {entry : Entry Op.Answer} {log : Log} :
    Cleared (entry :: log) ↔ clearsChallenge entry.1 = true ∨ Cleared log := by
  simp only [Cleared, List.mem_cons, exists_eq_or_imp]

theorem handed_cons {entry : Entry Op.Answer} {log : Log} :
    Handed (entry :: log) ↔ handsChallenge entry.1 = true ∨ Handed log := by
  simp only [Handed, List.mem_cons, exists_eq_or_imp]

theorem SameStage.refl (log : Log) : SameStage log log := ⟨rfl, Iff.rfl, Iff.rfl⟩

theorem SameStage.of_cons {entry : Entry Op.Answer} {log log' : Log} (hinert : inert entry.1 = true)
    (h : SameStage (entry :: log) log') : SameStage log log' := by
  simp only [inert, Bool.and_eq_true, Bool.not_eq_true'] at hinert
  obtain ⟨⟨hreads, hclears⟩, hhands⟩ := hinert
  refine ⟨h.snapshot.trans (snapshot_cons hreads log), h.cleared.trans ?_, h.handed.trans ?_⟩
  · simp [cleared_cons, hclears]
  · simp [handed_cons, hhands]

theorem SameStage.cons {entry : Entry Op.Answer} {log : Log} (hinert : inert entry.1 = true) :
    SameStage log (entry :: log) := .of_cons hinert (.refl _)

theorem SameStage.expectedChallenge {log log' : Log} (h : SameStage log log') :
    expectedChallenge log' = expectedChallenge log := by
  rw [Interaction.expectedChallenge, h.snapshot, Interaction.expectedChallenge]

/-! ### The protocol -/

/-- The request may hand its challenge on: it has cleared one, and not handed it on before. -/
structure MayHand (log : Log) : Prop where
  cleared : Cleared log
  unhanded : ¬ Handed log

/-- What a ceremony does to the challenge, and when. -/
def CeremonyPermits (q : Ceremony) (log : Log) : Op → Prop
  | .interaction id (.get _) => id = q.id ∧ ¬ Cleared log
  | .interaction id (.patch fields now) =>
      id = q.id ∧ match fields.passkeyChallenge with
        | none => True
        | some none =>
            q.isVerify = true ∧ ¬ Cleared log ∧ ¬ Handed log ∧ ∃ d, snapshot log = some (now, d)
        | some (some c) => ∃ older, log = ⟨.ask .randomText, c.value⟩ :: older
  | .interaction _ (.apply _ _ patch _) => patch.passkeyChallenge = none
  | .interaction _ _ => True
  | .user _ (.verifyAssertion _ _) => MayHand log ∧ (expectedChallenge log).isSome = true
  | .ask (.verifyRegistration challenge) => MayHand log ∧ expectedChallenge log = some challenge
  | .ask (.verifySignature _ challenge) => expectedChallenge log = some challenge
  | _ => True

theorem inert_of_plain {op : Op} (h : Plain op) : inert op = true := by
  cases op with
  | interaction id call => exact h.elim
  | user uid call =>
    cases call with
    | verifyAssertion credentialId now => cases h
    | _ => rfl
  | ask question =>
    cases question with
    | verifyRegistration challenge => cases h
    | _ => rfl

section Protocol

variable {q : Ceremony} {log : Log} {α : Type} {post : Log → α → Prop}

theorem permits_of_plain (log : Log) (op : Op) (h : Plain op) : CeremonyPermits q log op := by
  cases op with
  | interaction id call => exact h.elim
  | user uid call =>
    cases call with
    | verifyAssertion credentialId now => cases h
    | _ => trivial
  | ask question =>
    cases question with
    | verifyRegistration challenge => cases h
    | verifySignature credentialId challenge => cases h
    | _ => trivial

/-- A plain program leaves the request where it is. -/
theorem stays_plain {β : Type} {post : Log → β → Prop} {p : Handler α} {f : α → Handler β}
    (hp : Only Plain p)
    (h : ∀ log' a, SameStage log log' → Obeys (CeremonyPermits q) post log' (f a)) :
    Obeys (CeremonyPermits q) post log (p >>= f) :=
  Obeys.bind ((hp.obeys_keeping permits_of_plain SameStage.refl
    fun _ _ _ _ hop hsame => hsame.of_cons (inert_of_plain hop)).mono h)

theorem stays_bare {β : Type} {post : Log → β → Prop} {p : Handler α} {f : α → Handler β}
    (hp : Only Bare p)
    (h : ∀ log' a, SameStage log log' → Obeys (CeremonyPermits q) post log' (f a)) :
    Obeys (CeremonyPermits q) post log (p >>= f) := stays_plain (hp.mono plain_of_bare) h

theorem calls_ask {question : Question} {f : question.Answer → Handler α}
    (hq : CeremonyPermits q log (.ask question))
    (h : ∀ r, Obeys (CeremonyPermits q) post (⟨.ask question, r⟩ :: log) (f r)) :
    Obeys (CeremonyPermits q) post log (ask question >>= f) := ⟨hq, h⟩

theorem calls_user {uid : String} {call : Call} {f : Reply → Handler α}
    (hq : CeremonyPermits q log (.user uid call))
    (h : ∀ r, Obeys (CeremonyPermits q) post (⟨.user uid call, r⟩ :: log) (f r)) :
    Obeys (CeremonyPermits q) post log (userCall uid call >>= f) := ⟨hq, h⟩

theorem calls_interaction {id : String} {call : InteractionCall} {f : call.Answer → Handler α}
    (hq : CeremonyPermits q log (.interaction id call))
    (h : ∀ r, Obeys (CeremonyPermits q) post (⟨.interaction id call, r⟩ :: log) (f r)) :
    Obeys (CeremonyPermits q) post log (interactionCall id call >>= f) := ⟨hq, h⟩

/-- The guard has shown the request its interaction, and nothing has happened since. -/
structure Guards (q : Ceremony) (log : Log) (g : Guarded) : Prop where
  id : g.id = q.id
  snapshot : snapshot log = some (g.now, g.doc)
  uncleared : ¬ Cleared log
  unhanded : ¬ Handed log

theorem Guards.mono {log' : Log} {g : Guarded} (h : Guards q log g) (hsame : SameStage log log') :
    Guards q log' g where
  id := h.id
  snapshot := hsame.snapshot.trans h.snapshot
  uncleared := fun hcleared => h.uncleared (hsame.cleared.mp hcleared)
  unhanded := fun hhanded => h.unhanded (hsame.handed.mp hhanded)

theorem refuses {β : Type} {known : Log → β → Prop} {response : Response} :
    Obeys (CeremonyPermits q) (fun log' result => ∀ b, result = .ok b → known log' b) log
      (pure (.error response) : Handler (Except Response β)) := by
  intro b h
  cases h

theorem guard_guards (r : ApiRequest) (hr : r.id = q.id) :
    Obeys (CeremonyPermits q) (fun log' result => ∀ g, result = .ok g → Guards q log' g) []
      (guard r false) := by
  unfold guard
  refine calls_ask trivial fun limited => ?_
  split
  · exact refuses
  split
  · exact refuses
  refine calls_ask trivial fun settings => ?_
  cases settings with
  | none => exact refuses
  | some settings =>
    dsimp only
    split
    · exact refuses
    cases r.binding with
    | none => exact refuses
    | some binding =>
      dsimp only
      split
      · exact refuses
      refine calls_ask trivial fun now => calls_interaction ⟨hr, by simp [Cleared, clearsChallenge]⟩
        fun got => ?_
      cases got with
      | error e => exact refuses
      | ok doc =>
        dsimp only
        split
        · exact refuses
        next hpushed =>
        split
        · exact refuses
        split
        · exact refuses
        · next hterminal =>
          intro g hg
          cases hg
          refine ⟨hr, ?_, ?_, ?_⟩
          · have hopen : ¬ (isTerminal doc.status = true ∨ doc.status = .pushed) := by
              simpa [hpushed] using hterminal
            simp only [snapshot, if_neg hopen]
          · simp [Cleared, clearsChallenge]
          · simp [Handed, handsChallenge]

theorem countAttempt_guards {g : Guarded} (h : Guards q log g) :
    Obeys (CeremonyPermits q) (fun log' _ => Guards q log' g) log (countAttempt g) := by
  refine calls_interaction trivial fun counted => ?_
  have hcounted : Guards q (⟨.interaction g.id (.attempt g.now attemptLimit), counted⟩ :: log) g :=
    h.mono (.cons rfl)
  cases counted with
  | error e => exact hcounted
  | ok d => exact hcounted

/-! ### The handlers keep to it -/

theorem authenticateInteraction_spares (g : Guarded) (client : Client) (profile : UserProfile)
    (method : AuthMethod) (operation : InteractionOperation) :
    Obeys (CeremonyPermits q) (fun _ _ => True) log
      (authenticateInteraction g client profile method operation) := by
  unfold authenticateInteraction
  split
  · exact calls_interaction rfl fun _ => trivial
  · refine stays_bare (consentNeeded_bare _ _ _) fun log' needed _ => ?_
    refine calls_interaction rfl fun applied => ?_
    cases applied <;> trivial

theorem passkeyVerified_spares (g : Guarded) (profile : UserProfile) (passkey : PasskeyRow) :
    Obeys (CeremonyPermits q) (fun _ _ => True) log (passkeyVerified g profile passkey) := by
  unfold passkeyVerified
  refine stays_bare (interactionClient_bare _) ?_
  rintro log' (_ | client) _
  · trivial
  dsimp only
  split
  · split
    · trivial
    split
    · trivial
    refine stays_bare (linkIdentity_bare _ _) ?_
    rintro log'' (_ | _ | _) _
    · trivial
    · trivial
    · exact authenticateInteraction_spares _ _ _ _ _
  · exact authenticateInteraction_spares _ _ _ _ _

theorem registerVerified_spares (g : Guarded) (uid : String) (invitationId : Option String)
    (draft : RegistrationDraft) (verified : VerifiedPasskey) (name : Option String) :
    Obeys (CeremonyPermits q) (fun _ _ => True) log
      (registerVerified g uid invitationId draft verified name) := by
  unfold registerVerified
  refine stays_bare (takeInvitation_bare _ _ _) ?_
  rintro log₁ (_ | response) _
  · refine stays_plain (registrationAccount_plain _ _ _) ?_
    rintro log₂ (response | profile) _
    · trivial
    refine calls_ask trivial fun id => stays_bare (registerPasskey_bare _ _ _ _) ?_
    intro log₃ registered _
    split
    · trivial
    · trivial
    · refine stays_bare (interactionClient_bare _) ?_
      rintro log₄ (_ | client) _
      · trivial
      · exact authenticateInteraction_spares _ _ _ _ _
  · trivial

theorem passkeyOptionsHandler_ceremony (r : ApiRequest) (hr : r.id = q.id) :
    Obeys (CeremonyPermits q) (fun _ _ => True) [] (passkeyOptionsHandler r) := by
  unfold passkeyOptionsHandler
  refine Obeys.bind ((guard_guards r hr).mono ?_)
  rintro log₁ (response | g) hguard
  · trivial
  have hg := hguard g rfl
  dsimp only
  split
  · trivial
  refine Obeys.bind ((countAttempt_guards hg).mono ?_)
  rintro log₂ (_ | refused) hg₂
  · exact calls_ask trivial fun challenge => calls_interaction ⟨hg₂.id, log₂, rfl⟩ fun _ => trivial
  · trivial

theorem registerOptionsHandler_ceremony (r : ApiRequest) (hr : r.id = q.id)
    (body : Option RegisterOptionsBody) :
    Obeys (CeremonyPermits q) (fun _ _ => True) [] (registerOptionsHandler r body) := by
  unfold registerOptionsHandler
  refine Obeys.bind ((guard_guards r hr).mono ?_)
  rintro log₁ (response | g) hguard
  · trivial
  have hg := hguard g rfl
  dsimp only
  split
  · trivial
  refine Obeys.bind ((countAttempt_guards hg).mono ?_)
  rintro log₂ (_ | refused) hg₂
  · cases body with
    | none => trivial
    | some body =>
      refine stays_bare (policy_bare _ _) ?_
      rintro log₃ (response | invitation) _
      · trivial
      refine stays_bare (registrationDraft_bare _ _) ?_
      rintro log₄ (response | ⟨uid, draft⟩) _
      · trivial
      refine stays_bare (unverifiedInUse_bare _) fun log₅ emailInUse _ => ?_
      exact calls_ask trivial fun challenge =>
        calls_interaction ⟨hg₂.id, log₅, rfl⟩ fun _ => trivial
  · trivial

/-- The patch that clears the challenge. -/
theorem Guards.clear {g : Guarded} (h : Guards q log g) (hq : q.isVerify = true)
    {fields : InteractionPatch} (hfields : fields.passkeyChallenge = some none) :
    CeremonyPermits q log (.interaction g.id (.patch fields g.now)) := by
  refine ⟨h.id, ?_⟩
  rw [hfields]
  exact ⟨hq, h.uncleared, h.unhanded, g.doc, h.snapshot⟩

/-- After that patch the request may hand on the challenge of its snapshot. -/
theorem Guards.mayHand {g : Guarded} (h : Guards q log g) {id : String} {fields : InteractionPatch}
    (hfields : fields.passkeyChallenge = some none) {now : ℤ}
    {answer : (InteractionCall.patch fields now).Answer} :
    MayHand (⟨.interaction id (.patch fields now), answer⟩ :: log) where
  cleared := cleared_cons.mpr (.inl (by simp [clearsChallenge, hfields]))
  unhanded := by
    rw [handed_cons]
    rintro (hhands | hhanded)
    · cases hhands
    · exact h.unhanded hhanded

theorem Guards.expected {g : Guarded} (h : Guards q log g) {op : Op} {answer : op.Answer}
    (hop : readsDocument op = false) {c : PasskeyChallenge}
    (hc : (g.doc.passkeyChallenge.filter fun c => g.now < c.expiresAt) = some c) :
    expectedChallenge (⟨op, answer⟩ :: log) = some c.value := by
  rw [expectedChallenge, snapshot_cons hop, h.snapshot, Option.bind_some, hc]
  rfl

theorem SameStage.mayHand {log' : Log} (hsame : SameStage log log') (h : MayHand log) :
    MayHand log' where
  cleared := hsame.cleared.mpr h.cleared
  unhanded := fun hhanded => h.unhanded (hsame.handed.mp hhanded)

theorem verifyAssertion_ceremony {uid credentialId challenge : String} {now : ℤ}
    (hmay : MayHand log) (hexpected : expectedChallenge log = some challenge) :
    Obeys (CeremonyPermits q) (fun _ _ => True) log
      (verifyAssertion uid credentialId challenge now) := by
  unfold verifyAssertion
  refine calls_user ⟨hmay, by rw [hexpected]; rfl⟩ fun reply => ?_
  split
  · refine calls_ask ?_ fun verified => ⟨trivial, fun _ => trivial⟩
    change expectedChallenge _ = some challenge
    rw [expectedChallenge, snapshot_cons rfl]
    exact hexpected
  · trivial

theorem passkeyVerifyHandler_ceremony (r : ApiRequest) (hr : r.id = q.id) (hq : q.isVerify = true)
    (malformed : Bool) (assertion : Option Assertion) :
    Obeys (CeremonyPermits q) (fun _ _ => True) []
      (passkeyVerifyHandler r malformed assertion) := by
  unfold passkeyVerifyHandler
  refine Obeys.bind ((guard_guards r hr).mono ?_)
  rintro log₁ (response | g) hguard
  · trivial
  have hg := hguard g rfl
  dsimp only
  split
  · trivial
  refine Obeys.bind ((countAttempt_guards hg).mono ?_)
  rintro log₂ (_ | refused) hg₂
  · dsimp only
    split
    · trivial
    refine calls_interaction (hg₂.clear hq rfl) fun patched => ?_
    split
    · next challenge assertion hchallenge =>
      refine stays_bare (assertionUser_bare _) fun log₃ routed hsame => ?_
      split
      · trivial
      refine Obeys.bind ((verifyAssertion_ceremony (hsame.mayHand (hg₂.mayHand rfl))
        (hsame.expectedChallenge.trans (hg₂.expected rfl hchallenge))).mono fun log₄ reply _ => ?_)
      split
      · exact passkeyVerified_spares _ _ _
      · trivial
      · split
        · exact calls_ask trivial fun _ => trivial
        · trivial
      · trivial
    · trivial
  · trivial

theorem registerVerifyHandler_ceremony (r : ApiRequest) (hr : r.id = q.id)
    (hq : q.isVerify = true) (malformed : Bool) (name : Option String) :
    Obeys (CeremonyPermits q) (fun _ _ => True) [] (registerVerifyHandler r malformed name) := by
  unfold registerVerifyHandler
  refine Obeys.bind ((guard_guards r hr).mono ?_)
  rintro log₁ (response | g) hguard
  · trivial
  have hg := hguard g rfl
  dsimp only
  split
  · trivial
  refine Obeys.bind ((countAttempt_guards hg).mono ?_)
  rintro log₂ (_ | refused) hg₂
  · dsimp only
    split
    · trivial
    cases passkeyName name with
    | error _ => trivial
    | ok name =>
      refine calls_interaction (hg₂.clear hq rfl) fun patched => ?_
      split
      · next value expiresAt uid invitationId draft hchallenge hdraft =>
        refine calls_ask ⟨hg₂.mayHand rfl, hg₂.expected rfl hchallenge⟩ fun verification => ?_
        split
        · trivial
        · trivial
        · refine calls_ask trivial fun holder => ?_
          split
          · trivial
          · exact registerVerified_spares _ _ _ _ _ _
      · trivial
  · trivial

end Protocol

theorem ceremonies_follow (sha256 : String → Bytes) :
    (ceremonies sha256).Follows CeremonyPermits := by
  intro q
  cases q with
  | passkeyOptions r => exact passkeyOptionsHandler_ceremony r rfl
  | passkeyVerify r malformed assertion =>
    exact passkeyVerifyHandler_ceremony r rfl rfl malformed assertion
  | registerOptions r body => exact registerOptionsHandler_ceremony r rfl body
  | registerVerify r malformed name => exact registerVerifyHandler_ceremony r rfl rfl malformed name

end TinyOidc.Interaction
