import TinyOidc.Interaction.FlowProtocol

/-! What the requests write: where an interaction starts, what a pushed one becomes, and what is
known before a registration is begun and before an account is created. -/
namespace TinyOidc.Interaction
open TinyOidc.User Threads
open Threads.Prog (Obeys Only)

/-- Where an interaction may start: a consent is asked on the session that was found. -/
def StartsAt (status : InteractionStatus) (session : Option ExistingSession) : Prop :=
  status = .pushed ∨ status = .loginRequired ∨ status = .consentRequired ∧ session ≠ none

/-- The settings were read and the mode is one of `modes`. -/
def ReadMode (modes : RegistrationMode → Prop) (log : Log) : Prop :=
  ∃ settings : Settings, modes settings.registrationMode ∧
    (⟨.ask .settings, some settings⟩ : Entry Op.Answer) ∈ log

/-- A token opened as a `register` invitation. -/
def OpenedRegister (log : Log) : Prop :=
  ∃ token now, ∃ row : InvitationRow, row.kind = .register ∧
    (⟨.ask (.openInvitation token now), .ok row⟩ : Entry Op.Answer) ∈ log

/-- Registration is open, or `register/options` was shown an invitation to it. -/
def MayDraft (q : Request) (id : String) (log : Log) : Prop :=
  ReadMode (· = .openToAll) log ∨
    (∃ r body, q = .registerOptions r body ∧ r.id = id) ∧ OpenedRegister log

/-- Registration is not closed, or `register/verify` has read of a registration that was begun. -/
def MayCreate (q : Request) (log : Log) : Prop :=
  ReadMode (· ≠ .closed) log ∨
    ∃ r malformed name, q = .registerVerify r malformed name ∧
      ∃ now, ∃ d : InteractionDocument, ∃ draft, d.registration = some draft ∧
        draft.kind = .register ∧
        (⟨.interaction r.id (.get now), .ok d⟩ : Entry Op.Answer) ∈ log

/-- What a request may write, given what it has been answered. -/
def Writes (q : Request) (log : Log) : Op → Prop
  | .interaction _ (.create input _ _) => StartsAt input.status input.existingSession
  | .interaction _ (.apply operation target patch _) => operation = .consumePar →
      target = .completed ∨
        ∃ existing, patch.existingSession = some existing ∧ StartsAt target existing
  | .interaction id (.patch fields _) => ∀ draft, fields.registration = some (some draft) →
      draft.kind = .register → MayDraft q id log
  | .ask (.claimUser _ _) | .user _ (.init _ _ _) => MayCreate q log
  | _ => True

section Rules

variable {q : Request} {log : Log} {α β : Type}

theorem ReadMode.mono {modes : RegistrationMode → Prop} {log' : Log} (h : ReadMode modes log)
    (hsub : log ⊆ log') : ReadMode modes log' := by
  obtain ⟨settings, hmode, hread⟩ := h
  exact ⟨settings, hmode, hsub hread⟩

theorem MayCreate.mono {log' : Log} (h : MayCreate q log) (hsub : log ⊆ log') :
    MayCreate q log' := by
  rcases h with hmode | ⟨r, malformed, name, hq, now, d, draft, hdraft, hkind, hread⟩
  · exact .inl (hmode.mono hsub)
  · exact .inr ⟨r, malformed, name, hq, now, d, draft, hdraft, hkind, hsub hread⟩

theorem writes_of_bare (log : Log) (op : Op) (h : Bare op) : Writes q log op := by
  cases op with
  | ask question =>
    cases question with
    | claimUser user now => cases h
    | _ => trivial
  | user uid call =>
    cases call with
    | init p now identities => cases h
    | _ => trivial
  | interaction id call => exact h.elim

/-- Once an account may be created, every plain operation is allowed. -/
theorem writes_of_plain {log' : Log} (hcreate : MayCreate q log) (hsub : log ⊆ log') (op : Op)
    (h : Plain op) : Writes q log' op := by
  cases op with
  | ask question =>
    cases question with
    | claimUser user now => exact hcreate.mono hsub
    | _ => trivial
  | user uid call =>
    cases call with
    | init p now identities => exact hcreate.mono hsub
    | _ => trivial
  | interaction id call => exact h.elim

theorem writes_ask {post : Log → α → Prop} {question : Question} {f : question.Answer → Handler α}
    (hq : Writes q log (.ask question))
    (h : ∀ r, Obeys (Writes q) post (⟨.ask question, r⟩ :: log) (f r)) :
    Obeys (Writes q) post log (ask question >>= f) := Obeys.perform hq h

theorem writes_user {post : Log → α → Prop} {uid : String} {call : Call} {f : Reply → Handler α}
    (hcall : Writes q log (.user uid call))
    (h : ∀ r, Obeys (Writes q) post (⟨.user uid call, r⟩ :: log) (f r)) :
    Obeys (Writes q) post log (userCall uid call >>= f) := Obeys.perform hcall h

theorem writes_interaction {post : Log → α → Prop} {id : String} {call : InteractionCall}
    {f : call.Answer → Handler α} (hcall : Writes q log (.interaction id call))
    (h : ∀ r, Obeys (Writes q) post (⟨.interaction id call, r⟩ :: log) (f r)) :
    Obeys (Writes q) post log (interactionCall id call >>= f) := Obeys.perform hcall h

theorem writes_bare {post : Log → β → Prop} {p : Handler α} {f : α → Handler β}
    (hp : Only Bare p) (h : ∀ log' a, log ⊆ log' → Obeys (Writes q) post log' (f a)) :
    Obeys (Writes q) post log (p >>= f) :=
  Obeys.bind ((hp.obeys writes_of_bare).mono h)

theorem writes_plain {post : Log → β → Prop} {p : Handler α} {f : α → Handler β}
    (hcreate : MayCreate q log) (hp : Only Plain p)
    (h : ∀ log' a, log ⊆ log' → Obeys (Writes q) post log' (f a)) :
    Obeys (Writes q) post log (p >>= f) :=
  Obeys.bind ((hp.obeys_from fun _ => writes_of_plain hcreate).mono h)

end Rules

/-! ### The login steps -/

variable {q : Request} {log : Log}

/-- What the guard of the Interaction API has read for a request on `id`. -/
structure Shown (log : Log) (id : String) (g : Guarded) : Prop where
  id : g.id = id
  settings : (⟨.ask .settings, some g.settings⟩ : Entry Op.Answer) ∈ log
  doc : (⟨.interaction g.id (.get g.now), .ok g.doc⟩ : Entry Op.Answer) ∈ log

theorem Shown.mono {log' : Log} {id : String} {g : Guarded} (h : Shown log id g)
    (hsub : log ⊆ log') : Shown log' id g := ⟨h.id, hsub h.settings, hsub h.doc⟩

theorem Shown.cons {id : String} {g : Guarded} (h : Shown log id g) {e : Entry Op.Answer} :
    Shown (e :: log) id g := h.mono (List.subset_cons_self e log)

theorem guard_writes (r : ApiRequest) (isGet : Bool) :
    Obeys (Writes q) (fun log' result => ∀ g, result = .ok g → Shown log' r.id g) log
      (guard r isGet) := by
  unfold guard
  refine writes_ask trivial fun limited => ?_
  split
  · exact obeys_refused
  split
  · exact obeys_refused
  refine writes_ask trivial fun settings => ?_
  cases settings with
  | none => exact obeys_refused
  | some settings =>
    dsimp only
    split
    · exact obeys_refused
    cases r.binding with
    | none => exact obeys_refused
    | some binding =>
      dsimp only
      split
      · exact obeys_refused
      refine writes_ask trivial fun now => writes_interaction trivial fun got => ?_
      cases got with
      | error e => exact obeys_refused
      | ok doc =>
        dsimp only
        split
        · exact obeys_refused
        split
        · exact obeys_refused
        split
        · exact obeys_refused
        · intro g hg
          cases hg
          constructor
          · rfl
          · simp
          · simp

theorem countAttempt_writes (g : Guarded) :
    Obeys (Writes q) (fun log' _ => log ⊆ log') log (countAttempt g) := by
  refine writes_interaction trivial fun counted => ?_
  cases counted with
  | error e => exact List.subset_cons_self _ _
  | ok d => exact List.subset_cons_self _ _

theorem authenticateInteraction_writes (g : Guarded) (client : Client) (profile : UserProfile)
    (method : AuthMethod) {operation : InteractionOperation} (hop : operation ≠ .consumePar) :
    Obeys (Writes q) (fun _ _ => True) log
      (authenticateInteraction g client profile method operation) := by
  unfold authenticateInteraction
  split
  · exact writes_interaction (fun h => absurd h hop) fun _ => trivial
  · refine writes_bare (consentNeeded_bare _ _ _) fun log' needed _ => ?_
    refine writes_interaction (fun h => absurd h hop) fun applied => ?_
    cases applied with
    | error e => trivial
    | ok d => trivial

theorem passkeyOptionsHandler_writes (r : ApiRequest) :
    Obeys (Writes q) (fun _ _ => True) log (passkeyOptionsHandler r) := by
  unfold passkeyOptionsHandler
  refine Obeys.bind ((guard_writes r false).mono fun log' guarded _ => ?_)
  cases guarded with
  | error response => trivial
  | ok g =>
    dsimp only
    split
    · trivial
    refine Obeys.bind ((countAttempt_writes g).mono fun log'' counted _ => ?_)
    cases counted with
    | some refused => trivial
    | none => exact writes_ask trivial fun challenge => writes_interaction nofun fun _ => trivial

/-- An assertion is checked by calls that create nothing. -/
theorem verifyAssertion_writes {β : Type} {post : Log → β → Prop}
    (uid credentialId challenge : String)
    (now : ℤ) {f : Reply → Handler β}
    (h : ∀ log' a, log ⊆ log' → Obeys (Writes q) post log' (f a)) :
    Obeys (Writes q) post log (verifyAssertion uid credentialId challenge now >>= f) := by
  refine Obeys.bind ?_
  unfold verifyAssertion
  refine writes_user trivial fun reply => ?_
  split
  · refine writes_ask trivial fun verified => ⟨trivial, fun resumed => h _ _ ?_⟩
    intro e he
    simp [he]
  · exact h _ _ (List.subset_cons_self _ _)

theorem passkeyVerified_writes (g : Guarded) (profile : UserProfile) (passkey : PasskeyRow) :
    Obeys (Writes q) (fun _ _ => True) log (passkeyVerified g profile passkey) := by
  unfold passkeyVerified
  refine writes_bare (interactionClient_bare _) fun log' client _ => ?_
  cases client with
  | none => trivial
  | some client =>
    dsimp only
    split
    · split
      · trivial
      split
      · trivial
      refine writes_bare (linkIdentity_bare _ _) fun log'' linked _ => ?_
      split
      · trivial
      · trivial
      · exact authenticateInteraction_writes _ _ _ _ (by decide)
    · exact authenticateInteraction_writes _ _ _ _ (by decide)

theorem passkeyVerifyHandler_writes (r : ApiRequest) (malformed : Bool)
    (assertion : Option Assertion) :
    Obeys (Writes q) (fun _ _ => True) log (passkeyVerifyHandler r malformed assertion) := by
  unfold passkeyVerifyHandler
  refine Obeys.bind ((guard_writes r false).mono fun log₁ guarded _ => ?_)
  cases guarded with
  | error response => trivial
  | ok g =>
    dsimp only
    split
    · trivial
    refine Obeys.bind ((countAttempt_writes g).mono fun log₂ counted _ => ?_)
    cases counted with
    | some refused => trivial
    | none =>
      dsimp only
      split
      · trivial
      refine writes_interaction nofun fun _ => ?_
      split
      · refine writes_bare (assertionUser_bare _) fun log₃ routed _ => ?_
        split
        · trivial
        refine verifyAssertion_writes _ _ _ _ fun log₄ reply _ => ?_
        split
        · exact passkeyVerified_writes _ _ _
        · trivial
        · split
          · exact writes_ask trivial fun _ => trivial
          · trivial
        · trivial
      · trivial

/-! ### Registration -/

/-- The policy lets a registration through on an opened invitation, or in the open mode. -/
theorem policy_writes {id : String} {g : Guarded} (hg : Shown log id g)
    (body : RegisterOptionsBody) :
    Obeys (Writes q)
      (fun log' result => log ⊆ log' ∧ ∀ invitation, result = .ok invitation →
        match invitation with
        | none => ReadMode (· = .openToAll) log'
        | some row => ∃ token now,
            (⟨.ask (.openInvitation token now), .ok row⟩ : Entry Op.Answer) ∈ log') log
      (registerOptionsHandler.policy g body) := by
  unfold registerOptionsHandler.policy
  split
  · next token _ =>
    refine writes_ask trivial fun opened => ?_
    cases opened with
    | error fault =>
      refine ⟨List.subset_cons_self _ _, ?_⟩
      intro invitation h
      cases h
    | ok row =>
      refine ⟨List.subset_cons_self _ _, ?_⟩
      intro invitation h
      cases h
      exact ⟨token, g.now, List.mem_cons_self⟩
  · split
    · refine ⟨List.Subset.refl log, ?_⟩
      intro invitation h
      cases h
    · next hmode =>
      refine ⟨List.Subset.refl log, ?_⟩
      intro invitation h
      cases h
      exact ⟨g.settings, not_not.mp hmode, hg.settings⟩

/-- A draft of a new account is not made from a `recover` invitation. -/
theorem registrationDraft_writes (body : RegisterOptionsBody) (invitation : Option InvitationRow) :
    Obeys (Writes q)
      (fun log' result => log ⊆ log' ∧ ∀ drafted, result = .ok drafted →
        drafted.2.kind = .register → ∀ row, invitation = some row → row.kind = .register) log
      (registrationDraft body invitation) := by
  unfold registrationDraft
  split
  · refine writes_ask trivial fun target => ?_
    split
    · refine ⟨List.subset_cons_self _ _, ?_⟩
      intro drafted h
      cases h
    · refine writes_user trivial fun listed => ⟨?_, ?_⟩
      · intro e he
        simp [he]
      · intro drafted h hkind
        cases h
        cases hkind
  · next hnone =>
    have hkinds : ∀ row, invitation = some row → row.kind = .register := by
      intro row hrow
      have hrecover : ¬ (row.kind == .recover) = true := Option.filter_eq_none_iff.mp hnone row hrow
      cases hkind : row.kind with
      | register => rfl
      | recover => simp [hkind] at hrecover
    refine writes_bare (emailRefusal_bare _ _) fun log' refusal hsub => ?_
    cases refusal with
    | some response =>
      refine ⟨hsub, ?_⟩
      intro drafted h
      cases h
    | none =>
      refine writes_ask trivial fun uid => ⟨?_, fun _ _ _ => hkinds⟩
      exact fun e he => List.mem_cons_of_mem _ (hsub he)

theorem registerOptionsHandler_writes (r : ApiRequest) (body : Option RegisterOptionsBody) :
    Obeys (Writes (.registerOptions r body)) (fun _ _ => True) []
      (registerOptionsHandler r body) := by
  unfold registerOptionsHandler
  refine Obeys.bind ((guard_writes r false).mono fun log₁ guarded hguard => ?_)
  cases guarded with
  | error response => trivial
  | ok g =>
    have hshown := hguard g rfl
    dsimp only
    split
    · trivial
    refine Obeys.bind ((countAttempt_writes g).mono fun log₂ counted hsub₂ => ?_)
    cases counted with
    | some refused => trivial
    | none =>
      cases body with
      | none => trivial
      | some body =>
        refine Obeys.bind ((policy_writes (hshown.mono hsub₂) body).mono ?_)
        intro log₃ policed hpolicy
        obtain ⟨-, hpolicy⟩ := hpolicy
        cases policed with
        | error response => trivial
        | ok invitation =>
          refine Obeys.bind ((registrationDraft_writes body invitation).mono ?_)
          intro log₄ drafted hdrafted
          obtain ⟨hsub₄, hdrafted⟩ := hdrafted
          cases drafted with
          | error response => trivial
          | ok drafted =>
            refine writes_bare (unverifiedInUse_bare _) fun log₅ emailInUse hsub₅ => ?_
            refine writes_ask trivial fun challenge => writes_interaction ?_ fun _ => trivial
            intro draft hdraft hkind
            have hpatched : drafted.2 = draft := by simpa using hdraft
            subst hpatched
            have hsub : log₃ ⊆ ⟨.ask .randomText, challenge⟩ :: log₅ :=
              fun e he => List.mem_cons_of_mem _ (hsub₅ (hsub₄ he))
            have hopened := hpolicy invitation rfl
            cases invitation with
            | none => exact .inl (hopened.mono hsub)
            | some row =>
              obtain ⟨token, now, hrow⟩ := hopened
              exact .inr ⟨⟨r, some body, rfl, hshown.id.symm⟩, token, now, row,
                hdrafted drafted rfl hkind row rfl,
                hsub hrow⟩

/-- A draft of a new account leads to its creation, a recovery creates nothing. -/
theorem registrationAccount_writes {β : Type} {post : Log → β → Prop} {uid : String}
    {draft : RegistrationDraft} {now : ℤ} {f : Except Response UserProfile → Handler β}
    (hcreate : draft.kind = .register → MayCreate q log)
    (h : ∀ log' a, log ⊆ log' → Obeys (Writes q) post log' (f a)) :
    Obeys (Writes q) post log (registrationAccount uid draft now >>= f) := by
  cases hkind : draft.kind with
  | register => exact writes_plain (hcreate hkind) (registrationAccount_plain _ _ _) h
  | recover =>
    refine writes_bare ?_ h
    unfold registrationAccount
    rw [hkind]
    refine only_userCall_bind rfl fun reply => ?_
    split
    · exact only_userCall_bind rfl fun revoked => trivial
    · trivial
    · trivial

theorem registerVerified_writes {g : Guarded} {uid : String} {invitationId : Option String}
    {draft : RegistrationDraft} (hcreate : draft.kind = .register → MayCreate q log)
    (verified : VerifiedPasskey) (name : Option String) :
    Obeys (Writes q) (fun _ _ => True) log
      (registerVerified g uid invitationId draft verified name) := by
  unfold registerVerified
  refine writes_bare (takeInvitation_bare _ _ _) fun log₁ taken hsub₁ => ?_
  cases taken with
  | some response => trivial
  | none =>
    refine registrationAccount_writes (fun hkind => (hcreate hkind).mono hsub₁)
      fun log₂ account _ => ?_
    cases account with
    | error response => trivial
    | ok profile =>
      refine writes_ask trivial fun id => writes_bare (registerPasskey_bare _ _ _ _) ?_
      intro log₃ registered _
      split
      · trivial
      · trivial
      · refine writes_bare (interactionClient_bare _) fun log₄ client _ => ?_
        cases client with
        | none => trivial
        | some client => exact authenticateInteraction_writes _ _ _ _ (by decide)

theorem registerVerifyHandler_writes (r : ApiRequest) (malformed : Bool) (name : Option String) :
    Obeys (Writes (.registerVerify r malformed name)) (fun _ _ => True) []
      (registerVerifyHandler r malformed name) := by
  unfold registerVerifyHandler
  refine Obeys.bind ((guard_writes r false).mono fun log₁ guarded hguard => ?_)
  cases guarded with
  | error response => trivial
  | ok g =>
    have hshown := hguard g rfl
    dsimp only
    split
    · trivial
    refine Obeys.bind ((countAttempt_writes g).mono fun log₂ counted hsub₂ => ?_)
    cases counted with
    | some refused => trivial
    | none =>
      dsimp only
      split
      · trivial
      cases passkeyName name with
      | error _ => trivial
      | ok trimmed =>
        refine writes_interaction ?_ fun cleared => ?_
        · intro draft hdraft
          simp at hdraft
        split
        · next value uid invitationId draft hchallenge hdraft =>
          refine writes_ask trivial fun verification => ?_
          split
          · trivial
          · trivial
          · refine writes_ask trivial fun holder => ?_
            split
            · trivial
            refine registerVerified_writes ?_ _ _
            intro hkind
            have hread := (hshown.mono hsub₂).doc
            rw [hshown.id] at hread
            refine .inr ⟨r, malformed, name, rfl, g.now, g.doc, draft, hdraft, hkind, ?_⟩
            exact List.mem_cons_of_mem _ (List.mem_cons_of_mem _ (List.mem_cons_of_mem _ hread))
        · trivial

/-! ### Federation -/

theorem upstreamHandler_writes (r : ApiRequest) (malformed : Bool) (upstreamAlias : String)
    (invitation : Option String) :
    Obeys (Writes q) (fun _ _ => True) log
      (upstreamHandler r malformed upstreamAlias invitation) := by
  unfold upstreamHandler
  refine Obeys.bind ((guard_writes r false).mono fun log₁ guarded _ => ?_)
  cases guarded with
  | error response => trivial
  | ok g =>
    dsimp only
    split
    · trivial
    split
    · trivial
    refine writes_ask trivial fun record => ?_
    split
    · trivial
    split
    · trivial
    refine writes_bare (invitationId_bare _ _) fun log₂ opened _ => ?_
    split
    · trivial
    refine writes_ask trivial fun metadata => ?_
    split
    · trivial
    refine writes_ask trivial fun stateHash => writes_ask trivial fun nonce => ?_
    refine writes_ask trivial fun verifier => writes_interaction nofun fun patched => ?_
    split <;> trivial

/-- In the closed mode a first federated login creates nothing. -/
theorem resolveCreation_bare {upstream : Upstream} {leg : FederationLeg} {claims : Resolved}
    {settings : Settings} (hclosed : settings.registrationMode = .closed) (now : ℤ) :
    Only Bare (resolveCreation upstream leg claims settings now) := by
  unfold resolveCreation
  refine Only.bind (legInvitation_bare _ _) fun opened => ?_
  cases opened with
  | error fault => trivial
  | ok invitation =>
    have hrefused : (!(settings.autoCreate || invitation.isSome) ||
        decide (settings.registrationMode = .closed)) = true := by simp [hclosed]
    simp only [hrefused, if_true]
    trivial

theorem resolveAccount_writes {β : Type} {post : Log → β → Prop} {upstream : Upstream}
    {leg : FederationLeg} {claims : Resolved} {settings : Settings} {f : Resolution → Handler β}
    (hread : (⟨.ask .settings, some settings⟩ : Entry Op.Answer) ∈ log)
    (h : ∀ log' a, log ⊆ log' → Obeys (Writes q) post log' (f a)) :
    Obeys (Writes q) post log (resolveAccount upstream leg claims settings >>= f) := by
  by_cases hclosed : settings.registrationMode = .closed
  · exact writes_bare (resolveAccount_only (fun _ => id) (resolveCreation_bare hclosed)) h
  · have hcreate : MayCreate q log := .inl ⟨settings, hclosed, hread⟩
    exact writes_plain hcreate (resolveAccount_plain _ _ _ _) h

theorem failInteraction_writes (id : String) (now : ℤ) (error description : String) :
    Obeys (Writes q) (fun _ _ => True) log (failInteraction id now error description) :=
  writes_interaction nofun fun _ => trivial

theorem federationResolved_writes {g : Guarded}
    (hread : (⟨.ask .settings, some g.settings⟩ : Entry Op.Answer) ∈ log) (upstream : Upstream)
    (leg : FederationLeg) (claims : Resolved) :
    Obeys (Writes q) (fun _ _ => True) log (federationResolved g upstream leg claims) := by
  unfold federationResolved
  refine writes_bare (interactionClient_bare _) fun log₁ client hsub => ?_
  cases client with
  | none => exact failInteraction_writes _ _ _ _
  | some client =>
    refine resolveAccount_writes (hsub hread) fun log₂ resolution _ => ?_
    cases resolution with
    | user profile =>
      refine Obeys.bind ((authenticateInteraction_writes _ _ _ _ (by decide)).mono ?_)
      intro log₃ answered _
      split <;> trivial
    | link candidateUid =>
      refine writes_interaction nofun fun linked => ?_
      cases linked with
      | error _ => trivial
      | ok _ => trivial
    | fail fault => exact failInteraction_writes _ _ _ _

theorem federationAnswer_writes {g : Guarded}
    (hread : (⟨.ask .settings, some g.settings⟩ : Entry Op.Answer) ∈ log) (leg : FederationLeg)
    (error code : Option String) :
    Obeys (Writes q) (fun _ _ => True) log (federationAnswer g leg error code) := by
  unfold federationAnswer
  split
  · exact failInteraction_writes _ _ _ _
  · exact failInteraction_writes _ _ _ _
  · refine writes_ask trivial fun record => ?_
    split
    · exact failInteraction_writes _ _ _ _
    · exact failInteraction_writes _ _ _ _
    · split
      · exact failInteraction_writes _ _ _ _
      refine writes_ask trivial fun metadata => ?_
      split
      · exact failInteraction_writes _ _ _ _
      refine writes_ask trivial fun claims => ?_
      split
      · exact failInteraction_writes _ _ _ _
      · exact federationResolved_writes (by simp [hread]) _ _ _

theorem federationCallbackHandler_writes (malformed : Bool) (state : Option FederationRef)
    (binding : Option BindingRef) (error code : Option String) :
    Obeys (Writes q) (fun _ _ => True) log
      (federationCallbackHandler malformed state binding error code) := by
  unfold federationCallbackHandler
  refine writes_ask trivial fun limited => ?_
  split
  · trivial
  refine writes_ask trivial fun settings => ?_
  cases settings with
  | none => trivial
  | some settings =>
    dsimp only
    split
    · trivial
    split
    · trivial
    split
    · trivial
    split
    · trivial
    refine writes_ask trivial fun now => writes_interaction trivial fun consumed => ?_
    cases consumed with
    | error _ => trivial
    | ok consumed =>
      dsimp only
      split
      · trivial
      · exact federationAnswer_writes (by simp) _ _ _

/-! ### The course of an interaction -/

theorem startInteraction_writes {input : CreateInteraction}
    (hstart : StartsAt input.status input.existingSession) (now ttl : ℤ) :
    Obeys (Writes q) (fun _ _ => True) log (startInteraction input now ttl) := by
  refine writes_ask trivial fun secretHash => writes_interaction hstart fun created => ?_
  cases created with
  | error _ => trivial
  | ok _ => trivial

theorem parHandler_writes (clientId : String) (hasRequestUri : Bool) (params : RequestParams) :
    Obeys (Writes q) (fun _ _ => True) log (parHandler clientId hasRequestUri params) := by
  unfold parHandler
  refine writes_ask trivial fun limited => ?_
  split
  · trivial
  refine writes_ask trivial fun record => ?_
  split
  · trivial
  split
  · trivial
  split
  · trivial
  split
  · trivial
  · trivial
  · refine writes_ask trivial fun id => writes_ask trivial fun now => ?_
    exact writes_ask trivial fun secretHash => writes_interaction (.inl rfl) fun _ => trivial

/-- A consent is required of a session the cookie opened. -/
theorem evaluateSession_writes (cookie : SessionCookie) (client : ClientRef)
    (request : AuthorizeRequest) (settings : Settings) (now : ℤ) :
    Obeys (Writes q)
      (fun _ result => ∀ evaluation, result = some evaluation →
        evaluation.outcome = .consentRequired → evaluation.existingSession ≠ none) log
      (evaluateSession cookie client request settings now) := by
  unfold evaluateSession
  split
  · intro evaluation h houtcome
    cases h
    cases houtcome
  refine writes_ask trivial fun secretHash => writes_user trivial fun reply => ?_
  split
  · intro evaluation h _
    cases h
    simp
  · intro evaluation h houtcome
    cases h
    cases houtcome
  · intro evaluation h houtcome
    cases h
    cases houtcome
  · intro evaluation h
    cases h

theorem authorizeInteract_writes {status : InteractionStatus} {existing : Option ExistingSession}
    (hstart : StartsAt status existing) (pushed : Option String) (client : Client)
    (request : AuthorizeRequest) (settings : Settings) (now : ℤ) :
    Obeys (Writes q) (fun _ _ => True) log
      (authorizeInteract pushed client request settings now status existing) := by
  unfold authorizeInteract
  cases pushed with
  | some id => exact writes_interaction (fun _ => .inr ⟨existing, rfl, hstart⟩) fun _ => trivial
  | none =>
    refine writes_ask trivial fun id => Obeys.bind ((startInteraction_writes hstart _ _).mono ?_)
    intro log' started _
    split <;> trivial

theorem authorizeFail_writes (pushed : Option String) (request : AuthorizeRequest) (now : ℤ)
    (error description : String) :
    Obeys (Writes q) (fun _ _ => True) log
      (authorizeFail pushed request now error description) := by
  cases pushed with
  | none => trivial
  | some id => exact writes_interaction nofun fun _ => trivial

theorem authorizeEvaluated_writes (pushed : Option String) (client : Client)
    (request : AuthorizeRequest) (settings : Settings) (now : ℤ) (cookie : SessionCookie) :
    Obeys (Writes q) (fun _ _ => True) log
      (authorizeEvaluated pushed client request settings now cookie) := by
  unfold authorizeEvaluated
  refine Obeys.bind ((evaluateSession_writes _ _ _ _ _).mono fun log' evaluated hevaluated => ?_)
  cases evaluated with
  | none => trivial
  | some evaluation =>
    dsimp only
    split
    · unfold authorizeHit
      split
      · trivial
      · exact writes_interaction (fun _ => .inl rfl) fun _ => trivial
    · exact authorizeFail_writes _ _ _ _ _
    · split
      · exact authorizeFail_writes _ _ _ _ _
      refine authorizeInteract_writes ?_ _ _ _ _ _
      by_cases houtcome : evaluation.outcome = .consentRequired
      · rw [if_pos houtcome]
        exact .inr (.inr ⟨rfl, hevaluated evaluation rfl houtcome⟩)
      · rw [if_neg houtcome]
        exact .inr (.inl rfl)

theorem authorizeHandler_writes (params : Option AuthorizeParams) (cookie : SessionCookie) :
    Obeys (Writes q) (fun _ _ => True) log (authorizeHandler params cookie) := by
  unfold authorizeHandler
  refine writes_ask trivial fun now => writes_ask trivial fun settings => ?_
  split
  · trivial
  split
  · trivial
  split
  · trivial
  split
  · trivial
  refine writes_ask trivial fun record => ?_
  split
  · trivial
  split
  · trivial
  split
  · trivial
  unfold authorizeRequested
  split
  · split
    · trivial
    split
    · trivial
    · trivial
    · refine writes_ask trivial fun secretHash => writes_interaction trivial fun claimed => ?_
      cases claimed with
      | error _ => trivial
      | ok doc =>
        dsimp only
        split
        · trivial
        · exact authorizeEvaluated_writes _ _ _ _ _ _
  · split
    · trivial
    split
    · trivial
    · trivial
    · exact authorizeEvaluated_writes _ _ _ _ _ _

theorem getInteractionHandler_writes (r : ApiRequest) :
    Obeys (Writes q) (fun _ _ => True) log (getInteractionHandler r) := by
  unfold getInteractionHandler
  refine Obeys.bind ((guard_writes r true).mono fun log₁ guarded _ => ?_)
  cases guarded with
  | error response => trivial
  | ok g =>
    refine writes_bare (interactionClient_bare _) fun log₂ client _ => ?_
    dsimp only
    split
    · split
      · refine writes_user trivial fun granted => ?_
        dsimp only
        split
        · trivial
        refine writes_user trivial fun reply => ?_
        split <;> trivial
      · trivial
    · trivial

theorem abortHandler_writes (r : ApiRequest) :
    Obeys (Writes q) (fun _ _ => True) log (abortHandler r) := by
  unfold abortHandler
  refine Obeys.bind ((guard_writes r false).mono fun log₁ guarded _ => ?_)
  cases guarded with
  | error response => trivial
  | ok g => exact writes_interaction nofun fun _ => trivial

theorem consentHandler_writes (r : ApiRequest) (decision : Option ConsentDecision) :
    Obeys (Writes q) (fun _ _ => True) log (consentHandler r decision) := by
  unfold consentHandler
  refine Obeys.bind ((guard_writes r false).mono fun log₁ guarded _ => ?_)
  cases guarded with
  | error response => trivial
  | ok g =>
    dsimp only
    split
    · trivial
    split
    · trivial
    split
    · trivial
    · exact writes_interaction nofun fun _ => trivial
    split
    · trivial
    refine writes_bare (interactionClient_bare _) fun log₂ client _ => ?_
    split
    · trivial
    split
    · trivial
    refine writes_user trivial fun reply => ?_
    split
    · exact writes_interaction nofun fun _ => trivial
    · trivial
    · trivial

theorem logoutDecisionHandler_writes (r : ApiRequest) (confirm : Option Bool) :
    Obeys (Writes q) (fun _ _ => True) log (logoutDecisionHandler r confirm) := by
  unfold logoutDecisionHandler
  refine Obeys.bind ((guard_writes r false).mono fun log₁ guarded _ => ?_)
  cases guarded with
  | error response => trivial
  | ok g =>
    dsimp only
    split
    · trivial
    split
    · trivial
    split
    · trivial
    refine writes_interaction nofun fun applied => ?_
    cases applied with
    | error _ => trivial
    | ok _ => trivial

/-! ### Completion and logout -/

/-- Operations a request may always call. -/
def Calm (q : Request) (op : Op) : Prop := ∀ log, Writes q log op

theorem calm_settle {id : String} {operation : InteractionOperation} {target : InteractionStatus}
    {patch : TransitionPatch} {now : ℤ} (hop : operation ≠ .consumePar) :
    Calm q (.interaction id (.apply operation target patch now)) := fun _ h => absurd h hop

theorem finish_calm (id : String) (request : AuthorizeRequest) (now : ℤ) (result : ClientResult) :
    Only (Calm q) (finish id request now result) :=
  Only.perform (calm_settle (by decide)) fun _ => trivial

theorem endSession_calm (uid sid reason : String) : Only (Calm q) (endSession uid sid reason) :=
  Only.perform (fun _ => trivial) fun _ => ⟨fun _ => trivial, fun _ => trivial⟩

theorem completeLogout_calm (d : InteractionDocument) (id : String) (cookie : SessionCookie)
    (now : ℤ) : Only (Calm q) (completeLogout d id cookie now) := by
  have hcomplete : Calm q (.interaction id (.apply .complete .completed {} now)) :=
    calm_settle (by decide)
  unfold completeLogout
  split
  · trivial
  split
  · split
    · exact Only.bind (endSession_calm _ _ _) fun _ => Only.perform hcomplete fun _ => trivial
    · exact Only.perform hcomplete fun _ => trivial
  · exact Only.perform hcomplete fun _ => trivial

theorem completeOnSession_calm (d : InteractionDocument) (id : String) (request : AuthorizeRequest)
    (client : Client) (session : ExistingSession) (cookie : SessionCookie) (settings : Settings)
    (now : ℤ) :
    Only (Calm q) (completeOnSession d id request client session cookie settings now) := by
  have hrestart : Only (Calm q) (completeOnSession.restart id now) :=
    Only.perform (calm_settle (by decide)) fun _ => trivial
  unfold completeOnSession
  refine Only.perform (fun _ => trivial) fun secretHash => ?_
  refine Only.perform (fun _ => trivial) fun reply => ?_
  split
  · split
    · exact finish_calm _ _ _ _
    · exact hrestart
  · exact hrestart
  · trivial

theorem rotateSession_calm (d : InteractionDocument) (auth : InteractionAuth) (code : CodeInput)
    (client : ClientRef) (secretHash : Bytes) (settings : Settings) (now : ℤ) :
    Only (Calm q) (rotateSession d auth code client secretHash settings now) := by
  unfold rotateSession
  split
  · trivial
  split
  · trivial
  refine Only.perform (fun _ => trivial) fun reply => ?_
  split <;> trivial

theorem endOther_calm (d : InteractionDocument) (uid : String) :
    Only (Calm q) (endOther d uid) := by
  unfold endOther
  split
  · trivial
  split
  · exact Only.bind (endSession_calm _ _ _) fun _ => trivial
  · trivial

theorem completeWithAuth_calm (d : InteractionDocument) (id : String) (request : AuthorizeRequest)
    (client : Client) (auth : InteractionAuth) (settings : Settings) (now : ℤ) :
    Only (Calm q) (completeWithAuth d id request client auth settings now) := by
  unfold completeWithAuth
  refine Only.perform (fun _ => trivial) fun codeHash => ?_
  refine Only.perform (fun _ => trivial) fun secretHash => ?_
  refine Only.bind (rotateSession_calm _ _ _ _ _ _ _) fun rotated => ?_
  split
  · exact finish_calm _ _ _ _
  · exact finish_calm _ _ _ _
  · trivial
  · refine Only.bind (endOther_calm _ _) fun _ => ?_
    refine Only.perform (fun _ => trivial) fun sid => ?_
    refine Only.perform (fun _ => trivial) fun metadata => ?_
    refine Only.perform (fun _ => trivial) fun reply => ?_
    split
    · exact finish_calm _ _ _ _
    · exact finish_calm _ _ _ _
    · trivial

theorem completeClaimed_calm (d : InteractionDocument) (id : String) (cookie : SessionCookie)
    (settings : Settings) (now : ℤ) :
    Only (Calm q) (completeClaimed d id cookie settings now) := by
  unfold completeClaimed
  split
  · exact completeLogout_calm _ _ _ _
  split
  · trivial
  split
  · exact finish_calm _ _ _ _
  unfold completeReady
  refine Only.bind ((interactionClient_bare _).mono fun op h log => writes_of_bare log op h) ?_
  intro client
  split
  · exact finish_calm _ _ _ _
  · split
    · exact completeWithAuth_calm _ _ _ _ _ _ _
    · exact completeOnSession_calm _ _ _ _ _ _ _ _
    · exact finish_calm _ _ _ _

theorem completeHandler_calm (id : String) (binding : Option BindingRef) (cookie : SessionCookie) :
    Only (Calm q) (completeHandler id binding cookie) := by
  unfold completeHandler
  refine Only.perform (fun _ => trivial) fun settings => ?_
  split
  · trivial
  split
  · trivial
  split
  · trivial
  split
  · trivial
  refine Only.perform (fun _ => trivial) fun now => ?_
  refine Only.perform (fun _ => trivial) fun got => ?_
  split
  · trivial
  split
  · trivial
  split
  · trivial
  split
  · trivial
  split
  · trivial
  refine Only.perform (fun _ => trivial) fun claimed => ?_
  split
  · trivial
  · exact completeClaimed_calm _ _ _ _ _

theorem logoutAsked_calm (params : LogoutParams) (cookie : SessionCookie) (settings : Settings)
    (client : Option Client) : Only (Calm q) (logoutAsked params cookie settings client) := by
  unfold logoutAsked
  split
  · trivial
  refine Only.perform (fun _ => trivial) fun now => ?_
  refine Only.perform (fun _ => trivial) fun reply => ?_
  split
  · refine Only.perform (fun _ => trivial) fun now' => ?_
    refine Only.perform (fun _ => trivial) fun id => ?_
    refine Only.bind (Only.perform (fun _ => trivial) fun secretHash => ?_) fun started => ?_
    · refine Only.perform (fun _ => .inr (.inl rfl)) fun created => ?_
      split <;> trivial
    · split <;> trivial
  · trivial
  · trivial

theorem logoutHandler_calm (params : Option LogoutParams) (cookie : SessionCookie) :
    Only (Calm q) (logoutHandler params cookie) := by
  unfold logoutHandler
  refine Only.perform (fun _ => trivial) fun limited => ?_
  split
  · trivial
  refine Only.perform (fun _ => trivial) fun settings => ?_
  split
  · trivial
  split
  · trivial
  split
  · trivial
  split
  · trivial
  · unfold logoutHinted
    refine Only.perform (fun _ => trivial) fun record => ?_
    split
    · trivial
    split
    · trivial
    · exact Only.bind (endSession_calm _ _ _) fun _ => trivial
  · exact logoutAsked_calm _ _ _ _
  · exact Only.perform (fun _ => trivial) fun record => logoutAsked_calm _ _ _ _

theorem listGrantsHandler_calm (uid : String) : Only (Calm q) (listGrantsHandler uid) := by
  unfold listGrantsHandler
  refine Only.perform (fun _ => trivial) fun reply => ?_
  split
  · refine Only.bind ((resolveClients_bare _).mono fun op h log => writes_of_bare log op h) ?_
    intro refs
    refine Only.perform (fun _ => trivial) fun listed => ?_
    split <;> trivial
  · trivial

theorem Calm.obeys {p : Handler Response} (h : Only (Calm q) p) :
    Obeys (Writes q) (fun _ _ => True) log p :=
  (h.obeys fun log _ hop => hop log).mono fun _ _ _ => trivial

/-- Every handler writes by the rules. -/
theorem deployment_writes (sha256 : String → Bytes) : (deployment sha256).Follows Writes := by
  intro q
  cases q with
  | par clientId hasRequestUri params => exact parHandler_writes _ _ _
  | authorize params cookie => exact authorizeHandler_writes _ _
  | getInteraction r => exact getInteractionHandler_writes _
  | abort r => exact abortHandler_writes _
  | consent r decision => exact consentHandler_writes _ _
  | passkeyOptions r => exact passkeyOptionsHandler_writes _
  | passkeyVerify r malformed assertion => exact passkeyVerifyHandler_writes _ _ _
  | registerOptions r body => exact registerOptionsHandler_writes _ _
  | registerVerify r malformed name => exact registerVerifyHandler_writes _ _ _
  | upstream r malformed upstreamAlias invitation => exact upstreamHandler_writes _ _ _ _
  | federationCallback malformed state binding error code =>
    exact federationCallbackHandler_writes _ _ _ _ _
  | logoutDecision r confirm => exact logoutDecisionHandler_writes _ _
  | complete id binding cookie => exact Calm.obeys (completeHandler_calm _ _ _)
  | logout params cookie => exact Calm.obeys (logoutHandler_calm _ _)
  | listGrants uid => exact Calm.obeys (listGrantsHandler_calm _)

end TinyOidc.Interaction
