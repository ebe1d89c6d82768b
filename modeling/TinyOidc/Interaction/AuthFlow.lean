import TinyOidc.Interaction.AuthProtocol

/-! The course of an interaction and what a login rests on: `/par` and `/authorize` start one
after the clock was read, consent is asked on a session that was good enough, and a completion
hands over the authentication it has read. -/
namespace TinyOidc.Interaction
open TinyOidc.User TinyOidc.Util Threads
open Threads.Prog (Obeys Only)

variable {q : Request} {log : Log}

/-! ### Starting an interaction -/

theorem parHandler_proves (clientId : String) (hasRequestUri : Bool) (params : RequestParams) :
    Obeys (Proves q) (fun _ _ => True) log (parHandler clientId hasRequestUri params) := by
  unfold parHandler
  refine proves_ask fun limited => ?_
  split
  · trivial
  refine proves_ask fun record => ?_
  split
  · trivial
  split
  · trivial
  split
  · trivial
  split
  · trivial
  · trivial
  · refine proves_ask fun id => proves_ask fun now => proves_ask fun secretHash => ?_
    refine proves_interaction ⟨boundAfter_drawn List.mem_cons_self, ?_⟩ fun _ => trivial
    intro hstatus
    cases hstatus

theorem startInteraction_proves {input : CreateInteraction} {now : ℤ}
    (hclock : (⟨.ask .now, now⟩ : Entry Op.Answer) ∈ log)
    (hconsent : input.status = .consentRequired → ∃ request session,
      input.request = some request ∧ input.existingSession = some session ∧
        AskedConsent log request session now) (ttl : ℤ) :
    Obeys (Proves q) (fun _ _ => True) log (startInteraction input now ttl) := by
  unfold startInteraction
  refine proves_ask fun secretHash => ?_
  refine proves_interaction ⟨boundAfter_drawn hclock, fun hstatus => ?_⟩ fun created => ?_
  · obtain ⟨request, session, hrequest, hsession, hasked⟩ := hconsent hstatus
    exact ⟨request, session, hrequest, hsession, hasked.mono (List.subset_cons_self _ _)⟩
  · cases created with
    | error e => trivial
    | ok d => trivial

/-- Consent is asked for only on a session that answered for the request. -/
theorem evaluateSession_proves {client : ClientRef} {request : AuthorizeRequest} {now : ℤ}
    (hrequest : Requested q log (some client.clientId) request request.scope)
    (hevaluates : Evaluates q log now) (cookie : SessionCookie) (settings : Settings) :
    Obeys (Proves q)
      (fun log' result => log ⊆ log' ∧ ∀ evaluation, result = some evaluation →
        evaluation.outcome = .consentRequired → ∃ session,
          evaluation.existingSession = some session ∧ AskedConsent log' request session now) log
      (evaluateSession cookie client request settings now) := by
  unfold evaluateSession
  split
  · refine ⟨List.Subset.refl log, ?_⟩
    intro evaluation hevaluation hout
    cases hevaluation
    cases hout
  · next ref hopened =>
    refine proves_ask fun secretHash => proves_user (.inl ⟨ref, client, request, settings, now,
      secretHash, rfl, ⟨hevaluates.authorize, List.mem_cons_of_mem _ hevaluates.clock⟩,
      hrequest.mono (List.subset_cons_self _ _), rfl⟩) fun reply => ?_
    have hsub : log ⊆ (⟨.user ref.uid (.authorizeWithSession
        (evaluationInput ref client request settings now secretHash)), reply⟩ ::
        ⟨.ask .newSecret, secretHash⟩ :: log : Log) := by
      intro e he
      simp [he]
    split
    · next a =>
      refine ⟨hsub, ?_⟩
      intro evaluation hevaluation hout
      cases hevaluation
      have hconsent : a.outcome = .consentRequired := by
        cases houtcome : a.outcome <;> simp [evaluationOutcome, houtcome] at hout ⊢
      exact ⟨_, rfl, ref, client, settings, secretHash, a, List.mem_cons_self, hconsent, rfl⟩
    · refine ⟨hsub, ?_⟩
      intro evaluation hevaluation hout
      cases hevaluation
      cases hout
    · refine ⟨hsub, ?_⟩
      intro evaluation hevaluation hout
      cases hevaluation
      cases hout
    · refine ⟨hsub, ?_⟩
      intro evaluation hevaluation
      cases hevaluation

theorem authorizeFail_proves (pushed : Option String) (request : AuthorizeRequest) (now : ℤ)
    (error description : String) :
    Obeys (Proves q) (fun _ _ => True) log
      (authorizeFail pushed request now error description) := by
  cases pushed with
  | none => trivial
  | some id => exact proves_interaction (proves_apply (by decide) rfl) fun _ => trivial

theorem authorizeHit_proves {pushed : Option String} {request : AuthorizeRequest} {now : ℤ}
    (hredeemed : ∀ id, pushed = some id → Redeemed log id request now) (secretHash : Bytes) :
    Obeys (Proves q) (fun _ _ => True) log (authorizeHit pushed request now secretHash) := by
  cases pushed with
  | none => trivial
  | some id =>
    refine proves_interaction ⟨?_, ?_⟩ fun _ => trivial
    · intro auth hauth
      cases hauth
    · exact fun _ => ⟨request, hredeemed id rfl, nofun⟩

theorem authorizeInteract_proves {pushed : Option String} {request : AuthorizeRequest} {now : ℤ}
    {status : InteractionStatus} {existing : Option ExistingSession} (client : Client)
    (settings : Settings) (hclock : (⟨.ask .now, now⟩ : Entry Op.Answer) ∈ log)
    (hredeemed : ∀ id, pushed = some id → Redeemed log id request now)
    (hconsent : status = .consentRequired → ∃ session, existing = some session ∧
      AskedConsent log request session now) :
    Obeys (Proves q) (fun _ _ => True) log
      (authorizeInteract pushed client request settings now status existing) := by
  cases pushed with
  | some id =>
    refine proves_interaction ⟨?_, ?_⟩ fun _ => trivial
    · intro auth hauth
      cases hauth
    · refine fun _ => ⟨request, hredeemed id rfl, fun hstatus => ?_⟩
      obtain ⟨session, hsession, hasked⟩ := hconsent hstatus
      exact ⟨session, congrArg some hsession, hasked⟩
  | none =>
    refine proves_ask fun id => Obeys.bind ((startInteraction_proves ?_ ?_ _).mono ?_)
    · exact List.mem_cons_of_mem _ hclock
    · intro hstatus
      obtain ⟨session, hsession, hasked⟩ := hconsent hstatus
      exact ⟨request, session, rfl, hsession, hasked.mono (List.subset_cons_self _ _)⟩
    · intro log' started _
      cases started with
      | none => trivial
      | some id => trivial

theorem authorizeEvaluated_proves {pushed : Option String} {client : Client}
    {request : AuthorizeRequest} {now : ℤ}
    (hrequest : Requested q log (some client.clientId) request request.scope) (settings : Settings)
    (cookie : SessionCookie) (hevaluates : Evaluates q log now)
    (hredeemed : ∀ id, pushed = some id → Redeemed log id request now) :
    Obeys (Proves q) (fun _ _ => True) log
      (authorizeEvaluated pushed client request settings now cookie) := by
  unfold authorizeEvaluated
  refine Obeys.bind ((evaluateSession_proves hrequest hevaluates cookie settings).mono ?_)
  intro log₁ evaluated hevaluated
  obtain ⟨hsub, hasked⟩ := hevaluated
  cases evaluated with
  | none => trivial
  | some evaluation =>
    dsimp only
    split
    · exact authorizeHit_proves (fun id hid => (hredeemed id hid).mono hsub) _
    · exact authorizeFail_proves _ _ _ _ _
    · split
      · exact authorizeFail_proves _ _ _ _ _
      · refine authorizeInteract_proves client settings (hsub hevaluates.clock)
          (fun id hid => (hredeemed id hid).mono hsub) fun hstatus => ?_
        refine hasked evaluation rfl ?_
        by_contra hout
        rw [if_neg hout] at hstatus
        cases hstatus

theorem authorizeRequested_proves {params : AuthorizeParams} {presented : SessionCookie}
    (hq : q = .authorize (some params) presented) {clientId : String} {client : Client}
    (hrecord : directoryEntry clientId client ∈ log) (settings : Settings) {now : ℤ}
    (cookie : SessionCookie) (hclock : (⟨.ask .now, now⟩ : Entry Op.Answer) ∈ log) :
    Obeys (Proves q) (fun _ _ => True) log
      (authorizeRequested params client settings now cookie) := by
  unfold authorizeRequested
  split
  · next uri huri =>
    split
    · trivial
    split
    · trivial
    · trivial
    · next id hid =>
      have hbehalf : q.behalf = some id := by
        rw [hq]
        simp [Request.behalf, huri, hid]
      refine proves_ask fun secretHash =>
        proves_interaction (boundAfter_drawn hclock) fun claimed => ?_
      cases claimed with
      | error e => trivial
      | ok doc =>
        dsimp only
        split
        · trivial
        next request hrequest =>
        refine authorizeEvaluated_proves ?_ settings cookie ⟨⟨_, _, hq⟩, ?_⟩ ?_
        · exact .redeemed id _ _ _ _ hbehalf doc List.mem_cons_self request hrequest
        · exact List.mem_cons_of_mem _ (List.mem_cons_of_mem _ hclock)
        · intro id' hid'
          cases hid'
          exact ⟨_, _, _, doc, List.mem_cons_self, hrequest⟩
  · split
    · trivial
    split
    · trivial
    · trivial
    · next request hvalid =>
      have hparams : q.params = some params.toRequestParams := by rw [hq]; rfl
      have hchecked : Checked q log client (.ok request) :=
        ⟨⟨clientId, hrecord⟩, _, hparams, hvalid⟩
      refine authorizeEvaluated_proves (.checked client request hchecked) settings cookie
        ⟨⟨_, _, hq⟩, hclock⟩ ?_
      intro id hid
      cases hid

theorem authorizeHandler_proves (params : Option AuthorizeParams) (cookie : SessionCookie) :
    Obeys (Proves (.authorize params cookie)) (fun _ _ => True) log
      (authorizeHandler params cookie) := by
  unfold authorizeHandler
  refine proves_ask fun now => proves_ask fun settings => ?_
  cases settings with
  | none => trivial
  | some settings =>
    dsimp only
    split
    · trivial
    cases params with
    | none => trivial
    | some params =>
      dsimp only
      split
      · trivial
      refine proves_ask fun record => ?_
      cases record with
      | none => trivial
      | some record =>
        dsimp only
        split
        · trivial
        next client hclient =>
        obtain ⟨rfl, -⟩ := Option.filter_eq_some_iff.mp hclient
        split
        · trivial
        · exact authorizeRequested_proves rfl List.mem_cons_self _ _ (by simp)

/-! ### Reading and deciding -/

theorem getInteractionHandler_proves (r : ApiRequest) (hq : q.presents = r.binding) :
    Obeys (Proves q) (fun _ _ => True) log (getInteractionHandler r) := by
  unfold getInteractionHandler
  refine Obeys.bind ((guard_proves hq true).mono fun log₁ guarded _ => ?_)
  cases guarded with
  | error response => trivial
  | ok g =>
    refine proves_bare (interactionClient_bare _) fun log₂ client _ => ?_
    dsimp only
    split
    · split
      · refine proves_user trivial fun granted => ?_
        dsimp only
        split
        · trivial
        refine proves_user trivial fun reply => ?_
        split <;> trivial
      · trivial
    · trivial

theorem abortHandler_proves (r : ApiRequest) (hq : q.presents = r.binding) :
    Obeys (Proves q) (fun _ _ => True) log (abortHandler r) := by
  unfold abortHandler
  refine Obeys.bind ((guard_proves hq false).mono fun log₁ guarded _ => ?_)
  cases guarded with
  | error response => trivial
  | ok g => exact proves_interaction (proves_apply (by decide) rfl) fun _ => trivial

theorem consentHandler_proves (r : ApiRequest) (decision : Option ConsentDecision)
    (hq : q.presents = r.binding) :
    Obeys (Proves q) (fun _ _ => True) log (consentHandler r decision) := by
  unfold consentHandler
  refine Obeys.bind ((guard_proves hq false).mono fun log₁ guarded _ => ?_)
  cases guarded with
  | error response => trivial
  | ok g =>
    dsimp only
    split
    · trivial
    split
    · trivial
    split
    · trivial
    · exact proves_interaction (proves_apply (by decide) rfl) fun _ => trivial
    split
    · trivial
    refine proves_bare (interactionClient_bare _) fun log₂ client _ => ?_
    cases client with
    | none => trivial
    | some client =>
      dsimp only
      split
      · trivial
      refine proves_user trivial fun reply => ?_
      split
      · exact proves_interaction (proves_apply (by decide) rfl) fun _ => trivial
      · trivial
      · trivial

theorem logoutDecisionHandler_proves (r : ApiRequest) (confirm : Option Bool)
    (hq : q.presents = r.binding) :
    Obeys (Proves q) (fun _ _ => True) log (logoutDecisionHandler r confirm) := by
  unfold logoutDecisionHandler
  refine Obeys.bind ((guard_proves hq false).mono fun log₁ guarded _ => ?_)
  cases guarded with
  | error response => trivial
  | ok g =>
    dsimp only
    split
    · trivial
    split
    · trivial
    split
    · trivial
    refine proves_interaction (proves_apply (by decide) rfl) fun applied => ?_
    cases applied with
    | error e => trivial
    | ok d => trivial

/-! ### Completion -/

theorem endSession_proves (uid sid reason : String) :
    Obeys (Proves q) (fun log' _ => log ⊆ log') log (endSession uid sid reason) := by
  refine proves_ask fun ended => ⟨trivial, fun reply => ?_⟩
  intro e he
  simp [he]

theorem finish_proves (id : String) (request : AuthorizeRequest) (now : ℤ) (result : ClientResult) :
    Obeys (Proves q) (fun _ _ => True) log (finish id request now result) :=
  proves_interaction (proves_apply (by decide) rfl) fun _ => trivial

section Complete

variable {id : String} {d : InteractionDocument}

theorem completeLogout_proves (cookie : SessionCookie) (now : ℤ) :
    Obeys (Proves q) (fun _ _ => True) log (completeLogout d id cookie now) := by
  have hcomplete : ∀ {log' : Log},
      Proves q log' (.interaction id (.apply .complete .completed {} now)) :=
    proves_apply (by decide) rfl
  unfold completeLogout
  split
  · trivial
  split
  · split
    · refine Obeys.bind ((endSession_proves _ _ _).mono fun log₁ ended _ => ?_)
      exact proves_interaction hcomplete fun _ => trivial
    · exact proves_interaction hcomplete fun _ => trivial
  · exact proves_interaction hcomplete fun _ => trivial

/-- Consent alone completes an interaction that nobody has authenticated in. -/
theorem completeOnSession_proves (hq : q.behalf = some id) (hseen : Seen log id d)
    (hkind : d.kind ≠ .logout) (hready : d.status = .ready) (hauth : d.auth = none)
    {session : ExistingSession} (hsession : d.existingSession = some session)
    {request : AuthorizeRequest} (hrequest : d.request = some request) (client : Client)
    (cookie : SessionCookie) (settings : Settings) (now : ℤ) :
    Obeys (Proves q) (fun _ _ => True) log
      (completeOnSession d id request client session cookie settings now) := by
  have hrestart : ∀ {log' : Log}, Obeys (Proves q) (fun _ _ => True) log'
      (completeOnSession.restart id now) :=
    proves_interaction (proves_apply (by decide) rfl) fun _ => trivial
  unfold completeOnSession
  refine proves_ask fun secretHash => proves_user ?_ fun reply => ?_
  · exact .inr ⟨id, d, request, session, hq, hseen.cons, hkind, hready, hauth, hsession, hrequest,
      rfl, rfl, _, _, secretHash, rfl⟩
  · split
    · split
      · exact finish_proves _ _ _ _
      · exact hrestart
    · exact hrestart
    · trivial

theorem rotateSession_proves (hq : q.behalf = some id) (hseen : Seen log id d)
    {auth : InteractionAuth} (hauth : d.auth = some auth) (code : CodeInput) (client : ClientRef)
    (secretHash : Bytes) (settings : Settings) (now : ℤ) :
    Obeys (Proves q) (fun log' _ => log ⊆ log') log
      (rotateSession d auth code client secretHash settings now) := by
  unfold rotateSession
  split
  · exact List.Subset.refl log
  split
  · exact List.Subset.refl log
  refine proves_user ⟨id, d, auth, hq, hseen, hauth, rfl, rfl⟩ fun reply => ?_
  split
  · exact List.subset_cons_self _ _
  · exact List.subset_cons_self _ _
  · exact List.subset_cons_self _ _
  · exact List.subset_cons_self _ _

theorem endOther_proves (uid : String) :
    Obeys (Proves q) (fun log' _ => log ⊆ log') log (endOther d uid) := by
  unfold endOther
  split
  · exact List.Subset.refl log
  split
  · exact Obeys.bind ((endSession_proves _ _ _).mono fun log₁ ended hsub => hsub)
  · exact List.Subset.refl log

/-- The authentication the document shows is the one of the session the code is issued on. -/
theorem completeWithAuth_proves (hq : q.behalf = some id) (hseen : Seen log id d)
    {auth : InteractionAuth} (hauth : d.auth = some auth) (request : AuthorizeRequest)
    (client : Client) (settings : Settings) (now : ℤ) :
    Obeys (Proves q) (fun _ _ => True) log
      (completeWithAuth d id request client auth settings now) := by
  unfold completeWithAuth
  refine proves_ask fun codeHash => proves_ask fun secretHash => ?_
  refine Obeys.bind ((rotateSession_proves hq hseen.cons.cons hauth _ _ _ _ _).mono ?_)
  intro log₁ rotated hsub₁
  have hseen₁ : Seen log₁ id d := hseen.cons.cons.mono hsub₁
  cases rotated with
  | some result =>
    cases result with
    | ok _ => exact finish_proves _ _ _ _
    | error e =>
      cases e with
      | none => trivial
      | some e => exact finish_proves _ _ _ _
  | none =>
    refine Obeys.bind ((endOther_proves auth.uid).mono ?_)
    intro log₂ _ hsub₂
    have hseen₂ : Seen log₂ id d := hseen₁.mono hsub₂
    refine proves_ask fun sid => proves_ask fun metadata => ?_
    refine proves_user ⟨id, d, auth, hq, hseen₂.cons.cons, hauth, rfl, rfl⟩ fun reply => ?_
    split
    · exact finish_proves _ _ _ _
    · exact finish_proves _ _ _ _
    · trivial

theorem completeClaimed_proves (hq : q.behalf = some id) (hseen : Seen log id d)
    (hstatus : d.status = .ready ∨ d.status = .failed) (cookie : SessionCookie)
    (settings : Settings) (now : ℤ) :
    Obeys (Proves q) (fun _ _ => True) log (completeClaimed d id cookie settings now) := by
  unfold completeClaimed
  split
  · exact completeLogout_proves cookie now
  next hkind =>
  split
  · trivial
  next request hrequest =>
  split
  · exact finish_proves _ _ _ _
  next hfailed =>
  have hready : d.status = .ready := hstatus.resolve_right hfailed
  unfold completeReady
  refine proves_bare (interactionClient_bare _) fun log₁ client hsub => ?_
  cases client with
  | none => exact finish_proves _ _ _ _
  | some client =>
    have hseen₁ : Seen log₁ id d := hseen.mono hsub
    dsimp only
    split
    · next auth hauth => exact completeWithAuth_proves hq hseen₁ hauth _ _ _ _
    · next session hauth hsession =>
      exact completeOnSession_proves hq hseen₁ hkind hready hauth hsession hrequest _ _ _ _
    · exact finish_proves _ _ _ _

end Complete

theorem completeHandler_proves {id : String} (hq : q.behalf = some id)
    (binding : Option BindingRef) (cookie : SessionCookie) :
    Obeys (Proves q) (fun _ _ => True) log (completeHandler id binding cookie) := by
  unfold completeHandler
  refine proves_ask fun settings => ?_
  cases settings with
  | none => trivial
  | some settings =>
    dsimp only
    split
    · trivial
    split
    · trivial
    split
    · trivial
    refine proves_ask fun now => proves_interaction trivial fun got => ?_
    cases got with
    | error e => trivial
    | ok d =>
      dsimp only
      split
      · trivial
      next hpushed =>
      split
      · trivial
      split
      · trivial
      split
      · trivial
      next hstatus =>
      refine proves_interaction trivial fun claimed => ?_
      cases claimed with
      | error e => trivial
      | ok d' =>
        refine completeClaimed_proves hq ?_ ?_ _ _ _
        · exact ⟨_, List.mem_cons_of_mem _ List.mem_cons_self, if_pos ⟨rfl, hpushed⟩⟩
        · tauto

/-! ### Logout and the consent pages -/

theorem logoutAsked_proves (params : LogoutParams) (cookie : SessionCookie) (settings : Settings)
    (client : Option Client) :
    Obeys (Proves q) (fun _ _ => True) log (logoutAsked params cookie settings client) := by
  unfold logoutAsked
  split
  · trivial
  refine proves_ask fun now => proves_user trivial fun reply => ?_
  split
  · refine proves_ask fun now' => proves_ask fun id => ?_
    refine Obeys.bind ((startInteraction_proves ?_ ?_ _).mono ?_)
    · simp
    · intro hstatus
      cases hstatus
    · intro log' started _
      cases started with
      | none => trivial
      | some id => trivial
  · trivial
  · trivial

theorem logoutHandler_proves (params : Option LogoutParams) (cookie : SessionCookie) :
    Obeys (Proves q) (fun _ _ => True) log (logoutHandler params cookie) := by
  unfold logoutHandler
  refine proves_ask fun limited => ?_
  split
  · trivial
  refine proves_ask fun settings => ?_
  cases settings with
  | none => trivial
  | some settings =>
    dsimp only
    split
    · trivial
    cases params with
    | none => trivial
    | some params =>
      dsimp only
      split
      · trivial
      · refine proves_ask fun record => ?_
        split
        · trivial
        split
        · trivial
        · exact Obeys.bind ((endSession_proves _ _ _).mono fun _ _ _ => trivial)
      · exact logoutAsked_proves _ _ _ _
      · exact proves_ask fun record => logoutAsked_proves _ _ _ _

theorem listGrantsHandler_proves (uid : String) :
    Obeys (Proves q) (fun _ _ => True) log (listGrantsHandler uid) := by
  unfold listGrantsHandler
  refine proves_user trivial fun reply => ?_
  split
  · refine proves_bare (resolveClients_bare _) fun log' refs _ => ?_
    refine proves_user trivial fun listed => ?_
    split <;> trivial
  · trivial

/-- Every handler relies on what it has been shown. -/
theorem deployment_proves (sha256 : String → Bytes) : (deployment sha256).Follows Proves := by
  intro q
  cases q with
  | par clientId hasRequestUri params => exact parHandler_proves _ _ _
  | authorize params cookie => exact authorizeHandler_proves _ _
  | getInteraction r => exact getInteractionHandler_proves _ rfl
  | abort r => exact abortHandler_proves _ rfl
  | consent r decision => exact consentHandler_proves _ _ rfl
  | passkeyOptions r => exact passkeyOptionsHandler_proves _ rfl
  | passkeyVerify r malformed assertion => exact passkeyVerifyHandler_proves _ _ _ rfl
  | registerOptions r body => exact registerOptionsHandler_proves _ _ rfl
  | registerVerify r malformed name => exact registerVerifyHandler_proves _ _ _ rfl
  | upstream r malformed upstreamAlias invitation => exact upstreamHandler_proves _ _ _ _ rfl
  | federationCallback malformed state binding error code =>
    exact federationCallbackHandler_proves _ _ _ _ _ rfl
  | logoutDecision r confirm => exact logoutDecisionHandler_proves _ _ rfl
  | complete id binding cookie => exact completeHandler_proves rfl _ _
  | logout params cookie => exact logoutHandler_proves _ _
  | listGrants uid => exact listGrantsHandler_proves _

end TinyOidc.Interaction
