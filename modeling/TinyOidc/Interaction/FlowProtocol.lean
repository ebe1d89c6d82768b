import TinyOidc.Interaction.LoginProtocol

/-! The course of an interaction keeps to the protocol: a pushed request and a completion are
taken once, a code is issued only by the request that holds the claim, and the claim is given
back only by a request that issued none. -/
namespace TinyOidc.Interaction
open TinyOidc.User Threads
open Threads.Prog (Obeys Only)

variable {q : Request} {log : Log}

/-! ### Starting an interaction -/

theorem parHandler_obeys (clientId : String) (hasRequestUri : Bool) (params : RequestParams) :
    Obeys (Permits q) (fun _ _ => True) log (parHandler clientId hasRequestUri params) := by
  unfold parHandler
  refine obeys_ask fun limited => ?_
  split
  · trivial
  refine obeys_ask fun record => ?_
  split
  · trivial
  split
  · trivial
  split
  · trivial
  split
  · trivial
  · trivial
  · exact obeys_ask fun id => obeys_ask fun now => obeys_ask fun secretHash =>
      obeys_interactionCall (by simp [InteractionCalls, pendingId]) fun _ => trivial

theorem startInteraction_obeys {input : CreateInteraction}
    (hpending : pendingId input.id log = true) (now ttl : ℤ) :
    Obeys (Permits q) (fun _ _ => True) log (startInteraction input now ttl) := by
  refine obeys_ask fun secretHash => obeys_interactionCall hpending fun created => ?_
  cases created with
  | error _ => trivial
  | ok _ => trivial

/-- The session evaluation keeps the claim of a pushed interaction unless it issued the code. -/
theorem evaluateSession_obeys (cookie : SessionCookie) {clientId : String} {client : Client}
    (hrecord : directoryEntry clientId client ∈ log) (request : AuthorizeRequest)
    (settings : Settings) (now : ℤ) {pushed : Option String} (hq : q.behalf = pushed)
    (hcomplete : ∀ id binding cookie, q ≠ .complete id binding cookie)
    (hholding : ∀ id, pushed = some id → Holding id log) :
    Obeys (Permits q)
      (fun log' result => ∀ evaluation, result = some evaluation →
        evaluation.outcome ≠ .authorized → ∀ id, pushed = some id → Holding id log') log
      (evaluateSession cookie (clientRef client) request settings now) := by
  subst hq
  unfold evaluateSession
  split
  · exact fun _ _ _ => hholding
  refine obeys_ask fun secretHash => obeys_userCall ?_ fun reply => ?_
  · exact .evaluated _ clientId client (List.mem_cons_of_mem _ hrecord) request settings now
      secretHash (fun id hid => (hholding id hid).ask) hcomplete
  · split
    · rintro evaluation ⟨⟩ houtcome id hid
      refine (hholding id hid).ask.cons rfl (if_neg fun hauth => houtcome ?_)
      simp [evaluationOutcome, hauth]
    · exact fun _ _ _ id hid => (hholding id hid).ask.cons rfl rfl
    · exact fun _ _ _ id hid => (hholding id hid).ask.cons rfl rfl
    · nofun

theorem authorizeFail_obeys {pushed : Option String} (hq : q.behalf = pushed)
    (hholding : ∀ id, pushed = some id → Holding id log) (request : AuthorizeRequest) (now : ℤ)
    (error description : String) :
    Obeys (Permits q) (fun _ _ => True) log
      (authorizeFail pushed request now error description) := by
  cases pushed with
  | none => trivial
  | some id =>
    exact obeys_interactionCall (.parFailed error description hq (hholding id rfl))
      fun _ => trivial

theorem authorizeHit_obeys (pushed : Option String) (request : AuthorizeRequest) (now : ℤ)
    (secretHash : Bytes) :
    Obeys (Permits q) (fun _ _ => True) log (authorizeHit pushed request now secretHash) := by
  cases pushed with
  | none => trivial
  | some id => exact obeys_interactionCall .parCompleted fun _ => trivial

theorem authorizeInteract_obeys {pushed : Option String} (hq : q.behalf = pushed)
    (hholding : ∀ id, pushed = some id → Holding id log) (client : Client)
    (request : AuthorizeRequest) (settings : Settings) (now : ℤ) (status : InteractionStatus)
    (existing : Option ExistingSession) :
    Obeys (Permits q) (fun _ _ => True) log
      (authorizeInteract pushed client request settings now status existing) := by
  cases pushed with
  | some id =>
    exact obeys_interactionCall (.parTaken status existing hq (hholding id rfl)) fun _ => trivial
  | none =>
    refine obeys_ask fun id => Obeys.bind ((startInteraction_obeys ?_ _ _).mono ?_)
    · simp [pendingId]
    rintro log' (_ | id) -
    · trivial
    · trivial

theorem authorizeEvaluated_obeys {pushed : Option String} (hq : q.behalf = pushed)
    (hcomplete : ∀ id binding cookie, q ≠ .complete id binding cookie)
    (hholding : ∀ id, pushed = some id → Holding id log) {clientId : String} {client : Client}
    (hrecord : directoryEntry clientId client ∈ log) (request : AuthorizeRequest)
    (settings : Settings) (now : ℤ) (cookie : SessionCookie) :
    Obeys (Permits q) (fun _ _ => True) log
      (authorizeEvaluated pushed client request settings now cookie) := by
  unfold authorizeEvaluated
  refine Obeys.bind ((evaluateSession_obeys cookie hrecord request settings now hq hcomplete
    hholding).mono ?_)
  rintro log' (_ | evaluation) hevaluated
  · trivial
  have hkept := hevaluated evaluation rfl
  dsimp only
  split
  · exact authorizeHit_obeys _ _ _ _
  · next houtcome => exact authorizeFail_obeys hq (hkept (by simp [houtcome])) _ _ _ _
  · next hne _ =>
    split
    · exact authorizeFail_obeys hq (hkept hne) _ _ _ _
    · exact authorizeInteract_obeys hq (hkept hne) _ _ _ _ _ _

theorem authorizeRequested_obeys {params : AuthorizeParams} {cookie : SessionCookie}
    (hq : q = .authorize (some params) cookie) (hunclaimed : ∀ id, Unclaimed id log)
    {clientId : String} {client : Client} (hrecord : directoryEntry clientId client ∈ log)
    (settings : Settings) (now : ℤ) :
    Obeys (Permits q) (fun _ _ => True) log
      (authorizeRequested params client settings now cookie) := by
  subst hq
  unfold authorizeRequested
  split
  · next uri huri =>
    split
    · trivial
    split
    · trivial
    · trivial
    · next id hid =>
      have hbehalf : Request.behalf (.authorize (some params) cookie) = some id := by
        simp [Request.behalf, huri, hid]
      refine obeys_ask fun secretHash =>
        obeys_interactionCall ⟨hbehalf, (hunclaimed id).ask⟩ ?_
      rintro (_ | doc)
      · trivial
      dsimp only
      split
      · trivial
      refine authorizeEvaluated_obeys hbehalf (by simp) ?_
        (List.mem_cons_of_mem _ (List.mem_cons_of_mem _ hrecord)) _ _ _ _
      rintro _ ⟨⟩
      exact (hunclaimed id).ask.holding (by simp [takes]) rfl rfl
  · next huri =>
    have hbehalf : Request.behalf (.authorize (some params) cookie) = none := by
      simp [Request.behalf, huri]
    split
    · trivial
    split
    · trivial
    · trivial
    · exact authorizeEvaluated_obeys hbehalf (by simp) (by simp) hrecord _ _ _ _

theorem authorizeHandler_obeys (params : Option AuthorizeParams) (cookie : SessionCookie) :
    Obeys (Permits (.authorize params cookie)) (fun _ _ => True) []
      (authorizeHandler params cookie) := by
  unfold authorizeHandler
  refine obeys_ask fun now => obeys_ask ?_
  rintro (_ | settings)
  · trivial
  dsimp only
  split
  · trivial
  cases params with
  | none => trivial
  | some params =>
    dsimp only
    split
    · trivial
    refine obeys_ask ?_
    rintro (_ | record)
    · trivial
    dsimp only
    split
    · trivial
    · next client hclient =>
      obtain ⟨hrecord, -⟩ := Option.filter_eq_some_iff.mp hclient
      split
      · trivial
      · subst hrecord
        exact authorizeRequested_obeys rfl (fun id => (unclaimed_nil id).ask.ask.ask)
          List.mem_cons_self _ _

/-! ### Reading and deciding -/

theorem getInteractionHandler_obeys (r : ApiRequest) :
    Obeys (Permits q) (fun _ _ => True) log (getInteractionHandler r) := by
  unfold getInteractionHandler
  refine Obeys.bind ((guard_obeys r true).mono ?_)
  rintro log₁ (response | g) hguard
  · trivial
  refine Obeys.bind ((interactionClient_obeys g.doc).mono fun log₂ client _ => ?_)
  dsimp only
  split
  · split
    · refine obeys_userCall (.quiet _ rfl) fun granted => ?_
      dsimp only
      split
      · trivial
      refine obeys_userCall (.quiet _ rfl) fun reply => ?_
      split <;> trivial
    · trivial
  · trivial

theorem abortHandler_obeys (r : ApiRequest) :
    Obeys (Permits q) (fun _ _ => True) log (abortHandler r) := by
  unfold abortHandler
  refine Obeys.bind ((guard_obeys r false).mono ?_)
  rintro log₁ (response | g) hguard
  · trivial
  · exact obeys_interactionCall (.failed _ _ _ g.doc (hguard g rfl)) fun _ => trivial

/-- Consent is recorded for the user the snapshot names, before the interaction is ready. -/
theorem consentHandler_obeys (r : ApiRequest) (decision : Option ConsentDecision)
    (hq : ∀ id binding cookie, q ≠ .complete id binding cookie) :
    Obeys (Permits q) (fun _ _ => True) log (consentHandler r decision) := by
  unfold consentHandler
  refine Obeys.bind ((guard_obeys r false).mono ?_)
  rintro log₁ (response | g) hguard
  · trivial
  have hseen := hguard g rfl
  dsimp only
  split
  · trivial
  split
  · trivial
  split
  · trivial
  · exact obeys_interactionCall (.failed _ _ _ g.doc hseen) fun _ => trivial
  split
  · trivial
  refine Obeys.bind ((interactionClient_obeys g.doc).mono ?_)
  rintro log₂ (_ | client) ⟨hsub, hclient⟩
  · trivial
  obtain ⟨clientId, hclientId, hrecord⟩ := hclient client rfl
  dsimp only
  split
  · trivial
  · next uid huid =>
    refine obeys_userCall (.granted _ _ _ hq) fun reply => ?_
    split
    · next granted =>
      exact obeys_interactionCall (.consented g.doc (hseen.mono hsub).cons uid huid clientId client
        hclientId (List.mem_cons_of_mem _ hrecord) _ _ granted List.mem_cons_self)
        fun _ => trivial
    · trivial
    · trivial

theorem logoutDecisionHandler_obeys (r : ApiRequest) (confirm : Option Bool) :
    Obeys (Permits q) (fun _ _ => True) log (logoutDecisionHandler r confirm) := by
  unfold logoutDecisionHandler
  refine Obeys.bind ((guard_obeys r false).mono ?_)
  rintro log₁ (response | g) hguard
  · trivial
  dsimp only
  split
  · trivial
  split
  · trivial
  next hkind =>
  split
  · trivial
  have hlogout : g.doc.kind = .logout := by
    simp only [ne_eq, Bool.or_eq_true, decide_eq_true_eq, not_or, not_not] at hkind
    exact hkind.1
  refine obeys_interactionCall (.decided _ g.doc (hguard g rfl) hlogout) fun applied => ?_
  cases applied with
  | error _ => trivial
  | ok _ => trivial

/-! ### Completion -/

theorem finish_obeys (id : String) (request : AuthorizeRequest) (now : ℤ) (result : ClientResult) :
    Obeys (Permits q) (fun _ _ => True) log (finish id request now result) :=
  obeys_interactionCall .completed fun _ => trivial

section Complete

variable {id : String} {binding : Option BindingRef} {cookie : SessionCookie}
  {d : InteractionDocument}

/-- A request that completes holds the one completion it is about. -/
theorem Completing.ended (hq : q = .complete id binding cookie) (h : Completing id log d) :
    ∀ id' binding cookie, q = .complete id' binding cookie → ∃ d, Completing id' log d := by
  rintro id' binding' cookie' hq'
  rw [hq] at hq'
  cases hq'
  exact ⟨d, h⟩

theorem completeLogout_obeys (hq : q = .complete id binding cookie) (hholding : Holding id log)
    (hseen : ReadFirst log id d) (now : ℤ) :
    Obeys (Permits q) (fun _ _ => True) log (completeLogout d id cookie now) := by
  unfold completeLogout
  split
  · trivial
  split
  · split
    · next hready =>
      have hcompleting : Completing id log d := ⟨hholding, hseen, hready.1⟩
      exact obeys_ask fun ended => obeys_userCall
        (.ended _ _ _ (Completing.ended hq hcompleting.ask)) fun _ =>
          obeys_interactionCall .completed fun _ => trivial
    · exact obeys_interactionCall .completed fun _ => trivial
  · exact obeys_interactionCall .completed fun _ => trivial

theorem completeOnSession_obeys (hq : q = .complete id binding cookie)
    (hcompleting : Completing id log d) (request : AuthorizeRequest) {clientId : String}
    {client : Client} (hrecord : directoryEntry clientId client ∈ log)
    (session : ExistingSession) (settings : Settings) (now : ℤ) :
    Obeys (Permits q) (fun _ _ => True) log
      (completeOnSession d id request client session cookie settings now) := by
  unfold completeOnSession
  refine obeys_ask fun secretHash => obeys_userCall (.onSession id binding cookie hq d
    hcompleting.ask clientId client (List.mem_cons_of_mem _ hrecord) session _ rfl settings now)
    fun reply => ?_
  have hbehalf : q.behalf = some id := by simp [hq, Request.behalf]
  split
  · split
    · exact finish_obeys _ _ _ _
    · next hauth =>
      exact obeys_interactionCall (.restarted hbehalf
        (hcompleting.toHolding.ask.cons rfl (if_neg hauth))) fun _ => trivial
  · exact obeys_interactionCall (.restarted hbehalf (hcompleting.toHolding.ask.cons rfl rfl))
      fun _ => trivial
  · trivial

/-- A rotation that found no session leaves the completion in hand. -/
theorem rotateSession_obeys (hq : q = .complete id binding cookie)
    (hcompleting : Completing id log d) (hkind : d.kind ≠ .logout) {clientId : String}
    {client : Client} (hclient : d.clientId = some clientId)
    (hrecord : directoryEntry clientId client ∈ log) {request : AuthorizeRequest}
    (hrequest : d.request = some request) {auth : InteractionAuth} (hauth : d.auth = some auth)
    (codeHash secretHash : Bytes) (settings : Settings) (now : ℤ) :
    Obeys (Permits q)
      (fun log' result => log ⊆ log' ∧ (result = none → Completing id log' d)) log
      (rotateSession d auth (interactionCode d request client codeHash) (clientRef client)
        secretHash settings now) := by
  unfold rotateSession
  split
  · exact ⟨List.Subset.refl log, fun _ => hcompleting⟩
  split
  · exact ⟨List.Subset.refl log, fun _ => hcompleting⟩
  refine obeys_userCall (.login id binding cookie hq d hcompleting hkind clientId client hclient
    hrecord request hrequest auth hauth rfl codeHash _ rfl) fun reply => ?_
  split
  · exact ⟨List.subset_cons_self _ _, nofun⟩
  · exact ⟨List.subset_cons_self _ _, fun _ => hcompleting.cons rfl rfl⟩
  · exact ⟨List.subset_cons_self _ _, nofun⟩
  · exact ⟨List.subset_cons_self _ _, nofun⟩

theorem endOther_obeys (hq : q = .complete id binding cookie) (hcompleting : Completing id log d)
    (uid : String) :
    Obeys (Permits q) (fun log' _ => log ⊆ log' ∧ Completing id log' d) log (endOther d uid) := by
  unfold endOther
  split
  · exact ⟨List.Subset.refl log, hcompleting⟩
  split
  · exact obeys_ask fun ended => obeys_userCall
      (.ended _ _ _ (Completing.ended hq hcompleting.ask)) fun _ =>
        ⟨fun e he => List.mem_cons_of_mem _ (List.mem_cons_of_mem _ he),
          hcompleting.ask.cons rfl rfl⟩
  · exact ⟨List.Subset.refl log, hcompleting⟩

theorem completeWithAuth_obeys (hq : q = .complete id binding cookie)
    (hcompleting : Completing id log d) (hkind : d.kind ≠ .logout) {clientId : String}
    {client : Client} (hclient : d.clientId = some clientId)
    (hrecord : directoryEntry clientId client ∈ log) {request : AuthorizeRequest}
    (hrequest : d.request = some request) {auth : InteractionAuth} (hauth : d.auth = some auth)
    (settings : Settings) (now : ℤ) :
    Obeys (Permits q) (fun _ _ => True) log
      (completeWithAuth d id request client auth settings now) := by
  unfold completeWithAuth
  refine obeys_ask fun codeHash => obeys_ask fun secretHash => ?_
  refine Obeys.bind ((rotateSession_obeys hq hcompleting.ask.ask hkind hclient
    (List.mem_cons_of_mem _ (List.mem_cons_of_mem _ hrecord)) hrequest hauth codeHash secretHash
    settings now).mono ?_)
  rintro log₁ (_ | _ | _) ⟨hsub, hkept⟩
  · refine Obeys.bind ((endOther_obeys hq (hkept rfl) auth.uid).mono ?_)
    rintro log₂ - ⟨hsub₂, hkept₂⟩
    have hrecord₂ : directoryEntry clientId client ∈ log₂ :=
      hsub₂ (hsub (List.mem_cons_of_mem _ (List.mem_cons_of_mem _ hrecord)))
    refine obeys_ask fun sid => obeys_ask fun metadata => obeys_userCall (.login id binding cookie
      hq d hkept₂.ask.ask hkind clientId client hclient
      (List.mem_cons_of_mem _ (List.mem_cons_of_mem _ hrecord₂)) request hrequest auth hauth rfl
      codeHash _ rfl) fun reply => ?_
    split
    · exact finish_obeys _ _ _ _
    · exact finish_obeys _ _ _ _
    · trivial
  · next e =>
    cases e with
    | none => trivial
    | some e => exact finish_obeys _ _ _ _
  · exact finish_obeys _ _ _ _

theorem completeClaimed_obeys (hq : q = .complete id binding cookie) (hholding : Holding id log)
    (hseen : ReadFirst log id d) (hstatus : d.status = .ready ∨ d.status = .failed)
    (settings : Settings) (now : ℤ) :
    Obeys (Permits q) (fun _ _ => True) log (completeClaimed d id cookie settings now) := by
  unfold completeClaimed
  split
  · exact completeLogout_obeys hq hholding hseen now
  next hkind =>
  split
  · trivial
  next request hrequest =>
  split
  · exact finish_obeys _ _ _ _
  next hfailed =>
  have hcompleting : Completing id log d :=
    ⟨hholding, hseen, hstatus.resolve_right hfailed⟩
  unfold completeReady interactionClient
  split
  · exact finish_obeys _ _ _ _
  next clientId hclientId =>
  refine obeys_ask fun record => ?_
  cases hrecord : record.join with
  | none => exact finish_obeys _ _ _ _
  | some client =>
    have hentry : record = some (some client) := Option.join_eq_some_iff.mp hrecord
    subst hentry
    dsimp only
    split
    · next auth hauth =>
      exact completeWithAuth_obeys hq hcompleting.ask hkind hclientId List.mem_cons_self hrequest
        hauth settings now
    · exact completeOnSession_obeys hq hcompleting.ask request List.mem_cons_self _ settings now
    · exact finish_obeys _ _ _ _

end Complete

theorem completeHandler_obeys (id : String) (binding : Option BindingRef) (cookie : SessionCookie) :
    Obeys (Permits (.complete id binding cookie)) (fun _ _ => True) []
      (completeHandler id binding cookie) := by
  unfold completeHandler
  refine obeys_ask ?_
  rintro (_ | settings)
  · trivial
  dsimp only
  split
  · trivial
  split
  · trivial
  split
  · trivial
  refine obeys_ask fun now => obeys_interactionCall trivial ?_
  rintro (_ | d)
  · trivial
  dsimp only
  split
  · trivial
  next hpushed =>
  split
  · trivial
  split
  · trivial
  split
  · trivial
  next hstatus =>
  have hunclaimed : Unclaimed id [⟨.interaction id (.get now), .ok d⟩, ⟨.ask .now, now⟩,
      ⟨.ask .settings, some settings⟩] := by
    simp [Unclaimed, takes, settles, issuedCode]
  refine obeys_interactionCall ⟨rfl, hunclaimed⟩ ?_
  rintro (_ | claimed)
  · trivial
  refine completeClaimed_obeys rfl (hunclaimed.holding (by simp [takes]) rfl rfl) ?_ ?_ _ _
  · exact ⟨_, _, List.suffix_refl _, by simp [takes], _, List.mem_cons_self,
      if_pos ⟨rfl, hpushed⟩⟩
  · tauto

/-! ### Logout and the consent pages -/

theorem logoutAsked_obeys (params : LogoutParams) (cookie : SessionCookie) (settings : Settings)
    (client : Option Client) :
    Obeys (Permits q) (fun _ _ => True) log (logoutAsked params cookie settings client) := by
  unfold logoutAsked
  split
  · trivial
  refine obeys_ask fun now => obeys_userCall (.quiet _ rfl) fun reply => ?_
  split
  · refine obeys_ask fun now' => obeys_ask fun id => ?_
    refine Obeys.bind ((startInteraction_obeys ?_ _ _).mono ?_)
    · simp [pendingId]
    rintro log' (_ | id) -
    · trivial
    · trivial
  · trivial
  · trivial

theorem logoutHandler_obeys (params : Option LogoutParams) (cookie : SessionCookie)
    (hq : ∀ id binding cookie, q ≠ .complete id binding cookie) :
    Obeys (Permits q) (fun _ _ => True) log (logoutHandler params cookie) := by
  unfold logoutHandler
  refine obeys_ask fun limited => ?_
  split
  · trivial
  refine obeys_ask ?_
  rintro (_ | settings)
  · trivial
  dsimp only
  split
  · trivial
  cases params with
  | none => trivial
  | some params =>
    dsimp only
    split
    · trivial
    · refine obeys_ask fun record => ?_
      split
      · trivial
      split
      · trivial
      · exact obeys_ask fun ended => obeys_userCall
          (.ended _ _ _ fun id binding cookie h => absurd h (hq id binding cookie))
          fun _ => trivial
    · exact logoutAsked_obeys _ _ _ _
    · exact obeys_ask fun record => logoutAsked_obeys _ _ _ _

theorem listGrantsHandler_obeys (uid : String) :
    Obeys (Permits q) (fun _ _ => True) log (listGrantsHandler uid) := by
  unfold listGrantsHandler
  refine obeys_userCall (.quiet _ rfl) fun reply => ?_
  split
  · refine obeys_bare (resolveClients_bare _) fun log' refs _ => ?_
    refine obeys_userCall (.quiet _ rfl) fun listed => ?_
    split <;> trivial
  · trivial

/-- Every handler keeps to the protocol. -/
theorem deployment_follows (sha256 : String → Bytes) : (deployment sha256).Follows Permits := by
  intro q
  cases q with
  | par clientId hasRequestUri params => exact parHandler_obeys _ _ _
  | authorize params cookie => exact authorizeHandler_obeys _ _
  | getInteraction r => exact getInteractionHandler_obeys _
  | abort r => exact abortHandler_obeys _
  | consent r decision => exact consentHandler_obeys _ _ nofun
  | passkeyOptions r => exact passkeyOptionsHandler_obeys _
  | passkeyVerify r malformed assertion => exact passkeyVerifyHandler_obeys _ _ _
  | registerOptions r body => exact registerOptionsHandler_obeys _ _
  | registerVerify r malformed name => exact registerVerifyHandler_obeys _ _ _
  | upstream r malformed upstreamAlias invitation => exact upstreamHandler_obeys _ _ _ _
  | federationCallback malformed state binding error code =>
    exact federationCallbackHandler_obeys _ _ _ _ _
  | logoutDecision r confirm => exact logoutDecisionHandler_obeys _ _
  | complete id binding cookie => exact completeHandler_obeys _ _ _
  | logout params cookie => exact logoutHandler_obeys _ _ nofun
  | listGrants uid => exact listGrantsHandler_obeys _

end TinyOidc.Interaction
