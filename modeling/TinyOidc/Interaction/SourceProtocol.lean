import TinyOidc.Interaction.RequestSources

/-! The handlers that take a request: `/par` and `/authorize` store what they validated, a consent
narrows what was read, and the codes of `/authorize` and `/complete` repeat it. -/
namespace TinyOidc.Interaction
open TinyOidc.User TinyOidc.Util Threads
open Threads.Prog (Obeys Only Yields)

variable {q : Request} {log : Log}

section Works

variable {clientId : Option String} {request : AuthorizeRequest} {scope : List String}

theorem Requested.cons (h : Requested q log clientId request scope) {e : Entry Op.Answer} :
    Requested q (e :: log) clientId request scope := h.mono (List.subset_cons_self e log)

theorem Requested.sends (h : Requested q log clientId request scope) :
    Sends q log request.redirectUri := .inl ⟨clientId, request, scope, h, rfl⟩

theorem Sends.cons {uri : String} (h : Sends q log uri) {e : Entry Op.Answer} :
    Sends q (e :: log) uri := by
  have hsub : log ⊆ e :: log := List.subset_cons_self e log
  rcases h with ⟨clientId, request, scope, hrequested, huri⟩ | ⟨client, state, error, description,
    hchecked⟩
  · exact .inl ⟨clientId, request, scope, hrequested.mono hsub, huri⟩
  · exact .inr ⟨client, state, error, description, hchecked.mono hsub⟩

/-- The code that a handler asks for is one for the request it works with. -/
theorem Requested.traces (h : Requested q log clientId request scope) {name : String}
    (hname : ∀ asked, clientId = some asked → Names log asked name) {uid : String} {call : Call}
    {secretHash : Bytes}
    (hcall : requestedCode call = some (requestCode request name scope secretHash)) :
    Traces q log (.user uid call) := by
  intro code hcode
  have hsame := Option.some.inj (hcode.symm.trans hcall)
  exact ⟨clientId, request, scope, name, secretHash, h, hname, hsame⟩

end Works

theorem names_self (log : Log) (clientId : String) :
    ∀ asked, some clientId = some asked → Names log asked clientId :=
  fun _ hasked => .inl (Option.some.inj hasked)

theorem obeys_inert {α β : Type} {post : Log → β → Prop} {p : Handler α} {f : α → Handler β}
    (hp : Only Bare p) (h : ∀ log' a, log ⊆ log' → Obeys (Traces q) post log' (f a)) :
    Obeys (Traces q) post log (p >>= f) := by
  refine Obeys.bind ((hp.obeys fun log' op hbare => ?_).mono h)
  exact traces_of_inert log' op (inert_of_quiet op (quiet_of_plain op (plain_of_bare op hbare)))

/-! ### Starting an interaction -/

theorem parHandler_traces (clientId : String) (hasRequestUri : Bool) (params : RequestParams) :
    Obeys (Traces (.par clientId hasRequestUri params))
      (Answers (.par clientId hasRequestUri params)) []
      (parHandler clientId hasRequestUri params) := by
  unfold parHandler
  refine Obeys.perform trivial fun limited => ?_
  split
  · trivial
  refine Obeys.perform trivial fun record => ?_
  split
  · trivial
  next client hclient =>
  have hrecord : record = some (some client) := Option.join_eq_some_iff.mp hclient
  subst hrecord
  split
  · trivial
  split
  · trivial
  split
  · trivial
  · trivial
  · next request hvalid =>
    refine Obeys.perform trivial fun id => Obeys.perform trivial fun now => ?_
    refine Obeys.perform trivial fun secretHash => Obeys.perform ?_ fun _ => trivial
    intro stored hstored
    cases hstored
    exact ⟨client, rfl, ⟨clientId, by simp [directoryEntry]⟩, params, rfl, hvalid⟩

theorem evaluateSession_traces {client : ClientRef} {request : AuthorizeRequest}
    (hrequest : Requested q log (some client.clientId) request request.scope)
    (cookie : SessionCookie) (settings : Settings) (now : ℤ) :
    Obeys (Traces q) (fun log' _ => log ⊆ log') log
      (evaluateSession cookie client request settings now) := by
  unfold evaluateSession
  split
  · exact List.Subset.refl log
  refine Obeys.perform trivial fun secretHash => ?_
  refine Obeys.perform (hrequest.cons.traces (names_self _ _) rfl) fun reply => ?_
  have hsub : ∀ e, log ⊆ e :: ⟨.ask .newSecret, secretHash⟩ :: log := fun e =>
    List.Subset.trans (List.subset_cons_self _ _) (List.subset_cons_self _ _)
  split <;> exact hsub _

theorem authorizeFail_traces {request : AuthorizeRequest} (hsends : Sends q log request.redirectUri)
    (pushed : Option String) (now : ℤ) (error description : String) :
    Obeys (Traces q) (Answers q) log (authorizeFail pushed request now error description) := by
  cases pushed with
  | none => exact hsends
  | some id => exact Obeys.perform nofun fun _ => hsends.cons

theorem authorizeHit_traces {request : AuthorizeRequest} (hsends : Sends q log request.redirectUri)
    (pushed : Option String) (now : ℤ) (secretHash : Bytes) :
    Obeys (Traces q) (Answers q) log (authorizeHit pushed request now secretHash) := by
  cases pushed with
  | none => exact hsends
  | some id => exact Obeys.perform nofun fun _ => hsends.cons

/-- A new interaction stores the request only when its parameters were validated just before. -/
theorem authorizeInteract_traces {pushed : Option String} {client : Client}
    {request : AuthorizeRequest} (hchecked : pushed = none → Checked q log client (.ok request))
    (settings : Settings) (now : ℤ) (status : InteractionStatus)
    (existing : Option ExistingSession) :
    Obeys (Traces q) (Answers q) log
      (authorizeInteract pushed client request settings now status existing) := by
  cases pushed with
  | some id => exact Obeys.perform nofun fun _ => trivial
  | none =>
    refine Obeys.perform trivial fun id => Obeys.perform trivial fun secretHash => ?_
    refine Obeys.perform ?_ fun created => ?_
    · intro stored hstored
      cases hstored
      exact ⟨client, rfl, (hchecked rfl).mono
        (List.Subset.trans (List.subset_cons_self _ _) (List.subset_cons_self _ _))⟩
    · cases created with
      | error e => trivial
      | ok d => trivial

theorem authorizeEvaluated_traces {pushed : Option String} {client : Client}
    {request : AuthorizeRequest}
    (hrequest : Requested q log (some client.clientId) request request.scope)
    (hchecked : pushed = none → Checked q log client (.ok request)) (settings : Settings)
    (now : ℤ) (cookie : SessionCookie) :
    Obeys (Traces q) (Answers q) log
      (authorizeEvaluated pushed client request settings now cookie) := by
  unfold authorizeEvaluated
  refine Obeys.bind ((evaluateSession_traces hrequest cookie settings now).mono ?_)
  intro log' evaluated hsub
  have hsends : Sends q log' request.redirectUri := (hrequest.mono hsub).sends
  cases evaluated with
  | none => trivial
  | some evaluation =>
    dsimp only
    split
    · exact authorizeHit_traces hsends _ _ _
    · exact authorizeFail_traces hsends _ _ _ _
    · split
      · exact authorizeFail_traces hsends _ _ _ _
      · exact authorizeInteract_traces (fun hnone => (hchecked hnone).mono hsub) _ _ _ _

theorem authorizeRequested_traces {params : AuthorizeParams} {cookie : SessionCookie}
    (hq : q = .authorize (some params) cookie) {clientId : String} {client : Client}
    (hrecord : directoryEntry clientId client ∈ log) (settings : Settings) (now : ℤ) :
    Obeys (Traces q) (Answers q) log
      (authorizeRequested params client settings now cookie) := by
  have hparams : q.params = some params.toRequestParams := by rw [hq]; rfl
  unfold authorizeRequested
  split
  · next uri huri =>
    split
    · trivial
    split
    · trivial
    · trivial
    · next id hid =>
      have hbehalf : q.behalf = some id := by
        rw [hq]
        simp [Request.behalf, huri, hid]
      refine Obeys.perform trivial fun secretHash => Obeys.perform trivial fun claimed => ?_
      cases claimed with
      | error e => trivial
      | ok doc =>
        dsimp only
        split
        · trivial
        · next request hrequest =>
          refine authorizeEvaluated_traces ?_ (fun hnone => ?_) _ _ _
          · exact .redeemed id _ _ _ _ hbehalf doc List.mem_cons_self request hrequest
          · cases hnone
  · split
    · trivial
    split
    · trivial
    · next uri state error description hvalid =>
      exact .inr ⟨client, state, error, description, ⟨clientId, hrecord⟩, _, hparams, hvalid⟩
    · next request hvalid =>
      have hchecked : Checked q log client (.ok request) :=
        ⟨⟨clientId, hrecord⟩, _, hparams, hvalid⟩
      exact authorizeEvaluated_traces (.checked client request hchecked) (fun _ => hchecked) _ _ _

theorem authorizeHandler_traces (params : Option AuthorizeParams) (cookie : SessionCookie) :
    Obeys (Traces (.authorize params cookie)) (Answers (.authorize params cookie)) []
      (authorizeHandler params cookie) := by
  unfold authorizeHandler
  refine Obeys.perform trivial fun now => Obeys.perform trivial fun settings => ?_
  split
  · trivial
  split
  · trivial
  split
  · trivial
  split
  · trivial
  refine Obeys.perform trivial fun answer => ?_
  split
  · trivial
  split
  · trivial
  next client hclient =>
  obtain ⟨hrecord, -⟩ := Option.filter_eq_some_iff.mp hclient
  split
  · trivial
  · subst hrecord
    exact authorizeRequested_traces rfl List.mem_cons_self _ _

/-! ### Consent -/

/-- What `…/consent` stores: `openid` and the scopes the person chose among the requested ones. -/
theorem narrows_decided {decided requested : List String}
    (h : decided.all requested.contains = true) :
    Narrows (uniqueTexts ("openid" :: decided)) requested where
  openid := mem_uniqueTexts.mpr List.mem_cons_self
  distinct := nodup_uniqueTexts _
  within := by
    intro s hs
    rcases List.mem_cons.mp (mem_uniqueTexts.mp hs) with rfl | hs
    · exact .inl rfl
    · exact .inr (by simpa using List.all_eq_true.mp h s hs)

theorem consentHandler_traces (r : ApiRequest) (decision : Option ConsentDecision) :
    Obeys (Traces q) (Answers q) log (consentHandler r decision) := by
  have hguard : Obeys (Traces q) (fun log' guarded => (∀ g, guarded = .ok g →
      Seen log' g.id g.doc) ∧ Refuses guarded) log (guard r false) :=
    ((guard_obeys (q := q) r false).and ((guard_inert r false).obeys traces_of_inert)).weaken
      fun _ _ h => h.2
  unfold consentHandler
  refine Obeys.bind (hguard.mono fun log₁ guarded hguarded => ?_)
  cases guarded with
  | error response => exact answers_of_inside _ _ hguarded.2
  | ok g =>
    have hseen : Seen log₁ g.id g.doc := hguarded.1 g rfl
    dsimp only
    split
    · trivial
    next request hrequest =>
    split
    · trivial
    split
    · trivial
    · exact Obeys.perform (by rintro _ ⟨⟩) fun _ => trivial
    split
    · trivial
    next hdecided =>
    refine obeys_inert (interactionClient_bare _) fun log₂ client hsub => ?_
    split
    · trivial
    split
    · trivial
    refine Obeys.perform (by rintro _ ⟨⟩) fun reply => ?_
    split
    · refine Obeys.perform ?_ fun _ => trivial
      intro scopes hscopes
      cases hscopes
      exact ⟨g.doc, request, (hseen.mono hsub).cons, hrequest,
        narrows_decided (by simpa using hdecided)⟩
    · trivial
    · trivial

/-! ### Completion -/

theorem finish_traces {request : AuthorizeRequest} (hsends : Sends q log request.redirectUri)
    (id : String) (now : ℤ) (result : ClientResult) :
    Obeys (Traces q) (Answers q) log (finish id request now result) :=
  Obeys.perform nofun fun _ => hsends.cons

theorem completeLogout_inert (d : InteractionDocument) (id : String) (cookie : SessionCookie)
    (now : ℤ) : Yields Inert Inside (completeLogout d id cookie now) := by
  unfold completeLogout
  split
  · trivial
  split
  · split
    · exact (endSession_inert _ _ _).bind fun _ _ => Yields.perform nofun fun _ => trivial
    · exact Yields.perform nofun fun _ => trivial
  · exact Yields.perform nofun fun _ => trivial

/-- The record of an interaction's client is one the directory gave for it. -/
theorem interactionClient_traces (d : InteractionDocument) :
    Obeys (Traces q)
      (fun log' result => log ⊆ log' ∧ ∀ client, result = some client →
        ∀ asked, d.clientId = some asked → Names log' asked client.clientId) log
      (interactionClient d) := by
  unfold interactionClient
  cases d.clientId with
  | none => exact ⟨List.Subset.refl log, nofun⟩
  | some clientId =>
    refine Obeys.perform trivial fun record => ⟨List.subset_cons_self _ _, ?_⟩
    intro client hclient asked hasked
    have hrecord : record = some (some client) := Option.join_eq_some_iff.mp hclient
    subst hrecord
    cases hasked
    exact .inr ⟨client, List.mem_cons_self, rfl⟩

section Complete

variable {d : InteractionDocument} {request : AuthorizeRequest} {client : Client}

theorem completeOnSession_traces
    (hrequest : Requested q log d.clientId request (d.consent.getD request.scope))
    (hname : ∀ asked, d.clientId = some asked → Names log asked client.clientId) (id : String)
    (session : ExistingSession) (cookie : SessionCookie) (settings : Settings) (now : ℤ) :
    Obeys (Traces q) (Answers q) log
      (completeOnSession d id request client session cookie settings now) := by
  unfold completeOnSession
  refine Obeys.perform trivial fun secretHash => ?_
  have hname' := fun asked hasked => (hname asked hasked).mono
    (List.subset_cons_self (⟨.ask .newSecret, secretHash⟩ : Entry Op.Answer) log)
  refine Obeys.perform (hrequest.cons.traces hname' rfl) fun reply => ?_
  have hsends := hrequest.sends.cons (e := ⟨.ask .newSecret, secretHash⟩)
  split
  · split
    · exact finish_traces hsends.cons _ _ _
    · exact Obeys.perform nofun fun _ => trivial
  · exact Obeys.perform nofun fun _ => trivial
  · trivial

theorem rotateSession_traces
    (hrequest : Requested q log d.clientId request (d.consent.getD request.scope))
    (hname : ∀ asked, d.clientId = some asked → Names log asked client.clientId)
    (auth : InteractionAuth) (codeHash secretHash : Bytes) (settings : Settings) (now : ℤ) :
    Obeys (Traces q) (fun log' _ => log ⊆ log') log
      (rotateSession d auth (interactionCode d request client codeHash) (clientRef client)
        secretHash settings now) := by
  unfold rotateSession
  split
  · exact List.Subset.refl log
  split
  · exact List.Subset.refl log
  refine Obeys.perform (hrequest.traces hname rfl) fun reply => ?_
  split <;> exact List.subset_cons_self _ _

theorem endOther_inert (d : InteractionDocument) (uid : String) :
    Only Inert (endOther d uid) := by
  unfold endOther
  split
  · trivial
  split
  · exact Only.perform trivial fun _ => Only.perform rfl fun _ => trivial
  · trivial

theorem completeWithAuth_traces
    (hrequest : Requested q log d.clientId request (d.consent.getD request.scope))
    (hname : ∀ asked, d.clientId = some asked → Names log asked client.clientId) (id : String)
    (auth : InteractionAuth) (settings : Settings) (now : ℤ) :
    Obeys (Traces q) (Answers q) log
      (completeWithAuth d id request client auth settings now) := by
  unfold completeWithAuth
  refine Obeys.perform trivial fun codeHash => Obeys.perform trivial fun secretHash => ?_
  have hdrawn : log ⊆ (⟨.ask .newSecret, secretHash⟩ :: ⟨.ask .newSecret, codeHash⟩ :: log : Log) :=
    List.Subset.trans (List.subset_cons_self _ _) (List.subset_cons_self _ _)
  have hname₀ := fun asked hasked => (hname asked hasked).mono hdrawn
  refine Obeys.bind ((rotateSession_traces (hrequest.mono hdrawn) hname₀ auth codeHash secretHash
    settings now).mono fun log₁ rotated hsub => ?_)
  have hrequest₁ := (hrequest.mono hdrawn).mono hsub
  split
  · exact finish_traces hrequest₁.sends _ _ _
  · exact finish_traces hrequest₁.sends _ _ _
  · trivial
  · refine Obeys.bind (((endOther_inert _ _).obeys traces_of_inert).mono fun log₂ _ hsub₂ => ?_)
    have hrequest₂ := hrequest₁.mono hsub₂
    refine Obeys.perform trivial fun sid => Obeys.perform trivial fun metadata => ?_
    have hsub₃ : log₂ ⊆ (⟨.ask .sessionMetadata, metadata⟩ :: ⟨.ask .newUuid, sid⟩ :: log₂ : Log) :=
      List.Subset.trans (List.subset_cons_self _ _) (List.subset_cons_self _ _)
    have hname₃ := fun asked hasked =>
      (((hname₀ asked hasked).mono hsub).mono hsub₂).mono hsub₃
    refine Obeys.perform ((hrequest₂.mono hsub₃).traces hname₃ rfl) fun reply => ?_
    split
    · exact finish_traces hrequest₂.cons.cons.cons.sends _ _ _
    · exact finish_traces hrequest₂.cons.cons.cons.sends _ _ _
    · trivial

theorem completeClaimed_traces {id : String} (hbehalf : q.behalf = some id)
    (hseen : Seen log id d) (cookie : SessionCookie) (settings : Settings) (now : ℤ) :
    Obeys (Traces q) (Answers q) log (completeClaimed d id cookie settings now) := by
  unfold completeClaimed
  split
  · exact traces_of_yields (completeLogout_inert _ _ _ _)
  split
  · trivial
  next request hrequest =>
  have hrequested : Requested q log d.clientId request (d.consent.getD request.scope) :=
    .read id hbehalf d hseen request hrequest
  split
  · exact finish_traces hrequested.sends _ _ _
  unfold completeReady
  refine Obeys.bind ((interactionClient_traces d).mono ?_)
  rintro log' record ⟨hsub, hnames⟩
  split
  · exact finish_traces (hrequested.mono hsub).sends _ _ _
  · next client =>
    have hname := hnames client rfl
    split
    · exact completeWithAuth_traces (hrequested.mono hsub) hname _ _ _ _
    · exact completeOnSession_traces (hrequested.mono hsub) hname _ _ _ _ _
    · exact finish_traces (hrequested.mono hsub).sends _ _ _

end Complete

theorem completeHandler_traces {id : String} (hbehalf : q.behalf = some id)
    (binding : Option BindingRef) (cookie : SessionCookie) :
    Obeys (Traces q) (Answers q) log (completeHandler id binding cookie) := by
  unfold completeHandler
  refine Obeys.perform trivial fun settings => ?_
  split
  · trivial
  split
  · trivial
  split
  · trivial
  split
  · trivial
  refine Obeys.perform trivial fun now => Obeys.perform trivial fun got => ?_
  split
  · trivial
  next d =>
  split
  · trivial
  next hpushed =>
  split
  · trivial
  split
  · trivial
  split
  · trivial
  refine Obeys.perform trivial fun claimed => ?_
  split
  · trivial
  · have hopen : openDocument id ⟨.interaction id (.get now), .ok d⟩ = some d :=
      if_pos ⟨rfl, hpushed⟩
    exact completeClaimed_traces hbehalf (Seen.cons ⟨_, List.mem_cons_self, hopen⟩) _ _ _

/-- Every handler keeps to the rules, in what it calls and in where it sends results. -/
theorem deployment_traces (sha256 : String → Bytes) (q : Request) :
    ((deployment sha256).start q).Obeys (Traces q) (Answers q) [] := by
  cases q with
  | par clientId hasRequestUri params => exact parHandler_traces _ _ _
  | authorize params cookie => exact authorizeHandler_traces _ _
  | getInteraction r => exact traces_of_yields (getInteractionHandler_inert _)
  | abort r => exact traces_of_yields (abortHandler_inert _)
  | consent r decision => exact consentHandler_traces _ _
  | passkeyOptions r => exact traces_of_yields (passkeyOptionsHandler_inert _)
  | passkeyVerify r malformed assertion => exact traces_of_yields (passkeyVerifyHandler_inert _ _ _)
  | registerOptions r body => exact traces_of_yields (registerOptionsHandler_inert _ _)
  | registerVerify r malformed name => exact traces_of_yields (registerVerifyHandler_inert _ _ _)
  | upstream r malformed upstreamAlias invitation =>
    exact traces_of_yields (upstreamHandler_inert _ _ _ _)
  | federationCallback malformed state binding error code =>
    exact traces_of_yields (federationCallbackHandler_inert _ _ _ _ _)
  | logoutDecision r confirm => exact traces_of_yields (logoutDecisionHandler_inert _ _)
  | complete id binding cookie => exact completeHandler_traces rfl _ _
  | logout params cookie => exact traces_of_yields (logoutHandler_inert _ _)
  | listGrants uid => exact traces_of_yields (listGrantsHandler_inert _)

end TinyOidc.Interaction
