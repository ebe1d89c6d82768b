import TinyOidc.Interaction.EndProtocol
import TinyOidc.Interaction.ForcedLogin

/-! A session ends by the browser that holds it. What a document says of a session and of a
logout goes back to a request that presented the session's cookie, and a confirmation to the
browser the document is bound to; from there it reaches the call that ends the session. -/
namespace TinyOidc.Interaction
open TinyOidc.User TinyOidc.Util Threads

/-! ### What the run carries along -/

def Created (log : Log) (id : String) : Prop :=
  ∃ input now ttl d, (⟨.interaction id (.create input now ttl), .ok d⟩ : Entry Op.Answer) ∈ log

/-- A logout request started the interaction, for the session of its cookie. -/
def AskedBySome (c : RunConfig) (id : String) (logout : LogoutRequest) : Prop :=
  ∃ t ∈ c.threads, Created t.log id ∧
    AsksAbout t.request t.log { logout with decision := none }

def ConfirmedBySome (c : RunConfig) (id bindingHash : String) : Prop :=
  ∃ t ∈ c.threads, ∃ r binding, t.request = .logoutDecision r (some true) ∧ r.id = id ∧
    r.binding = some binding ∧ bindingHash = encodeBase64Url binding.secretHash

/-- Where the session and the logout of a document come from. -/
structure Asked (c : RunConfig) (id : String) (d : InteractionDocument) : Prop where
  existing : ∀ session, d.existingSession = some session →
    ∃ t ∈ c.threads, Presented t.request t.log session.uid session.sid
  asked : ∀ logout, d.logout = some logout → AskedBySome c id logout
  confirmed : ∀ logout, d.logout = some logout → logout.decision = some .confirm →
    ConfirmedBySome c id d.bindingHash
  opened : ∀ logout, d.logout = some logout → d.status ≠ .pushed

structure AllAsked (c : RunConfig) : Prop where
  stored : ∀ id d, c.shared.doc id = some d → Asked c id d
  read : ∀ t ∈ c.threads, ∀ id d, Seen t.log id d → Asked c id d
  bound : ∀ t ∈ c.threads, ∀ id d₀, Seen t.log id d₀ → ∀ d, c.shared.doc id = some d →
    d.bindingHash = d₀.bindingHash

section Grow

variable {c c' : RunConfig} {id : String}

theorem presented_grow {uid sid : String}
    (h : ∃ t ∈ c.threads, Presented t.request t.log uid sid) (hgrows : c.Grows c') :
    ∃ t ∈ c'.threads, Presented t.request t.log uid sid := by
  obtain ⟨t, ht, hpresented⟩ := h
  obtain ⟨t', ht', hrequest, hsuffix⟩ := hgrows t ht
  exact ⟨t', ht', hrequest ▸ hpresented.mono hsuffix.subset⟩

theorem AskedBySome.grow {logout : LogoutRequest} (h : AskedBySome c id logout)
    (hgrows : c.Grows c') : AskedBySome c' id logout := by
  obtain ⟨t, ht, ⟨input, now, ttl, d, hcreated⟩, hasks⟩ := h
  obtain ⟨t', ht', hrequest, hsuffix⟩ := hgrows t ht
  exact ⟨t', ht', ⟨input, now, ttl, d, hsuffix.subset hcreated⟩,
    hrequest ▸ hasks.mono hsuffix.subset⟩

theorem ConfirmedBySome.grow {bindingHash : String} (h : ConfirmedBySome c id bindingHash)
    (hgrows : c.Grows c') : ConfirmedBySome c' id bindingHash := by
  obtain ⟨t, ht, r, binding, hdecides, hrest⟩ := h
  obtain ⟨t', ht', hrequest, -⟩ := hgrows t ht
  exact ⟨t', ht', r, binding, hrequest.trans hdecides, hrest⟩

theorem Asked.grow {d : InteractionDocument} (h : Asked c id d) (hgrows : c.Grows c') :
    Asked c' id d where
  existing session hsession := presented_grow (h.existing session hsession) hgrows
  asked logout hlogout := (h.asked logout hlogout).grow hgrows
  confirmed logout hlogout hconfirm := (h.confirmed logout hlogout hconfirm).grow hgrows
  opened := h.opened

end Grow

/-! ### One call -/

/-- What a call does to the session, the logout and the binding of a stored document. -/
inductive Rewrites (id : String) (entry : Entry Op.Answer) (d d' : InteractionDocument) : Prop
    where
  | moved (operation : InteractionOperation) (target : InteractionStatus)
      (patch : TransitionPatch) (now : ℤ)
      (hentry : entry.1 = .interaction id (.apply operation target patch now))
      (allowed : canTransition d.status operation target = true)
      (hmoved : d' = d.transition target patch now)
  | kept (existing : d'.existingSession = d.existingSession) (logout : d'.logout = d.logout)
      (status : d'.status = .pushed → d.status = .pushed)
      (binding : d'.bindingHash = d.bindingHash ∨ d.status = .pushed)

theorem rewrites_of_performed {sha256 : String → Bytes} {w w' : World} {entry : Entry Op.Answer}
    (performed : Performed sha256 w w' entry) {id : String} {d d' : InteractionDocument}
    (hd : w.doc id = some d) (hd' : w'.doc id = some d') : Rewrites id entry d d' := by
  have hsame : d' = d → Rewrites id entry d d' := by
    intro heq
    subst heq
    exact .kept rfl rfl (fun hpushed => hpushed) (.inl rfl)
  cases performed with
  | asked question oracle => exact hsame (Option.some.inj (hd'.symm.trans hd))
  | onUser uid call => exact hsame (Option.some.inj (hd'.symm.trans hd))
  | onInteraction id' call o answer answered =>
    by_cases hid : id' = id
    · subst hid
      have hafter : o.doc = some d' := by simpa [World.doc] using hd'
      have hbefore : (w.interactions id').doc = some d := hd
      cases answered with
      | refused _ e => exact hsame (Option.some.inj (hafter.symm.trans hbefore))
      | created input now ttl alarmAt absent => cases absent.symm.trans hbefore
      | read now d₁ stored => exact hsame (Option.some.inj (hafter.symm.trans hbefore))
      | claimedPushed clientId bindingHash now ttl alarmAt d₁ stored pushed unclaimed client =>
        cases stored.symm.trans hbefore
        cases hafter
        exact .kept rfl rfl (fun _ => pushed) (.inr pushed)
      | applied operation target patch now alarmAt d₁ stored permitted =>
        cases stored.symm.trans hbefore
        cases hafter
        exact .moved operation target patch now rfl permitted rfl
      | claimedCompletion now alarmAt d₁ stored status unclaimed =>
        cases stored.symm.trans hbefore
        cases hafter
        exact .kept rfl rfl (fun hpushed => hpushed) (.inl rfl)
      | consumedFederation stateHash now alarmAt d₁ leg stored status pending =>
        cases stored.symm.trans hbefore
        cases hafter
        exact .kept rfl rfl (fun hpushed => hpushed) (.inl rfl)
      | patched fields now alarmAt d₁ stored live =>
        cases stored.symm.trans hbefore
        cases hafter
        exact .kept rfl rfl (fun hpushed => hpushed) (.inl rfl)
      | attempted now limit alarmAt d₁ stored live =>
        cases stored.symm.trans hbefore
        cases hafter
        exact .kept rfl rfl (fun hpushed => hpushed) (.inl rfl)
      | exhausted now limit alarmAt d₁ stored live =>
        cases stored.symm.trans hbefore
        cases hafter
        refine .kept rfl rfl ?_ (.inl rfl)
        intro hpushed
        cases hpushed
      | early now => exact hsame (Option.some.inj (hafter.symm.trans hbefore))
      | expired now => cases hafter
    · refine hsame (Option.some.inj (Eq.trans ?_ hd))
      simpa [World.doc, Function.update_of_ne (Ne.symm hid)] using hd'.symm

section Steps

variable {sha256 : String → Bytes} {steps : List Step}

/-- The thread that has made a call is one of the threads. -/
theorem mem_called {i : ℕ} {t : RunThread} (hi : (runState sha256 steps).threads[i]? = some t)
    (w : World) (entry : Entry Op.Answer) (prog : Handler Response) :
    ⟨t.request, entry :: t.log, prog⟩ ∈ (⟨w, (runState sha256 steps).threads.set i
      ⟨t.request, entry :: t.log, prog⟩⟩ : RunConfig).threads :=
  List.mem_of_getElem? (List.getElem?_set_self (List.getElem?_eq_some_iff.mp hi).1)

/-- A new document names the session its request presents. -/
theorem Asked.created {c : RunConfig} {t' : RunThread} (ht' : t' ∈ c.threads) {id : String}
    {input : CreateInteraction} {now ttl : ℤ} (hcreated : Created t'.log id) {log : Log}
    (hsub : log ⊆ t'.log)
    (ends : Ends t'.request log (.interaction id (.create input now ttl))) :
    Asked c id (newDocument input now ttl) := by
  obtain ⟨hsession, hlogout⟩ := ends
  constructor
  · exact fun session hsome => ⟨t', ht', (hsession session hsome).mono hsub⟩
  · intro logout hsome
    obtain ⟨-, hasks⟩ := hlogout logout hsome
    have hundecided : { logout with decision := none } = logout := by
      rw [← hasks.undecided]
    refine ⟨t', ht', hcreated, ?_⟩
    rw [hundecided]
    exact hasks.mono hsub
  · intro logout hsome hconfirm
    obtain ⟨-, hasks⟩ := hlogout logout hsome
    rw [hasks.undecided] at hconfirm
    cases hconfirm
  · exact fun logout hsome => (hlogout logout hsome).1

/-- A transition names the session its request presents, and takes the decision of its browser. -/
theorem AllAsked.moved {c c' : RunConfig} (h : AllAsked c) (hgrows : c.Grows c') {t : RunThread}
    (ht : t ∈ c.threads) {id : String} {d : InteractionDocument} (hd : c.shared.doc id = some d)
    {operation : InteractionOperation} {target : InteractionStatus} {patch : TransitionPatch}
    {now : ℤ} (allowed : canTransition d.status operation target = true)
    (ends : Ends t.request t.log (.interaction id (.apply operation target patch now))) :
    Asked c' id (d.transition target patch now) := by
  have hold := (h.stored id d hd).grow hgrows
  obtain ⟨hsession, hlogout⟩ := ends
  constructor
  · intro session hsome
    cases hpatch : patch.existingSession with
    | none =>
      exact hold.existing session (by simpa [InteractionDocument.transition, hpatch] using hsome)
    | some found =>
      have hfound : found = some session := by
        simpa [InteractionDocument.transition, hpatch] using hsome
      subst hfound
      exact presented_grow ⟨t, ht, hsession session hpatch⟩ hgrows
  · intro logout hsome
    cases hpatch : patch.logout with
    | none =>
      exact hold.asked logout (by simpa [InteractionDocument.transition, hpatch] using hsome)
    | some found =>
      have hfound : found = some logout := by
        simpa [InteractionDocument.transition, hpatch] using hsome
      subst hfound
      obtain ⟨r, confirm, d₀, now₀, prior, hq, hid, hshown, hprior, rfl⟩ := hlogout logout hpatch
      exact ((h.read t ht id d₀ hshown.seen).asked prior hprior).grow hgrows
  · intro logout hsome hconfirm
    cases hpatch : patch.logout with
    | none =>
      exact hold.confirmed logout (by simpa [InteractionDocument.transition, hpatch] using hsome)
        hconfirm
    | some found =>
      have hfound : found = some logout := by
        simpa [InteractionDocument.transition, hpatch] using hsome
      subst hfound
      obtain ⟨r, confirm, d₀, now₀, prior, hq, hid, hshown, hprior, rfl⟩ := hlogout logout hpatch
      cases confirm with
      | false => cases hconfirm
      | true =>
        obtain ⟨binding, hpresents, hbinding⟩ := hshown.bound
        have hown : r.binding = some binding := by
          rw [hq] at hpresents
          exact hpresents
        have hsame : d.bindingHash = d₀.bindingHash := h.bound t ht id d₀ hshown.seen d hd
        have hconfirmed : ConfirmedBySome c id d.bindingHash :=
          ⟨t, ht, r, binding, hq, hid, hown, hsame.trans hbinding⟩
        exact hconfirmed.grow hgrows
  · exact fun _ _ => ne_pushed_of_canTransition allowed

theorem AllAsked.stored_move (h : AllAsked (runState sha256 steps)) {i : ℕ} {t : RunThread}
    {entry : Entry Op.Answer} {w : World} (prog : Handler Response)
    (hi : (runState sha256 steps).threads[i]? = some t)
    (permitted : Permits t.request t.log entry.1) (ends : Ends t.request t.log entry.1)
    (performed : Performed sha256 (runState sha256 steps).shared w entry) {id : String}
    {d' : InteractionDocument} (hd' : w.doc id = some d') :
    Asked ⟨w, (runState sha256 steps).threads.set i ⟨t.request, entry :: t.log, prog⟩⟩ id d' := by
  have hgrows := Config.grows_called hi w entry prog
  have hcalled := mem_called hi w entry prog
  cases hx : (runState sha256 steps).shared.doc id with
  | none =>
    have hmove := docMove_of_performed permitted performed id
    rw [hx, hd'] at hmove
    cases hmove with
    | created input now ttl pending =>
      exact Asked.created hcalled ⟨input, now, ttl, _, List.mem_cons_self⟩
        (List.subset_cons_self _ _) ends
  | some d =>
    cases rewrites_of_performed performed hx hd' with
    | moved operation target patch now hentry allowed hmoved =>
      rw [hentry] at ends
      subst hmoved
      exact h.moved hgrows (List.mem_of_getElem? hi) hx allowed ends
    | kept existing logout status binding =>
      have hold := (h.stored id d hx).grow hgrows
      constructor
      · exact fun session hsome => hold.existing session (existing ▸ hsome)
      · exact fun asked hsome => hold.asked asked (logout ▸ hsome)
      · intro asked hsome hconfirm
        have hsame : d'.bindingHash = d.bindingHash :=
          binding.resolve_right (hold.opened asked (logout ▸ hsome))
        rw [hsame]
        exact hold.confirmed asked (logout ▸ hsome) hconfirm
      · exact fun asked hsome hpushed => hold.opened asked (logout ▸ hsome) (status hpushed)

/-- Once a document has been shown, its binding stays. -/
theorem AllAsked.bound_move (hfresh : FreshIds (runEffects sha256 steps))
    (h : AllAsked (runState sha256 steps)) {i : ℕ} {t : RunThread} {entry : Entry Op.Answer}
    {w : World} (hi : (runState sha256 steps).threads[i]? = some t)
    (permitted : Permits t.request t.log entry.1)
    (performed : Performed sha256 (runState sha256 steps).shared w entry) {t₀ : RunThread}
    (ht₀ : t₀ ∈ (runState sha256 steps).threads) {id : String} {d₀ d' : InteractionDocument}
    (hseen : Seen t₀.log id d₀) (hd' : w.doc id = some d') : d'.bindingHash = d₀.bindingHash := by
  have htracks := tracks_of_seen hfresh ht₀ hseen
  cases hx : (runState sha256 steps).shared.doc id with
  | none =>
    have hmove := docMove_of_performed permitted performed id
    rw [hx, hd'] at hmove
    cases hmove with
    | created input now ttl pending =>
      exact absurd htracks.created (notMem_createdIds_of_pending hfresh hi pending)
  | some d =>
    have hbound := h.bound t₀ ht₀ id d₀ hseen d hx
    cases rewrites_of_performed performed hx hd' with
    | moved operation target patch now hentry allowed hmoved =>
      subst hmoved
      exact hbound
    | kept existing logout status binding =>
      exact (binding.resolve_right (htracks.later d hx).opened).trans hbound

theorem AllAsked.thread (hfresh : FreshIds (runEffects sha256 steps))
    (h : AllAsked (runState sha256 steps)) {i : ℕ} {t : RunThread} {entry : Entry Op.Answer}
    {w : World} (prog : Handler Response) (hi : (runState sha256 steps).threads[i]? = some t)
    (permitted : Permits t.request t.log entry.1) (ends : Ends t.request t.log entry.1)
    (performed : Performed sha256 (runState sha256 steps).shared w entry) :
    AllAsked ⟨w, (runState sha256 steps).threads.set i ⟨t.request, entry :: t.log, prog⟩⟩ := by
  have ht := List.mem_of_getElem? hi
  have hgrows := Config.grows_called hi w entry prog
  constructor
  · exact fun id d hd => h.stored_move prog hi permitted ends performed hd
  · intro t' ht' id d hseen
    rcases List.mem_or_eq_of_mem_set ht' with ht' | rfl
    · exact (h.read t' ht' id d hseen).grow hgrows
    · obtain ⟨e, he, hopen⟩ := hseen
      rcases List.mem_cons.mp he with rfl | he
      · exact h.stored_move prog hi permitted ends performed
          (openDocument_performed performed hopen).1
      · exact (h.read t ht id d ⟨e, he, hopen⟩).grow hgrows
  · intro t' ht' id d₀ hseen d hd
    rcases List.mem_or_eq_of_mem_set ht' with ht' | rfl
    · exact h.bound_move hfresh hi permitted performed ht' hseen hd
    · obtain ⟨e, he, hopen⟩ := hseen
      rcases List.mem_cons.mp he with rfl | he
      · cases (openDocument_performed performed hopen).1.symm.trans hd
        rfl
      · exact h.bound_move hfresh hi permitted performed ht ⟨e, he, hopen⟩ hd

/-- Beside the requests, documents only disappear. -/
theorem AllAsked.outside (h : AllAsked (runState sha256 steps)) {entry : Entry Op.Answer}
    {w : World} (hop : outsideOp entry.1 = true)
    (performed : Performed sha256 (runState sha256 steps).shared w entry) :
    AllAsked ⟨w, (runState sha256 steps).threads⟩ := by
  have hgrows := Config.grows_shared (runState sha256 steps) w
  have hdoc : ∀ {id d}, w.doc id = some d → (runState sha256 steps).shared.doc id = some d := by
    intro id d hd
    rcases doc_of_outside hop performed id with hsame | hgone
    · exact hsame ▸ hd
    · rw [hd] at hgone
      cases hgone
  constructor
  · exact fun id d hd => (h.stored id d (hdoc hd)).grow hgrows
  · exact fun t ht id d hseen => (h.read t ht id d hseen).grow hgrows
  · exact fun t ht id d₀ hseen d hd => h.bound t ht id d₀ hseen d (hdoc hd)

end Steps

theorem allAsked_run {sha256 : String → Bytes} (steps : List Step)
    (hfresh : FreshIds (runEffects sha256 steps)) : AllAsked (runState sha256 steps) := by
  refine System.run_invariant ((deployment_follows sha256).and (deployment_ends sha256))
    (C := fun steps => FreshIds (runEffects sha256 steps)) (J := fun c _ => AllAsked c)
    (fun _ _ => FreshIds.earlier) ?_ ?_ ?_ ?_ steps hfresh
  · constructor
    · intro id d hd
      cases hd
    · intro t ht
      cases ht
    · intro t ht
      cases ht
  · intro steps q h
    have hgrows := Config.grows_append (runState sha256 steps) (runState sha256 steps).shared
      [⟨q, [], (deployment sha256).start q⟩]
    have hseen : ∀ {t : RunThread}, t ∈ (runState sha256 steps).threads ++
        [⟨q, [], (deployment sha256).start q⟩] → ∀ {id d}, Seen t.log id d →
        t ∈ (runState sha256 steps).threads := by
      intro t ht id d hseen
      rcases List.mem_append.mp ht with ht | ht
      · exact ht
      · rw [List.mem_singleton.mp ht] at hseen
        obtain ⟨e, he, -⟩ := hseen
        cases he
    constructor
    · exact fun id d hd => (h.stored id d hd).grow hgrows
    · exact fun t ht id d hs => (h.read t (hseen ht hs) id d hs).grow hgrows
    · exact fun t ht id d₀ hs d hd => h.bound t (hseen ht hs) id d₀ hs d hd
  · intro steps i t op answer prog hfresh _ h hi _ hop
    exact h.thread hfresh.earlier prog hi hop.1 hop.2 (exec_performed sha256 _ answer op)
  · intro steps op answer h hop
    have hperformed := exec_performed sha256 (runState sha256 steps).shared answer op
    have houtside : outsideOp op = true := hop
    exact h.outside houtside hperformed

/-! ### Ending a session -/

/-- The request presents the cookie of the session, and the user's object accepted its secret. -/
structure HeldBy (t : RunThread) (uid sid : String) : Prop where
  cookie : ∃ ref, t.request.cookie.opened = some ref ∧ ref.uid = uid ∧ ref.sid = sid
  accepted : Presented t.request t.log uid sid

theorem heldBy_of_presented {sha256 : String → Bytes} {steps : List Step} {t : RunThread}
    (ht : t ∈ (runState sha256 steps).threads) {uid sid : String}
    (h : Presented t.request t.log uid sid) : HeldBy t uid sid := by
  refine ⟨?_, h⟩
  cases h with
  | found ref hcookie now answer hentry => exact ⟨ref, hcookie, rfl, rfl⟩
  | evaluated ref hcookie client request settings now secretHash a hentry =>
    obtain ⟨o, hreply⟩ := reply_of_mem_log ht hentry
    have hok : (o.authorizeWithSession
        (evaluationInput ref client request settings now secretHash)).2 = .ok a := by
      injection hreply
    exact ⟨ref, hcookie, rfl, (authorizeWithSession_found hok).1.symm⟩

/-- On whose behalf the call ends the session: of a valid hint that names it; of its own browser,
which asked for the logout and confirmed it; or of another account that logged in instead. -/
inductive EndedFor (c : RunConfig) (t : RunThread) (uid sid : String) : String → Prop where
  | hinted (params : LogoutParams) (cookie : SessionCookie)
      (hq : t.request = .logout (some params) cookie) (sub audience : String)
      (hint : params.hint = .valid sub (some sid) audience) (client : Client)
      (record : directoryEntry audience client ∈ t.log)
      (owner : uid = sub ∨ ∃ ref, cookie.opened = some ref ∧ ref.uid = uid ∧ ref.sid = sid) :
      EndedFor c t uid sid "rp_logout"
  | confirmed (id : String) (binding : BindingRef) (ref : SessionRef)
      (hq : t.request = .complete id (some binding) (.presented (some ref)))
      (own : ref.uid = uid ∧ ref.sid = sid)
      (asked : ∃ t₀ ∈ c.threads, (∃ params cookie, t₀.request = .logout (some params) cookie) ∧
        Created t₀.log id ∧ HeldBy t₀ uid sid)
      (decided : ∃ t₁ ∈ c.threads, ∃ r confirming, t₁.request = .logoutDecision r (some true) ∧
        r.id = id ∧ r.binding = some confirming ∧ confirming.secretHash = binding.secretHash) :
      EndedFor c t uid sid "logout"
  | replaced (id : String) (binding : BindingRef) (cookie : SessionCookie)
      (hq : t.request = .complete id (some binding) cookie)
      (held : ∃ t₀ ∈ c.threads, HeldBy t₀ uid sid) (auth : InteractionAuth)
      (other : auth.uid ≠ uid) (login : ∃ t₁ ∈ c.threads, LoggedIn t₁.request t₁.log id auth) :
      EndedFor c t uid sid "reauth"

/-- The binding a completion presents is the one of the document it has read. -/
theorem CompletesFor.request {q : Request} {log : Log} {id : String} {d : InteractionDocument}
    (h : CompletesFor q log id d) : ∃ binding cookie, q = .complete id (some binding) cookie ∧
      d.bindingHash = encodeBase64Url binding.secretHash := by
  obtain ⟨presented, cookie, rfl⟩ := h.behalf
  obtain ⟨binding, hpresents, hbinding⟩ := h.bound
  cases hpresents
  exact ⟨binding, cookie, rfl, hbinding⟩

section Ended

variable {sha256 : String → Bytes} {steps : List Step} {t : RunThread} {uid sid : String}

theorem endedFor_of_confirmed (hfresh : FreshIds (runEffects sha256 steps))
    (ht : t ∈ (runState sha256 steps).threads) {id : String} {d : InteractionDocument}
    (hcompletes : CompletesFor t.request t.log id d) {ref : SessionRef}
    (hcookie : t.request.cookie.opened = some ref) {logout : LogoutRequest}
    (hlogout : d.logout = some logout) (hconfirm : logout.decision = some .confirm)
    (hsid : logout.sid = some sid) (huid : logout.uid = some uid)
    (own : ref.uid = uid ∧ ref.sid = sid) :
    EndedFor (runState sha256 steps) t uid sid "logout" := by
  have hasked := (allAsked_run steps hfresh).read t ht id d hcompletes.seen
  obtain ⟨binding, cookie, hq, hbinding⟩ := hcompletes.request
  have hpresents : cookie = .presented (some ref) := by
    rw [hq] at hcookie
    cases cookie with
    | absent => cases hcookie
    | presented opened => exact congrArg SessionCookie.presented hcookie
  subst hpresents
  refine .confirmed id binding ref hq own ?_ ?_
  · obtain ⟨t₀, ht₀, hcreated, hasks⟩ := hasked.asked logout hlogout
    obtain ⟨uid₀, sid₀, huid₀, hsid₀, hpresented⟩ := hasks.session
    cases huid.symm.trans huid₀
    cases hsid.symm.trans hsid₀
    exact ⟨t₀, ht₀, hasks.asked, hcreated, heldBy_of_presented ht₀ hpresented⟩
  · obtain ⟨t₁, ht₁, r, confirming, hdecides, hid, hconfirming, hsame⟩ :=
      hasked.confirmed logout hlogout hconfirm
    exact ⟨t₁, ht₁, r, confirming, hdecides, hid, hconfirming,
      encodeBase64Url_injective (hsame.symm.trans hbinding)⟩

theorem endedFor_of_replaced (hfresh : FreshIds (runEffects sha256 steps))
    (ht : t ∈ (runState sha256 steps).threads) {id : String} {d : InteractionDocument}
    (hcompletes : CompletesFor t.request t.log id d) {auth : InteractionAuth}
    (hauth : d.auth = some auth) {existing : ExistingSession}
    (hexisting : d.existingSession = some existing) (other : auth.uid ≠ existing.uid) :
    EndedFor (runState sha256 steps) t existing.uid existing.sid "reauth" := by
  obtain ⟨binding, cookie, hq, -⟩ := hcompletes.request
  obtain ⟨t₀, ht₀, hpresented⟩ :=
    ((allAsked_run steps hfresh).read t ht id d hcompletes.seen).existing existing hexisting
  obtain ⟨t₁, ht₁, hlogin⟩ :=
    ((allVouched_run steps hfresh).read t ht id d hcompletes.seen).login auth hauth
  exact .replaced id binding cookie hq ⟨t₀, ht₀, heldBy_of_presented ht₀ hpresented⟩ auth other
    ⟨t₁, ht₁, hlogin⟩

end Ended

/-- In every run, a request ends a single session only for a valid hint that names it, for the
browser that holds its cookie and has confirmed the logout it asked for, or when another account
has logged in in an interaction that started with it. -/
theorem sessions_end_by_their_browser (sha256 : String → Bytes) (steps : List Step)
    (hfresh : FreshIds (runEffects sha256 steps)) :
    ∀ t ∈ (runState sha256 steps).threads, ∀ uid sid now reason reply,
      (⟨.user uid (.revokeSession sid now reason), reply⟩ : Entry Op.Answer) ∈ t.log →
        EndedFor (runState sha256 steps) t uid sid reason := by
  intro t ht uid sid now reason reply hentry
  obtain ⟨newer, older, hlog⟩ := List.append_of_mem hentry
  have hsuffix : ⟨.user uid (.revokeSession sid now reason), reply⟩ :: older <:+ t.log :=
    ⟨newer, hlog.symm⟩
  have hsub : older ⊆ t.log := fun e he => hsuffix.subset (List.mem_cons_of_mem _ he)
  have hends : EndsFor t.request older uid sid reason :=
    System.log_permitted (deployment_ends sha256) .fresh steps t ht _ older hsuffix
  cases hends.mono hsub with
  | hinted params cookie hq sub audience hint client record owner =>
    exact .hinted params cookie hq sub audience hint client record owner
  | confirmed id d completes ref hcookie logout hlogout hconfirm hsid huid own =>
    exact endedFor_of_confirmed hfresh ht completes hcookie hlogout hconfirm hsid huid own
  | replaced id d completes auth hauth existing hexisting huid hsid other =>
    subst huid
    subst hsid
    exact endedFor_of_replaced hfresh ht completes hauth hexisting other

namespace Sample

/-- The cookie of the session that the login of `u1` opens. -/
def signedIn : SessionCookie := .presented (some ⟨"u1", "s1", [1]⟩)

/-- A logout without a hint. -/
def signOut : Request :=
  .logout (some ⟨.absent, some "app", some "https://app.test/out", fun _ => none, none⟩) signedIn

/-- `u1` logs in to `portal`, asks for a logout, confirms it and completes it. -/
def signedOut : List Step :=
  (user "u1" ++ whole 0 ix (authorize "portal" .absent) ++ login 1 ix "u1" ++
    whole 3 ix complete ++ whole 4 iy signOut ++
    whole 5 iy (.logoutDecision (api iy) (some true)) ++
    whole 6 iy (.complete iy (some ⟨iy, [1]⟩) signedIn)).reverse

/-- The run ends the session of `u1` and leaves for the URI that the logout asked for. -/
theorem signedOut_run :
    FreshIds (runEffects User.Sample.sha256 signedOut) ∧
      (∃ t ∈ (runState User.Sample.sha256 signedOut).threads, ∃ entry ∈ t.log,
        entry.1 = .user "u1" (.revokeSession "s1" 10 "logout")) ∧
      ∃ t ∈ (runState User.Sample.sha256 signedOut).threads, t.request.signsOut = true ∧
        t.prog.result = some (.toPostLogout (some "https://app.test/out") none) := by
  decide +kernel

end Sample

theorem sessions_end_by_their_browser_sample :
    FreshIds (runEffects User.Sample.sha256 Sample.signedOut) ∧
      ∃ t ∈ (runState User.Sample.sha256 Sample.signedOut).threads, ∃ reply,
        (⟨.user "u1" (.revokeSession "s1" 10 "logout"), reply⟩ : Entry Op.Answer) ∈ t.log ∧
          EndedFor (runState User.Sample.sha256 Sample.signedOut) t "u1" "s1" "logout" := by
  obtain ⟨hfresh, ⟨t, ht, ⟨op, reply⟩, hentry, rfl⟩, -⟩ := Sample.signedOut_run
  exact ⟨hfresh, t, ht, reply, hentry,
    sessions_end_by_their_browser _ _ hfresh t ht "u1" "s1" 10 "logout" reply hentry⟩

/-! ### Where a logout leads -/

open TinyOidc.Oidc in
/-- In every run, `/logout` and `/complete` leave for no URI but the ones that a logout request
asked for and that match those of the client which its hint or its `client_id` names. -/
theorem logout_leads_to_registered (sha256 : String → Bytes) (steps : List Step)
    (hfresh : FreshIds (runEffects sha256 steps)) :
    ∀ t ∈ (runState sha256 steps).threads, t.request.signsOut = true → ∀ uri state,
      t.prog = .done (.toPostLogout (some uri) state) →
        ∃ t₀ ∈ (runState sha256 steps).threads, ∃ params cookie clientId client,
          t₀.request = .logout (some params) cookie ∧ params.postLogoutRedirectUri = some uri ∧
          (params.clientId = some clientId ∨ ∃ sub sid, params.hint = .valid sub sid clientId) ∧
          directoryEntry clientId client ∈ t₀.log ∧
          (matchRedirectUri params.parse client.postLogoutRedirectUris uri).isSome = true := by
  intro t ht hout uri state hdone
  have hobeys := System.thread_obeys_to (deployment_leads sha256) .fresh steps t ht
  rw [hdone] at hobeys
  have hleads : Leads t.request t.log (.toPostLogout (some uri) state) := hobeys hout
  have hregistered : ∃ t₀ ∈ (runState sha256 steps).threads, Registered t₀.request t₀.log uri := by
    rcases hleads with hregistered | ⟨id, d, logout, hseen, hlogout, huri⟩
    · exact ⟨t, ht, hregistered⟩
    · obtain ⟨t₀, ht₀, -, hasks⟩ :=
        ((allAsked_run steps hfresh).read t ht id d hseen).asked logout hlogout
      exact ⟨t₀, ht₀, hasks.destination uri huri⟩
  obtain ⟨t₀, ht₀, params, cookie, clientId, client, hq, huri, hrecord, hnamed, hany⟩ := hregistered
  exact ⟨t₀, ht₀, params, cookie, clientId, client, hq, huri, hnamed, hrecord, hany⟩

theorem logout_leads_to_registered_sample :
    FreshIds (runEffects User.Sample.sha256 Sample.signedOut) ∧
      ∃ t ∈ (runState User.Sample.sha256 Sample.signedOut).threads,
        t.prog.result = some (.toPostLogout (some "https://app.test/out") none) ∧
        ∃ t₀ ∈ (runState User.Sample.sha256 Sample.signedOut).threads,
          ∃ params cookie clientId client, t₀.request = .logout (some params) cookie ∧
            params.postLogoutRedirectUri = some "https://app.test/out" ∧
            (params.clientId = some clientId ∨
              ∃ sub sid, params.hint = .valid sub sid clientId) ∧
            directoryEntry clientId client ∈ t₀.log ∧
            (Oidc.matchRedirectUri params.parse client.postLogoutRedirectUris
              "https://app.test/out").isSome = true := by
  obtain ⟨hfresh, -, t, ht, hout, hresult⟩ := Sample.signedOut_run
  exact ⟨hfresh, t, ht, hresult, logout_leads_to_registered User.Sample.sha256 Sample.signedOut
    hfresh t ht hout _ _ (Prog.result_eq_some.mp hresult)⟩

end TinyOidc.Interaction
