import TinyOidc.Interaction.AuthFlow
import TinyOidc.Lib.Freshness
import TinyOidc.Oidc.RegisteredCodes
import TinyOidc.Util.Base64Url

/-! What a code rests on. A request that asks for a new login, or whose session is too old for
it, gets its code after a login in its own interaction, no earlier than `/authorize` accepted it;
the secret the interaction is bound to, drawn at that moment, tells what came after. -/
namespace TinyOidc.Interaction
open TinyOidc.User TinyOidc.Util Threads

/-! ### Starts, secrets and the clock -/

/-- The time an entry starts the interaction at: a request to `/authorize` is accepted. -/
def startedAt (id : String) : Entry Op.Answer → Option ℤ
  | ⟨.interaction id' (.create input now _), .ok _⟩ =>
      if id' = id ∧ input.status ≠ .pushed then some now else none
  | ⟨.interaction id' (.claimPushed _ _ now _), .ok _⟩ => if id' = id then some now else none
  | _ => none

def starts (id : String) (effects : List RunEffect) : List ℤ :=
  effects.filterMap fun effect => startedAt id effect.entry

def clockReading : Entry Op.Answer → Option ℤ
  | ⟨.ask .now, now⟩ => some now
  | _ => none

def secretDrawn : Entry Op.Answer → Option Bytes
  | ⟨.ask .newSecret, secretHash⟩ => some secretHash
  | _ => none

def Request.presentedSecret (q : Request) : Option Bytes := q.presents.map (·.secretHash)

theorem starts_cons (id : String) (effect : RunEffect) (effects : List RunEffect) :
    starts id (effect :: effects) = (startedAt id effect.entry).toList ++ starts id effects := by
  cases h : startedAt id effect.entry <;> simp [starts, h]

theorem starts_cons_of_none {id : String} {effect : RunEffect} (effects : List RunEffect)
    (h : startedAt id effect.entry = none) : starts id (effect :: effects) = starts id effects := by
  rw [starts_cons, h]
  rfl

/-- Only what creates or takes the interaction starts it. -/
theorem startedAt_eq_none {id : String} {entry : Entry Op.Answer} (htakes : takes id entry = false)
    (hcreated : createdId entry ≠ some id) : startedAt id entry = none := by
  unfold startedAt
  split
  · next id' input now ttl d =>
    have hne : id' ≠ id := by simpa [createdId] using hcreated
    simp [hne]
  · next id' clientId bindingHash now ttl d =>
    have hne : id' ≠ id := by simpa [takes] using htakes
    simp [hne]
  · rfl

theorem Drew.drewAfter {log : Log} {secretHash : Bytes} {now : ℤ} (h : Drew log secretHash now) :
    DrewAfter clockReading secretDrawn log secretHash now := by
  obtain ⟨older, hsuffix, hclock⟩ := h
  exact ⟨_, older, hsuffix, rfl, _, hclock, rfl⟩

/-! ### What the run carries along -/

/-- The binding secret was drawn by some request, after every start of the interaction. -/
def BoundSince (c : RunConfig) (effects : List RunEffect) (id : String) (d : InteractionDocument) :
    Prop :=
  ∃ t ∈ c.threads, ∃ secretHash time, d.bindingHash = encodeBase64Url secretHash ∧
    Drew t.log secretHash time ∧ ∀ start ∈ starts id effects, start ≤ time

/-- Consent alone is asked on a session that was good enough when the interaction started. -/
def AskedSince (c : RunConfig) (effects : List RunEffect) (id : String) (d : InteractionDocument) :
    Prop :=
  ∃ request session, ∃ time ∈ starts id effects, d.request = some request ∧
    d.existingSession = some session ∧ ∃ t ∈ c.threads, AskedConsent t.log request session time

/-- What is known about a document: who may present its secret, who logged in, and whose session
goes without a login. -/
structure Vouched (c : RunConfig) (effects : List RunEffect) (id : String)
    (d : InteractionDocument) : Prop where
  bound : BoundSince c effects id d
  login : ∀ auth, d.auth = some auth → ∃ t ∈ c.threads, LoggedIn t.request t.log id auth
  asked : d.kind ≠ .logout → d.status = .consentRequired ∨ d.status = .ready → d.auth = none →
    AskedSince c effects id d

/-- The request was taken from the pushed interaction at one of its starts, and stays there. -/
structure TakenOver (c : RunConfig) (effects : List RunEffect) (id : String)
    (request : AuthorizeRequest) (time : ℤ) : Prop where
  created : id ∈ createdIds effects
  start : time ∈ starts id effects
  stored : ∀ d, c.shared.doc id = some d → d.request = some request

structure AllVouched (c : RunConfig) (effects : List RunEffect) : Prop where
  stored : ∀ id d, c.shared.doc id = some d → Vouched c effects id d
  unstarted : ∀ id d, c.shared.doc id = some d → d.status = .pushed → d.parConsumed = false →
    starts id effects = []
  known : ∀ id, starts id effects ≠ [] → id ∈ createdIds effects
  read : ∀ t ∈ c.threads, ∀ id d, Seen t.log id d → Vouched c effects id d
  redeemed : ∀ t ∈ c.threads, ∀ id request time, Redeemed t.log id request time →
    TakenOver c effects id request time

section Grow

variable {c c' : RunConfig} {effects effects' : List RunEffect} {id : String}
  {d : InteractionDocument}

theorem BoundSince.grow (h : BoundSince c effects id d) (hgrows : c.Grows c')
    (hstarts : starts id effects' = starts id effects) : BoundSince c' effects' id d := by
  obtain ⟨t, ht, secretHash, time, hbinding, hdrew, hlater⟩ := h
  obtain ⟨t', ht', -, hsuffix⟩ := hgrows t ht
  exact ⟨t', ht', secretHash, time, hbinding, hdrew.grow hsuffix, hstarts ▸ hlater⟩

theorem AskedSince.grow (h : AskedSince c effects id d) (hgrows : c.Grows c')
    (hstarts : starts id effects ⊆ starts id effects') : AskedSince c' effects' id d := by
  obtain ⟨request, session, time, htime, hrequest, hsession, t, ht, hasked⟩ := h
  obtain ⟨t', ht', -, hsuffix⟩ := hgrows t ht
  exact ⟨request, session, time, hstarts htime, hrequest, hsession, t', ht',
    hasked.mono hsuffix.subset⟩

theorem loggedIn_grow {auth : InteractionAuth}
    (h : ∃ t ∈ c.threads, LoggedIn t.request t.log id auth) (hgrows : c.Grows c') :
    ∃ t ∈ c'.threads, LoggedIn t.request t.log id auth := by
  obtain ⟨t, ht, hlogin⟩ := h
  obtain ⟨t', ht', hrequest, hsuffix⟩ := hgrows t ht
  exact ⟨t', ht', hrequest ▸ hlogin.mono hsuffix.subset⟩

theorem Vouched.grow (h : Vouched c effects id d) (hgrows : c.Grows c')
    (hstarts : starts id effects' = starts id effects) : Vouched c' effects' id d where
  bound := h.bound.grow hgrows hstarts
  login auth hauth := loggedIn_grow (h.login auth hauth) hgrows
  asked hkind hstatus hauth :=
    (h.asked hkind hstatus hauth).grow hgrows (by rw [hstarts]; exact List.Subset.refl _)

/-- A document at the same point of its course is vouched for alike. -/
theorem Vouched.of_same {d' : InteractionDocument} (h : Vouched c effects id d)
    (hbinding : d'.bindingHash = d.bindingHash) (hauth : d'.auth = d.auth)
    (hkind : d'.kind = d.kind)
    (hstatus : d'.status = d.status) (hrequest : d'.request = d.request)
    (hsession : d'.existingSession = d.existingSession) : Vouched c effects id d' where
  bound := by
    obtain ⟨t, ht, secretHash, time, hbound, hrest⟩ := h.bound
    exact ⟨t, ht, secretHash, time, hbinding.trans hbound, hrest⟩
  login auth hsome := h.login auth (hauth ▸ hsome)
  asked hlogout hwaits hnone := by
    obtain ⟨request, session, time, htime, hold, hfound, hasked⟩ :=
      h.asked (hkind ▸ hlogout) (hstatus ▸ hwaits) (hauth ▸ hnone)
    exact ⟨request, session, time, htime, hrequest.trans hold, hsession.trans hfound, hasked⟩

end Grow

/-- The binding of a document changes only when the pushed request is taken. -/
theorem bindingHash_of_performed {sha256 : String → Bytes} {w w' : World} {entry : Entry Op.Answer}
    (performed : Performed sha256 w w' entry) {id : String} {d d' : InteractionDocument}
    (hd : w.doc id = some d) (hd' : w'.doc id = some d') (htakes : takes id entry = false) :
    d'.bindingHash = d.bindingHash := by
  cases performed with
  | asked question oracle =>
    cases hd.symm.trans hd'
    rfl
  | onUser uid call =>
    cases hd.symm.trans hd'
    rfl
  | onInteraction id' call o answer answered =>
    by_cases hid : id' = id
    · subst hid
      have hafter : o.doc = some d' := by simpa [World.doc] using hd'
      have hbefore : (w.interactions id').doc = some d := hd
      cases answered with
      | refused _ e =>
        cases hbefore.symm.trans hafter
        rfl
      | created input now ttl alarmAt absent =>
        cases absent.symm.trans hbefore
      | read now d₁ stored =>
        cases hbefore.symm.trans hafter
        rfl
      | claimedPushed clientId bindingHash now ttl alarmAt d₁ stored pushed unclaimed client =>
        simp [takes] at htakes
      | applied operation target patch now alarmAt d₁ stored permitted =>
        cases stored.symm.trans hbefore
        cases hafter
        rfl
      | claimedCompletion now alarmAt d₁ stored status unclaimed => simp [takes] at htakes
      | consumedFederation stateHash now alarmAt d₁ leg stored status pending =>
        cases stored.symm.trans hbefore
        cases hafter
        rfl
      | patched fields now alarmAt d₁ stored live =>
        cases stored.symm.trans hbefore
        cases hafter
        rfl
      | attempted now limit alarmAt d₁ stored live =>
        cases stored.symm.trans hbefore
        cases hafter
        rfl
      | exhausted now limit alarmAt d₁ stored live =>
        cases stored.symm.trans hbefore
        cases hafter
        rfl
      | early now =>
        cases hbefore.symm.trans hafter
        rfl
      | expired now => cases hafter
    · have hsame : w.doc id = some d' := by
        simpa [World.doc, Function.update_of_ne (Ne.symm hid)] using hd'
      cases hd.symm.trans hsame
      rfl

/-! ### One call -/

section Move

variable {c : RunConfig} {effects : List RunEffect} {id : String} {d : InteractionDocument}
  {t : RunThread}

/-- A transition that leaves the authentication, and does not wait for consent or completion. -/
theorem Vouched.moved (h : Vouched c effects id d) {target : InteractionStatus}
    {patch : TransitionPatch} (now : ℤ) (hpatch : patch.auth = none)
    (hconsent : target ≠ .consentRequired) (hready : target ≠ .ready) :
    Vouched c effects id (d.transition target patch now) where
  bound := h.bound
  login auth hauth := h.login auth (by simpa [InteractionDocument.transition, hpatch] using hauth)
  asked _ hstatus := by
    rcases hstatus with hstatus | hstatus
    · exact absurd hstatus hconsent
    · exact absurd hstatus hready

/-- What a transition of a request keeps: it stores only a login of its own, and asks for consent
on the session it found. -/
theorem Vouched.transition (h : Vouched c effects id d) (ht : t ∈ c.threads)
    {operation : InteractionOperation} {target : InteractionStatus} {patch : TransitionPatch}
    {now : ℤ} (permitted : canTransition d.status operation target = true)
    (applies : Applies t.request t.log id operation target patch)
    (proves : Proves t.request t.log (.interaction id (.apply operation target patch now)))
    (hkind : ∀ d₀, Seen t.log id d₀ → d.kind = d₀.kind)
    (hredeemed : ∀ request time, Redeemed t.log id request time →
      time ∈ starts id effects ∧ d.request = some request) :
    Vouched c effects id (d.transition target patch now) := by
  obtain ⟨hlogin, htaken⟩ := proves
  cases applies with
  | failed operation error description d₀ seen => exact h.moved now rfl (by decide) (by decide)
  | linked link d₀ seen => exact h.moved now rfl (by decide) (by decide)
  | authenticated operation hop target auth d₀ seen clientId client hclient record htarget =>
    constructor
    · exact h.bound
    · intro stored hstored
      have hauth : auth = stored := by simpa [InteractionDocument.transition] using hstored
      subst hauth
      exact ⟨t, ht, hlogin auth rfl⟩
    · intro _ _ hnone
      simp [InteractionDocument.transition] at hnone
  | consented d₀ seen uid huid clientId client hclient record scopes now' granted hgrant =>
    have hstatus := consentRequired_of_canTransition permitted
    constructor
    · exact h.bound
    · exact h.login
    · intro hauthorize _ hnone
      exact h.asked hauthorize (.inl hstatus) hnone
  | decided logout d₀ seen hlogout =>
    constructor
    · exact h.bound
    · exact h.login
    · intro hauthorize
      exact absurd ((hkind d₀ seen).trans hlogout) hauthorize
  | parFailed error description hq holding => exact h.moved now rfl (by decide) (by decide)
  | parTaken target existing hq holding =>
    constructor
    · exact h.bound
    · exact h.login
    · intro _ hstatus _
      rcases hstatus with hstatus | hstatus
      · obtain ⟨request, hclaimed, hconsent⟩ := htaken rfl
        obtain ⟨session, hsession, hasked⟩ := hconsent hstatus
        obtain ⟨htime, hrequest⟩ := hredeemed request now hclaimed
        have hexisting : existing = some session := Option.some.inj hsession
        exact ⟨request, session, now, htime, hrequest, hexisting, t, ht, hasked⟩
      · exact absurd hstatus (ne_ready_of_consumePar permitted)
  | parCompleted => exact h.moved now rfl (by decide) (by decide)
  | restarted hq holding => exact h.moved now rfl (by decide) (by decide)
  | completed => exact h.moved now rfl (by decide) (by decide)

/-- An interaction that starts is bound to a secret drawn after the clock was read. -/
theorem boundSince_drawn {c' : RunConfig} (ht : t ∈ c.threads) (hgrows : c.Grows c') {now : ℤ}
    (hbound : BoundAfter t.log d.bindingHash now)
    (hstarts : ∀ start ∈ starts id effects, start = now) : BoundSince c' effects id d := by
  obtain ⟨secretHash, hbinding, hdrew⟩ := hbound
  obtain ⟨t', ht', -, hsuffix⟩ := hgrows t ht
  exact ⟨t', ht', secretHash, now, hbinding, hdrew.grow hsuffix,
    fun start hstart => (hstarts start hstart).le⟩

end Move

section Steps

variable {sha256 : String → Bytes} {steps : List Step}

/-- What a request has read does not start again. -/
theorem startedAt_of_tracks (hfresh : FreshIds (runEffects sha256 steps)) {id : String}
    {d₀ : InteractionDocument}
    (htracks : Tracks (runState sha256 steps) (runEffects sha256 steps) id d₀) {i : ℕ}
    {t : RunThread} (hi : (runState sha256 steps).threads[i]? = some t) {entry : Entry Op.Answer}
    {w : World} (permitted : Permits t.request t.log entry.1)
    (performed : Performed sha256 (runState sha256 steps).shared w entry) :
    startedAt id entry = none := by
  have hmove := docMove_of_performed permitted performed id
  generalize hx : (runState sha256 steps).shared.doc id = x at hmove
  generalize w.doc id = y at hmove
  cases hmove with
  | kept entry x htakes hcreated => exact startedAt_eq_none htakes hcreated
  | created input now ttl pending =>
    exact absurd htracks.created (notMem_createdIds_of_pending hfresh hi pending)
  | claimedPushed clientId bindingHash now ttl d claimed pushed unclaimed hq hlog hclaimed =>
    exact absurd pushed (htracks.later d hx).opened
  | applied operation target patch now d allowed applies => rfl
  | claimedCompletion now d status unclaimed hq hlog => rfl
  | touched entry d d' same htakes hcreated => exact startedAt_eq_none htakes hcreated
  | exhausted now limit d d₁ seen live => rfl

/-- What a call makes of a stored document is vouched for by what the caller has shown. -/
theorem AllVouched.stored_move (hfresh : FreshIds (runEffects sha256 steps))
    (h : AllVouched (runState sha256 steps) (runEffects sha256 steps)) {i : ℕ} {t : RunThread}
    {entry : Entry Op.Answer} {w : World} (prog : Handler Response)
    (hi : (runState sha256 steps).threads[i]? = some t)
    (permitted : Permits t.request t.log entry.1)
    (writes : Writes t.request t.log entry.1) (proves : Proves t.request t.log entry.1)
    (performed : Performed sha256 (runState sha256 steps).shared w entry) {id : String}
    {d' : InteractionDocument} (hd' : w.doc id = some d') :
    Vouched ⟨w, (runState sha256 steps).threads.set i ⟨t.request, entry :: t.log, prog⟩⟩
      (.thread i t entry :: runEffects sha256 steps) id d' := by
  have ht := List.mem_of_getElem? hi
  have hgrows := Config.grows_called hi w entry prog
  have hbinding := fun {d : InteractionDocument}
      (hd : (runState sha256 steps).shared.doc id = some d) =>
    bindingHash_of_performed performed hd hd'
  have hkept : ∀ {d : InteractionDocument}, startedAt id entry = none →
      Vouched (runState sha256 steps) (runEffects sha256 steps) id d →
      Vouched ⟨w, (runState sha256 steps).threads.set i ⟨t.request, entry :: t.log, prog⟩⟩
        (.thread i t entry :: runEffects sha256 steps) id d :=
    fun hnone hvouched => hvouched.grow hgrows (starts_cons_of_none _ hnone)
  have hmove := docMove_of_performed permitted performed id
  rw [hd'] at hmove
  generalize hx : (runState sha256 steps).shared.doc id = x at hmove
  generalize hy : some d' = y at hmove
  cases hmove with
  | kept entry x htakes hcreated =>
    subst hy
    exact hkept (startedAt_eq_none htakes hcreated) (h.stored id d' hx)
  | created input now ttl pending =>
    cases hy
    have hnever : id ∉ createdIds (runEffects sha256 steps) :=
      notMem_createdIds_of_pending hfresh hi pending
    have hnone : starts id (runEffects sha256 steps) = [] := by
      by_contra hstarts
      exact hnever (h.known id hstarts)
    obtain ⟨hbound, hconsent⟩ := proves
    constructor
    · refine boundSince_drawn ht hgrows hbound fun start hstart => ?_
      by_cases hpushed : input.status = .pushed
      · simp [starts_cons, hnone, startedAt, hpushed] at hstart
      · simpa [starts_cons, hnone, startedAt, hpushed] using hstart
    · intro auth hauth
      cases hauth
    · intro _ hstatus _
      have hwaits : input.status = .consentRequired := by
        rcases hstatus with hstatus | hready
        · exact hstatus
        · have hready : input.status = .ready := hready
          rcases writes with hstart | hstart | ⟨hstart, -⟩ <;> rw [hready] at hstart <;>
            cases hstart
      obtain ⟨request, session, hrequest, hsession, hasked⟩ := hconsent hwaits
      obtain ⟨t', ht', -, hsuffix⟩ := hgrows t ht
      refine ⟨request, session, now, ?_, hrequest, hsession, t', ht', hasked.mono hsuffix.subset⟩
      simp [starts_cons, startedAt, hwaits]
  | claimedPushed clientId bindingHash now ttl d claimed pushed unclaimed hq hlog hclaimed =>
    cases hy
    have hnone := h.unstarted id d hx pushed unclaimed
    subst hclaimed
    constructor
    · refine boundSince_drawn ht hgrows proves fun start hstart => ?_
      simpa [starts_cons, hnone, startedAt] using hstart
    · intro auth hauth
      exact loggedIn_grow ((h.stored id d hx).login auth hauth) hgrows
    · intro _ hstatus _
      rcases hstatus with hstatus | hstatus <;> rw [pushed] at hstatus <;> cases hstatus
  | applied operation target patch now d allowed applies =>
    cases hy
    refine hkept rfl ((h.stored id d hx).transition ht allowed applies proves ?_ ?_)
    · exact fun d₀ hseen => ((tracks_of_seen hfresh ht hseen).later d hx).kind
    · intro request time hredeemed
      have htaken := h.redeemed t ht id request time hredeemed
      exact ⟨htaken.start, htaken.stored d hx⟩
  | claimedCompletion now d status unclaimed hq hlog =>
    cases hy
    exact hkept rfl ((h.stored id d hx).of_same rfl rfl rfl rfl rfl rfl)
  | touched entry d d₁ same htakes hcreated =>
    cases hy
    exact hkept (startedAt_eq_none htakes hcreated) ((h.stored id d hx).of_same (hbinding hx htakes)
      same.auth same.kind same.status same.request same.existingSession)
  | exhausted now limit d d₀ seen live =>
    cases hy
    exact hkept rfl ((h.stored id d hx).moved now rfl (by decide) (by decide))

/-- No call replaces the request of an interaction. -/
theorem DocMove.request {q : Request} {log : Log} {id : String} {entry : Entry Op.Answer}
    {d d' : InteractionDocument} (hmove : DocMove q log id entry (some d) (some d')) :
    d'.request = d.request := by
  generalize hx : some d = x at hmove
  generalize hy : some d' = y at hmove
  cases hmove with
  | kept entry x htakes hcreated =>
    cases hx.trans hy.symm
    rfl
  | created input now ttl pending => cases hx
  | claimedPushed clientId bindingHash now ttl d₁ claimed pushed unclaimed hq hlog hclaimed =>
    cases hx
    cases hy
    rw [hclaimed]
  | applied operation target patch now d₁ permitted applies =>
    cases hx
    cases hy
    simp [InteractionDocument.transition, applies.keeps_request.1]
  | claimedCompletion now d₁ status unclaimed hq hlog =>
    cases hx
    cases hy
    rfl
  | touched entry d₁ d₂ same htakes hcreated =>
    cases hx
    cases hy
    exact same.request
  | exhausted now limit d₁ d₂ seen live =>
    cases hx
    cases hy
    rfl

/-- A pushed request that nobody has taken has not started. -/
theorem AllVouched.unstarted_move (hfresh : FreshIds (runEffects sha256 steps))
    (h : AllVouched (runState sha256 steps) (runEffects sha256 steps)) {i : ℕ} {t : RunThread}
    {entry : Entry Op.Answer} {w : World}
    (hi : (runState sha256 steps).threads[i]? = some t)
    (permitted : Permits t.request t.log entry.1)
    (performed : Performed sha256 (runState sha256 steps).shared w entry) {id : String}
    {d' : InteractionDocument} (hd' : w.doc id = some d') (hpushed : d'.status = .pushed)
    (hunclaimed : d'.parConsumed = false) :
    starts id (.thread i t entry :: runEffects sha256 steps) = [] := by
  have hmove := docMove_of_performed permitted performed id
  rw [hd'] at hmove
  generalize hx : (runState sha256 steps).shared.doc id = x at hmove
  generalize hy : some d' = y at hmove
  cases hmove with
  | kept entry x htakes hcreated =>
    subst hy
    have hnone := startedAt_eq_none htakes hcreated
    exact (starts_cons_of_none _ hnone).trans (h.unstarted id d' hx hpushed hunclaimed)
  | created input now ttl pending =>
    cases hy
    have hnever := notMem_createdIds_of_pending hfresh hi pending
    have hinput : input.status = .pushed := hpushed
    rw [starts_cons_of_none _ (by simp [startedAt, hinput])]
    by_contra hstarts
    exact hnever (h.known id hstarts)
  | claimedPushed clientId bindingHash now ttl d claimed pushed unclaimed hq hlog hclaimed =>
    cases hy
    rw [hclaimed] at hunclaimed
    cases hunclaimed
  | applied operation target patch now d allowed applies =>
    cases hy
    exact absurd hpushed (ne_pushed_of_canTransition allowed)
  | claimedCompletion now d status unclaimed hq hlog =>
    cases hy
    have hstatus : d.status = .pushed := hpushed
    rcases status with status | status <;> rw [hstatus] at status <;> cases status
  | touched entry d d₁ same htakes hcreated =>
    cases hy
    have hnone := startedAt_eq_none htakes hcreated
    exact (starts_cons_of_none _ hnone).trans
      (h.unstarted id d hx (same.status ▸ hpushed) (same.parConsumed ▸ hunclaimed))
  | exhausted now limit d d₀ seen live =>
    cases hy
    cases hpushed

/-- A pushed request that is taken was created. -/
theorem mem_createdIds_of_redeemed (steps : List Step) {q : Request} {log : Log} {id : String}
    {clientId bindingHash : String} {now ttl : ℤ} {d : InteractionDocument} {w : World}
    (permitted : Permits q log (.interaction id (.claimPushed clientId bindingHash now ttl)))
    (performed : Performed sha256 (runState sha256 steps).shared w
      ⟨.interaction id (.claimPushed clientId bindingHash now ttl), .ok d⟩) :
    id ∈ createdIds (runEffects sha256 steps) := by
  have hmove := docMove_of_performed permitted performed id
  generalize hx : (runState sha256 steps).shared.doc id = x at hmove
  generalize w.doc id = y at hmove
  generalize hentry : (⟨.interaction id (.claimPushed clientId bindingHash now ttl), .ok d⟩ :
    Entry Op.Answer) = entry at hmove
  cases hmove with
  | kept entry x htakes hcreated =>
    subst hentry
    simp [takes] at htakes
  | touched entry d₁ d₂ same htakes hcreated =>
    subst hentry
    simp [takes] at htakes
  | claimedPushed => exact mem_createdIds_of_doc sha256 steps hx
  | _ => cases hentry

/-- What starts was created. -/
theorem AllVouched.known_move (h : AllVouched (runState sha256 steps) (runEffects sha256 steps))
    (i : ℕ) {t : RunThread} {entry : Entry Op.Answer} {w : World}
    (permitted : Permits t.request t.log entry.1)
    (performed : Performed sha256 (runState sha256 steps).shared w entry) {id : String}
    (hstarts : starts id (.thread i t entry :: runEffects sha256 steps) ≠ []) :
    id ∈ createdIds (.thread i t entry :: runEffects sha256 steps) := by
  rw [mem_createdIds_cons]
  have hkept : startedAt id entry = none → id ∈ createdIds (runEffects sha256 steps) := by
    intro hnone
    rw [starts_cons_of_none _ hnone] at hstarts
    exact h.known id hstarts
  have hmove := docMove_of_performed permitted performed id
  generalize hx : (runState sha256 steps).shared.doc id = x at hmove
  generalize w.doc id = y at hmove
  cases hmove with
  | kept entry x htakes hcreated => exact .inr (hkept (startedAt_eq_none htakes hcreated))
  | created input now ttl pending => exact .inl rfl
  | claimedPushed clientId bindingHash now ttl d claimed pushed unclaimed hq hlog hclaimed =>
    exact .inr (mem_createdIds_of_doc sha256 steps hx)
  | applied operation target patch now d allowed applies => exact .inr (hkept rfl)
  | claimedCompletion now d status unclaimed hq hlog => exact .inr (hkept rfl)
  | touched entry d d₁ same htakes hcreated =>
    exact .inr (hkept (startedAt_eq_none htakes hcreated))
  | exhausted now limit d d₀ seen live => exact .inr (hkept rfl)

theorem TakenOver.move (hfresh : FreshIds (runEffects sha256 steps)) {id : String}
    {request : AuthorizeRequest} {time : ℤ}
    (h : TakenOver (runState sha256 steps) (runEffects sha256 steps) id request time) {i : ℕ}
    {t : RunThread} {entry : Entry Op.Answer} {w : World} (threads : List RunThread)
    (hi : (runState sha256 steps).threads[i]? = some t)
    (permitted : Permits t.request t.log entry.1)
    (performed : Performed sha256 (runState sha256 steps).shared w entry) :
    TakenOver ⟨w, threads⟩ (.thread i t entry :: runEffects sha256 steps) id request time where
  created := mem_createdIds_cons.mpr (.inr h.created)
  start := by
    rw [starts_cons]
    exact List.mem_append_right _ h.start
  stored := by
    intro d' hd'
    have hmove := docMove_of_performed permitted performed id
    rw [show w.doc id = some d' from hd'] at hmove
    cases hx : (runState sha256 steps).shared.doc id with
    | some d =>
      rw [hx] at hmove
      exact hmove.request.trans (h.stored d hx)
    | none =>
      rw [hx] at hmove
      cases hmove with
      | created input now ttl pending =>
        exact absurd h.created (notMem_createdIds_of_pending hfresh hi pending)

theorem AllVouched.thread (hfresh : FreshIds (runEffects sha256 steps))
    (h : AllVouched (runState sha256 steps) (runEffects sha256 steps)) {i : ℕ} {t : RunThread}
    {entry : Entry Op.Answer} {w : World} (prog : Handler Response)
    (hi : (runState sha256 steps).threads[i]? = some t)
    (permitted : Permits t.request t.log entry.1)
    (writes : Writes t.request t.log entry.1) (proves : Proves t.request t.log entry.1)
    (performed : Performed sha256 (runState sha256 steps).shared w entry) :
    AllVouched ⟨w, (runState sha256 steps).threads.set i ⟨t.request, entry :: t.log, prog⟩⟩
      (.thread i t entry :: runEffects sha256 steps) := by
  have ht := List.mem_of_getElem? hi
  have hgrows := Config.grows_called hi w entry prog
  have hstored := fun {id : String} {d' : InteractionDocument} (hd' : w.doc id = some d') =>
    h.stored_move hfresh prog hi permitted writes proves performed hd'
  have hread : ∀ {t₀ : RunThread}, t₀ ∈ (runState sha256 steps).threads → ∀ {id d},
      Seen t₀.log id d → Vouched
        ⟨w, (runState sha256 steps).threads.set i ⟨t.request, entry :: t.log, prog⟩⟩
        (.thread i t entry :: runEffects sha256 steps) id d := by
    intro t₀ ht₀ id d hseen
    have hnone :=
      startedAt_of_tracks hfresh (tracks_of_seen hfresh ht₀ hseen) hi permitted performed
    exact (h.read t₀ ht₀ id d hseen).grow hgrows (starts_cons_of_none _ hnone)
  constructor
  · exact fun id d hd => hstored hd
  · exact fun id d hd => h.unstarted_move hfresh hi permitted performed hd
  · exact fun id => h.known_move i permitted performed
  · intro t' ht' id d hseen
    rcases List.mem_or_eq_of_mem_set ht' with ht' | rfl
    · exact hread ht' hseen
    · obtain ⟨e, he, hopen⟩ := hseen
      rcases List.mem_cons.mp he with rfl | he
      · exact hstored (openDocument_performed performed hopen).1
      · exact hread ht ⟨e, he, hopen⟩
  · intro t' ht' id request time hredeemed
    rcases List.mem_or_eq_of_mem_set ht' with ht' | rfl
    · exact (h.redeemed t' ht' id request time hredeemed).move hfresh _ hi permitted performed
    · obtain ⟨clientId, bindingHash, ttl, d, hentry, hrequest⟩ := hredeemed
      rcases List.mem_cons.mp hentry with rfl | hentry
      · have hmove := docMove_of_performed permitted performed id
        refine ⟨mem_createdIds_cons.mpr (.inr ?_), ?_, ?_⟩
        · exact mem_createdIds_of_redeemed steps permitted performed
        · simp [starts_cons, startedAt]
        · intro d' hd'
          cases (doc_of_redeemed hmove).symm.trans hd'
          exact hrequest
      · exact (h.redeemed t ht id request time ⟨clientId, bindingHash, ttl, d, hentry,
          hrequest⟩).move hfresh _ hi permitted performed

/-- Beside the requests nothing starts, and documents only disappear. -/
theorem AllVouched.outside (h : AllVouched (runState sha256 steps) (runEffects sha256 steps))
    {entry : Entry Op.Answer} {w : World} (hop : outsideOp entry.1 = true)
    (performed : Performed sha256 (runState sha256 steps).shared w entry) :
    AllVouched ⟨w, (runState sha256 steps).threads⟩
      (.outside entry :: runEffects sha256 steps) := by
  have hnone : ∀ id, startedAt id entry = none := by
    intro id
    obtain ⟨op, answer⟩ := entry
    cases op with
    | ask question => cases hop
    | user uid call => rfl
    | interaction id' call =>
      cases call with
      | alarm now => rfl
      | _ => cases hop
  have hstarts : ∀ id, starts id (.outside entry :: runEffects sha256 steps) =
      starts id (runEffects sha256 steps) := fun id => starts_cons_of_none _ (hnone id)
  have hgrows := Config.grows_shared (runState sha256 steps) w
  have hdoc : ∀ {id d}, w.doc id = some d → (runState sha256 steps).shared.doc id = some d := by
    intro id d hd
    rcases doc_of_outside hop performed id with hsame | hgone
    · exact hsame ▸ hd
    · rw [hd] at hgone
      cases hgone
  constructor
  · exact fun id d hd => (h.stored id d (hdoc hd)).grow hgrows (hstarts id)
  · exact fun id d hd hpushed hunclaimed =>
      (hstarts id).trans (h.unstarted id d (hdoc hd) hpushed hunclaimed)
  · intro id hne
    rw [hstarts] at hne
    exact mem_createdIds_cons.mpr (.inr (h.known id hne))
  · exact fun t ht id d hseen => (h.read t ht id d hseen).grow hgrows (hstarts id)
  · intro t ht id request time hredeemed
    have htaken := h.redeemed t ht id request time hredeemed
    refine ⟨mem_createdIds_cons.mpr (.inr htaken.created), ?_, ?_⟩
    · rw [hstarts]
      exact htaken.start
    · exact fun d hd => htaken.stored d (hdoc hd)

end Steps

theorem allVouched_run {sha256 : String → Bytes} (steps : List Step)
    (hfresh : FreshIds (runEffects sha256 steps)) :
    AllVouched (runState sha256 steps) (runEffects sha256 steps) := by
  refine System.run_invariant
    (((deployment_follows sha256).and (deployment_writes sha256)).and (deployment_proves sha256))
    (C := fun steps => FreshIds (runEffects sha256 steps)) (J := AllVouched)
    (fun _ _ => FreshIds.earlier) ?_ ?_ ?_ ?_ steps hfresh
  · constructor
    · intro id d hd
      cases hd
    · intro id d hd
      cases hd
    · intro id hne
      exact absurd rfl hne
    · intro t ht
      cases ht
    · intro t ht
      cases ht
  · intro steps q h
    have hgrows := Config.grows_append (runState sha256 steps) (runState sha256 steps).shared
      [⟨q, [], (deployment sha256).start q⟩]
    constructor
    · exact fun id d hd => (h.stored id d hd).grow hgrows rfl
    · exact h.unstarted
    · exact h.known
    · intro t ht id d hseen
      rcases List.mem_append.mp ht with ht | ht
      · exact (h.read t ht id d hseen).grow hgrows rfl
      · rw [List.mem_singleton.mp ht] at hseen
        obtain ⟨e, he, -⟩ := hseen
        cases he
    · intro t ht id request time hredeemed
      rcases List.mem_append.mp ht with ht | ht
      · have htaken := h.redeemed t ht id request time hredeemed
        exact ⟨htaken.created, htaken.start, htaken.stored⟩
      · rw [List.mem_singleton.mp ht] at hredeemed
        obtain ⟨clientId, bindingHash, ttl, d, hentry, -⟩ := hredeemed
        cases hentry
  · intro steps i t op answer prog hfresh _ h hi _ hop
    obtain ⟨⟨permitted, writes⟩, proves⟩ := hop
    exact h.thread hfresh.earlier prog hi permitted writes proves
      (exec_performed sha256 _ answer op)
  · intro steps op answer h hop
    have hperformed := exec_performed sha256 (runState sha256 steps).shared answer op
    have houtside : outsideOp op = true := hop
    exact h.outside houtside hperformed

/-! ### What the objects answered -/

section Answers

variable {sha256 : String → Bytes} {steps : List Step} {t : RunThread}

/-- An answer in a log is one that the user's object gave. -/
theorem reply_of_mem_log (ht : t ∈ (runState sha256 steps).threads) {uid : String} {call : Call}
    {reply : Reply} (hentry : (⟨.user uid call, reply⟩ : Entry Op.Answer) ∈ t.log) :
    ∃ o : UserObject, (o.call sha256 call).2 = reply := by
  obtain ⟨e, he, i, t₀, hreply, -⟩ :=
    (deployment sha256).exists_event_of_mem_log .fresh steps t ht _ hentry
  obtain ⟨op, answer, hop⟩ := (deployment sha256).entry_of_mem_history he hreply
  cases hop
  exact ⟨e.pre.shared.users uid, rfl⟩

/-- An accepted assertion has a valid signature over the challenge. -/
theorem CheckedAssertion.signed (ht : t ∈ (runState sha256 steps).threads)
    {uid credentialId challenge : String} {profile : UserProfile} {passkey : PasskeyRow}
    (h : CheckedAssertion t.log uid credentialId challenge profile passkey) :
    ∃ counter, (⟨.ask (.verifySignature credentialId challenge), some counter⟩ :
      Entry Op.Answer) ∈ t.log := by
  obtain ⟨call, hentry, hcall⟩ := h
  obtain ⟨o, hreply⟩ := reply_of_mem_log ht hentry
  obtain ⟨suspended, counter, rfl⟩ := resumed_of_accepted hreply
  rcases hcall with ⟨now, hcall⟩ | ⟨suspended', verified, hcall, hverified⟩
  · cases hcall
  · cases hcall
    exact ⟨counter, hverified⟩

/-- Unless it asks for a login, `/authorize` found the session good enough for the request. -/
theorem suffices_of_evaluated (ht : t ∈ (runState sha256 steps).threads) {ref : SessionRef}
    {client : ClientRef} {request : AuthorizeRequest} {settings : Settings} {now : ℤ}
    {secretHash : Bytes} {a : Authorized} (hentry : (⟨.user ref.uid (.authorizeWithSession
      (evaluationInput ref client request settings now secretHash)), .authorize (.ok a)⟩ :
        Entry Op.Answer) ∈ t.log) (hout : a.outcome ≠ .loginRequired) :
    Suffices (request.prompt.contains .login) request.maxAge a.session.authTime now := by
  obtain ⟨o, hreply⟩ := reply_of_mem_log ht hentry
  have hok : (o.authorizeWithSession
      (evaluationInput ref client request settings now secretHash)).2 = .ok a := by
    injection hreply
  exact (authorizeWithSession_found hok).2 hout

end Answers

/-! ### What a code rests on -/

/-- A request of the run authenticated the user in the interaction, on a document it was shown
for the secret it presents, and no earlier than the interaction started. -/
structure AuthenticatedSince (c : RunConfig) (effects : List RunEffect) (id : String)
    (auth : InteractionAuth) : Prop where
  proved : ∃ t ∈ c.threads, ∃ d profile method, ShownAt t.request t.log id d auth.authTime ∧
    Proved t.log id d auth.authTime profile method ∧
    auth = interactionAuth d profile method auth.authTime ∧
    ∀ uid credentialId challenge profile passkey,
      CheckedAssertion t.log uid credentialId challenge profile passkey →
        ∃ counter, (⟨.ask (.verifySignature credentialId challenge), some counter⟩ :
          Entry Op.Answer) ∈ t.log
  after : ∀ start ∈ starts id effects, start ≤ auth.authTime

/-- What the code of an entry rests on: a login in its interaction; a session that is good enough
for the request the thread works with; or, where only consent was missing, the session of the
document the thread has read, which was good enough for the request of the document when
`/authorize` asked for the consent, at a start of the interaction. -/
inductive RestsOn (c : RunConfig) (effects : List RunEffect) (t : RunThread) :
    Entry Op.Answer → String → CodeInput → Prop where
  | login (id : String) (auth : InteractionAuth) (input : FinalizeLoginInput) (f : Finalized)
      (code : CodeInput) (hcode : input.code = some code) (behalf : t.request.behalf = some id)
      (time : f.session.authTime = auth.authTime) (since : AuthenticatedSince c effects id auth) :
      RestsOn c effects t ⟨.user auth.uid (.finalizeLogin input), .login (.ok f)⟩ auth.uid code
  | session (ref : SessionRef) (client : ClientRef) (request : AuthorizeRequest)
      (requested : Requested t.request t.log (some client.clientId) request request.scope)
      (settings : Settings) (now : ℤ) (secretHash : Bytes) (a : Authorized)
      (good : Suffices (request.prompt.contains .login) request.maxAge a.session.authTime now) :
      RestsOn c effects t ⟨.user ref.uid (.authorizeWithSession
        (evaluationInput ref client request settings now secretHash)), .authorize (.ok a)⟩ ref.uid
        (requestCode request client.clientId request.scope secretHash)
  | consent (id : String) (behalf : t.request.behalf = some id) (d : InteractionDocument)
      (seen : Seen t.log id d) (unauthenticated : d.auth = none) (request : AuthorizeRequest)
      (hrequest : d.request = some request) (session : ExistingSession)
      (hsession : d.existingSession = some session) (start : ℤ) (hstart : start ∈ starts id effects)
      (asked : ∃ t₀ ∈ c.threads, AskedConsent t₀.log request session start)
      (good : Suffices (request.prompt.contains .login) request.maxAge session.authTime start)
      (input : AuthorizeWithSessionInput) (a : Authorized) (answered : a.session.sid = session.sid)
      (clientId : String) (scope : List String) (secretHash : Bytes) :
      RestsOn c effects t ⟨.user session.uid (.authorizeWithSession input), .authorize (.ok a)⟩
        session.uid (requestCode request clientId scope secretHash)

section Codes

variable {sha256 : String → Bytes} {steps : List Step}

/-- A login came after every start: its request presents the secret drawn there, and can have
arrived, and read the clock, only later. -/
theorem authenticatedSince_of_loggedIn (hfresh : FreshIds (runEffects sha256 steps))
    (hclock : (readingsOf clockReading (runEffects sha256 steps)).Pairwise (· ≥ ·))
    (hsecret : (deployment sha256).Unforeseen secretDrawn Request.presentedSecret
      (runEvents sha256 steps)) {t : RunThread} (ht : t ∈ (runState sha256 steps).threads)
    {id : String} {auth : InteractionAuth} (h : LoggedIn t.request t.log id auth) :
    AuthenticatedSince (runState sha256 steps) (runEffects sha256 steps) id auth := by
  obtain ⟨d, now, profile, method, hshown, hproved, rfl⟩ := h
  constructor
  · refine ⟨t, ht, d, profile, method, hshown, hproved, rfl, ?_⟩
    intro uid credentialId challenge profile' passkey hchecked
    exact hchecked.signed ht
  · obtain ⟨t', ht', secretHash, time, hdrawn, hdrew, hstarts⟩ :=
      ((allVouched_run steps hfresh).read t ht id d hshown.seen).bound
    obtain ⟨binding, hpresents, hbinding⟩ := hshown.bound
    have hsame : secretHash = binding.secretHash :=
      encodeBase64Url_injective (hdrawn.symm.trans hbinding)
    have hpresented : t.request.presentedSecret = some secretHash := by
      simp [Request.presentedSecret, hpresents, hsame]
    have hle : time ≤ now :=
      System.le_of_presented World.fresh steps hclock hsecret ht ht' hpresented
      hdrew.drewAfter hshown.clock rfl
    exact fun start hstart => (hstarts start hstart).trans hle

/-- The session that only consent was missing for was good enough at the start. -/
theorem suffices_of_askedSince {id : String} {d : InteractionDocument}
    (h : AskedSince (runState sha256 steps) (runEffects sha256 steps) id d)
    {request : AuthorizeRequest} (hrequest : d.request = some request)
    {session : ExistingSession} (hsession : d.existingSession = some session) :
    ∃ start ∈ starts id (runEffects sha256 steps),
      (∃ t ∈ (runState sha256 steps).threads, AskedConsent t.log request session start) ∧
      Suffices (request.prompt.contains .login) request.maxAge session.authTime start := by
  obtain ⟨request', session', time, htime, hrequest', hsession', t, ht, hasked⟩ := h
  cases hrequest.symm.trans hrequest'
  cases hsession.symm.trans hsession'
  refine ⟨time, htime, ⟨t, ht, hasked⟩, ?_⟩
  obtain ⟨ref, client, settings, secretHash, a, hentry, hout, rfl⟩ := hasked
  have hwaits : a.outcome ≠ .loginRequired := by
    rw [hout]
    decide
  exact suffices_of_evaluated ht hentry hwaits

theorem restsOn_of_authorized (hfresh : FreshIds (runEffects sha256 steps)) {t : RunThread}
    (ht : t ∈ (runState sha256 steps).threads) {uid : String} {input : AuthorizeWithSessionInput}
    {a : Authorized} (hentry : (⟨.user uid (.authorizeWithSession input), .authorize (.ok a)⟩ :
      Entry Op.Answer) ∈ t.log) (hout : a.outcome = .authorized) {older : Log}
    (hsub : older ⊆ t.log) (proves : IssuesFor t.request older uid (.authorizeWithSession input))
    {code : CodeInput} (hcode : input.code = some code) :
    RestsOn (runState sha256 steps) (runEffects sha256 steps) t
      ⟨.user uid (.authorizeWithSession input), .authorize (.ok a)⟩ uid code := by
  rcases proves with ⟨ref, client, request, settings, now, secretHash, rfl, -, hrequested, rfl⟩ |
    ⟨id, d, request, session, hsession⟩
  · have hwaits : a.outcome ≠ .loginRequired := by
      rw [hout]
      decide
    cases hcode
    exact .session ref client request (hrequested.mono hsub) settings now secretHash a
      (suffices_of_evaluated ht hentry hwaits)
  · obtain ⟨clientId, scope, secretHash, hrequested⟩ := hsession.code
    have hvouched := (allVouched_run steps hfresh).read t ht id d (hsession.seen.mono hsub)
    obtain ⟨start, hstart, hasked, hgood⟩ := suffices_of_askedSince
      (hvouched.asked hsession.authorize (.inr hsession.ready) hsession.auth) hsession.requested
      hsession.existing
    obtain ⟨o, hreply⟩ := reply_of_mem_log ht hentry
    have hok : (o.authorizeWithSession input).2 = .ok a := by
      injection hreply
    have hanswered := (authorizeWithSession_found hok).1.trans hsession.sid
    have huid := hsession.uid
    subst huid
    cases hcode.symm.trans hrequested
    exact .consent id hsession.behalf d (hsession.seen.mono hsub) hsession.auth request
      hsession.requested session hsession.existing start hstart hasked hgood input a hanswered
      clientId scope secretHash

theorem restsOn_of_login (hfresh : FreshIds (runEffects sha256 steps))
    (hclock : (readingsOf clockReading (runEffects sha256 steps)).Pairwise (· ≥ ·))
    (hsecret : (deployment sha256).Unforeseen secretDrawn Request.presentedSecret
      (runEvents sha256 steps)) {t : RunThread} (ht : t ∈ (runState sha256 steps).threads)
    {uid : String} {input : FinalizeLoginInput} {f : Finalized}
    (hentry : (⟨.user uid (.finalizeLogin input), .login (.ok f)⟩ : Entry Op.Answer) ∈ t.log)
    {older : Log} (hsub : older ⊆ t.log)
    (proves : IssuesFor t.request older uid (.finalizeLogin input)) {code : CodeInput}
    (hcode : input.code = some code) :
    RestsOn (runState sha256 steps) (runEffects sha256 steps) t
      ⟨.user uid (.finalizeLogin input), .login (.ok f)⟩ uid code := by
  obtain ⟨id, d, auth, hbehalf, hseen, hauth, rfl, hcontext⟩ := proves
  obtain ⟨t', ht', hlogin⟩ :=
    ((allVouched_run steps hfresh).read t ht id d (hseen.mono hsub)).login auth hauth
  obtain ⟨o, hreply⟩ := reply_of_mem_log ht hentry
  have hok : (o.finalizeLogin input).2 = .ok f := by
    injection hreply
  have htime : f.session.authTime = auth.authTime := by
    rw [finalizeLogin_authTime hok, hcontext]
    rfl
  exact .login id auth input f code hcode hbehalf htime
    (authenticatedSince_of_loggedIn hfresh hclock hsecret ht' hlogin)

end Codes

/-- A call that issues a code: a login, or the session-hit path. -/
theorem issuedCode_cases {entry : Entry Op.Answer} {uid : String} {code : CodeInput}
    (h : issuedCode entry = some (uid, code)) :
    (∃ input f, entry = ⟨.user uid (.finalizeLogin input), .login (.ok f)⟩ ∧
      input.code = some code) ∨
    ∃ input a, entry = ⟨.user uid (.authorizeWithSession input), .authorize (.ok a)⟩ ∧
      a.outcome = .authorized ∧ input.code = some code := by
  unfold issuedCode at h
  split at h
  · next uid' input f =>
    obtain ⟨code', hcode, hsame⟩ := Option.map_eq_some_iff.mp h
    cases hsame
    exact .inl ⟨input, f, rfl, hcode⟩
  · next uid' input a =>
    split at h
    · next hout =>
      obtain ⟨code', hcode, hsame⟩ := Option.map_eq_some_iff.mp h
      cases hsame
      exact .inr ⟨input, a, rfl, hout, hcode⟩
    · cases h
  · cases h

/-- In every run, a code for a request that asks for a new login, or whose session was too old
when `/authorize` accepted it, is issued on a session whose user authenticated in the interaction
of the request, with its own secret and no earlier than that; every other code rests on a session
that was recent enough for its request, and only on such a one. -/
theorem codes_follow_login (sha256 : String → Bytes) (steps : List Step)
    (hfresh : FreshIds (runEffects sha256 steps))
    (hclock : (readingsOf clockReading (runEffects sha256 steps)).Pairwise (· ≥ ·))
    (hsecret : (deployment sha256).Unforeseen secretDrawn Request.presentedSecret
      (runEvents sha256 steps)) :
    ∀ t ∈ (runState sha256 steps).threads, ∀ entry ∈ t.log, ∀ uid code,
      issuedCode entry = some (uid, code) →
        RestsOn (runState sha256 steps) (runEffects sha256 steps) t entry uid code := by
  intro t ht entry hentry uid code hissued
  obtain ⟨newer, older, hlog⟩ := List.append_of_mem hentry
  have hsuffix : entry :: older <:+ t.log := ⟨newer, hlog.symm⟩
  have hsub : older ⊆ t.log := fun e he => hsuffix.subset (List.mem_cons_of_mem _ he)
  have proves := System.log_permitted (deployment_proves sha256) .fresh steps t ht entry older
    hsuffix
  rcases issuedCode_cases hissued with ⟨input, f, rfl, hcode⟩ | ⟨input, a, rfl, hout, hcode⟩
  · exact restsOn_of_login hfresh hclock hsecret ht hentry hsub proves hcode
  · exact restsOn_of_authorized hfresh ht hentry hout hsub proves hcode

namespace Sample

/-- The world outside at `now`, where `secretHash` is the next secret. -/
def oracleAt (now : ℤ) (secretHash : Bytes) : Oracle :=
  Function.update (Function.update (oracle ix) .newSecret secretHash) .now now

/-- A request from its arrival to its answer, at `now`. -/
def wholeAt (i : ℕ) (now : ℤ) (secretHash : Bytes) (q : Request) : List Step :=
  .spawn q :: List.replicate 14 (.step i (oracleAt now secretHash))

/-- An authorization request with `prompt=login`. -/
def forced : Request :=
  .authorize (some ⟨⟨fun name => if name = "prompt" then some "login" else params name,
    fun _ => none⟩, some "app", none, false⟩) .absent

/-- The request starts at 10, the user logs in at 20, and the code follows at 30. -/
def forcedLogin : List Step :=
  (user "u1" ++ wholeAt 0 10 [1] forced ++ wholeAt 1 20 [2] (.passkeyOptions (api ix)) ++
    wholeAt 2 20 [2] (.passkeyVerify (api ix) false (some ⟨"c", some "u1"⟩)) ++
    wholeAt 3 25 [2] (.consent (api ix) (some (.grant ["openid"]))) ++
    wholeAt 4 30 [3] complete).reverse

theorem forcedLogin_run :
    FreshIds (runEffects User.Sample.sha256 forcedLogin) ∧
      (readingsOf clockReading (runEffects User.Sample.sha256 forcedLogin)).Pairwise (· ≥ ·) ∧
      (deployment User.Sample.sha256).Unforeseen secretDrawn Request.presentedSecret
        (runEvents User.Sample.sha256 forcedLogin) ∧
      starts ix (runEffects User.Sample.sha256 forcedLogin) = [10] ∧
      ∃ t ∈ (runState User.Sample.sha256 forcedLogin).threads, ∃ entry ∈ t.log,
        (issuedCode entry).isSome = true := by
  decide +kernel

end Sample

/-- A login that `prompt=login` asks for, with the code that follows it. -/
theorem codes_follow_login_sample :
    FreshIds (runEffects User.Sample.sha256 Sample.forcedLogin) ∧
      (readingsOf clockReading (runEffects User.Sample.sha256 Sample.forcedLogin)).Pairwise
        (· ≥ ·) ∧
      (deployment User.Sample.sha256).Unforeseen secretDrawn Request.presentedSecret
        (runEvents User.Sample.sha256 Sample.forcedLogin) ∧
      starts Sample.ix (runEffects User.Sample.sha256 Sample.forcedLogin) = [10] ∧
      ∃ t ∈ (runState User.Sample.sha256 Sample.forcedLogin).threads, ∃ entry ∈ t.log, ∃ uid code,
        issuedCode entry = some (uid, code) ∧
          RestsOn (runState User.Sample.sha256 Sample.forcedLogin)
            (runEffects User.Sample.sha256 Sample.forcedLogin) t entry uid code := by
  obtain ⟨hfresh, hclock, hsecret, hstarts, t, ht, entry, hentry, hsome⟩ := Sample.forcedLogin_run
  obtain ⟨issued, hissued⟩ := Option.isSome_iff_exists.mp hsome
  refine ⟨hfresh, hclock, hsecret, hstarts, t, ht, entry, hentry, issued.1, issued.2, hissued, ?_⟩
  exact codes_follow_login _ _ hfresh hclock hsecret t ht entry hentry _ _ hissued

end TinyOidc.Interaction
