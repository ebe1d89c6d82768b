import TinyOidc.Interaction.ForcedLogin

/-! Forced re-authentication. The code of an interaction honours what `/authorize` accepted: after a
demand for a new login, a login in the interaction; else an authentication that was recent enough
then, as long as no completed login sets the session on which consent is asked back to an older
one. -/
namespace TinyOidc.Interaction
open TinyOidc.User TinyOidc.Util Threads RowTable

/-! ### What `/authorize` accepted -/

/-- A request that `/authorize` accepted for an interaction: when, what was asked for, and the
session that the browser presented. -/
structure Acceptance where
  start : ℤ
  request : Option AuthorizeRequest
  presented : Option ExistingSession

def acceptance (id : String) : Entry Op.Answer → Option Acceptance
  | ⟨.interaction id' (.create input now _), .ok _⟩ =>
      if id' = id ∧ input.status ≠ .pushed then
        some ⟨now, input.request, input.existingSession⟩
      else none
  | ⟨.interaction id' (.apply .consumePar _ patch now), .ok d⟩ =>
      if id' = id then some ⟨now, d.request, patch.existingSession.join⟩ else none
  | _ => none

def acceptances (id : String) (effects : List RunEffect) : List Acceptance :=
  effects.filterMap fun effect => acceptance id effect.entry

/-- The request demands a new login, or is too demanding for the session that was presented. -/
def Acceptance.Forced (a : Acceptance) : Prop :=
  ∃ request, a.request = some request ∧ (request.prompt.contains .login = true ∨
    ∃ age session, request.maxAge = some age ∧ a.presented = some session ∧
      session.authTime + age ≤ a.start)

theorem acceptances_cons (id : String) (effect : RunEffect) (effects : List RunEffect) :
    acceptances id (effect :: effects) =
      (acceptance id effect.entry).toList ++ acceptances id effects := by
  cases h : acceptance id effect.entry <;> simp [acceptances, h]

theorem acceptances_cons_of_none {id : String} {effect : RunEffect} (effects : List RunEffect)
    (h : acceptance id effect.entry = none) :
    acceptances id (effect :: effects) = acceptances id effects := by
  rw [acceptances_cons, h]
  rfl

theorem acceptance_of_ne {id id' : String} (hne : id' ≠ id) {call : InteractionCall}
    {answer : call.Answer} : acceptance id ⟨.interaction id' call, answer⟩ = none := by
  cases call with
  | create input now ttl => cases answer <;> simp [acceptance, hne]
  | apply operation target patch now =>
    cases operation <;> cases answer <;> simp [acceptance, hne]
  | _ => cases answer <;> rfl

theorem pushed_of_consumePar {source target : InteractionStatus}
    (h : canTransition source .consumePar target = true) : source = .pushed := by
  cases source <;> revert h <;> cases target <;> decide

/-- Only the pushed request that is taken opens an interaction. -/
theorem opened_of_canTransition {source target : InteractionStatus}
    {operation : InteractionOperation} (h : canTransition source operation target = true)
    (hop : operation ≠ .consumePar) (htarget : isTerminal target = false) :
    source ≠ .pushed ∧ isTerminal source = false := by
  revert h hop htarget
  cases source <;> cases operation <;> cases target <;> decide

/-- An acceptance brings the document about, or takes it on from the pushed request. -/
theorem moved_of_accepted {sha256 : String → Bytes} {w w' : World} {entry : Entry Op.Answer}
    (performed : Performed sha256 w w' entry) {id : String} {a : Acceptance}
    (h : acceptance id entry = some a) :
    (w.doc id = none ∧ w'.doc id ≠ none) ∨ ∃ d d', w.doc id = some d ∧ w'.doc id = some d' ∧
      d.status = .pushed ∧ d'.status ≠ .pushed := by
  cases performed with
  | asked question oracle => cases h
  | onUser uid call => cases h
  | onInteraction id' call o answer answered =>
    by_cases hid : id' = id
    · subst hid
      have hafter : (⟨Function.update w.interactions id' o, w.users⟩ : World).doc id' = o.doc := by
        simp [World.doc]
      rw [hafter]
      cases answered with
      | created input now ttl alarmAt absent => exact .inl ⟨absent, Option.some_ne_none _⟩
      | applied operation target patch now alarmAt d stored permitted =>
        refine .inr ⟨d, _, stored, rfl, ?_, ne_pushed_of_canTransition permitted⟩
        cases operation with
        | consumePar => exact pushed_of_consumePar permitted
        | _ => cases h
      | refused call e =>
        cases call with
        | apply operation target patch now => cases operation <;> cases h
        | _ => cases h
      | _ => cases h
    · rw [acceptance_of_ne hid] at h
      cases h

/-! ### What is known of a document -/

/-- What a document owes to the one acceptance of its interaction. -/
structure Admitted (c : RunConfig) (effects : List RunEffect) (id : String)
    (d : InteractionDocument) : Prop where
  pushed : d.status = .pushed → acceptances id effects = []
  accepted : d.status ≠ .pushed → isTerminal d.status = false →
    ∃ a, acceptances id effects = [a] ∧ d.request = a.request ∧ a.start ∈ starts id effects
  asked : d.kind ≠ .logout → d.status = .consentRequired ∨ d.status = .ready → d.auth = none →
    ∃ a ∈ acceptances id effects, ∃ request session, a.request = some request ∧
      a.presented = some session ∧ d.existingSession = some session ∧
      ∃ t ∈ c.threads, AskedConsent t.log request session a.start

structure AllAdmitted (c : RunConfig) (effects : List RunEffect) : Prop where
  stored : ∀ id d, c.shared.doc id = some d → Admitted c effects id d
  known : ∀ id, acceptances id effects ≠ [] → id ∈ createdIds effects
  read : ∀ t ∈ c.threads, ∀ id d, Seen t.log id d → Admitted c effects id d

section Grow

variable {c c' : RunConfig} {effects effects' : List RunEffect} {id : String}
  {d : InteractionDocument}

theorem Admitted.grow (h : Admitted c effects id d) (hgrows : c.Grows c')
    (haccepted : acceptances id effects' = acceptances id effects)
    (hstarts : starts id effects ⊆ starts id effects') : Admitted c' effects' id d where
  pushed hpushed := haccepted.trans (h.pushed hpushed)
  accepted hopen hlive := by
    obtain ⟨a, ha, hrequest, hstart⟩ := h.accepted hopen hlive
    exact ⟨a, haccepted.trans ha, hrequest, hstarts hstart⟩
  asked hkind hwaits hauth := by
    obtain ⟨a, ha, request, session, hrequest, hpresented, hexisting, t, ht, hasked⟩ :=
      h.asked hkind hwaits hauth
    obtain ⟨t', ht', -, hsuffix⟩ := hgrows t ht
    exact ⟨a, haccepted ▸ ha, request, session, hrequest, hpresented, hexisting, t', ht',
      hasked.mono hsuffix.subset⟩

/-- A document at the same point of its course. -/
theorem Admitted.of_same {d' : InteractionDocument} (h : Admitted c effects id d)
    (same : SameCourse d d') : Admitted c effects id d' where
  pushed hpushed := h.pushed (same.status ▸ hpushed)
  accepted hopen hlive := by
    obtain ⟨a, ha, hrequest, hstart⟩ := h.accepted (same.status ▸ hopen) (same.status ▸ hlive)
    exact ⟨a, ha, same.request.trans hrequest, hstart⟩
  asked hkind hwaits hauth := by
    rw [same.kind] at hkind
    rw [same.status] at hwaits
    rw [same.auth] at hauth
    obtain ⟨a, ha, request, session, hrequest, hpresented, hexisting, hasked⟩ :=
      h.asked hkind hwaits hauth
    exact ⟨a, ha, request, session, hrequest, hpresented, same.existingSession.trans hexisting,
      hasked⟩

/-- An interaction that is over, or still to be taken, waits for nobody. -/
theorem Admitted.of_terminal (h : isTerminal d.status = true) : Admitted c effects id d where
  pushed hpushed := by
    rw [hpushed] at h
    cases h
  accepted _ hlive := by
    rw [h] at hlive
    cases hlive
  asked _ hwaits := by
    rcases hwaits with hwaits | hwaits <;> rw [hwaits] at h <;> cases h

theorem Admitted.of_pushed (hstatus : d.status = .pushed) (hnone : acceptances id effects = []) :
    Admitted c effects id d where
  pushed _ := hnone
  accepted hopen := absurd hstatus hopen
  asked _ hwaits := by
    rcases hwaits with hwaits | hwaits <;> rw [hstatus] at hwaits <;> cases hwaits

/-- A transition of an accepted interaction keeps what is known of it. -/
theorem Admitted.transition (h : Admitted c effects id d) {q : Request} {log : Log}
    {operation : InteractionOperation} {target : InteractionStatus} {patch : TransitionPatch}
    {now : ℤ} (permitted : canTransition d.status operation target = true)
    (applies : Applies q log id operation target patch) (hop : operation ≠ .consumePar)
    (hkind : ∀ d₀, Seen log id d₀ → d.kind = d₀.kind) :
    Admitted c effects id (d.transition target patch now) := by
  have hpushed := ne_pushed_of_canTransition permitted
  refine ⟨fun hstatus => absurd hstatus hpushed, fun _ hlive => ?_, ?_⟩
  · obtain ⟨hopen, hbefore⟩ := opened_of_canTransition permitted hop hlive
    obtain ⟨a, ha, hrequest, hstart⟩ := h.accepted hopen hbefore
    refine ⟨a, ha, ?_, hstart⟩
    simpa [InteractionDocument.transition, applies.keeps_request.1] using hrequest
  · intro hauthorize hwaits hnone
    cases applies with
    | consented d₀ seen uid huid clientId client hclient record scopes now' granted hgrant =>
      exact h.asked hauthorize (.inl (consentRequired_of_canTransition permitted)) hnone
    | decided logout d₀ seen hlogout => exact absurd ((hkind d₀ seen).trans hlogout) hauthorize
    | authenticated operation hop target auth d₀ seen clientId client hclient record htarget =>
      simp [InteractionDocument.transition] at hnone
    | parTaken target existing hq holding => exact absurd rfl hop
    | parCompleted => exact absurd rfl hop
    | _ => rcases hwaits with hwaits | hwaits <;> cases hwaits

end Grow

/-! ### One call -/

section Steps

variable {sha256 : String → Bytes} {steps : List Step}

/-- What a request has read is not accepted again. -/
theorem acceptance_of_tracks (hfresh : FreshIds (runEffects sha256 steps)) {id : String}
    {d₀ : InteractionDocument}
    (htracks : Tracks (runState sha256 steps) (runEffects sha256 steps) id d₀) {i : ℕ}
    {t : RunThread} (hi : (runState sha256 steps).threads[i]? = some t) {entry : Entry Op.Answer}
    {w : World} (permitted : Permits t.request t.log entry.1)
    (performed : Performed sha256 (runState sha256 steps).shared w entry) :
    acceptance id entry = none := by
  by_contra hsome
  obtain ⟨a, ha⟩ := Option.ne_none_iff_exists'.mp hsome
  rcases moved_of_accepted performed ha with ⟨hbefore, hafter⟩ | ⟨d, d', hd, -, hpushed, -⟩
  · have hmove := docMove_of_performed permitted performed id
    rw [hbefore] at hmove
    generalize w.doc id = y at hmove hafter
    cases hmove with
    | kept entry x htakes hcreated => exact hafter rfl
    | created input now ttl pending =>
      exact absurd htracks.created (notMem_createdIds_of_pending hfresh hi pending)
  · exact (htracks.later d hd).opened hpushed

/-- The pushed request that is taken is accepted, with what its document asks for. -/
theorem AllAdmitted.taken (hfresh : FreshIds (runEffects sha256 steps))
    (h : AllAdmitted (runState sha256 steps) (runEffects sha256 steps)) {i : ℕ} {t : RunThread}
    (prog : Handler Response) (hi : (runState sha256 steps).threads[i]? = some t) {id : String}
    {target : InteractionStatus} {patch : TransitionPatch} {now : ℤ} {w : World}
    (proves : Proves t.request t.log (.interaction id (.apply .consumePar target patch now)))
    (hpatch : patch.request = none) {d : InteractionDocument}
    (hd : (runState sha256 steps).shared.doc id = some d)
    (permitted : canTransition d.status .consumePar target = true) :
    Admitted ⟨w, (runState sha256 steps).threads.set i ⟨t.request,
        ⟨.interaction id (.apply .consumePar target patch now),
          .ok (d.transition target patch now)⟩ :: t.log, prog⟩⟩
      (.thread i t ⟨.interaction id (.apply .consumePar target patch now),
        .ok (d.transition target patch now)⟩ :: runEffects sha256 steps) id
      (d.transition target patch now) := by
  have ht := List.mem_of_getElem? hi
  obtain ⟨request, hredeemed, hconsent⟩ := proves.2 rfl
  have htaken := (allVouched_run steps hfresh).redeemed t ht id request now hredeemed
  have hnone := (h.stored id d hd).pushed (pushed_of_consumePar permitted)
  have hrequest : (d.transition target patch now).request = some request := by
    simpa [InteractionDocument.transition, hpatch] using htaken.stored d hd
  have haccepted : acceptances id (.thread i t ⟨.interaction id
      (.apply .consumePar target patch now), .ok (d.transition target patch now)⟩ ::
        runEffects sha256 steps) = [⟨now, some request, patch.existingSession.join⟩] := by
    simp [acceptances_cons, hnone, acceptance, hrequest]
  refine ⟨fun hpushed => absurd hpushed (ne_pushed_of_canTransition permitted), fun _ _ => ?_, ?_⟩
  · refine ⟨_, haccepted, hrequest, ?_⟩
    rw [starts_cons]
    exact List.mem_append_right _ htaken.start
  · intro _ hwaits _
    have htarget : target = .consentRequired := by
      rcases hwaits with hwaits | hwaits
      · exact hwaits
      · exact absurd hwaits (ne_ready_of_consumePar permitted)
    obtain ⟨session, hsession, hasked⟩ := hconsent htarget
    obtain ⟨t', ht', -, hsuffix⟩ := Config.grows_called hi w ⟨.interaction id
      (.apply .consumePar target patch now), .ok (d.transition target patch now)⟩ prog t ht
    refine ⟨_, haccepted ▸ List.mem_cons_self, request, session, rfl, ?_, ?_, t', ht',
      hasked.mono hsuffix.subset⟩
    · rw [hsession]
      rfl
    · simp [InteractionDocument.transition, hsession]

theorem AllAdmitted.stored_move (hfresh : FreshIds (runEffects sha256 steps))
    (h : AllAdmitted (runState sha256 steps) (runEffects sha256 steps)) {i : ℕ} {t : RunThread}
    {entry : Entry Op.Answer} {w : World} (prog : Handler Response)
    (hi : (runState sha256 steps).threads[i]? = some t)
    (permitted : Permits t.request t.log entry.1) (writes : Writes t.request t.log entry.1)
    (proves : Proves t.request t.log entry.1)
    (performed : Performed sha256 (runState sha256 steps).shared w entry) {id : String}
    {d' : InteractionDocument} (hd' : w.doc id = some d') :
    Admitted ⟨w, (runState sha256 steps).threads.set i ⟨t.request, entry :: t.log, prog⟩⟩
      (.thread i t entry :: runEffects sha256 steps) id d' := by
  have ht := List.mem_of_getElem? hi
  have hgrows := Config.grows_called hi w entry prog
  have hstarts : starts id (runEffects sha256 steps) ⊆
      starts id (.thread i t entry :: runEffects sha256 steps) := by
    rw [starts_cons]
    exact List.subset_append_right _ _
  have hkept : ∀ {d : InteractionDocument}, acceptance id entry = none →
      Admitted (runState sha256 steps) (runEffects sha256 steps) id d →
      Admitted ⟨w, (runState sha256 steps).threads.set i ⟨t.request, entry :: t.log, prog⟩⟩
        (.thread i t entry :: runEffects sha256 steps) id d :=
    fun hnone hadmitted =>
      hadmitted.grow hgrows (acceptances_cons_of_none _ hnone) hstarts
  have hmoved : ∀ a, acceptance id entry = some a →
      ((runState sha256 steps).shared.doc id = none ∧ w.doc id ≠ none) ∨
        ∃ d₁ d₂, (runState sha256 steps).shared.doc id = some d₁ ∧ w.doc id = some d₂ ∧
          d₁.status = .pushed ∧ d₂.status ≠ .pushed :=
    fun _ => moved_of_accepted performed
  have hmove := docMove_of_performed permitted performed id
  rw [hd'] at hmove hmoved
  generalize hx : (runState sha256 steps).shared.doc id = x at hmove hmoved
  generalize hy : some d' = y at hmove hmoved
  cases hmove with
  | kept entry x htakes hcreated =>
    subst hy
    refine hkept ?_ (h.stored id d' hx)
    by_contra hsome
    obtain ⟨a, ha⟩ := Option.ne_none_iff_exists'.mp hsome
    rcases hmoved a ha with ⟨hnone, -⟩ | ⟨d, d₁, hd, hd₁, hpushed, hopen⟩
    · cases hnone
    · cases hd
      cases hd₁
      exact hopen hpushed
  | created input now ttl pending =>
    cases hy
    have hnever : id ∉ createdIds (runEffects sha256 steps) :=
      notMem_createdIds_of_pending hfresh hi pending
    have hnone : acceptances id (runEffects sha256 steps) = [] := by
      by_contra haccepted
      exact hnever (h.known id haccepted)
    by_cases hpushed : input.status = .pushed
    · refine .of_pushed hpushed ?_
      rw [acceptances_cons_of_none _ (by simp [acceptance, hpushed]), hnone]
    have haccepted : acceptances id (.thread i t ⟨.interaction id (.create input now ttl),
        .ok (newDocument input now ttl)⟩ :: runEffects sha256 steps) =
          [⟨now, input.request, input.existingSession⟩] := by
      simp [acceptances_cons, hnone, acceptance, hpushed]
    refine ⟨fun hstatus => absurd hstatus hpushed, fun _ _ => ⟨_, haccepted, rfl, ?_⟩, ?_⟩
    · simp [starts_cons, startedAt, hpushed]
    · intro _ hwaits _
      have hconsent : input.status = .consentRequired := by
        rcases hwaits with hwaits | hready
        · exact hwaits
        · have hready : input.status = .ready := hready
          rcases writes with hstart | hstart | ⟨hstart, -⟩ <;> rw [hready] at hstart <;>
            cases hstart
      obtain ⟨request, session, hrequest, hsession, hasked⟩ := proves.2 hconsent
      obtain ⟨t', ht', -, hsuffix⟩ := hgrows t ht
      exact ⟨_, haccepted ▸ List.mem_cons_self, request, session, hrequest, hsession, hsession, t',
        ht', hasked.mono hsuffix.subset⟩
  | claimedPushed clientId bindingHash now ttl d claimed pushed unclaimed hq hlog hclaimed =>
    cases hy
    have hnone := (h.stored id d hx).pushed pushed
    refine .of_pushed (by rw [hclaimed]; exact pushed) ?_
    rw [acceptances_cons_of_none _ rfl, hnone]
  | applied operation target patch now d allowed applies =>
    cases hy
    by_cases hop : operation = .consumePar
    · subst hop
      exact h.taken hfresh prog hi proves applies.keeps_request.1 hx allowed
    · refine hkept (by cases operation <;> first | rfl | exact absurd rfl hop) ?_
      refine (h.stored id d hx).transition allowed applies hop ?_
      exact fun d₀ hseen => ((tracks_of_seen hfresh ht hseen).later d hx).kind
  | claimedCompletion now d status unclaimed hq hlog =>
    cases hy
    have hbefore := h.stored id d hx
    exact hkept rfl ⟨hbefore.pushed, hbefore.accepted, hbefore.asked⟩
  | touched entry d d₁ same htakes hcreated =>
    cases hy
    refine hkept ?_ ((h.stored id d hx).of_same same)
    by_contra hsome
    obtain ⟨a, ha⟩ := Option.ne_none_iff_exists'.mp hsome
    rcases hmoved a ha with ⟨hnone, -⟩ | ⟨d, d₁, hd, hd₁, hpushed, hopen⟩
    · cases hnone
    · cases hd
      cases hd₁
      exact hopen (same.status.trans hpushed)
  | exhausted now limit d d₀ seen live =>
    cases hy
    exact .of_terminal rfl

/-- What is accepted was created. -/
theorem AllAdmitted.known_move
    (h : AllAdmitted (runState sha256 steps) (runEffects sha256 steps)) (i : ℕ) {t : RunThread}
    {entry : Entry Op.Answer} {w : World} (permitted : Permits t.request t.log entry.1)
    (performed : Performed sha256 (runState sha256 steps).shared w entry) {id : String}
    (haccepted : acceptances id (.thread i t entry :: runEffects sha256 steps) ≠ []) :
    id ∈ createdIds (.thread i t entry :: runEffects sha256 steps) := by
  rw [mem_createdIds_cons]
  cases hentry : acceptance id entry with
  | none =>
    rw [acceptances_cons_of_none _ hentry] at haccepted
    exact .inr (h.known id haccepted)
  | some a =>
    rcases moved_of_accepted performed hentry with ⟨hbefore, hafter⟩ | ⟨d, d', hd, -⟩
    · have hmove := docMove_of_performed permitted performed id
      rw [hbefore] at hmove
      generalize w.doc id = y at hmove hafter
      cases hmove with
      | kept entry x htakes hcreated => exact absurd rfl hafter
      | created input now ttl pending => exact .inl rfl
    · exact .inr (mem_createdIds_of_doc sha256 steps hd)

theorem AllAdmitted.thread (hfresh : FreshIds (runEffects sha256 steps))
    (h : AllAdmitted (runState sha256 steps) (runEffects sha256 steps)) {i : ℕ} {t : RunThread}
    {entry : Entry Op.Answer} {w : World} (prog : Handler Response)
    (hi : (runState sha256 steps).threads[i]? = some t)
    (permitted : Permits t.request t.log entry.1) (writes : Writes t.request t.log entry.1)
    (proves : Proves t.request t.log entry.1)
    (performed : Performed sha256 (runState sha256 steps).shared w entry) :
    AllAdmitted ⟨w, (runState sha256 steps).threads.set i ⟨t.request, entry :: t.log, prog⟩⟩
      (.thread i t entry :: runEffects sha256 steps) where
  stored id d hd := h.stored_move hfresh prog hi permitted writes proves performed hd
  known id := h.known_move i permitted performed
  read := by
    have hstarts : ∀ id, starts id (runEffects sha256 steps) ⊆
        starts id (.thread i t entry :: runEffects sha256 steps) := by
      intro id
      rw [starts_cons]
      exact List.subset_append_right _ _
    have hread : ∀ {t₀ : RunThread}, t₀ ∈ (runState sha256 steps).threads → ∀ {id d},
        Seen t₀.log id d → Admitted
          ⟨w, (runState sha256 steps).threads.set i ⟨t.request, entry :: t.log, prog⟩⟩
          (.thread i t entry :: runEffects sha256 steps) id d := by
      intro t₀ ht₀ id d hseen
      have hnone :=
        acceptance_of_tracks hfresh (tracks_of_seen hfresh ht₀ hseen) hi permitted performed
      exact (h.read t₀ ht₀ id d hseen).grow (Config.grows_called hi w entry prog)
        (acceptances_cons_of_none _ hnone) (hstarts id)
    intro t' ht' id d hseen
    rcases List.mem_or_eq_of_mem_set ht' with ht' | rfl
    · exact hread ht' hseen
    · obtain ⟨e, he, hopen⟩ := hseen
      rcases List.mem_cons.mp he with rfl | he
      · exact h.stored_move hfresh prog hi permitted writes proves performed
          (openDocument_performed performed hopen).1
      · exact hread (List.mem_of_getElem? hi) ⟨e, he, hopen⟩

/-- Beside the requests nothing is accepted. -/
theorem AllAdmitted.outside (h : AllAdmitted (runState sha256 steps) (runEffects sha256 steps))
    {entry : Entry Op.Answer} {w : World} (hop : outsideOp entry.1 = true)
    (performed : Performed sha256 (runState sha256 steps).shared w entry) :
    AllAdmitted ⟨w, (runState sha256 steps).threads⟩
      (.outside entry :: runEffects sha256 steps) := by
  have hnone : ∀ id, acceptance id entry = none ∧ startedAt id entry = none := by
    intro id
    obtain ⟨op, answer⟩ := entry
    cases op with
    | ask question => cases hop
    | user uid call => exact ⟨rfl, rfl⟩
    | interaction id' call =>
      cases call with
      | alarm now => exact ⟨rfl, rfl⟩
      | _ => cases hop
  have haccepted : ∀ id, acceptances id (.outside entry :: runEffects sha256 steps) =
      acceptances id (runEffects sha256 steps) :=
    fun id => acceptances_cons_of_none _ (hnone id).1
  have hstarts : ∀ id, starts id (runEffects sha256 steps) ⊆
      starts id (.outside entry :: runEffects sha256 steps) := by
    intro id
    rw [starts_cons_of_none _ (hnone id).2]
    exact List.Subset.refl _
  have hgrows := Config.grows_shared (runState sha256 steps) w
  constructor
  · intro id d hd
    refine (h.stored id d ?_).grow hgrows (haccepted id) (hstarts id)
    rcases doc_of_outside hop performed id with hsame | hgone
    · exact hsame ▸ hd
    · exact absurd (hd.symm.trans hgone) (Option.some_ne_none _)
  · intro id hne
    rw [haccepted] at hne
    exact mem_createdIds_cons.mpr (.inr (h.known id hne))
  · exact fun t ht id d hseen => (h.read t ht id d hseen).grow hgrows (haccepted id) (hstarts id)

end Steps

theorem allAdmitted_run {sha256 : String → Bytes} (steps : List Step)
    (hfresh : FreshIds (runEffects sha256 steps)) :
    AllAdmitted (runState sha256 steps) (runEffects sha256 steps) := by
  refine System.run_invariant
    (((deployment_follows sha256).and (deployment_writes sha256)).and (deployment_proves sha256))
    (C := fun steps => FreshIds (runEffects sha256 steps)) (J := AllAdmitted)
    (fun _ _ => FreshIds.earlier) ?_ ?_ ?_ ?_ steps hfresh
  · constructor
    · intro id d hd
      cases hd
    · intro id hne
      exact absurd rfl hne
    · intro t ht
      cases ht
  · intro steps q h
    have hgrows := Config.grows_append (runState sha256 steps) (runState sha256 steps).shared
      [⟨q, [], (deployment sha256).start q⟩]
    have hsame := fun id => List.Subset.refl (starts id (runEffects sha256 steps))
    constructor
    · exact fun id d hd => (h.stored id d hd).grow hgrows rfl (hsame id)
    · exact h.known
    · intro t ht id d hseen
      rcases List.mem_append.mp ht with ht | ht
      · exact (h.read t ht id d hseen).grow hgrows rfl (hsame id)
      · rw [List.mem_singleton.mp ht] at hseen
        obtain ⟨e, he, -⟩ := hseen
        cases he
  · intro steps i t op answer prog hfresh _ h hi _ hop
    obtain ⟨⟨permitted, writes⟩, proves⟩ := hop
    exact h.thread hfresh.earlier prog hi permitted writes proves
      (exec_performed sha256 _ answer op)
  · intro steps op answer h hop
    have hperformed := exec_performed sha256 (runState sha256 steps).shared answer op
    have houtside : outsideOp op = true := hop
    exact h.outside houtside hperformed

/-! ### No session is set back -/

/-- The session on which an answer asks consent for a request with a `max_age`, and when its user
had authenticated. -/
def askedOn : Entry Op.Answer → Option (String × String × ℤ)
  | ⟨.user uid (.authorizeWithSession input), .authorize (.ok a)⟩ =>
      if input.maxAge.isSome ∧ a.outcome = .consentRequired then
        some (uid, a.session.sid, a.session.authTime)
      else none
  | _ => none

def asked (c : RunConfig) : List (String × String × ℤ) :=
  c.threads.flatMap fun t => t.log.filterMap askedOn

/-- A login is about to write an authentication that is older than the one that its session had
when consent was asked on it. -/
def setsBack (c : RunConfig) : Op → Bool
  | .user uid (.finalizeLogin input) => (asked c).any fun (uid', sid, authTime) =>
      uid' == uid && sid == input.session.sid &&
        decide (input.session.context.authTime < authTime)
  | _ => false

/-- The condition on the next step of a run. -/
def goesForward (c : RunConfig) : Step → Bool
  | .step i _ =>
      match c.threads[i]? with
      | none => true
      | some t => t.prog.head.all fun op => !setsBack c op
  | _ => true

def GoesForward (sha256 : String → Bytes) : List Step → Prop
  | [] => True
  | l :: steps => goesForward (runState sha256 steps) l = true ∧ GoesForward sha256 steps

instance decidableGoesForward (sha256 : String → Bytes) :
    (steps : List Step) → Decidable (GoesForward sha256 steps)
  | [] => isTrue trivial
  | _ :: steps =>
      have := decidableGoesForward sha256 steps
      inferInstanceAs (Decidable (_ ∧ _))

/-- Where consent was asked, the session keeps at least the authentication it had. -/
def KeepsAuth (c : RunConfig) : Prop :=
  ∀ uid sid authTime, (uid, sid, authTime) ∈ asked c →
    ∀ s ∈ (c.shared.users uid).tables.sessions.rows, s.sid = sid → authTime ≤ s.authTime

theorem mem_asked_set {c : RunConfig} {i : ℕ} {t : RunThread} (hi : c.threads[i]? = some t)
    {w : World} {entry : Entry Op.Answer} {prog : Handler Response} {x : String × String × ℤ}
    (h : x ∈ asked ⟨w, c.threads.set i ⟨t.request, entry :: t.log, prog⟩⟩) :
    askedOn entry = some x ∨ x ∈ asked c := by
  obtain ⟨t', ht', hx⟩ := List.mem_flatMap.mp h
  rcases List.mem_or_eq_of_mem_set ht' with hold | rfl
  · exact .inr (List.mem_flatMap.mpr ⟨t', hold, hx⟩)
  · obtain ⟨e, he, hasked⟩ := List.mem_filterMap.mp hx
    rcases List.mem_cons.mp he with rfl | he
    · exact .inl hasked
    · exact .inr (List.mem_flatMap.mpr ⟨t, List.mem_of_getElem? hi,
        List.mem_filterMap.mpr ⟨e, he, hasked⟩⟩)

section Sessions

variable {sha256 : String → Bytes} {c : RunConfig}

/-- A call that sets no session back. -/
theorem KeepsAuth.performed (h : KeepsAuth c) {w : World} {entry : Entry Op.Answer}
    (performed : Performed sha256 c.shared w entry) (hforward : setsBack c entry.1 = false)
    {uid sid : String} {authTime : ℤ} (hasked : (uid, sid, authTime) ∈ asked c) :
    ∀ s ∈ (w.users uid).tables.sessions.rows, s.sid = sid → authTime ≤ s.authTime := by
  cases performed with
  | asked question oracle => exact h uid sid authTime hasked
  | onInteraction id call o answer answered => exact h uid sid authTime hasked
  | onUser uid' call =>
    intro s hs hsid
    by_cases hother : uid = uid'
    · subst hother
      dsimp only at hs
      rw [Function.update_self] at hs
      rcases call_authenticated sha256 (c.shared.users uid) call s hs with
        hwritten | ⟨old, hold, holdsid, htime⟩
      · cases call with
        | finalizeLogin input =>
          obtain ⟨hsame, hcontext⟩ := Prod.mk.inj (Option.some.inj hwritten)
          rw [← hcontext]
          by_contra hback
          have hsets : setsBack c (.user uid (.finalizeLogin input)) = true := by
            refine List.any_eq_true.mpr ⟨_, hasked, ?_⟩
            simp [hsame, hsid, not_le.mp hback]
          rw [hforward] at hsets
          cases hsets
        | _ => cases hwritten
      · rw [← htime]
        exact h uid sid authTime hasked old hold (holdsid.trans hsid)
    · dsimp only at hs
      rw [Function.update_of_ne hother] at hs
      exact h uid sid authTime hasked s hs hsid

/-- An answer that asks consent says when the user of the stored session authenticated. -/
theorem stored_of_askedOn {w : World} {entry : Entry Op.Answer}
    (performed : Performed sha256 c.shared w entry) {uid sid : String} {authTime : ℤ}
    (h : askedOn entry = some (uid, sid, authTime)) :
    ∀ s ∈ (w.users uid).tables.sessions.rows, s.sid = sid → authTime ≤ s.authTime := by
  cases performed with
  | asked question oracle => cases h
  | onInteraction id call o answer answered => cases h
  | onUser uid' call =>
    unfold askedOn at h
    split at h
    · next uid₁ input a hentry =>
      obtain ⟨hcall, hreply⟩ := Sigma.mk.inj hentry
      obtain ⟨rfl, rfl⟩ := Op.user.inj hcall
      have hreply := eq_of_heq hreply
      rw [Option.ite_none_right_eq_some] at h
      obtain ⟨-, h⟩ := h
      cases h
      intro s hs hsid
      dsimp only at hs
      rw [Function.update_self] at hs
      have hok : ((c.shared.users uid).authorizeWithSession input).2 = .ok a := by
        injection hreply
      obtain ⟨live, hlive, hlivesid, htime, -⟩ := authorizeWithSession_live hok
      rcases call_authenticated sha256 (c.shared.users uid) (.authorizeWithSession input) s hs with
        hwritten | ⟨old, hold, holdsid, holdtime⟩
      · cases hwritten
      · have hsame : live = old := Table.eq_of_key_eq (liveSession_eq_some hlive).1 hold
          (hlivesid.symm.trans (hsid.symm.trans holdsid.symm))
        rw [htime, hsame, holdtime]
    · cases h

end Sessions

theorem keepsAuth_run {sha256 : String → Bytes} (steps : List Step)
    (hforward : GoesForward sha256 steps) : KeepsAuth (runState sha256 steps) := by
  refine System.run_invariant (deployment_follows sha256) (C := GoesForward sha256)
    (J := fun c _ => KeepsAuth c) (fun _ _ h => h.2) ?_ ?_ ?_ ?_ steps hforward
  · intro uid sid authTime hasked
    cases hasked
  · intro steps q h uid sid authTime hasked
    refine h uid sid authTime ?_
    simpa [asked] using hasked
  · intro steps i t op answer prog hforward _ h hi hhead _ uid sid authTime hasked
    have hperformed := exec_performed sha256 (runState sha256 steps).shared answer op
    have hstep : setsBack (runState sha256 steps) op = false := by
      have hkept := hforward.1
      simpa [goesForward, hi, hhead] using hkept
    rcases mem_asked_set hi hasked with hnew | hold
    · exact stored_of_askedOn hperformed hnew
    · exact h.performed hperformed hstep hold
  · intro steps op answer h hop uid sid authTime hasked
    have hperformed := exec_performed sha256 (runState sha256 steps).shared answer op
    refine h.performed hperformed ?_ hasked
    cases op with
    | user uid call => cases call <;> first | rfl | cases hop
    | _ => rfl

/-! ### The codes -/

/-- The code of an accepted request, whose user authenticated at `authTime`: after a demand for a
new login, no earlier than the request and in its interaction; else recently enough for it. -/
structure Honoured (c : RunConfig) (effects : List RunEffect) (id : String) (a : Acceptance)
    (uid : String) (authTime : ℤ) : Prop where
  forced : a.Forced → a.start ≤ authTime ∧ ∃ auth, auth.uid = uid ∧ auth.authTime = authTime ∧
    AuthenticatedSince c effects id auth
  recent : ¬ a.Forced → ∀ request age, a.request = some request → request.maxAge = some age →
    a.start < authTime + age ∨ a.start ≤ authTime

/-- What the code of a call is issued for: the request that `/authorize` evaluates at `now`, or
the one that it accepted for the interaction of the call. -/
inductive IssuedFor (c : RunConfig) (effects : List RunEffect) (q : Request) (log : Log)
    (uid : String) (authTime : ℤ) : Op → Prop
  | hit (ref : SessionRef) (client : ClientRef) (request : AuthorizeRequest) (settings : Settings)
      (now : ℤ) (secretHash : Bytes) (evaluates : Evaluates q log now)
      (requested : Requested q log (some client.clientId) request request.scope)
      (good : Suffices (request.prompt.contains .login) request.maxAge authTime now) :
      IssuedFor c effects q log uid authTime (.user uid (.authorizeWithSession
        (evaluationInput ref client request settings now secretHash)))
  | interaction (op : Op) (id : String) (behalf : q.behalf = some id) (a : Acceptance)
      (accepted : acceptances id effects = [a]) (honoured : Honoured c effects id a uid authTime) :
      IssuedFor c effects q log uid authTime op

theorem object_of_performed {sha256 : String → Bytes} {w w' : World} {uid : String} {call : Call}
    {reply : Reply} (performed : Performed sha256 w w' ⟨.user uid call, reply⟩) :
    ((w.users uid).call sha256 call).2 = reply ∧
      w'.users uid = ((w.users uid).call sha256 call).1 := by
  generalize hentry : (⟨.user uid call, reply⟩ : Entry Op.Answer) = entry at performed
  cases performed with
  | asked question oracle => cases hentry
  | onInteraction id call o answer answered => cases hentry
  | onUser uid' call' =>
    cases hentry
    exact ⟨rfl, Function.update_self ..⟩

section Codes

variable {sha256 : String → Bytes} {steps : List Step}

/-- Consent alone is asked on a session that was recent enough at the start, and it has not been
set back since. -/
theorem honoured_of_asked {t₀ : RunThread} (ht₀ : t₀ ∈ (runState sha256 steps).threads)
    (hforward : GoesForward sha256 steps) {a : Acceptance} {request : AuthorizeRequest}
    {session : ExistingSession} (hrequest : a.request = some request)
    (hpresented : a.presented = some session)
    (hasked : AskedConsent t₀.log request session a.start) (c : RunConfig)
    (effects : List RunEffect) (id uid : String) {s : SessionRow}
    (hs : s ∈ ((runState sha256 steps).shared.users session.uid).tables.sessions.rows)
    (hsid : s.sid = session.sid) : Honoured c effects id a uid s.authTime := by
  obtain ⟨ref, client, settings, secretHash, answer, hentry, hout, rfl⟩ := hasked
  have hgood := suffices_of_evaluated ht₀ hentry (by rw [hout]; decide)
  constructor
  · rintro ⟨request', hsame, hprompt | ⟨age, session', hage, hsession', hstale⟩⟩
    · cases hrequest.symm.trans hsame
      rw [hgood.unprompted] at hprompt
      cases hprompt
    · cases hrequest.symm.trans hsame
      cases hpresented.symm.trans hsession'
      exact absurd (hgood.recent age hage) (not_lt.mpr hstale)
  · intro _ request' age hsame hage
    cases hrequest.symm.trans hsame
    have hmem : (ref.uid, answer.session.sid, answer.session.authTime) ∈
        asked (runState sha256 steps) := by
      refine List.mem_flatMap.mpr ⟨t₀, ht₀, List.mem_filterMap.mpr ⟨_, hentry, ?_⟩⟩
      simp [askedOn, evaluationInput, hage, hout]
    have hlater := keepsAuth_run steps hforward _ _ _ hmem s hs hsid
    exact .inl ((hgood.recent age hage).trans_le (by omega))

/-- The code of a completion that only consent was missing for. -/
theorem issuedFor_of_session (hfresh : FreshIds (runEffects sha256 steps))
    (hforward : GoesForward sha256 steps) {t : RunThread}
    (ht : t ∈ (runState sha256 steps).threads) {uid : String} {input : AuthorizeWithSessionInput}
    {id : String} {d : InteractionDocument} {request : AuthorizeRequest}
    {session : ExistingSession}
    (hsession : OnSession t.request t.log uid input id d request session) (i : ℕ) {a : Authorized}
    (hok : (((runState sha256 steps).shared.users uid).authorizeWithSession input).2 = .ok a)
    (c : RunConfig) (log : Log) :
    IssuedFor c (.thread i t ⟨.user uid (.authorizeWithSession input), .authorize (.ok a)⟩ ::
      runEffects sha256 steps) t.request log uid a.session.authTime
      (.user uid (.authorizeWithSession input)) := by
  have hadmitted := (allAdmitted_run steps hfresh).read t ht id d hsession.seen
  obtain ⟨accepted, hone, -, -⟩ := hadmitted.accepted (by rw [hsession.ready]; decide)
    (by rw [hsession.ready]; rfl)
  obtain ⟨accepted', hmem, request', session', hrequest, hpresented, hexisting, t₀, ht₀, hasked⟩ :=
    hadmitted.asked hsession.authorize (.inr hsession.ready) hsession.auth
  rw [hone, List.mem_singleton] at hmem
  subst hmem
  cases hsession.existing.symm.trans hexisting
  obtain ⟨s, hlive, -, htime, -⟩ := authorizeWithSession_live hok
  obtain ⟨hs, hsid, -, -⟩ := liveSession_eq_some hlive
  have huid := hsession.uid
  subst huid
  rw [htime]
  refine .interaction _ id hsession.behalf accepted' ?_ ?_
  · rw [acceptances_cons_of_none _ rfl]
    exact hone
  · exact honoured_of_asked ht₀ hforward hrequest hpresented hasked _ _ _ _ hs
      (hsid.trans hsession.sid)

/-- The code of a completion that somebody authenticated for. -/
theorem issuedFor_of_login (hfresh : FreshIds (runEffects sha256 steps))
    (hclock : (readingsOf clockReading (runEffects sha256 steps)).Pairwise (· ≥ ·))
    (hsecret : (deployment sha256).Unforeseen secretDrawn Request.presentedSecret
      (runEvents sha256 steps)) {t : RunThread} (ht : t ∈ (runState sha256 steps).threads)
    {log : Log} (hsub : log ⊆ t.log) {uid : String} {input : FinalizeLoginInput}
    (calls : Calls t.request log uid (.finalizeLogin input))
    (proves : IssuesFor t.request log uid (.finalizeLogin input)) :
    IssuedFor (runState sha256 steps) (runEffects sha256 steps) t.request log uid
      input.session.context.authTime (.user uid (.finalizeLogin input)) := by
  obtain ⟨id, d, auth, hbehalf, hseen, hauth, rfl, hcontext⟩ := proves
  cases calls with
  | quiet call h => cases h
  | login id' binding cookie hq d' completing =>
    have hsame : id' = id := by
      rw [hq] at hbehalf
      exact Option.some.inj hbehalf
    subst hsame
    have hadmitted :=
      (allAdmitted_run steps hfresh).read t ht id' d' (completing.seen.seen.mono hsub)
    obtain ⟨a, haccepted, -, hstart⟩ := hadmitted.accepted (by rw [completing.ready]; decide)
      (by rw [completing.ready]; rfl)
    obtain ⟨t', ht', hlogin⟩ :=
      ((allVouched_run steps hfresh).read t ht id' d (hseen.mono hsub)).login auth hauth
    have hsince := authenticatedSince_of_loggedIn hfresh hclock hsecret ht' hlogin
    have htime : input.session.context.authTime = auth.authTime := by
      rw [hcontext]
      rfl
    rw [htime]
    refine .interaction _ id' hbehalf a haccepted ⟨fun _ => ?_, fun _ _ _ _ _ => ?_⟩
    · exact ⟨hsince.after _ hstart, auth, rfl, rfl, hsince⟩
    · exact .inr (hsince.after _ hstart)

/-- The code of a request that `/authorize` answers at once, or of a completion without a login. -/
theorem issuedFor_of_authorized (hfresh : FreshIds (runEffects sha256 steps))
    (hforward : GoesForward sha256 steps) {t : RunThread}
    (ht : t ∈ (runState sha256 steps).threads) {uid : String} {input : AuthorizeWithSessionInput}
    (proves : IssuesFor t.request t.log uid (.authorizeWithSession input)) (i : ℕ) {a : Authorized}
    (hok : (((runState sha256 steps).shared.users uid).authorizeWithSession input).2 = .ok a)
    (hout : a.outcome = .authorized) (c : RunConfig) :
    IssuedFor c (.thread i t ⟨.user uid (.authorizeWithSession input), .authorize (.ok a)⟩ ::
      runEffects sha256 steps) t.request t.log uid a.session.authTime
      (.user uid (.authorizeWithSession input)) := by
  rcases proves with ⟨ref, client, request, settings, now, secretHash, rfl, hevaluates, hrequested,
    rfl⟩ | ⟨id, d, request, session, hsession⟩
  · obtain ⟨s, -, -, htime, hsuffices⟩ := authorizeWithSession_live hok
    rw [htime]
    exact .hit ref client request settings now secretHash hevaluates hrequested
      (hsuffices (by rw [hout]; decide))
  · exact issuedFor_of_session hfresh hforward ht hsession i hok c t.log

end Codes

/-- In every run in which no completed login sets back a session on which consent was asked, each
code that is issued carries the time its user authenticated at, and honours the request it is issued
for: one that `/authorize` answers at once, with the `prompt` and `max_age` of the request, or the
one accepted for the interaction, through whatever its later handlers do. -/
theorem codes_honour_request (sha256 : String → Bytes) (l : Step) (steps : List Step)
    (hfresh : FreshIds (runEffects sha256 (l :: steps)))
    (hclock : (readingsOf clockReading (runEffects sha256 (l :: steps))).Pairwise (· ≥ ·))
    (hsecret : (deployment sha256).Unforeseen secretDrawn Request.presentedSecret
      (runEvents sha256 (l :: steps))) (hforward : GoesForward sha256 (l :: steps)) {i : ℕ}
    {t : RunThread} {entry : Entry Op.Answer}
    (heffect : ((deployment sha256).step (runState sha256 steps) l).2 = some (.thread i t entry))
    {uid : String} {code : CodeInput} (hissued : issuedCode entry = some (uid, code)) :
    ∃ authTime, CodeStored ((runState sha256 (l :: steps)).shared.users uid).tables code authTime ∧
      IssuedFor (runState sha256 (l :: steps)) (runEffects sha256 (l :: steps)) t.request t.log uid
        authTime entry.1 := by
  have heffects : runEffects sha256 (l :: steps) =
      .thread i t entry :: runEffects sha256 steps := by
    rw [runEffects_cons, heffect]
    rfl
  have hmoves := run_moves sha256 steps l
  rw [heffect] at hmoves
  generalize hafter : runState sha256 (l :: steps) = after at hmoves
  cases hmoves with
  | thread _ _ _ w prog hi next permitted performed =>
    have ht' : ⟨t.request, entry :: t.log, prog⟩ ∈ (runState sha256 (l :: steps)).threads := by
      rw [hafter]
      exact List.mem_of_getElem? (List.getElem?_set_self (List.getElem?_eq_some_iff.mp hi).1)
    have proves := System.log_permitted (deployment_proves sha256) .fresh (l :: steps) _ ht' entry
      t.log (List.suffix_refl _)
    have hshared : (runState sha256 (l :: steps)).shared = w := by rw [hafter]
    rw [← hafter, hshared]
    rcases issuedCode_cases hissued with ⟨input, f, rfl, hcode⟩ | ⟨input, a, rfl, hout, hcode⟩
    · obtain ⟨hreply, hobject⟩ := object_of_performed performed
      have hok := Reply.login.inj hreply
      refine ⟨input.session.context.authTime, ?_, ?_⟩
      · rw [hobject]
        exact finalizeLogin_stored hok hcode
      · exact issuedFor_of_login hfresh hclock hsecret ht' (List.subset_cons_self _ _) permitted
          proves
    · obtain ⟨hreply, hobject⟩ := object_of_performed performed
      have hok := Reply.authorize.inj hreply
      refine ⟨a.session.authTime, ?_, ?_⟩
      · rw [hobject]
        exact authorizeWithSession_stored hok hout hcode
      · rw [heffects]
        exact issuedFor_of_authorized hfresh.earlier hforward.2 (List.mem_of_getElem? hi) proves i
          hok hout _

namespace Sample

def iz : String := "CCCCCCCCCCCCCCCCCCCCCCCCCCCCCCCCCCCCCCCCCCC"

def iw : String := "DDDDDDDDDDDDDDDDDDDDDDDDDDDDDDDDDDDDDDDDDDD"

/-- The world outside at `now`, with the next interaction id and the next secret. -/
def oracleOf (id : String) (now : ℤ) (secretHash : Bytes) : Oracle :=
  Function.update (oracleAt now secretHash) .newInteractionId id

/-- A request that arrives and makes its first `n` calls at `now`. -/
def servedAt (i n : ℕ) (id : String) (now : ℤ) (secretHash : Bytes) (q : Request) : List Step :=
  .spawn q :: List.replicate n (.step i (oracleOf id now secretHash))

/-- An authorization request with one more parameter. -/
def asking (clientId name value : String) (cookie : SessionCookie) : Request :=
  .authorize (some ⟨⟨fun param => if param = name then some value else params param,
    fun _ => none⟩, some clientId, none, false⟩) cookie

def bound (id : String) (secretHash : Bytes) : ApiRequest :=
  ⟨id, some "https://login.test", none, some ⟨id, secretHash⟩⟩

def signIn (i : ℕ) (id : String) (secretHash : Bytes) (now : ℤ) : List Step :=
  servedAt i 7 id now [] (.passkeyOptions (bound id secretHash)) ++
    servedAt (i + 1) 11 id now [] (.passkeyVerify (bound id secretHash) false
      (some ⟨"c", some "u1"⟩))

def completion (id : String) (secretHash : Bytes) (cookie : SessionCookie) : Request :=
  .complete id (some ⟨id, secretHash⟩) cookie

def session (secretHash : Bytes) : SessionCookie := .presented (some ⟨"u1", "s1", secretHash⟩)

/-- The user signs in at 0. -/
def firstLogin : List Step :=
  user "u1" ++ servedAt 0 6 ix 0 [1] (asking "portal" "prompt" "login" .absent) ++
    signIn 1 ix [1] 0 ++ servedAt 3 10 ix 1 [2] (completion ix [1] .absent)

/-- The request with a `max_age` of 15 comes at 10, and consent is all that is missing. -/
def recent : List Step :=
  (firstLogin ++ servedAt 4 8 iw 10 [6] (asking "app" "max_age" "15" (session [2])) ++
    servedAt 5 7 iw 11 [] (.consent (bound iw [6]) (some (.grant ["openid"]))) ++
    servedAt 6 6 iw 12 [8] (completion iw [6] (session [2]))).reverse

/-- Of two more logins at 20 and 40 the older one is completed last, between a request at 50 with a
`max_age` of 15 and its consent. -/
def setBack : List Step :=
  (firstLogin ++ servedAt 4 8 iy 10 [3] (asking "portal" "prompt" "login" (session [2])) ++
    signIn 5 iy [3] 20 ++
    servedAt 7 8 iz 30 [4] (asking "portal" "prompt" "login" (session [2])) ++
    signIn 8 iz [4] 40 ++ servedAt 10 9 iz 45 [5] (completion iz [4] (session [2])) ++
    servedAt 11 8 iw 50 [6] (asking "app" "max_age" "15" (session [5])) ++
    servedAt 12 9 iy 55 [7] (completion iy [3] (session [5])) ++
    servedAt 13 7 iw 56 [] (.consent (bound iw [6]) (some (.grant ["openid"]))) ++
    servedAt 14 6 iw 57 [8] (completion iw [6] (session [7]))).reverse

/-- The call that issues the code. -/
def lastStep (i : ℕ) (now : ℤ) : Step := .step i (oracleOf iw now [8])

theorem recent_run :
    FreshIds (runEffects User.Sample.sha256 (lastStep 6 12 :: recent)) ∧
      (readingsOf clockReading (runEffects User.Sample.sha256 (lastStep 6 12 :: recent))).Pairwise
        (· ≥ ·) ∧
      (deployment User.Sample.sha256).Unforeseen secretDrawn Request.presentedSecret
        (runEvents User.Sample.sha256 (lastStep 6 12 :: recent)) ∧
      GoesForward User.Sample.sha256 (lastStep 6 12 :: recent) := by
  decide +kernel

theorem setBack_run :
    FreshIds (runEffects User.Sample.sha256 (lastStep 14 57 :: setBack)) ∧
      (readingsOf clockReading (runEffects User.Sample.sha256 (lastStep 14 57 :: setBack))).Pairwise
        (· ≥ ·) ∧
      (deployment User.Sample.sha256).Unforeseen secretDrawn Request.presentedSecret
        (runEvents User.Sample.sha256 (lastStep 14 57 :: setBack)) := by
  decide +kernel

/-- The step of a thread that issues a code. -/
theorem exists_issued {steps : List Step} {i : ℕ} {oracle : Oracle} {uid : String} {hash : Bytes}
    (h : (((deployment User.Sample.sha256).step (runState User.Sample.sha256 steps)
      (.step i oracle)).2.bind fun effect => issuedCode effect.entry).map
        (fun x => (x.1, x.2.secretHash)) = some (uid, hash)) :
    ∃ t entry code, (runState User.Sample.sha256 steps).threads[i]? = some t ∧
      ((deployment User.Sample.sha256).step (runState User.Sample.sha256 steps)
        (.step i oracle)).2 = some (.thread i t entry) ∧
      issuedCode entry = some (uid, code) ∧ code.secretHash = hash := by
  rcases (deployment User.Sample.sha256).step_turn (runState User.Sample.sha256 steps) i oracle with
    ⟨hidle, -⟩ | ⟨t, op, next, hi, -, hstep⟩
  · rw [hidle] at h
    cases h
  · rw [hstep] at h ⊢
    obtain ⟨⟨uid', code⟩, hissued, hsame⟩ := Option.map_eq_some_iff.mp h
    cases hsame
    exact ⟨t, _, code, hi, rfl, hissued, rfl⟩

theorem recent_issues : (((deployment User.Sample.sha256).step
    (runState User.Sample.sha256 recent) (lastStep 6 12)).2.bind fun effect =>
      issuedCode effect.entry).map (fun x => (x.1, x.2.secretHash)) = some ("u1", [8]) := by
  decide +kernel

theorem setBack_issues : (((deployment User.Sample.sha256).step
    (runState User.Sample.sha256 setBack) (lastStep 14 57)).2.bind fun effect =>
      issuedCode effect.entry).map (fun x => (x.1, x.2.secretHash)) = some ("u1", [8]) := by
  decide +kernel

/-- The completion of the interaction that asked for a login within 15 stores a code whose login
was at 20, for a request that was accepted at 50. -/
theorem setBack_stores :
    ((runState User.Sample.sha256 setBack).threads[14]?.map fun t => t.request.behalf) =
        some (some iw) ∧
      ((runState User.Sample.sha256 setBack).threads[14]?.map fun t =>
        t.request.presents.isSome) = some true ∧
      (acceptances iw (runEffects User.Sample.sha256 (lastStep 14 57 :: setBack))).map
        (fun a => (a.start, a.request.map fun r => (r.prompt.contains .login, r.maxAge),
          a.presented.map (·.authTime))) = [(50, some (false, some 15), some 40)] ∧
      ∀ row ∈ ((runState User.Sample.sha256 (lastStep 14 57 :: setBack)).shared.users
        "u1").tables.authCodes.rows, row.secretHash = [8] → row.authTime = 20 := by
  decide +kernel

end Sample

/-- The code of a request with a `max_age`, on the session that only consent was missing for. -/
theorem codes_honour_request_sample :
    (FreshIds (runEffects User.Sample.sha256 (Sample.lastStep 6 12 :: Sample.recent)) ∧
      (readingsOf clockReading (runEffects User.Sample.sha256
        (Sample.lastStep 6 12 :: Sample.recent))).Pairwise (· ≥ ·) ∧
      (deployment User.Sample.sha256).Unforeseen secretDrawn Request.presentedSecret
        (runEvents User.Sample.sha256 (Sample.lastStep 6 12 :: Sample.recent)) ∧
      GoesForward User.Sample.sha256 (Sample.lastStep 6 12 :: Sample.recent)) ∧
    ∃ t entry code, ((deployment User.Sample.sha256).step
        (runState User.Sample.sha256 Sample.recent) (Sample.lastStep 6 12)).2 =
          some (.thread 6 t entry) ∧ issuedCode entry = some ("u1", code) ∧
      ∃ authTime, CodeStored ((runState User.Sample.sha256
          (Sample.lastStep 6 12 :: Sample.recent)).shared.users "u1").tables code authTime ∧
        IssuedFor (runState User.Sample.sha256 (Sample.lastStep 6 12 :: Sample.recent))
          (runEffects User.Sample.sha256 (Sample.lastStep 6 12 :: Sample.recent)) t.request t.log
          "u1" authTime entry.1 := by
  obtain ⟨hfresh, hclock, hsecret, hforward⟩ := Sample.recent_run
  obtain ⟨t, entry, code, -, heffect, hissued, -⟩ := Sample.exists_issued Sample.recent_issues
  exact ⟨⟨hfresh, hclock, hsecret, hforward⟩, t, entry, code, heffect, hissued,
    codes_honour_request _ _ _ hfresh hclock hsecret hforward heffect hissued⟩

/-- The older login is completed last, and the code says that the user authenticated longer ago
than the request accepts. -/
theorem max_age_exceeded :
    ¬ ∀ (l : Step) (steps : List Step), FreshIds (runEffects User.Sample.sha256 (l :: steps)) →
      (readingsOf clockReading (runEffects User.Sample.sha256 (l :: steps))).Pairwise (· ≥ ·) →
      (deployment User.Sample.sha256).Unforeseen secretDrawn Request.presentedSecret
        (runEvents User.Sample.sha256 (l :: steps)) →
      ∀ i t entry uid code, ((deployment User.Sample.sha256).step
          (runState User.Sample.sha256 steps) l).2 = some (.thread i t entry) →
        issuedCode entry = some (uid, code) → ∃ authTime,
          CodeStored ((runState User.Sample.sha256 (l :: steps)).shared.users uid).tables code
            authTime ∧
          IssuedFor (runState User.Sample.sha256 (l :: steps))
            (runEffects User.Sample.sha256 (l :: steps)) t.request t.log uid authTime entry.1 := by
  intro hall
  obtain ⟨hfresh, hclock, hsecret⟩ := Sample.setBack_run
  obtain ⟨t, entry, code, hi, heffect, hissued, hhash⟩ := Sample.exists_issued Sample.setBack_issues
  obtain ⟨hbehalf, hpresents, haccepted, hrows⟩ := Sample.setBack_stores
  rw [hi] at hbehalf hpresents
  obtain ⟨authTime, ⟨row, hrow, hsecretHash, htime⟩, hfor⟩ :=
    hall _ _ hfresh hclock hsecret 14 t entry "u1" code heffect hissued
  have htwenty : authTime = 20 := htime ▸ hrows row hrow (hsecretHash.trans hhash)
  subst htwenty
  generalize entry.1 = op at hfor
  cases hfor with
  | hit ref client request settings now secretHash evaluates requested good =>
    obtain ⟨params, cookie, hq⟩ := evaluates.authorize
    rw [Option.map_some, hq] at hpresents
    cases hpresents
  | interaction op id behalf a accepted honoured =>
    have hid : id = Sample.iw := Option.some.inj (behalf.symm.trans (Option.some.inj hbehalf))
    subst hid
    rw [accepted] at haccepted
    obtain ⟨start, request, presented⟩ := a
    simp only [List.map_cons, List.map_nil, List.cons.injEq, Prod.mk.injEq, and_true,
      Option.map_eq_some_iff] at haccepted
    obtain ⟨rfl, ⟨request, rfl, hprompt, hage⟩, session, rfl, hsession⟩ := haccepted
    have hunforced : ¬ Acceptance.Forced ⟨50, some request, some session⟩ := by
      rintro ⟨request', hsame, hprompt' | ⟨age, session', hage', hsession', hstale⟩⟩
      · cases hsame
        rw [hprompt] at hprompt'
        cases hprompt'
      · cases hsame
        cases hsession'
        cases hage.symm.trans hage'
        rw [hsession] at hstale
        exact absurd hstale (by simp)
    rcases honoured.recent hunforced request 15 rfl hage with hrecent | hlater
    · exact absurd hrecent (by simp)
    · exact absurd hlater (by simp)

end TinyOidc.Interaction
