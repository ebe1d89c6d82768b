import TinyOidc.Interaction.Runs
import TinyOidc.Interaction.WriteProtocol

/-! Who an interaction is about. The completion of a ready interaction and its consent page take
the user, or the session the interaction started from, for granted; here is why some request
has always established them before. -/
namespace TinyOidc.Interaction
open TinyOidc.User Threads
open Threads.Prog (Obeys)

/-- The user of an interaction is known where the handlers rely on it. -/
structure Grounded (d : InteractionDocument) : Prop where
  ready : d.status = .ready → d.auth ≠ none ∨ d.existingSession ≠ none ∧ d.consent ≠ none
  consentRequired : d.status = .consentRequired → d.auth ≠ none ∨ d.existingSession ≠ none

/-- Nothing relies on the user before a login, and nothing after the end. -/
theorem Grounded.of_status {d : InteractionDocument} (hready : d.status ≠ .ready)
    (hconsent : d.status ≠ .consentRequired) : Grounded d where
  ready h := absurd h hready
  consentRequired h := absurd h hconsent

theorem Grounded.of_auth {d : InteractionDocument} (h : d.auth ≠ none) : Grounded d where
  ready _ := .inl h
  consentRequired _ := .inl h

theorem Grounded.of_start {d : InteractionDocument} (h : StartsAt d.status d.existingSession) :
    Grounded d := by
  rcases h with hstatus | hstatus | ⟨hstatus, hsession⟩
  · exact .of_status (by simp [hstatus]) (by simp [hstatus])
  · exact .of_status (by simp [hstatus]) (by simp [hstatus])
  · exact ⟨fun hready => by simp [hstatus] at hready, fun _ => .inr hsession⟩

theorem Grounded.of_same {d d' : InteractionDocument} (h : Grounded d) (same : SameCourse d d') :
    Grounded d' := by
  constructor
  · intro hready
    rw [same.auth, same.existingSession, same.consent]
    exact h.ready (same.status ▸ hready)
  · intro hconsent
    rw [same.auth, same.existingSession]
    exact h.consentRequired (same.status ▸ hconsent)

/-- The user a grounded document is about. -/
theorem Grounded.uid_of_consentRequired {d : InteractionDocument} (h : Grounded d)
    (hstatus : d.status = .consentRequired) : ∃ uid, interactionUid d = some uid := by
  unfold interactionUid
  cases hauth : d.auth with
  | some auth => exact ⟨auth.uid, rfl⟩
  | none =>
    have hsession := (h.consentRequired hstatus).resolve_left (by simp [hauth])
    obtain ⟨session, hsession⟩ := Option.ne_none_iff_exists'.mp hsession
    exact ⟨session.uid, by simp [hsession]⟩

/-- What a completion goes on with: the user who logged in, or the session consent was given on. -/
theorem Grounded.user_of_ready {d : InteractionDocument} (h : Grounded d)
    (hstatus : d.status = .ready) :
    (∃ auth, d.auth = some auth) ∨
      ∃ session scopes, d.existingSession = some session ∧ d.consent = some scopes := by
  rcases h.ready hstatus with hauth | ⟨hsession, hconsent⟩
  · exact .inl (Option.ne_none_iff_exists'.mp hauth)
  · obtain ⟨session, hsession⟩ := Option.ne_none_iff_exists'.mp hsession
    obtain ⟨scopes, hconsent⟩ := Option.ne_none_iff_exists'.mp hconsent
    exact .inr ⟨session, scopes, hsession, hconsent⟩

section Move

variable {q : Request} {log : Log} {id : String}

/-- No transition makes a document ready, or asks for its consent, without its user. -/
theorem Grounded.transition {operation : InteractionOperation} {target : InteractionStatus}
    {patch : TransitionPatch} {d : InteractionDocument} (now : ℤ)
    (permitted : canTransition d.status operation target = true)
    (applies : Applies q log id operation target patch)
    (writes : operation = .consumePar → target = .completed ∨
      ∃ existing, patch.existingSession = some existing ∧ StartsAt target existing)
    (hkind : ∀ d₀, Seen log id d₀ → d.kind = d₀.kind) (hauthorize : d.kind ≠ .logout)
    (h : Grounded d) : Grounded (d.transition target patch now) := by
  cases applies with
  | failed operation error description d₀ seen => exact .of_status (by rintro ⟨⟩) (by rintro ⟨⟩)
  | linked link d₀ seen => exact .of_status (by rintro ⟨⟩) (by rintro ⟨⟩)
  | authenticated operation hop target auth d₀ seen clientId client hclient record htarget =>
    exact .of_auth (by simp [InteractionDocument.transition])
  | consented d₀ seen uid huid clientId client hclient record scopes now' granted hgrant =>
    have hstatus := consentRequired_of_canTransition permitted
    refine ⟨fun _ => ?_, by rintro ⟨⟩⟩
    rcases h.consentRequired hstatus with hauth | hsession
    · exact .inl (by simpa [InteractionDocument.transition] using hauth)
    · exact .inr ⟨by simpa [InteractionDocument.transition] using hsession,
        by simp [InteractionDocument.transition]⟩
  | decided logout d₀ seen hlogout => exact absurd ((hkind d₀ seen).trans hlogout) hauthorize
  | parFailed error description hq holding => exact .of_status (by rintro ⟨⟩) (by rintro ⟨⟩)
  | parTaken target existing hq holding =>
    rcases writes rfl with hcompleted | ⟨existing', hpatch, hstart⟩
    · subst hcompleted
      exact .of_status (by rintro ⟨⟩) (by rintro ⟨⟩)
    · have hexisting : existing = existing' := by simpa using hpatch
      subst hexisting
      exact .of_start (by simpa [InteractionDocument.transition] using hstart)
  | parCompleted => exact .of_status (by rintro ⟨⟩) (by rintro ⟨⟩)
  | restarted hq holding => exact .of_status (by rintro ⟨⟩) (by rintro ⟨⟩)
  | completed => exact .of_status (by rintro ⟨⟩) (by rintro ⟨⟩)

/-- What the call of a request keeps of a stored document. -/
theorem Grounded.move {entry : Entry Op.Answer} {d d' : InteractionDocument}
    (hmove : DocMove q log id entry (some d) (some d')) (writes : Writes q log entry.1)
    (hkind : ∀ d₀, Seen log id d₀ → d.kind = d₀.kind) (h : d.kind ≠ .logout → Grounded d)
    (hauthorize : d'.kind ≠ .logout) : Grounded d' := by
  generalize hx : some d = x at hmove
  generalize hy : some d' = y at hmove
  cases hmove with
  | kept entry x htakes hcreated =>
    cases hx.trans hy.symm
    exact h hauthorize
  | created input now ttlSeconds pending => cases hx
  | claimedPushed clientId bindingHash now ttlSeconds d₁ claimed pushed unclaimed hq hlog
      hclaimed =>
    cases hx
    cases hy
    subst hclaimed
    exact .of_status (by simp [pushed]) (by simp [pushed])
  | applied operation target patch now d₁ permitted applies =>
    cases hx
    cases hy
    exact (h hauthorize).transition now permitted applies writes hkind hauthorize
  | claimedCompletion now d₁ status unclaimed hq hlog =>
    cases hx
    cases hy
    exact ⟨(h hauthorize).ready, (h hauthorize).consentRequired⟩
  | touched entry d₁ d₂ same htakes hcreated =>
    cases hx
    cases hy
    exact (h (same.kind ▸ hauthorize)).of_same same
  | exhausted now limit d₁ d₂ seen live =>
    cases hx
    cases hy
    exact .of_status nofun nofun

end Move

/-- Every stored document, and every document a request has read, is grounded. -/
structure AllGrounded (c : RunConfig) : Prop where
  stored : ∀ id d, c.shared.doc id = some d → d.kind ≠ .logout → Grounded d
  read : ∀ t ∈ c.threads, ∀ id now d, (⟨.interaction id (.get now), .ok d⟩ : Entry Op.Answer) ∈
    t.log → d.kind ≠ .logout → Grounded d

section Steps

variable {sha256 : String → Bytes} {steps : List Step}

/-- The call of a request keeps every document grounded. -/
theorem AllGrounded.thread (hfresh : FreshIds (runEffects sha256 steps))
    (h : AllGrounded (runState sha256 steps)) {i : ℕ} {t : RunThread} {entry : Entry Op.Answer}
    {w : World} (prog : Handler Response) (hi : (runState sha256 steps).threads[i]? = some t)
    (permitted : Permits t.request t.log entry.1) (writes : Writes t.request t.log entry.1)
    (performed : Performed sha256 (runState sha256 steps).shared w entry) :
    AllGrounded ⟨w, (runState sha256 steps).threads.set i ⟨t.request, entry :: t.log, prog⟩⟩ := by
  have ht := List.mem_of_getElem? hi
  constructor
  · intro id d hd hauthorize
    have hmove := docMove_of_performed permitted performed id
    rw [show w.doc id = some d from hd] at hmove
    cases hx : (runState sha256 steps).shared.doc id with
    | some d₁ =>
      rw [hx] at hmove
      refine Grounded.move hmove writes ?_ (h.stored id d₁ hx) hauthorize
      exact fun d₀ hseen => ((tracks_of_seen hfresh ht hseen).later d₁ hx).kind
    | none =>
      rw [hx] at hmove
      cases hmove with
      | created input now ttlSeconds pending => exact .of_start writes
  · intro t' ht' id now d hread hauthorize
    rcases List.mem_or_eq_of_mem_set ht' with ht' | rfl
    · exact h.read t' ht' id now d hread hauthorize
    · rcases List.mem_cons.mp hread with rfl | hread
      · exact h.stored id d (doc_of_get_performed performed) hauthorize
      · exact h.read t ht id now d hread hauthorize

theorem AllGrounded.outside (h : AllGrounded (runState sha256 steps)) {entry : Entry Op.Answer}
    {w : World} (hop : outsideOp entry.1 = true)
    (performed : Performed sha256 (runState sha256 steps).shared w entry) :
    AllGrounded ⟨w, (runState sha256 steps).threads⟩ := by
  refine ⟨fun id d hd hauthorize => ?_, h.read⟩
  rcases doc_of_outside hop performed id with hdoc | hdoc
  · exact h.stored id d (hdoc ▸ hd) hauthorize
  · rw [show w.doc id = some d from hd] at hdoc
    cases hdoc

end Steps

theorem allGrounded_run {sha256 : String → Bytes} (steps : List Step)
    (hfresh : FreshIds (runEffects sha256 steps)) : AllGrounded (runState sha256 steps) := by
  refine System.run_invariant ((deployment_follows sha256).and (deployment_writes sha256))
    (C := fun steps => FreshIds (runEffects sha256 steps)) (J := fun c _ => AllGrounded c)
    (fun _ _ => FreshIds.earlier) ?_ ?_ ?_ ?_ steps hfresh
  · constructor
    · intro id d hd
      cases hd
    · intro t ht
      cases ht
  · intro steps q h
    refine ⟨h.stored, fun t ht => ?_⟩
    rcases List.mem_append.mp ht with ht | ht
    · exact h.read t ht
    · rw [List.mem_singleton.mp ht]
      intro id now d hread
      cases hread
  · intro steps i t op answer prog hfresh _ h hi _ hop
    exact h.thread hfresh.earlier prog hi hop.1 hop.2 (exec_performed sha256 _ answer op)
  · intro steps op answer h hop
    have hperformed := exec_performed sha256 (runState sha256 steps).shared answer op
    have houtside : outsideOp op = true := hop
    exact h.outside houtside hperformed

/-- An interaction that is ready, or asks for consent, has its user; so has every document a
completion or a consent has read. -/
theorem ready_has_user (sha256 : String → Bytes) (steps : List Step)
    (hfresh : FreshIds (runEffects sha256 steps)) :
    (∀ id d, (runState sha256 steps).shared.doc id = some d → d.kind ≠ .logout →
      (d.status = .ready → d.auth ≠ none ∨ d.existingSession ≠ none ∧ d.consent ≠ none) ∧
        (d.status = .consentRequired → d.auth ≠ none ∨ d.existingSession ≠ none)) ∧
    ∀ t ∈ (runState sha256 steps).threads, ∀ id now d,
      (⟨.interaction id (.get now), .ok d⟩ : Entry Op.Answer) ∈ t.log → d.kind ≠ .logout →
      (d.status = .ready → (∃ auth, d.auth = some auth) ∨
        ∃ session scopes, d.existingSession = some session ∧ d.consent = some scopes) ∧
        (d.status = .consentRequired → ∃ uid, interactionUid d = some uid) := by
  have h := allGrounded_run steps hfresh
  constructor
  · intro id d hd hauthorize
    have hgrounded := h.stored id d hd hauthorize
    exact ⟨hgrounded.ready, hgrounded.consentRequired⟩
  · intro t ht id now d hread hauthorize
    have hgrounded := h.read t ht id now d hread hauthorize
    exact ⟨hgrounded.user_of_ready, hgrounded.uid_of_consentRequired⟩

/-- A login and the consent after it leave an interaction that is ready, with its user. -/
theorem ready_has_user_sample :
    FreshIds (runEffects (fun _ => []) Sample.ready.reverse) ∧
      ((∀ id d, (runState (fun _ => []) Sample.ready.reverse).shared.doc id = some d →
          d.kind ≠ .logout →
          (d.status = .ready → d.auth ≠ none ∨ d.existingSession ≠ none ∧ d.consent ≠ none) ∧
            (d.status = .consentRequired → d.auth ≠ none ∨ d.existingSession ≠ none)) ∧
        ∀ t ∈ (runState (fun _ => []) Sample.ready.reverse).threads, ∀ id now d,
          (⟨.interaction id (.get now), .ok d⟩ : Entry Op.Answer) ∈ t.log → d.kind ≠ .logout →
          (d.status = .ready → (∃ auth, d.auth = some auth) ∨
            ∃ session scopes, d.existingSession = some session ∧ d.consent = some scopes) ∧
            (d.status = .consentRequired → ∃ uid, interactionUid d = some uid)) := by
  have hfresh : FreshIds (runEffects (fun _ => []) Sample.ready.reverse) := by decide +kernel
  exact ⟨hfresh, ready_has_user _ _ hfresh⟩

end TinyOidc.Interaction
