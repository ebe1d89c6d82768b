import TinyOidc.Interaction.Runs
import TinyOidc.Interaction.WriteProtocol

/-! Account creation while registration is closed. The federation callback refuses it in that
mode; `register/options` refuses it without an invitation, which it takes in every mode, and
`register/verify` asks for the draft only. So the requests create an account from an invitation
to register, and in no other way. -/
namespace TinyOidc.Interaction
open TinyOidc.User Threads
open Threads.Prog (Obeys)

/-- Calls that create an account: the claim of its row, the initialization of its object. -/
def createsAccount : Op → Bool
  | .ask (.claimUser _ _) => true
  | .user _ (.init _ _ _) => true
  | _ => false

/-- The settings as a request read them, when they do not close registration. -/
def readsUnclosed : Entry Op.Answer → Bool
  | ⟨.ask .settings, some settings⟩ => settings.registrationMode != .closed
  | _ => false

def opensRegister : Entry Op.Answer → Bool
  | ⟨.ask (.openInvitation _ _), .ok row⟩ => row.kind == .register
  | _ => false

/-- Every reading of the settings found registration closed. -/
def StaysClosed (effects : List RunEffect) : Prop :=
  ∀ effect ∈ effects, readsUnclosed effect.entry = false

instance (effects : List RunEffect) : Decidable (StaysClosed effects) :=
  inferInstanceAs (Decidable (∀ effect ∈ effects, readsUnclosed effect.entry = false))

def createdByRequest : RunEffect → Bool
  | .thread _ _ entry => createsAccount entry.1
  | .outside _ => false

def DraftsAccount (d : InteractionDocument) : Prop :=
  ∃ draft, d.registration = some draft ∧ draft.kind = .register

/-- A `register/options` of the interaction was shown an invitation to register. -/
def Invited (effects : List RunEffect) (id : String) : Prop :=
  ∃ i r body log prog entry, r.id = id ∧ opensRegister entry = true ∧
    Effect.thread i ⟨.registerOptions r body, log, prog⟩ entry ∈ effects

/-- Where the draft of an account comes from in the closed mode: from before, or an invitation. -/
def Begun (w : World) (effects : List RunEffect) (id : String) : Prop :=
  (∃ d, w.doc id = some d ∧ DraftsAccount d) ∨ Invited effects id

theorem Begun.mono {w : World} {effects effects' : List RunEffect} {id : String}
    (h : Begun w effects id) (hsub : effects ⊆ effects') : Begun w effects' id := by
  rcases h with hbefore | ⟨i, r, body, log, prog, entry, hid, hopens, hmem⟩
  · exact .inl hbefore
  · exact .inr ⟨i, r, body, log, prog, entry, hid, hopens, hsub hmem⟩

/-! ### One call -/

/-- No transition of a handler touches the draft. -/
theorem Applies.keeps_registration {q : Request} {log : Log} {id : String}
    {operation : InteractionOperation} {target : InteractionStatus} {patch : TransitionPatch}
    (h : Applies q log id operation target patch) : patch.registration = none := by
  cases h <;> rfl

/-- A draft that is stored after a call was stored before, or the call was a patch with it. -/
theorem draft_of_performed {sha256 : String → Bytes} {q : Request} {log : Log} {w w' : World}
    {entry : Entry Op.Answer} (permitted : Permits q log entry.1)
    (performed : Performed sha256 w w' entry) {id : String} {d' : InteractionDocument}
    (hd' : w'.doc id = some d') (hdrafts : DraftsAccount d') :
    (∃ d, w.doc id = some d ∧ DraftsAccount d) ∨
      ∃ fields now draft, entry.1 = .interaction id (.patch fields now) ∧
        fields.registration = some (some draft) ∧ draft.kind = .register := by
  cases performed with
  | asked question oracle => exact .inl ⟨d', hd', hdrafts⟩
  | onUser uid call => exact .inl ⟨d', hd', hdrafts⟩
  | onInteraction id' call o answer answered =>
    by_cases hne : id = id'
    · subst hne
      have hdoc : o.doc = some d' := by simpa [World.doc] using hd'
      cases answered with
      | refused _ e => exact .inl ⟨d', hdoc, hdrafts⟩
      | created input now ttlSeconds alarmAt absent =>
        cases hdoc
        obtain ⟨draft, hdraft, -⟩ := hdrafts
        cases hdraft
      | read now d stored => exact .inl ⟨d', hdoc, hdrafts⟩
      | claimedPushed clientId bindingHash now ttlSeconds alarmAt d stored pushed unclaimed
          client =>
        cases hdoc
        exact .inl ⟨d, stored, hdrafts⟩
      | applied operation target patch now alarmAt d stored allowed =>
        cases hdoc
        have happlies : Applies q log id operation target patch := permitted
        have hsame : (d.transition target patch now).registration = d.registration := by
          simp [InteractionDocument.transition, InteractionDocument.patched,
            happlies.keeps_registration]
        rw [DraftsAccount, hsame] at hdrafts
        exact .inl ⟨d, stored, hdrafts⟩
      | claimedCompletion now alarmAt d stored status unclaimed =>
        cases hdoc
        exact .inl ⟨d, stored, hdrafts⟩
      | consumedFederation stateHash now alarmAt d leg stored status pending =>
        cases hdoc
        exact .inl ⟨d, stored, hdrafts⟩
      | patched fields now alarmAt d stored live =>
        cases hdoc
        obtain ⟨draft, hdraft, hkind⟩ := hdrafts
        cases hfields : fields.registration with
        | none =>
          have hsame : (d.patched fields).registration = d.registration := by
            simp [InteractionDocument.patched, hfields]
          exact .inl ⟨d, stored, draft, hsame ▸ hdraft, hkind⟩
        | some registration =>
          have hnew : registration = some draft := by
            simpa [InteractionDocument.patched, hfields] using hdraft
          exact .inr ⟨fields, now, draft, rfl, by rw [hfields, hnew], hkind⟩
      | attempted now limit alarmAt d stored live =>
        cases hdoc
        exact .inl ⟨d, stored, hdrafts⟩
      | exhausted now limit alarmAt d stored live =>
        cases hdoc
        exact .inl ⟨d, stored, hdrafts⟩
      | early now => exact .inl ⟨d', hdoc, hdrafts⟩
      | expired now => cases hdoc
    · have hdoc : w.doc id = some d' := by
        simpa [World.doc, Function.update_of_ne hne] using hd'
      exact .inl ⟨d', hdoc, hdrafts⟩

/-! ### Runs -/

section Runs

variable {sha256 : String → Bytes} {w : World} {steps : List Step}

/-- In the closed mode no request has read another one. -/
theorem not_readMode (hclosed : StaysClosed ((deployment sha256).effects w steps))
    {modes : RegistrationMode → Prop} (hmodes : ∀ mode, modes mode → mode ≠ .closed) {t : RunThread}
    (ht : t ∈ ((deployment sha256).after w steps).threads) : ¬ ReadMode modes t.log := by
  rintro ⟨settings, hmode, hread⟩
  obtain ⟨e, he, i, t₀, hreply, -⟩ :=
    (deployment sha256).exists_event_of_mem_log w steps t ht _ hread
  have hunread := hclosed _ (List.mem_filterMap.mpr ⟨e, he, hreply⟩)
  simp [readsUnclosed, hmodes _ hmode] at hunread

/-- What a request may draft in the closed mode, it drafts from an invitation. -/
theorem invited_of_mayDraft (hclosed : StaysClosed ((deployment sha256).effects w steps))
    {t : RunThread} (ht : t ∈ ((deployment sha256).after w steps).threads) {id : String}
    (h : MayDraft t.request id t.log) : Invited ((deployment sha256).effects w steps) id := by
  rcases h with hmode | ⟨⟨r, body, hrequest, hid⟩, token, now, row, hkind, hread⟩
  · refine absurd hmode (not_readMode hclosed ?_ ht)
    rintro mode rfl
    decide
  · obtain ⟨e, he, i, ⟨request, log, prog⟩, hreply, hsame⟩ :=
      (deployment sha256).exists_event_of_mem_log w steps t ht _ hread
    obtain rfl : request = .registerOptions r body := hsame.trans hrequest
    exact ⟨i, r, body, log, prog, _, hid, by simp [opensRegister, hkind],
      List.mem_filterMap.mpr ⟨e, he, hreply⟩⟩

/-- Everything a run in the closed mode drafts or creates comes from an invitation, or from a
draft that was there before. -/
structure ByInvitation (w : World) (c : RunConfig) (effects : List RunEffect) : Prop where
  stored : ∀ id d, c.shared.doc id = some d → DraftsAccount d → Begun w effects id
  read : ∀ t ∈ c.threads, ∀ id now d, (⟨.interaction id (.get now), .ok d⟩ : Entry Op.Answer) ∈
    t.log → DraftsAccount d → Begun w effects id
  created : ∀ i t entry, Effect.thread i t entry ∈ effects → createsAccount entry.1 = true →
    ∃ r malformed name, t.request = .registerVerify r malformed name ∧ Begun w effects r.id

/-- An account is created on the permission to create one. -/
theorem mayCreate_of_createsAccount {q : Request} {log : Log} {op : Op} (writes : Writes q log op)
    (h : createsAccount op = true) : MayCreate q log := by
  cases op with
  | interaction id call => cases h
  | ask question =>
    cases question with
    | claimUser user now => exact writes
    | _ => cases h
  | user uid call =>
    cases call with
    | init p now identities => exact writes
    | _ => cases h

/-- The call of a request in the closed mode. -/
theorem ByInvitation.thread (hclosed : StaysClosed ((deployment sha256).effects w steps))
    (h : ByInvitation w ((deployment sha256).after w steps) ((deployment sha256).effects w steps))
    {i : ℕ} {t : RunThread} {entry : Entry Op.Answer} {w' : World} (prog : Handler Response)
    (hi : ((deployment sha256).after w steps).threads[i]? = some t)
    (permitted : Permits t.request t.log entry.1) (writes : Writes t.request t.log entry.1)
    (performed : Performed sha256 ((deployment sha256).after w steps).shared w' entry) :
    ByInvitation w
      ⟨w', ((deployment sha256).after w steps).threads.set i ⟨t.request, entry :: t.log, prog⟩⟩
      (.thread i t entry :: (deployment sha256).effects w steps) := by
  have ht := List.mem_of_getElem? hi
  have hsub := List.subset_cons_self (Effect.thread i t entry) ((deployment sha256).effects w steps)
  constructor
  · intro id d hd hdrafts
    rcases draft_of_performed permitted performed hd hdrafts with
      ⟨d₀, hd₀, hdrafts₀⟩ | ⟨fields, now, draft, hentry, hfields, hkind⟩
    · exact (h.stored id d₀ hd₀ hdrafts₀).mono hsub
    · rw [hentry] at writes
      have hinvited := invited_of_mayDraft hclosed ht (writes draft hfields hkind)
      exact Begun.mono (.inr hinvited) hsub
  · intro t' ht' id now d hread hdrafts
    rcases List.mem_or_eq_of_mem_set ht' with ht' | rfl
    · exact (h.read t' ht' id now d hread hdrafts).mono hsub
    · rcases List.mem_cons.mp hread with rfl | hread
      · exact (h.stored id d (doc_of_get_performed performed) hdrafts).mono hsub
      · exact (h.read t ht id now d hread hdrafts).mono hsub
  · intro j t' entry' hmem hcreates
    rcases List.mem_cons.mp hmem with heq | hmem
    · cases heq
      rcases mayCreate_of_createsAccount writes hcreates with
        hmode | ⟨r, malformed, name, hrequest, now, d, draft, hdraft, hkind, hread⟩
      · exact absurd hmode (not_readMode hclosed (fun _ => id) ht)
      · exact ⟨r, malformed, name, hrequest,
          (h.read t ht r.id now d hread ⟨draft, hdraft, hkind⟩).mono hsub⟩
    · obtain ⟨r, malformed, name, hrequest, hbegun⟩ := h.created j t' entry' hmem hcreates
      exact ⟨r, malformed, name, hrequest, hbegun.mono hsub⟩

theorem ByInvitation.outside
    (h : ByInvitation w ((deployment sha256).after w steps) ((deployment sha256).effects w steps))
    {entry : Entry Op.Answer} {w' : World} (hop : outsideOp entry.1 = true)
    (performed : Performed sha256 ((deployment sha256).after w steps).shared w' entry) :
    ByInvitation w ⟨w', ((deployment sha256).after w steps).threads⟩
      (.outside entry :: (deployment sha256).effects w steps) := by
  have hsub := List.subset_cons_self (Effect.outside entry : RunEffect)
    ((deployment sha256).effects w steps)
  constructor
  · intro id d hd hdrafts
    rcases doc_of_outside hop performed id with hdoc | hdoc
    · exact (h.stored id d (hdoc ▸ hd) hdrafts).mono hsub
    · rw [show w'.doc id = some d from hd] at hdoc
      cases hdoc
  · intro t ht id now d hread hdrafts
    exact (h.read t ht id now d hread hdrafts).mono hsub
  · intro j t entry' hmem hcreates
    rcases List.mem_cons.mp hmem with heq | hmem
    · cases heq
    · obtain ⟨r, malformed, name, hrequest, hbegun⟩ := h.created j t entry' hmem hcreates
      exact ⟨r, malformed, name, hrequest, hbegun.mono hsub⟩

end Runs

theorem byInvitation_run (sha256 : String → Bytes) (w : World) (steps : List Step)
    (hclosed : StaysClosed ((deployment sha256).effects w steps)) :
    ByInvitation w ((deployment sha256).after w steps) ((deployment sha256).effects w steps) := by
  refine System.run_invariant ((deployment_follows sha256).and (deployment_writes sha256))
    (s := w) (C := fun steps => StaysClosed ((deployment sha256).effects w steps))
    (J := ByInvitation w) ?_ ?_ ?_ ?_ ?_ steps hclosed
  · intro l steps hC effect heffect
    rw [System.effects, System.effectsFrom_cons] at hC
    exact hC effect (List.mem_append_right _ heffect)
  · constructor
    · intro id d hd hdrafts
      exact .inl ⟨d, hd, hdrafts⟩
    · intro t ht
      cases ht
    · intro i t entry hmem
      cases hmem
  · intro steps q h
    refine ⟨h.stored, fun t ht => ?_, h.created⟩
    rcases List.mem_append.mp ht with ht | ht
    · exact h.read t ht
    · rw [List.mem_singleton.mp ht]
      intro id now d hread
      cases hread
  · intro steps i t op answer prog hC _ h hi _ hop
    rw [System.effects, System.effectsFrom_cons] at hC
    refine ByInvitation.thread ?_ h prog hi hop.1 hop.2 (exec_performed sha256 _ answer op)
    exact fun effect heffect => hC effect (List.mem_append_right _ heffect)
  · intro steps op answer h hop
    have houtside : outsideOp op = true := hop
    have hperformed := exec_performed sha256 ((deployment sha256).after w steps).shared answer op
    exact h.outside houtside hperformed

/-- While registration is closed, the requests create an account only by `register/verify`, on an
interaction whose registration was begun with an invitation to register, or before. -/
theorem created_while_closed (sha256 : String → Bytes) (w : World) (steps : List Step)
    (hclosed : StaysClosed ((deployment sha256).effects w steps)) (i : ℕ) (t : RunThread)
    (entry : Entry Op.Answer)
    (hmem : Effect.thread i t entry ∈ (deployment sha256).effects w steps)
    (hcreates : createsAccount entry.1 = true) :
    ∃ r malformed name, t.request = .registerVerify r malformed name ∧
      Begun w ((deployment sha256).effects w steps) r.id :=
  (byInvitation_run sha256 w steps hclosed).created i t entry hmem hcreates

/-! ### An invitation while registration is closed -/

namespace Sample

/-- The outside of a closed deployment, where every token opens as an invitation of `kind`. -/
def inviting (kind : RegistrationKind) : Oracle
  | .openInvitation _ _ => .ok ⟨"i1", kind, some "u1", none, false, none, [], 100, none⟩
  | .verifyRegistration _ => .ok ⟨"c1", [], 0, 0, [], none, false, false⟩
  | question => oracle ix question

/-- An authorization request whose user registers with an invitation, oldest step first. -/
def invitedRegistration (kind : RegistrationKind) : List Step :=
  (.spawn (authorize "app" .absent) :: List.replicate 14 (.step 0 (inviting kind))) ++
    (.spawn (.registerOptions (api ix) (some ⟨some "token", none, none⟩)) ::
      List.replicate 14 (.step 1 (inviting kind))) ++
    (.spawn (.registerVerify (api ix) false none) ::
      List.replicate 14 (.step 2 (inviting kind)))

end Sample

/-- Closed, says every reading of the mode, and an invitation creates an account all the same. -/
theorem closed_creates_invited :
    ¬ ∀ steps : List Step, StaysClosed ((deployment fun _ => []).effects .fresh steps) →
      ∀ effect ∈ (deployment fun _ => []).effects .fresh steps,
        createdByRequest effect = false := by
  intro h
  have hclosed : StaysClosed ((deployment fun _ => []).effects .fresh
      (Sample.invitedRegistration .register).reverse) := by decide +kernel
  have hcreated : ¬ ∀ effect ∈ (deployment fun _ => []).effects .fresh
      (Sample.invitedRegistration .register).reverse, createdByRequest effect = false := by
    decide +kernel
  exact hcreated (h _ hclosed)

/-- The account that was created there is one whose registration an invitation began. -/
theorem created_while_closed_sample :
    StaysClosed ((deployment fun _ => []).effects .fresh
        (Sample.invitedRegistration .register).reverse) ∧
      ∃ i t entry, Effect.thread i t entry ∈ (deployment fun _ => []).effects .fresh
          (Sample.invitedRegistration .register).reverse ∧ createsAccount entry.1 = true ∧
        ∃ r malformed name, t.request = .registerVerify r malformed name ∧
          Begun .fresh ((deployment fun _ => []).effects .fresh
            (Sample.invitedRegistration .register).reverse) r.id := by
  have hclosed : StaysClosed ((deployment fun _ => []).effects .fresh
      (Sample.invitedRegistration .register).reverse) := by decide +kernel
  have hcreated : ∃ effect ∈ (deployment fun _ => []).effects .fresh
      (Sample.invitedRegistration .register).reverse, createdByRequest effect = true := by
    decide +kernel
  refine ⟨hclosed, ?_⟩
  obtain ⟨effect, hmem, hcreates⟩ := hcreated
  cases effect with
  | outside entry => cases hcreates
  | thread i t entry =>
    exact ⟨i, t, entry, hmem, hcreates,
      created_while_closed _ _ _ hclosed i t entry hmem hcreates⟩

end TinyOidc.Interaction
