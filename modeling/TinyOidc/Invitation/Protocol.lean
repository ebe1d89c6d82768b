import TinyOidc.Invitation.Requests

/-! What the requests that touch invitations keep to: a row is written under an id and a secret
drawn right before, an attempt at the bootstrap that found itself late has withdrawn its row, and
one that succeeded made the claim. -/
namespace TinyOidc.Invitation
open RowTable Threads
open TinyOidc.User (Bytes)
open TinyOidc.Account (isValidEmail)
open TinyOidc.Admin (adminsGroup)
open TinyOidc.Client (ClientRecord)
open TinyOidc.Env (Json)
open Threads.Prog (Obeys)
open Lists (count_filterMap_cons)

abbrev InvitationLog := List (Entry InvitationOp.Answer)

abbrev InvitationThread := Thread InvitationRequest InvitationOp.Answer InvitationResponse

abbrev InvitationEffect := Effect InvitationRequest InvitationOp.Answer InvitationResponse

abbrev InvitationLabel := Label InvitationRequest InvitationOp InvitationOutside

/-- The row of an input, under the id and the secret drawn right before. -/
structure Minted (log : InvitationLog) (row : InvitationRow) : Prop where
  drawn : ∃ older : InvitationLog, log = ⟨.newSecret, row.tokenHash⟩ :: ⟨.newUuid, row.id⟩ ::
    ⟨.now, row.createdAt⟩ :: older
  unused : row.usedAt = none
  email : ∀ email, row.email = some email → isValidEmail email = true
  lifetime : row.createdAt + invitationMinTtl ≤ row.expiresAt ∧
    row.expiresAt ≤ row.createdAt + invitationMaxTtl

/-- Rows are minted; consumption, purges and settings patches are not these requests' own. -/
def InvitationPermits (_q : InvitationRequest) (log : InvitationLog) : InvitationOp → Prop
  | .insertInvitation row => Minted log row
  | .consumeInvitation _ _ _ | .deleteSpentInvitations _ | .writeSettings _ _ _ => False
  | _ => True

structure AdminInvitation (row : InvitationRow) : Prop where
  kind : row.kind = .register
  groups : row.groups = [adminsGroup]
  emailVerified : row.emailVerified = true
  expiresAt : row.expiresAt = row.createdAt + invitationDefaultTtl
  createdBy : row.createdBy = "bootstrap"

/-- An attempt that succeeded: it found no administrator, stored the invitation, and made the
claim. -/
structure Won (log : InvitationLog) (token : InvitationRef) (expiresAt : ℤ) : Prop where
  empty : ∃ admins, (⟨.countMembers admins, some 0⟩ : Entry InvitationOp.Answer) ∈ log
  invitation : ∃ row, (⟨.insertInvitation row, some ()⟩ : Entry InvitationOp.Answer) ∈ log ∧
    AdminInvitation row ∧ token = ⟨row.id, row.tokenHash⟩ ∧ expiresAt = row.expiresAt
  claimed : ∃ value actor now, (⟨.claimSetting "bootstrapped_at" value actor now, some true⟩ :
    Entry InvitationOp.Answer) ∈ log

def WithdrawnRow (log : InvitationLog) (row : InvitationRow) : Prop :=
  ∃ found older, (⟨.deleteInvitation row.id, some found⟩ : Entry InvitationOp.Answer) :: older <:+
    log ∧ (⟨.insertInvitation row, some ()⟩ : Entry InvitationOp.Answer) ∈ older

/-- Every invitation that the log stored was deleted again. -/
def Withdrawn (log : InvitationLog) : Prop :=
  ∀ row, (⟨.insertInvitation row, some ()⟩ : Entry InvitationOp.Answer) ∈ log →
    WithdrawnRow log row

structure InvitationEnds (log : InvitationLog) (response : InvitationResponse) : Prop where
  won : ∀ token loginUrl expiresAt client,
    response = .bootstrapped token loginUrl expiresAt client → Won log token expiresAt
  lost : response = bootstrapCompleted → Withdrawn log

/-! ### The handlers keep to it -/

section Protocol
variable {q : InvitationRequest} {log : InvitationLog}

structure Plain (response : InvitationResponse) : Prop where
  won : ∀ token loginUrl expiresAt client,
    response ≠ .bootstrapped token loginUrl expiresAt client
  lost : response ≠ bootstrapCompleted

theorem Plain.ends {response : InvitationResponse} (h : Plain response) :
    InvitationEnds log response where
  won token loginUrl expiresAt client heq := absurd heq (h.won token loginUrl expiresAt client)
  lost heq := absurd heq h.lost

theorem plain_error {status : ℕ} {code description : String} (h : status ≠ 410) :
    Plain (.error status code description) where
  won token loginUrl expiresAt client heq := by cases heq
  lost heq := h (InvitationResponse.error.inj heq).1

theorem plain_thrown : Plain .thrown where
  won token loginUrl expiresAt client heq := by cases heq
  lost heq := by cases heq

theorem plain_noContent : Plain .noContent where
  won token loginUrl expiresAt client heq := by cases heq
  lost heq := by cases heq

theorem plain_opened (result : OpenInvitationResult) : Plain (.opened result) where
  won token loginUrl expiresAt client heq := by cases heq
  lost heq := by cases heq

theorem plain_createdResponse (result : CreateInvitationResult) :
    Plain (createdResponse result) := by
  cases result with
  | ok invitation token => exact ⟨fun _ _ _ _ heq => (by cases heq), fun heq => by cases heq⟩
  | emailInvalid | expiresInOutOfBounds | userRequired | thrown => exact plain_error (by decide)

def Unminted (log : InvitationLog) : Prop :=
  ∀ row, (⟨.insertInvitation row, some ()⟩ : Entry InvitationOp.Answer) ∉ log

theorem Unminted.cons (h : Unminted log) {entry : Entry InvitationOp.Answer}
    (hentry : ∀ row, entry ≠ ⟨.insertInvitation row, some ()⟩) : Unminted (entry :: log) :=
  fun row hmem => (List.mem_cons.mp hmem).elim (fun heq => hentry row heq.symm) (h row)

theorem Unminted.withdrawn (h : Unminted log) : Withdrawn log :=
  fun row hmem => absurd hmem (h row)

/-- What a minting adds to the log: at most one insertion, of the row it returns. -/
structure MintEnds (input : NewInvitation) (log log' : InvitationLog)
    (result : CreateInvitationResult) : Prop where
  grown : log ⊆ log'
  row : ∀ invitation token, result = .ok invitation token →
    (∃ id hash now, invitation = invitationRow input id hash now) ∧
    token = ⟨invitation.id, invitation.tokenHash⟩ ∧
    (⟨.insertInvitation invitation, some ()⟩ : Entry InvitationOp.Answer) ∈ log' ∧
    (Unminted log → ∀ row,
      (⟨.insertInvitation row, some ()⟩ : Entry InvitationOp.Answer) ∈ log' → row = invitation)

theorem createInvitation_obeys (input : NewInvitation) :
    Obeys (InvitationPermits q) (MintEnds input log) log (createInvitation input) := by
  have hrefused : ∀ result : CreateInvitationResult,
      (∀ invitation token, result ≠ .ok invitation token) → MintEnds input log log result :=
    fun result hne => ⟨List.Subset.refl log, fun invitation token heq =>
      absurd heq (hne invitation token)⟩
  unfold createInvitation
  generalize httl : input.expiresIn.getD invitationDefaultTtl = ttl
  dsimp only
  split
  next => exact hrefused _ fun _ _ heq => by cases heq
  next hemail =>
    split
    next => exact hrefused _ fun _ _ heq => by cases heq
    next hbounds =>
      split
      next => exact hrefused _ fun _ _ heq => by cases heq
      next =>
        refine Obeys.perform trivial fun now => Obeys.perform trivial fun id => ?_
        refine Obeys.perform trivial fun hash => Obeys.perform ?_ fun inserted => ?_
        · refine ⟨⟨log, rfl⟩, rfl, fun email hsome => ?_, ?_⟩
          · have hsome : input.email.map Util.trim = some email := hsome
            rw [hsome] at hemail
            simpa using hemail
          · simp only [Bool.or_eq_true, decide_eq_true_eq, not_or, not_lt] at hbounds
            simp only [invitationRow, httl]
            omega
        · cases inserted with
          | none =>
            refine ⟨fun entry hmem => ?_, fun invitation token heq => by cases heq⟩
            iterate 4 refine List.mem_cons_of_mem _ ?_
            exact hmem
          | some answer =>
            refine ⟨fun entry hmem => ?_, fun invitation token heq => ?_⟩
            · iterate 4 refine List.mem_cons_of_mem _ ?_
              exact hmem
            · cases heq
              refine ⟨⟨id, hash, now, rfl⟩, rfl, List.mem_cons_self, fun hunminted row hmem => ?_⟩
              rcases List.mem_cons.mp hmem with heq | hmem
              · exact InvitationOp.insertInvitation.inj (Sigma.mk.inj heq).1
              · refine absurd hmem (Unminted.cons (Unminted.cons (Unminted.cons hunminted ?_) ?_)
                  ?_ row) <;>
                · intro row heq
                  cases heq

theorem adminInvitation_of_bootstrap (body : BootstrapBody) (id : String) (hash : Bytes)
    (now : ℤ) : AdminInvitation (invitationRow (bootstrapInvitation body) id hash now) where
  kind := rfl
  groups := rfl
  emailVerified := rfl
  expiresAt := rfl
  createdBy := rfl

/-- The part of an attempt after its invitation is stored. -/
theorem claimBootstrap_obeys (b : BootstrapRequest) (settings : BootstrapSettings)
    (client : ClientRecord) {invitation : InvitationRow} {token : InvitationRef} (now : ℤ)
    {admins : String} (hadmin : AdminInvitation invitation)
    (htoken : token = ⟨invitation.id, invitation.tokenHash⟩)
    (hempty : (⟨.countMembers admins, some 0⟩ : Entry InvitationOp.Answer) ∈ log)
    (hstored : (⟨.insertInvitation invitation, some ()⟩ : Entry InvitationOp.Answer) ∈ log)
    (honly : ∀ row, (⟨.insertInvitation row, some ()⟩ : Entry InvitationOp.Answer) ∈ log →
      row = invitation) :
    Obeys (InvitationPermits q) InvitationEnds log
      (claimBootstrap b settings client invitation token now) := by
  refine Obeys.perform trivial fun placed => ?_
  cases placed with
  | none => exact plain_thrown.ends
  | some placed =>
    refine Obeys.perform trivial fun claimed => ?_
    cases claimed with
    | none => exact plain_thrown.ends
    | some claimed =>
      cases claimed with
      | true =>
        refine ⟨fun token' loginUrl expiresAt client' heq => ?_, fun heq => by cases heq⟩
        cases heq
        refine ⟨⟨admins, ?_⟩, ⟨invitation, ?_, hadmin, htoken, rfl⟩, ⟨_, _, _, List.mem_cons_self⟩⟩
        · exact List.mem_cons_of_mem _ (List.mem_cons_of_mem _ hempty)
        · exact List.mem_cons_of_mem _ (List.mem_cons_of_mem _ hstored)
      | false =>
        refine Obeys.perform trivial fun deleted => ?_
        cases deleted with
        | none => exact plain_thrown.ends
        | some found =>
          refine ⟨fun _ _ _ _ heq => (by cases heq), fun _ row hmem => ?_⟩
          rcases List.mem_cons.mp hmem with heq | hbefore
          · cases heq
          have hrow : row = invitation := by
            rcases List.mem_cons.mp hbefore with heq | hmem
            · cases heq
            rcases List.mem_cons.mp hmem with heq | hmem
            · cases heq
            exact honly row hmem
          exact ⟨found, _, hrow ▸ List.suffix_refl _, hbefore⟩

/-- The calls that insert no row and are always permitted. -/
def leavesInvitations : InvitationOp → Prop
  | .insertInvitation _ | .consumeInvitation _ _ _ | .deleteSpentInvitations _
  | .writeSettings _ _ _ => False
  | _ => True

theorem invitationPermits_of_leaves (log : InvitationLog) (op : InvitationOp)
    (h : leavesInvitations op) : InvitationPermits q log op := by
  cases op with
  | insertInvitation row | consumeInvitation id usedBy now | deleteSpentInvitations cutoff
  | writeSettings entries actor now => exact h.elim
  | _ => trivial

/-- No insertion was added. -/
def KeepsUnminted (log log' : InvitationLog) : Prop := Unminted log → Unminted log'

/-- What such a program adds to its log, and how it ends. -/
structure Reads {α : Type} (ends : α → Prop) (log log' : InvitationLog) (a : α) : Prop where
  grown : log ⊆ log'
  unminted : KeepsUnminted log log'
  ends : ends a

theorem yields_obeys {α : Type} {ends : α → Prop} {p : InvitationProg α}
    (h : p.Yields leavesInvitations ends) :
    Obeys (InvitationPermits q) (Reads ends log) log p := by
  have hkeeps : Obeys (InvitationPermits q) (fun log' _ => KeepsUnminted log log') log p := by
    refine h.only.obeys_keeping invitationPermits_of_leaves (fun _ hlog => hlog) ?_
    intro log log' op r hop hgrown hlog
    refine hgrown (hlog.cons fun row heq => ?_)
    rw [(Sigma.mk.inj heq).1] at hop
    exact hop
  have hboth := (h.obeys (invitationPermits_of_leaves (q := q))).and hkeeps
  exact (hboth.growing.weaken fun _ _ hop => hop.1).mono
    fun log' a hends => ⟨hends.1, hends.2.2, hends.2.1⟩

theorem ensureAdminsGroup_leaves : ensureAdminsGroup.Only leavesInvitations := by
  refine Prog.Only.perform trivial fun found => ?_
  cases found with
  | none => trivial
  | some found =>
    cases found with
    | some id => trivial
    | none =>
      refine Prog.Only.perform trivial fun id => Prog.Only.perform trivial fun inserted => ?_
      cases inserted with
      | none => trivial
      | some _ => exact Prog.Only.perform trivial fun _ => trivial

theorem adminCliClient_yields (now : ℤ) :
    (adminCliClient now).Yields leavesInvitations
      fun result => ∀ response, result = .error response → Plain response := by
  refine Prog.Yields.perform trivial fun inserted => ?_
  cases inserted with
  | none =>
    intro response heq
    cases heq
    exact plain_thrown
  | some inserted =>
    cases inserted with
    | created =>
      intro response heq
      cases heq
    | clientExists =>
      refine Prog.Yields.perform trivial fun cached => ?_
      cases cached with
      | none =>
        intro response heq
        cases heq
        exact plain_thrown
      | some cached =>
        cases cached with
        | none =>
          intro response heq
          cases heq
          exact plain_error (by decide)
        | some client =>
          intro response heq
          cases heq

theorem bootstrapHandler_obeys (b : BootstrapRequest) :
    Obeys (InvitationPermits q) InvitationEnds [] (bootstrapHandler b) := by
  have hlate : ∀ {log : InvitationLog}, Unminted log →
      InvitationEnds log bootstrapCompleted := fun h =>
    ⟨fun _ _ _ _ heq => (by cases heq), fun _ => h.withdrawn⟩
  have hnil : Unminted [] := fun row hmem => by cases hmem
  unfold bootstrapHandler
  split
  · refine Obeys.perform trivial fun limited => ?_
    split
    · exact (plain_error (by decide)).ends
    · exact (plain_error (by decide)).ends
  · refine Obeys.perform trivial fun settings => ?_
    have hasked : Unminted [⟨.settings, settings⟩] := hnil.cons fun row heq => by cases heq
    cases settings with
    | none => exact (plain_error (by decide)).ends
    | some settings =>
      dsimp only
      split
      · exact hlate hasked
      · refine Obeys.bind ((yields_obeys ensureAdminsGroup_leaves.yields).mono
          fun log admins hensured => ?_)
        have hlog := hensured.unminted hasked
        cases admins with
        | none => exact plain_thrown.ends
        | some admins =>
          refine Obeys.perform trivial fun members => ?_
          have hcounted : Unminted (⟨.countMembers admins, members⟩ :: log) :=
            hlog.cons fun row heq => by cases heq
          cases members with
          | none => exact plain_thrown.ends
          | some members =>
            dsimp only
            split
            · exact hlate hcounted
            next hsome =>
              have hzero : members = 0 := by omega
              subst hzero
              cases b.body with
              | error description => exact (plain_error (by decide)).ends
              | ok body =>
                refine Obeys.perform trivial fun now => ?_
                have hread : Unminted (⟨.now, now⟩ :: ⟨.countMembers admins, some 0⟩ :: log) :=
                  hcounted.cons fun row heq => by cases heq
                have hfound : (⟨.countMembers admins, some 0⟩ : Entry InvitationOp.Answer) ∈
                    ⟨.now, now⟩ :: ⟨.countMembers admins, some 0⟩ :: log :=
                  List.mem_cons_of_mem _ List.mem_cons_self
                refine Obeys.bind ((yields_obeys (adminCliClient_yields now)).mono
                  fun log₁ registered hreads => ?_)
                cases registered with
                | error response => exact (hreads.ends response rfl).ends
                | ok client =>
                  have hadmin := adminInvitation_of_bootstrap body
                  -- no concrete email for the unifier to check
                  generalize bootstrapInvitation body = input at hadmin ⊢
                  refine Obeys.bind ((createInvitation_obeys input).mono
                    fun log₂ result hminted => ?_)
                  cases result with
                  | ok invitation token =>
                    obtain ⟨⟨id, hash, at', hrow⟩, htoken, hstored, honly⟩ :=
                      hminted.row invitation token rfl
                    refine claimBootstrap_obeys b settings client now
                      (hrow ▸ hadmin id hash at') htoken
                      (hminted.grown (hreads.grown hfound)) hstored (honly (hreads.unminted hread))
                  | thrown => exact plain_thrown.ends
                  | emailInvalid | expiresInOutOfBounds | userRequired =>
                    exact (plain_error (by decide)).ends

theorem createdResponse_obeys (input : NewInvitation) :
    Obeys (InvitationPermits q) InvitationEnds log
      (createInvitation input >>= fun result => pure (createdResponse result)) :=
  Obeys.bind ((createInvitation_obeys input).mono fun _ result _ =>
    (plain_createdResponse result).ends)

theorem createInvitationHandler_obeys (body : InvitationBody) (actor : String) :
    Obeys (InvitationPermits q) InvitationEnds log (createInvitationHandler body actor) := by
  have hstorage : Plain storageUnavailable := plain_error (by decide)
  refine Obeys.perform trivial fun settings => ?_
  cases settings with
  | none => exact hstorage.ends
  | some settings =>
    dsimp only
    split
    · exact createdResponse_obeys _
    · refine Obeys.perform trivial fun known => ?_
      cases known with
      | none => exact hstorage.ends
      | some known =>
        dsimp only
        split
        · exact (plain_error (by decide)).ends
        · exact createdResponse_obeys _

theorem deleteInvitationHandler_yields (id : String) :
    (deleteInvitationHandler id).Yields leavesInvitations Plain := by
  have hstorage : Plain storageUnavailable := plain_error (by decide)
  have hmissing : Plain invitationNotFound := plain_error (by decide)
  refine Prog.Yields.perform trivial fun found => ?_
  cases found with
  | none => exact hstorage
  | some found =>
    cases found with
    | none => exact hmissing
    | some row =>
      refine Prog.Yields.perform trivial fun deleted => ?_
      cases deleted with
      | none => exact hstorage
      | some deleted =>
        cases deleted with
        | false => exact hmissing
        | true => exact plain_noContent

theorem openInvitation_leaves (token : Option InvitationRef) (now : ℤ) :
    (openInvitation token now).Only leavesInvitations := by
  cases token with
  | none => trivial
  | some ref =>
    refine Prog.Only.perform trivial fun found => ?_
    cases found with
    | none => trivial
    | some found =>
      cases found with
      | none => trivial
      | some row =>
        dsimp only
        split
        · trivial
        split
        · trivial
        split <;> trivial

end Protocol

theorem invitations_obey (q : InvitationRequest) :
    (invitations.start q).Obeys (InvitationPermits q) InvitationEnds [] := by
  cases q with
  | bootstrap b => exact bootstrapHandler_obeys b
  | create body actor => exact createInvitationHandler_obeys body actor
  | recover userId expiresIn actor => exact createdResponse_obeys _
  | delete id =>
    exact (yields_obeys (deleteInvitationHandler_yields id)).mono fun _ _ h => h.ends.ends
  | «open» token now =>
    exact Obeys.bind ((yields_obeys (openInvitation_leaves token now).yields).mono
      fun _ result _ => (plain_opened result).ends)

theorem invitations_follow : invitations.Follows InvitationPermits :=
  fun q => (invitations_obey q).mono fun _ _ _ => trivial

/-! ### Rows -/

def Uses (op : InvitationOp) (row row' : InvitationRow) : Prop :=
  ∃ id usedBy now, op = .consumeInvitation id usedBy now ∧
    InvitationRow.consumable id now row = true ∧
    row' = { row with usedAt := some now, usedByUserId := some usedBy }

theorem Uses.id_eq {op : InvitationOp} {row row' : InvitationRow} (h : Uses op row row') :
    row'.id = row.id := by
  obtain ⟨id, usedBy, now, -, -, rfl⟩ := h
  rfl

theorem mem_deliver {α : Type} {delivery : Delivery} {s : InvitationStore}
    {result : InvitationStore × α} {row : InvitationRow}
    (h : row ∈ (delivery.deliver s result).1.invitations.rows) :
    row ∈ s.invitations.rows ∨ row ∈ result.1.invitations.rows := by
  rw [Delivery.deliver_state] at h
  split at h
  · exact .inr h
  · exact .inl h

theorem mem_insertInvitation {s s' : InvitationStore} {row row' : InvitationRow}
    (h : s.insertInvitation row = some s') (hmem : row' ∈ s'.invitations.rows) :
    row' ∈ s.invitations.rows ∨ row' = row := by
  unfold InvitationStore.insertInvitation at h
  cases hinsert : s.invitations.insert row with
  | none =>
    rw [hinsert] at h
    cases h
  | some invitations =>
    rw [hinsert] at h
    dsimp only at h
    split at h
    · cases h
      exact (Table.mem_insert hinsert).mp hmem
    · cases h

/-- A row after a statement was there, was marked as used, or is the one inserted. -/
theorem row_of_exec {s : InvitationStore} {outside : InvitationOutside} {op : InvitationOp}
    {row' : InvitationRow} (h : row' ∈ (invitations.exec s outside op).1.invitations.rows) :
    row' ∈ s.invitations.rows ∨ (∃ row ∈ s.invitations.rows, Uses op row row') ∨
      op = .insertInvitation row' := by
  have hdeleted : ∀ gone : InvitationRow → Bool,
      row' ∈ (s.keepInvitations gone).invitations.rows → row' ∈ s.invitations.rows :=
    fun gone hmem => Table.deleteWhere_subset hmem
  cases op with
  | insertInvitation row =>
    have hexec : invitations.exec s outside (.insertInvitation row) =
        execInvitation s outside (.insertInvitation row) := rfl
    simp only [hexec, execInvitation] at h
    split at h
    · exact .inl h
    · next s' hinsert =>
      refine (mem_deliver h).elim .inl fun hmem => ?_
      rcases mem_insertInvitation hinsert hmem with hmem | rfl
      · exact .inl hmem
      · exact .inr (.inr rfl)
  | getInvitation id => exact .inl ((mem_deliver h).elim (fun hmem => hmem) fun hmem => hmem)
  | consumeInvitation id usedBy now =>
    refine (mem_deliver h).elim .inl fun hmem => ?_
    obtain ⟨row, hrow, ⟨-, rfl⟩ | ⟨hconsumable, rfl⟩⟩ := Table.exists_of_mem_update hmem
    · exact .inl hrow
    · exact .inr (.inl ⟨row, hrow, id, usedBy, now, rfl, hconsumable, rfl⟩)
  | deleteInvitation id => exact .inl ((mem_deliver h).elim (fun hmem => hmem) (hdeleted _))
  | deleteSpentInvitations cutoff =>
    exact .inl ((mem_deliver h).elim (fun hmem => hmem) (hdeleted _))
  | claimSetting key value actor now =>
    refine .inl ((mem_deliver h).elim (fun hmem => hmem) fun hmem => ?_)
    unfold InvitationStore.claimSetting at hmem
    split at hmem <;> exact hmem
  | writeSettings entries actor now =>
    exact .inl ((mem_deliver h).elim (fun hmem => hmem) fun hmem => hmem)
  | _ => exact .inl h

/-- A row that is not there comes by an insertion only. -/
theorem absent_exec {s : InvitationStore} {x : String}
    (habsent : ∀ row ∈ s.invitations.rows, row.id ≠ x) (outside : InvitationOutside)
    (op : InvitationOp) (h : ∀ row, op = .insertInvitation row → row.id ≠ x) :
    ∀ row ∈ (invitations.exec s outside op).1.invitations.rows, row.id ≠ x := by
  intro row' hrow'
  rcases row_of_exec hrow' with hrow | ⟨row, hrow, huses⟩ | hinserted
  · exact habsent row' hrow
  · rw [huses.id_eq]
    exact habsent row hrow
  · exact h row' hinserted

/-! ### Ids -/

def drawnId : Entry InvitationOp.Answer → Option String
  | ⟨.newUuid, id⟩ => some id
  | _ => none

def insertedId (_log : InvitationLog) : Entry InvitationOp.Answer → Option String
  | ⟨.insertInvitation row, _⟩ => some row.id
  | _ => none

/-- The id a request has drawn and not used yet. -/
def pendingId : InvitationLog → Option String
  | ⟨.newUuid, id⟩ :: _ => some id
  | ⟨.newSecret, _⟩ :: older => pendingId older
  | _ => none

def heldId (x : String) (log : InvitationLog) : ℕ := if pendingId log = some x then 1 else 0

theorem heldId_step (q : InvitationRequest) (log : InvitationLog)
    (entry : Entry InvitationOp.Answer) (x : String) (h : InvitationPermits q log entry.1) :
    (insertedId log entry).toList.count x + heldId x (entry :: log) ≤
      heldId x log + (drawnId entry).toList.count x := by
  obtain ⟨op, answer⟩ := entry
  cases op with
  | newUuid => by_cases hx : answer = x <;> simp [insertedId, heldId, pendingId, drawnId, hx]
  | newSecret => exact (Nat.zero_add _).le
  | insertInvitation row =>
    obtain ⟨older, rfl⟩ := h.drawn
    by_cases hx : row.id = x <;> simp [insertedId, heldId, pendingId, drawnId, hx]
  | _ => simp [insertedId, heldId, pendingId, drawnId]

/-- Ids are UUIDs: none is drawn twice, or drawn when an invitation had it at the start. -/
structure FreshIds (s : InvitationStore) (effects : List InvitationEffect) : Prop where
  nodup : (drawnIn drawnId effects).Nodup
  unstored : ∀ row ∈ s.invitations.rows, row.id ∉ drawnIn drawnId effects

instance (s : InvitationStore) (effects : List InvitationEffect) :
    Decidable (FreshIds s effects) :=
  decidable_of_iff ((drawnIn drawnId effects).Nodup ∧
    ∀ row ∈ s.invitations.rows, row.id ∉ drawnIn drawnId effects)
    ⟨fun h => ⟨h.1, h.2⟩, fun h => ⟨h.nodup, h.unstored⟩⟩

/-- The id of a row of the start, or of an insertion of the run. -/
def KnownId (s : InvitationStore) (effects : List InvitationEffect) (x : String) : Prop :=
  (∃ row ∈ s.invitations.rows, row.id = x) ∨ x ∈ usedIn insertedId effects

theorem KnownId.cons {s : InvitationStore} {effects : List InvitationEffect} {x : String}
    (h : KnownId s effects x) (e : InvitationEffect) : KnownId s (e :: effects) x := by
  refine h.imp_right fun hmem => ?_
  obtain ⟨e', he', hused⟩ := List.mem_filterMap.mp hmem
  exact List.mem_filterMap.mpr ⟨e', List.mem_cons_of_mem _ he', hused⟩

theorem knownId_of_inserted {s : InvitationStore} {effects : List InvitationEffect}
    {e : InvitationEffect} {x : String} (h : insertedId e.log e.entry = some x) :
    KnownId s (e :: effects) x :=
  .inr (List.mem_filterMap.mpr ⟨e, List.mem_cons_self, h⟩)

theorem FreshIds.tail {s : InvitationStore} {l : InvitationLabel} {labels : List InvitationLabel}
    (h : FreshIds s (invitations.effects s (l :: labels))) :
    FreshIds s (invitations.effects s labels) := by
  have hcons : invitations.effects s (l :: labels) =
      (invitations.step (invitations.after s labels) l).2.toList ++
        invitations.effects s labels := System.effectsFrom_cons ..
  rw [hcons] at h
  refine ⟨?_, fun row hrow hmem => h.unstored row hrow ?_⟩
  · have hnodup := h.nodup
    rw [drawnIn, List.filterMap_append] at hnodup
    exact hnodup.of_append_right
  · rw [drawnIn, List.filterMap_append]
    exact List.mem_append_right _ hmem

/-- An insertion uses an id that no row of the start and no earlier insertion had. -/
theorem not_knownId_of_inserted {s : InvitationStore} {l : InvitationLabel}
    {labels : List InvitationLabel} {e : InvitationEffect} {x : String}
    (hfresh : FreshIds s (invitations.effects s (l :: labels)))
    (heffect : (invitations.step (invitations.after s labels) l).2 = some e)
    (hused : insertedId e.log e.entry = some x) :
    ¬ KnownId s (invitations.effects s labels) x := by
  have hle := System.used_le_drawn drawnId insertedId heldId invitations_follow (fun _ => rfl)
    heldId_step (fun entry hout => ?_) s (l :: labels) x
  · have hcons : invitations.effects s (l :: labels) = e :: invitations.effects s labels := by
      rw [System.effects, System.effectsFrom_cons]
      exact congrArg (·.toList ++ _) heffect
    have hone : (usedIn insertedId (invitations.effects s (l :: labels))).count x =
        1 + (usedIn insertedId (invitations.effects s labels)).count x := by
      rw [hcons, usedIn, count_filterMap_cons, hused]
      simp [usedIn]
    rintro (⟨row, hrow, rfl⟩ | hknown)
    · refine hfresh.unstored row hrow (List.count_pos_iff.mp ?_)
      omega
    · have hcount := List.count_pos_iff.mpr hknown
      have honce := List.nodup_iff_count_le_one.mp hfresh.nodup x
      omega
  · obtain ⟨op, answer⟩ := entry
    cases op with
    | insertInvitation row => cases hout
    | _ => rfl

end TinyOidc.Invitation
