import TinyOidc.Invitation.Protocol

/-! Invitations over whole runs: a stored row is one that was minted, up to the mark of its use; an
id is consumed once; and a token opens the row whose secret it carries, never after its use. -/
namespace TinyOidc.Invitation
open RowTable Threads
open TinyOidc.User (Bytes)
open Threads.Prog (Obeys)

abbrev InvitationConfig :=
  Config InvitationRequest InvitationStore InvitationOp.Answer InvitationResponse

/-- The rows differ at most in the mark of use. -/
def SameInvitation (row₀ row : InvitationRow) : Prop :=
  row = { row₀ with usedAt := row.usedAt, usedByUserId := row.usedByUserId }

theorem SameInvitation.refl (row : InvitationRow) : SameInvitation row row := rfl

theorem SameInvitation.uses {op : InvitationOp} {row₀ row row' : InvitationRow}
    (h : SameInvitation row₀ row) (huses : Uses op row row') : SameInvitation row₀ row' := by
  obtain ⟨id, usedBy, now, -, -, rfl⟩ := huses
  unfold SameInvitation at h ⊢
  rw [h]

/-- The row was there at the start, or a request minted it. -/
def Origin (s : InvitationStore) (threads : List InvitationThread) (row : InvitationRow) : Prop :=
  ∃ row₀, SameInvitation row₀ row ∧ (row₀ ∈ s.invitations.rows ∨
    ∃ t ∈ threads, ∃ older answer, (⟨.insertInvitation row₀, answer⟩ :
      Entry InvitationOp.Answer) :: older <:+ t.log ∧ Minted older row₀)

theorem Origin.grown {s : InvitationStore} {c c' : InvitationConfig} {row : InvitationRow}
    (h : Origin s c.threads row) (hgrows : c.Grows c') : Origin s c'.threads row := by
  obtain ⟨row₀, hsame, hstart | ⟨t, ht, older, answer, hsuffix, hminted⟩⟩ := h
  · exact ⟨row₀, hsame, .inl hstart⟩
  · obtain ⟨t', ht', -, hgrown⟩ := hgrows t ht
    exact ⟨row₀, hsame, .inr ⟨t', ht', older, answer, hsuffix.trans hgrown, hminted⟩⟩

def consumedId : Entry InvitationOp.Answer → Option String
  | ⟨.consumeInvitation id _ _, some true⟩ => some id
  | _ => none

def consumptions (effects : List InvitationEffect) : List String :=
  effects.filterMap fun e => consumedId e.entry

def readOpen : Entry InvitationOp.Answer → Option String
  | ⟨.getInvitation id, some (some row)⟩ => if row.usedAt = none then some id else none
  | _ => none

/-- No unused row is read once its id has been consumed. -/
def ReadsBeforeUse : List InvitationEffect → Prop
  | [] => True
  | e :: older => (∀ id, readOpen e.entry = some id → id ∉ consumptions older) ∧
      ReadsBeforeUse older

structure InvitationsKept (s : InvitationStore) (c : InvitationConfig)
    (effects : List InvitationEffect) : Prop where
  stored : ∀ row ∈ c.shared.invitations.rows,
    KnownId s effects row.id ∧ Origin s c.threads row
  read : ∀ t ∈ c.threads, ∀ id row,
    (⟨.getInvitation id, some (some row)⟩ : Entry InvitationOp.Answer) ∈ t.log →
      row.id = id ∧ Origin s c.threads row
  consumed : ∀ id ∈ consumptions effects, KnownId s effects id ∧
    ∀ row ∈ c.shared.invitations.rows, row.id = id → row.usedAt.isSome
  once : (consumptions effects).Nodup
  reads : ReadsBeforeUse effects

/-- A granted consumption finds an unused row, and leaves it used. -/
theorem consume_granted {s : InvitationStore} {outside : InvitationOutside} {id usedBy : String}
    {now : ℤ}
    (h : (invitations.exec s outside (.consumeInvitation id usedBy now)).2 = some true) :
    (∃ row ∈ s.invitations.rows, row.id = id ∧ row.usedAt = none ∧ now < row.expiresAt) ∧
    ∀ row ∈ (invitations.exec s outside (.consumeInvitation id usedBy now)).1.invitations.rows,
      row.id = id → row.usedAt = some now ∧ row.usedByUserId = some usedBy := by
  change (outside.delivery.deliver s (s.consumeInvitation id usedBy now)).2 = some true at h
  change _ ∧ ∀ row ∈ (outside.delivery.deliver s
    (s.consumeInvitation id usedBy now)).1.invitations.rows, _
  cases hdelivery : outside.delivery with
  | throws applied =>
    rw [hdelivery] at h
    cases h
  | answers =>
    rw [hdelivery] at h
    have hany : s.invitations.rows.any (InvitationRow.consumable id now) = true :=
      Option.some.inj h
    obtain ⟨row, hrow, hconsumable⟩ := List.any_eq_true.mp hany
    have hparts := hconsumable
    simp only [InvitationRow.consumable, Bool.and_eq_true, beq_iff_eq, Option.isNone_iff_eq_none,
      decide_eq_true_eq] at hparts
    refine ⟨⟨row, hrow, hparts.1.1, hparts.1.2, hparts.2⟩, fun row' hrow' hid => ?_⟩
    obtain ⟨old, hold, ⟨hspared, rfl⟩ | ⟨-, rfl⟩⟩ := Table.exists_of_mem_update hrow'
    · have hsame : row = row' :=
        Table.eq_of_key_eq hrow hold (hparts.1.1.trans hid.symm)
      rw [← hsame, hconsumable] at hspared
      cases hspared
    · exact ⟨rfl, rfl⟩

/-- A row that is used stays used. -/
theorem used_exec {s : InvitationStore} {outside : InvitationOutside} {op : InvitationOp}
    {id : String} (hused : ∀ row ∈ s.invitations.rows, row.id = id → row.usedAt.isSome)
    (h : ∀ row, op = .insertInvitation row → row.id ≠ id) :
    ∀ row ∈ (invitations.exec s outside op).1.invitations.rows, row.id = id →
      row.usedAt.isSome := by
  intro row' hrow' hid
  rcases row_of_exec hrow' with hrow | ⟨row, hrow, huses⟩ | hinserted
  · exact hused row' hrow hid
  · obtain ⟨_, _, now, -, -, rfl⟩ := huses
    rfl
  · exact absurd hid (h row' hinserted)

theorem read_exec {s : InvitationStore} {outside : InvitationOutside} {id : String}
    {row : InvitationRow}
    (h : (invitations.exec s outside (.getInvitation id)).2 = some (some row)) :
    row ∈ s.invitations.rows ∧ row.id = id :=
  Table.find_eq_some.mp (Delivery.deliver_answer outside.delivery s (s, s.getInvitation id) h)

theorem consumedId_eq_some {entry : Entry InvitationOp.Answer} {id : String}
    (h : consumedId entry = some id) :
    ∃ usedBy now, entry = ⟨.consumeInvitation id usedBy now, some true⟩ := by
  obtain ⟨op, answer⟩ := entry
  cases op with
  | consumeInvitation id' usedBy now =>
    cases answer with
    | none => cases h
    | some granted =>
      cases granted with
      | false => cases h
      | true =>
        cases h
        exact ⟨usedBy, now, rfl⟩
  | _ => cases h

theorem readOpen_eq_some {entry : Entry InvitationOp.Answer} {id : String}
    (h : readOpen entry = some id) :
    ∃ row, entry = ⟨.getInvitation id, some (some row)⟩ ∧ row.usedAt = none := by
  obtain ⟨op, answer⟩ := entry
  cases op with
  | getInvitation id' =>
    cases answer with
    | none => cases h
    | some found =>
      cases found with
      | none => cases h
      | some row =>
        change (if row.usedAt = none then some id' else none) = some id at h
        split at h
        next hunused =>
          cases h
          exact ⟨row, rfl, hunused⟩
        · cases h
  | _ => cases h

/-! ### Whole runs -/

section Step
variable {s : InvitationStore} {c c' : InvitationConfig} {effects : List InvitationEffect}
  {e : InvitationEffect} {op : InvitationOp}

/-- One call, by a request or by others: an insertion takes a new id, and the rest of the threads
stay as they are. -/
theorem InvitationsKept.step (h : InvitationsKept s c effects) (outside : InvitationOutside)
    (hentry : e.entry = ⟨op, (invitations.exec c.shared outside op).2⟩)
    (hshared : c'.shared = (invitations.exec c.shared outside op).1) (hgrows : c.Grows c')
    (hinsert : ∀ row, op = .insertInvitation row → ¬ KnownId s effects row.id ∧
      KnownId s (e :: effects) row.id ∧ Origin s c'.threads row)
    (hlogs : ∀ t' ∈ c'.threads, ∀ entry ∈ t'.log,
      (∃ t ∈ c.threads, entry ∈ t.log) ∨ entry = e.entry) :
    InvitationsKept s c' (e :: effects) where
  stored row' hrow' := by
    rw [hshared] at hrow'
    rcases row_of_exec hrow' with hrow | ⟨row, hrow, huses⟩ | hinserted
    · obtain ⟨hknown, horigin⟩ := h.stored row' hrow
      exact ⟨hknown.cons e, horigin.grown hgrows⟩
    · obtain ⟨hknown, horigin⟩ := h.stored row hrow
      obtain ⟨row₀, hsame, hfrom⟩ := horigin.grown hgrows
      exact ⟨huses.id_eq ▸ hknown.cons e, row₀, hsame.uses huses, hfrom⟩
    · exact (hinsert row' hinserted).2
  read t' ht' id row hmem := by
    rcases hlogs t' ht' _ hmem with ⟨t, ht, hmem⟩ | heq
    · obtain ⟨hid, horigin⟩ := h.read t ht id row hmem
      exact ⟨hid, horigin.grown hgrows⟩
    · obtain ⟨rfl, hanswer⟩ := Sigma.mk.inj (heq.trans hentry)
      obtain ⟨hrow, hid⟩ := read_exec (eq_of_heq hanswer).symm
      exact ⟨hid, (h.stored row hrow).2.grown hgrows⟩
  consumed id hmem := by
    rw [hshared]
    rw [consumptions, List.mem_filterMap] at hmem
    obtain ⟨e', he', hconsumed⟩ := hmem
    rcases List.mem_cons.mp he' with rfl | he'
    · obtain ⟨usedBy, now, heq⟩ := consumedId_eq_some hconsumed
      obtain ⟨rfl, hanswer⟩ := Sigma.mk.inj (hentry.symm.trans heq)
      obtain ⟨⟨row, hrow, hid, -⟩, hafter⟩ := consume_granted (eq_of_heq hanswer)
      refine ⟨hid ▸ (h.stored row hrow).1.cons _, fun row' hrow' hid' => ?_⟩
      rw [(hafter row' hrow' hid').1]
      rfl
    · obtain ⟨hknown, hused⟩ := h.consumed id (List.mem_filterMap.mpr ⟨e', he', hconsumed⟩)
      refine ⟨hknown.cons e, used_exec hused fun row heq hid => ?_⟩
      exact (hinsert row heq).1 (hid ▸ hknown)
  once := by
    rw [consumptions, List.filterMap_cons]
    cases hconsumed : consumedId e.entry with
    | none => exact h.once
    | some id =>
      refine List.nodup_cons.mpr ⟨fun hmem => ?_, h.once⟩
      obtain ⟨usedBy, now, heq⟩ := consumedId_eq_some hconsumed
      obtain ⟨rfl, hanswer⟩ := Sigma.mk.inj (hentry.symm.trans heq)
      obtain ⟨⟨row, hrow, hid, hunused, -⟩, -⟩ := consume_granted (eq_of_heq hanswer)
      have hused := (h.consumed id hmem).2 row hrow hid
      rw [hunused] at hused
      cases hused
  reads := by
    refine ⟨fun id hopen hmem => ?_, h.reads⟩
    obtain ⟨row, heq, hunused⟩ := readOpen_eq_some hopen
    obtain ⟨rfl, hanswer⟩ := Sigma.mk.inj (hentry.symm.trans heq)
    obtain ⟨hrow, hid⟩ := read_exec (eq_of_heq hanswer)
    have hused := (h.consumed id hmem).2 row hrow hid
    rw [hunused] at hused
    cases hused

end Step

theorem invitations_kept (s : InvitationStore) (labels : List InvitationLabel)
    (hfresh : FreshIds s (invitations.effects s labels)) :
    InvitationsKept s (invitations.after s labels) (invitations.effects s labels) := by
  refine System.run_invariant invitations_follow
    (C := fun labels => FreshIds s (invitations.effects s labels)) (fun _ _ h => h.tail)
    (J := InvitationsKept s) ?_ ?_ ?_ ?_ labels hfresh
  · refine ⟨fun row hrow => ?_, fun t ht => (by cases ht), fun id hmem => (by cases hmem),
      List.nodup_nil, trivial⟩
    exact ⟨.inl ⟨row, hrow, rfl⟩, row, .refl row, .inl hrow⟩
  · intro labels q hJ
    have hgrows := Config.grows_append (invitations.after s labels)
      (invitations.after s labels).shared [⟨q, [], invitations.start q⟩]
    refine ⟨fun row hrow => ?_, fun t ht id row hmem => ?_, hJ.consumed, hJ.once, hJ.reads⟩
    · obtain ⟨hknown, horigin⟩ := hJ.stored row hrow
      exact ⟨hknown, horigin.grown hgrows⟩
    · rcases List.mem_append.mp ht with ht | ht
      · obtain ⟨hid, horigin⟩ := hJ.read t ht id row hmem
        exact ⟨hid, horigin.grown hgrows⟩
      · rw [List.mem_singleton.mp ht] at hmem
        cases hmem
  · intro labels i t op outside prog hfresh heffect hJ hi _ hpermits
    have ht := List.mem_of_getElem? hi
    refine hJ.step outside rfl rfl (Config.grows_called hi _ _ prog) ?_ ?_
    · rintro row rfl
      have hlen := (List.getElem?_eq_some_iff.mp hi).1
      exact ⟨not_knownId_of_inserted hfresh heffect rfl, knownId_of_inserted rfl,
        row, .refl row, .inr ⟨_, List.mem_set hlen _, t.log, _, List.suffix_refl _, hpermits⟩⟩
    · intro t' ht' entry hmem
      rcases List.mem_or_eq_of_mem_set ht' with ht' | rfl
      · exact .inl ⟨t', ht', hmem⟩
      · rcases List.mem_cons.mp hmem with heq | hmem
        · exact .inr heq
        · exact .inl ⟨t, ht, hmem⟩
  · intro labels op outside hJ hop
    refine hJ.step outside rfl rfl (Config.grows_shared _ _) ?_ ?_
    · rintro row rfl
      cases hop
    · exact fun t ht entry hmem => .inl ⟨t, ht, hmem⟩

/-! ### Tokens -/

/-- What the answer to a presented token rests on. -/
def OpenEnds (q : InvitationRequest) (log : InvitationLog) (response : InvitationResponse) : Prop :=
  ∀ ref now row, q = .open (some ref) now → response = .opened (.ok row) →
    (⟨.getInvitation ref.invitationId, some (some row)⟩ : Entry InvitationOp.Answer) ∈ log ∧
    row.tokenHash = ref.secretHash ∧ row.usedAt = none ∧ now < row.expiresAt

theorem openInvitation_opens (ref : InvitationRef) (now : ℤ) (log : InvitationLog) :
    Obeys (fun _ _ => True) (fun log result => ∀ row, result = .ok row →
      (⟨.getInvitation ref.invitationId, some (some row)⟩ : Entry InvitationOp.Answer) ∈ log ∧
      row.tokenHash = ref.secretHash ∧ row.usedAt = none ∧ now < row.expiresAt) log
      (openInvitation (some ref) now) := by
  refine Obeys.perform trivial fun found => ?_
  cases found with
  | none => exact fun row heq => by cases heq
  | some found =>
    cases found with
    | none => exact fun row heq => by cases heq
    | some invitation =>
      dsimp only
      split
      · exact fun row heq => by cases heq
      next hhash =>
        split
        · exact fun row heq => by cases heq
        next hused =>
          split
          · exact fun row heq => by cases heq
          next hexpired =>
            intro row heq
            cases heq
            refine ⟨List.mem_cons_self, not_not.mp hhash, ?_, not_le.mp hexpired⟩
            simpa using hused

theorem invitations_open (q : InvitationRequest) :
    (invitations.start q).Obeys (fun _ _ => True) (OpenEnds q) [] := by
  have hother : (∀ ref now, q ≠ .open (some ref) now) →
      (invitations.start q).Obeys (fun _ _ => True) (OpenEnds q) [] := by
    intro hne
    refine ((Prog.only_true _).obeys fun _ _ _ => trivial).mono fun log response _ => ?_
    exact fun ref now row heq => absurd heq (hne ref now)
  cases q with
  | «open» token now =>
    cases token with
    | none => exact hother fun ref now heq => by cases heq
    | some ref =>
      refine Obeys.bind ((openInvitation_opens ref now []).mono fun log result hopens => ?_)
      rintro ref' now' row hq hresponse
      cases hq
      cases hresponse
      exact hopens row rfl
  | _ => exact hother fun ref now heq => by cases heq

/-- What a run leaves of the invitations and of the tokens presented in it. -/
structure InvitationsUsedOnce (s : InvitationStore) (c : InvitationConfig)
    (effects : List InvitationEffect) : Prop where
  /-- No id is consumed twice, -/
  once : (consumptions effects).Nodup
  /-- a consumed row that is still there is marked, -/
  marked : ∀ id ∈ consumptions effects, ∀ row, c.shared.getInvitation id = some row →
    row.usedAt.isSome
  /-- and no read after the use finds it open. -/
  closed : ReadsBeforeUse effects
  /-- The fields of a row never change. -/
  origin : ∀ row ∈ c.shared.invitations.rows, Origin s c.threads row
  /-- A token opens the row it was made for, unused and in time. -/
  opened : ∀ t ∈ c.threads, ∀ ref now row, t.request = .open (some ref) now →
    t.prog = .done (.opened (.ok row)) →
    row.id = ref.invitationId ∧ row.tokenHash = ref.secretHash ∧ row.usedAt = none ∧
      now < row.expiresAt ∧ Origin s c.threads row

/-- In every run with fresh ids, of registrations that consume invitations, requests that mint,
open and delete them, purges and statements that throw, an invitation is used at most once. -/
theorem invitation_used_once (s : InvitationStore) (labels : List InvitationLabel)
    (hfresh : FreshIds s (invitations.effects s labels)) :
    InvitationsUsedOnce s (invitations.after s labels) (invitations.effects s labels) := by
  have hkept := invitations_kept s labels hfresh
  refine ⟨hkept.once, fun id hmem row hfind => ?_, hkept.reads,
    fun row hrow => (hkept.stored row hrow).2, fun t ht ref now row hrequest hdone => ?_⟩
  · obtain ⟨hrow, hid⟩ := Table.find_eq_some.mp hfind
    exact (hkept.consumed id hmem).2 row hrow hid
  · have hobeys := System.thread_obeys_to invitations_open s labels t ht
    rw [hdone] at hobeys
    obtain ⟨hread, hhash, hunused, hexpires⟩ := hobeys ref now row hrequest rfl
    obtain ⟨hid, horigin⟩ := hkept.read t ht ref.invitationId row hread
    exact ⟨hid, hhash, hunused, hexpires, horigin⟩

namespace Sample

/-- A step that draws the id and the secret it is given. -/
def turn (thread : ℕ) (uuid : String) (secret : Bytes) : InvitationLabel :=
  .step thread ⟨false, some ⟨none, none⟩, 1000, uuid, secret, none, none, none, some [], none, none,
    .answers⟩

def register (id : String) (now : ℤ) : InvitationLabel :=
  .outside (.consumeInvitation id "u1" now) ⟨false, none, 0, "", [], none, none, none, none, none,
    none, .answers⟩

/-- An invitation is made and opened, and two registrations use it; then it is opened again. -/
def uses : List InvitationLabel :=
  [turn 2 "" [], .spawn (.open (some ⟨"a", [1]⟩) 1003), register "a" 1002, register "a" 1002,
    turn 1 "" [], .spawn (.open (some ⟨"a", [1]⟩) 1001)] ++ List.replicate 5 (turn 0 "a" [1]) ++
    [.spawn (.create ⟨none, false, none, [], none⟩ "root")]

end Sample

theorem invitation_used_once_sample :
    InvitationsUsedOnce .empty (invitations.after .empty Sample.uses)
      (invitations.effects .empty Sample.uses) ∧
    consumptions (invitations.effects .empty Sample.uses) = ["a"] ∧
    ∃ row t t' t'', (invitations.after .empty Sample.uses).threads = [t, t', t''] ∧
      t'.prog = .done (.opened (.ok row)) ∧ t''.prog = .done (.opened .invitationUsed) :=
  ⟨invitation_used_once .empty Sample.uses (by decide), by decide, _, _, _, _, rfl, rfl, rfl⟩

end TinyOidc.Invitation
