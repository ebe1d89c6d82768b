import TinyOidc.Invitation.Protocol

/-! The bootstrap under concurrent attempts. Each attempt mints an invitation before it knows
whether it is the first; the claim on `bootstrapped_at` decides, and the losers withdraw theirs. -/
namespace TinyOidc.Invitation
open RowTable Threads
open TinyOidc.User (Bytes)
open TinyOidc.Env (Json)

/-! ### One claim -/

def Bootstrapped (s : InvitationStore) : Prop := (s.settings.find "bootstrapped_at").isSome

instance (s : InvitationStore) : Decidable (Bootstrapped s) :=
  inferInstanceAs (Decidable ((s.settings.find "bootstrapped_at").isSome = true))

/-- A claim on `bootstrapped_at` that was granted. -/
def granted : Entry InvitationOp.Answer → Bool
  | ⟨.claimSetting key _ _ _, claimed⟩ => key == "bootstrapped_at" && claimed == some true
  | _ => false

def grants (log : InvitationLog) : ℕ := log.countP granted

theorem grants_cons (entry : Entry InvitationOp.Answer) (log : InvitationLog) :
    grants (entry :: log) = grants log + grants [entry] := by
  simp [grants, List.countP_cons]

/-- The claims that may be granted from a state on, before it. -/
def claimsSpent (s : InvitationStore) : ℕ :=
  if (s.settings.find "bootstrapped_at").isSome then 1 else 0

theorem insertInvitation_settings {s s' : InvitationStore} {row : InvitationRow}
    (h : s.insertInvitation row = some s') : s'.settings = s.settings := by
  unfold InvitationStore.insertInvitation at h
  split at h
  · cases h
  split at h
  · cases h
    rfl
  · cases h

theorem find_writeSetting_of_ne {t : Env.SettingsTable} {entry : String × Json} {key : String}
    (h : entry.1 ≠ key) (actor : String) (now : ℤ) :
    (Env.writeSetting actor now t entry).find key = t.find key := by
  unfold Env.writeSetting
  split
  · rw [Table.find_deleteWhere_key, if_neg (Ne.symm h)]
  · rw [Table.find_upsert, if_neg (Ne.symm h)]

theorem bootstrapped_writeSettings {t : Env.SettingsTable} {entries : Env.Record}
    (h : ∀ e ∈ entries, Env.readOnlySettings.contains e.1 = false) (actor : String) (now : ℤ) :
    (Env.writeSettings t entries actor now).find "bootstrapped_at" = t.find "bootstrapped_at" := by
  induction entries generalizing t with
  | nil => rfl
  | cons e entries ih =>
    have hne : e.1 ≠ "bootstrapped_at" := by
      intro heq
      have hfree := h e List.mem_cons_self
      rw [heq] at hfree
      exact absurd hfree (by decide)
    calc (Env.writeSettings t (e :: entries) actor now).find "bootstrapped_at"
        = (Env.writeSetting actor now t e).find "bootstrapped_at" :=
          ih fun e' he' => h e' (List.mem_cons_of_mem _ he')
      _ = t.find "bootstrapped_at" := find_writeSetting_of_ne hne actor now

theorem claimsSpent_congr {s s' : InvitationStore}
    (h : s'.settings.find "bootstrapped_at" = s.settings.find "bootstrapped_at") :
    claimsSpent s' = claimsSpent s := by
  simp only [claimsSpent, h]

theorem claimsSpent_deliver {α : Type} (delivery : Delivery) (s : InvitationStore)
    {result : InvitationStore × α}
    (h : result.1.settings.find "bootstrapped_at" = s.settings.find "bootstrapped_at") :
    claimsSpent (delivery.deliver s result).1 = claimsSpent s := by
  rw [Delivery.deliver_state]
  split
  · exact claimsSpent_congr h
  · rfl

/-- A claim is granted where the row is absent, and leaves it. -/
theorem granted_claimSetting (s : InvitationStore) (delivery : Delivery) (key : String)
    (value : Json) (actor : String) (now : ℤ) :
    grants [⟨.claimSetting key value actor now,
        (delivery.deliver s (s.claimSetting key value actor now)).2⟩] + claimsSpent s ≤
      claimsSpent (delivery.deliver s (s.claimSetting key value actor now)).1 := by
  unfold InvitationStore.claimSetting
  cases hinsert : s.settings.insert ⟨key, some value, now, actor⟩ with
  | none =>
    rw [claimsSpent_deliver delivery s rfl]
    cases delivery <;> simp [grants, granted, Delivery.deliver]
  | some settings =>
    have hfind := Table.find_insert hinsert "bootstrapped_at"
    have habsent : key = "bootstrapped_at" → s.settings.find "bootstrapped_at" = none := by
      rintro rfl
      refine Table.find_eq_none.mpr fun r hr heq => ?_
      exact Table.key_notMem_of_insert hinsert r hr heq
    by_cases hkey : key = "bootstrapped_at"
    · rw [if_pos hkey.symm] at hfind
      have hzero : claimsSpent s = 0 := by simp [claimsSpent, habsent hkey]
      have hone : claimsSpent { s with settings := settings } = 1 := by
        simp [claimsSpent, hfind]
      cases delivery with
      | answers => simp [Delivery.deliver, hzero, hone, grants, granted, hkey]
      | throws applied => simp [Delivery.deliver, hzero, grants, granted]
    · rw [if_neg (Ne.symm hkey)] at hfind
      rw [claimsSpent_deliver delivery s hfind]
      simp [grants, granted, hkey]

/-- A granted claim finds no row and leaves one, and no other call takes the row away. -/
theorem granted_exec (s : InvitationStore) (outside : InvitationOutside) (op : InvitationOp)
    (h : invitations.isOutside op = true ∨ ∃ q log, InvitationPermits q log op) :
    grants [⟨op, (invitations.exec s outside op).2⟩] + claimsSpent s ≤
      claimsSpent (invitations.exec s outside op).1 := by
  cases op with
  | claimSetting key value actor now => exact granted_claimSetting s _ key value actor now
  | writeSettings entries actor now =>
    have hfree : ∀ e ∈ entries, Env.readOnlySettings.contains e.1 = false := by
      rcases h with hout | ⟨_, _, hfalse⟩
      · intro e he
        have hall : (entries.all fun e => !Env.readOnlySettings.contains e.1) = true := hout
        simpa using List.all_eq_true.mp hall e he
      · exact hfalse.elim
    have hkept : claimsSpent (execInvitation s outside (.writeSettings entries actor now)).1 =
        claimsSpent s :=
      claimsSpent_deliver outside.delivery s (bootstrapped_writeSettings hfree actor now)
    exact (Nat.zero_add _).trans_le hkept.ge
  | insertInvitation row =>
    have hkept : claimsSpent (execInvitation s outside (.insertInvitation row)).1 =
        claimsSpent s := by
      simp only [execInvitation]
      split
      · rfl
      next s' hinsert =>
        have hsettings := insertInvitation_settings hinsert
        exact claimsSpent_deliver _ s (congrArg (·.find "bootstrapped_at") hsettings)
    exact (Nat.zero_add _).trans_le hkept.ge
  | getInvitation id =>
    exact (Nat.zero_add _).trans_le (claimsSpent_deliver outside.delivery s rfl).ge
  | consumeInvitation id usedBy now =>
    exact (Nat.zero_add _).trans_le (claimsSpent_deliver outside.delivery s rfl).ge
  | deleteInvitation id =>
    exact (Nat.zero_add _).trans_le (claimsSpent_deliver outside.delivery s rfl).ge
  | deleteSpentInvitations cutoff =>
    exact (Nat.zero_add _).trans_le (claimsSpent_deliver outside.delivery s rfl).ge
  | _ => exact (Nat.zero_add _).le

/-- In every run the claims granted so far are paid for by the row. -/
theorem grants_le (s : InvitationStore) (labels : List InvitationLabel) :
    (invitations.after s labels).total (fun t => grants t.log) + claimsSpent s ≤
      claimsSpent (invitations.after s labels).shared := by
  refine System.run_invariant invitations_follow (C := fun _ => True) (fun _ _ h => h)
    (J := fun c _ => c.total (fun t => grants t.log) + claimsSpent s ≤ claimsSpent c.shared)
    (by simp) ?_ ?_ ?_ labels trivial
  · intro labels q hJ
    rw [Config.total_spawn]
    exact hJ
  · intro labels i t op outside prog _ _ hJ hi _ hpermits
    have hset := Config.total_set (fun t => grants t.log) (invitations.after s labels)
      (invitations.exec (invitations.after s labels).shared outside op).1 hi
      ⟨t.request, ⟨op, (invitations.exec (invitations.after s labels).shared outside op).2⟩ ::
        t.log, prog⟩
    have hstep := granted_exec (invitations.after s labels).shared outside op
      (.inr ⟨t.request, t.log, hpermits⟩)
    rw [grants_cons] at hset
    dsimp only
    omega
  · intro labels op outside hJ hop
    have hstep := granted_exec (invitations.after s labels).shared outside op (.inl hop)
    exact hJ.trans ((Nat.le_add_left _ _).trans hstep)

theorem grants_pos_of_won {log : InvitationLog} {token : InvitationRef} {expiresAt : ℤ}
    (h : Won log token expiresAt) : 0 < grants log := by
  obtain ⟨value, actor, now, hmem⟩ := h.claimed
  exact List.countP_pos_iff.mpr ⟨_, hmem, rfl⟩

/-! ### What the losers leave -/

/-- The rows a request withdrew are gone, and the rows it inserted are known. -/
structure WithdrawnGone (s : InvitationStore)
    (c : Config InvitationRequest InvitationStore InvitationOp.Answer InvitationResponse)
    (effects : List InvitationEffect) : Prop where
  known : ∀ t ∈ c.threads, ∀ row answer,
    (⟨.insertInvitation row, answer⟩ : Entry InvitationOp.Answer) ∈ t.log →
      KnownId s effects row.id
  gone : ∀ t ∈ c.threads, ∀ row, WithdrawnRow t.log row →
    ∀ stored ∈ c.shared.invitations.rows, stored.id ≠ row.id

theorem withdrawn_cases {log : InvitationLog} {entry : Entry InvitationOp.Answer}
    {row : InvitationRow} (h : WithdrawnRow (entry :: log) row) :
    WithdrawnRow log row ∨ (∃ found, entry = ⟨.deleteInvitation row.id, some found⟩) := by
  obtain ⟨found, older, hsuffix, hmem⟩ := h
  rcases List.suffix_cons_iff.mp hsuffix with heq | hsuffix
  · exact .inr ⟨found, (List.cons.inj heq).1.symm⟩
  · exact .inl ⟨found, older, hsuffix, hmem⟩

theorem WithdrawnRow.inserted {log : InvitationLog} {row : InvitationRow}
    (h : WithdrawnRow log row) :
    (⟨.insertInvitation row, some ()⟩ : Entry InvitationOp.Answer) ∈ log := by
  obtain ⟨found, older, hsuffix, hmem⟩ := h
  exact hsuffix.subset (List.mem_cons_of_mem _ hmem)

/-- A deletion that was answered leaves no row of the id. -/
theorem gone_of_deleted {s : InvitationStore} {outside : InvitationOutside} {id : String}
    {found : Bool} (h : (invitations.exec s outside (.deleteInvitation id)).2 = some found) :
    ∀ row ∈ (invitations.exec s outside (.deleteInvitation id)).1.invitations.rows,
      row.id ≠ id := by
  intro row hrow
  change (outside.delivery.deliver s (s.deleteInvitation id)).2 = some found at h
  change row ∈ (outside.delivery.deliver s (s.deleteInvitation id)).1.invitations.rows at hrow
  cases hdelivery : outside.delivery with
  | answers =>
    rw [hdelivery] at hrow
    have hkept := (Table.mem_deleteWhere.mp hrow).2
    simpa using hkept
  | throws applied =>
    rw [hdelivery] at h
    cases h

theorem withdrawn_gone (s : InvitationStore) (labels : List InvitationLabel)
    (hfresh : FreshIds s (invitations.effects s labels)) :
    WithdrawnGone s (invitations.after s labels) (invitations.effects s labels) := by
  refine System.run_invariant invitations_follow
    (C := fun labels => FreshIds s (invitations.effects s labels)) (fun _ _ h => h.tail)
    (J := WithdrawnGone s) ?_ ?_ ?_ ?_ labels hfresh
  · exact ⟨fun t ht => (by cases ht), fun t ht => by cases ht⟩
  · intro labels q hJ
    constructor
    · intro t ht row answer hmem
      rcases List.mem_append.mp ht with ht | ht
      · exact hJ.known t ht row answer hmem
      · rw [List.mem_singleton.mp ht] at hmem
        cases hmem
    · intro t ht row hrow
      rcases List.mem_append.mp ht with ht | ht
      · exact hJ.gone t ht row hrow
      · rw [List.mem_singleton.mp ht] at hrow
        have hmem := hrow.inserted
        cases hmem
  · intro labels i t op outside prog hfresh heffect hJ hi _ _
    have ht := List.mem_of_getElem? hi
    -- an insertion takes an id that no thread has used
    have hunused : ∀ t' ∈ (invitations.after s labels).threads, ∀ row, WithdrawnRow t'.log row →
        ∀ row', op = .insertInvitation row' → row'.id ≠ row.id := by
      intro t' ht' row hrow row' hop heq
      subst hop
      refine not_knownId_of_inserted hfresh heffect rfl ?_
      rw [heq]
      exact hJ.known t' ht' row _ hrow.inserted
    constructor
    · intro t' ht' row answer hmem
      rcases List.mem_or_eq_of_mem_set ht' with ht' | rfl
      · exact (hJ.known t' ht' row answer hmem).cons _
      · rcases List.mem_cons.mp hmem with heq | hmem
        · refine knownId_of_inserted ?_
          rw [Effect.entry_thread, ← heq]
          rfl
        · exact (hJ.known t ht row answer hmem).cons _
    · intro t' ht' row hrow
      have hstays : ∀ t' ∈ (invitations.after s labels).threads, WithdrawnRow t'.log row →
          ∀ stored ∈ (invitations.exec (invitations.after s labels).shared outside
            op).1.invitations.rows, stored.id ≠ row.id := fun t' ht' hrow =>
        absent_exec (hJ.gone t' ht' row hrow) outside op (hunused t' ht' row hrow)
      rcases List.mem_or_eq_of_mem_set ht' with ht' | rfl
      · exact hstays t' ht' hrow
      · rcases withdrawn_cases hrow with hrow | ⟨found, heq⟩
        · exact hstays t ht hrow
        · obtain ⟨rfl, hanswer⟩ := Sigma.mk.inj heq
          exact gone_of_deleted (eq_of_heq hanswer)
  · intro labels op outside hJ hop
    constructor
    · intro t ht row answer hmem
      exact (hJ.known t ht row answer hmem).cons _
    · intro t ht row hrow
      refine absent_exec (hJ.gone t ht row hrow) outside op fun row' heq => ?_
      rw [heq] at hop
      cases hop

/-! ### The bootstrap -/

def Succeeded (t : InvitationThread) (token : InvitationRef) (expiresAt : ℤ) : Prop :=
  ∃ loginUrl client, t.prog = .done (.bootstrapped token loginUrl expiresAt client)

structure BootstrapOnce (s : InvitationStore)
    (c : Config InvitationRequest InvitationStore InvitationOp.Answer InvitationResponse) :
    Prop where
  /-- One attempt at most succeeds. -/
  once : ∀ (i j : ℕ) t t' token token' expiresAt expiresAt', c.threads[i]? = some t →
    c.threads[j]? = some t' → Succeeded t token expiresAt → Succeeded t' token' expiresAt' → i = j
  /-- The deployment was not bootstrapped before it, and is from then on. -/
  closes : ∀ t ∈ c.threads, ∀ token expiresAt, Succeeded t token expiresAt →
    ¬ Bootstrapped s ∧ Bootstrapped c.shared
  /-- It found no administrator, and hands out an invitation to be one. -/
  won : ∀ t ∈ c.threads, ∀ token expiresAt, Succeeded t token expiresAt → Won t.log token expiresAt
  /-- An attempt that came too late leaves no invitation. -/
  withdrawn : ∀ t ∈ c.threads, t.prog = .done bootstrapCompleted → ∀ row,
    (⟨.insertInvitation row, some ()⟩ : Entry InvitationOp.Answer) ∈ t.log →
    c.shared.getInvitation row.id = none

theorem claimsSpent_le_one (s : InvitationStore) : claimsSpent s ≤ 1 := by
  unfold claimsSpent
  split <;> omega

theorem bootstrapped_iff {s : InvitationStore} : Bootstrapped s ↔ claimsSpent s = 1 := by
  unfold claimsSpent Bootstrapped
  split <;> simp_all

/-- The granted claims of two requests are two. -/
theorem grants_add_le_total
    (c : Config InvitationRequest InvitationStore InvitationOp.Answer InvitationResponse)
    {i j : ℕ} {t t' : InvitationThread} (hi : c.threads[i]? = some t)
    (hj : c.threads[j]? = some t') (hne : i ≠ j) :
    grants t.log + grants t'.log ≤ c.total (fun t => grants t.log) := by
  have hset := Config.total_set (fun t => grants t.log) c c.shared hi ⟨t.request, [], t.prog⟩
  have hother : (c.threads.set i ⟨t.request, [], t.prog⟩)[j]? = some t' := by
    rw [List.getElem?_set_ne hne, hj]
  have hheld := Config.held_le_total (fun t => grants t.log)
    (⟨c.shared, c.threads.set i ⟨t.request, [], t.prog⟩⟩ : Config ..) hother
  have hnil : grants [] = 0 := rfl
  dsimp only at hset hheld
  omega

/-- In every run with fresh ids, of any number of attempts beside any other requests, with
statements that throw, one attempt at most bootstraps the deployment. -/
theorem bootstrap_happens_once (s : InvitationStore) (labels : List InvitationLabel)
    (hfresh : FreshIds s (invitations.effects s labels)) :
    BootstrapOnce s (invitations.after s labels) := by
  have hends : ∀ t ∈ (invitations.after s labels).threads, ∀ response,
      t.prog = .done response → InvitationEnds t.log response := by
    intro t ht response hdone
    have hobeys := System.thread_obeys_to invitations_obey s labels t ht
    rw [hdone] at hobeys
    exact hobeys
  have hwon : ∀ t ∈ (invitations.after s labels).threads, ∀ token expiresAt,
      Succeeded t token expiresAt → Won t.log token expiresAt := by
    rintro t ht token expiresAt ⟨loginUrl, client, hdone⟩
    exact (hends t ht _ hdone).won token loginUrl expiresAt client rfl
  have hgrants := grants_le s labels
  have hone := claimsSpent_le_one (invitations.after s labels).shared
  refine ⟨?_, ?_, hwon, ?_⟩
  · intro i j t t' token token' expiresAt expiresAt' hi hj ht ht'
    by_contra hne
    have hboth := grants_add_le_total _ hi hj hne
    have hfirst := grants_pos_of_won (hwon t (List.mem_of_getElem? hi) _ _ ht)
    have hsecond := grants_pos_of_won (hwon t' (List.mem_of_getElem? hj) _ _ ht')
    omega
  · intro t ht token expiresAt hsucceeded
    obtain ⟨i, hi⟩ := List.getElem?_of_mem ht
    have hheld := Config.held_le_total (fun t => grants t.log) (invitations.after s labels) hi
    have hpos := grants_pos_of_won (hwon t ht _ _ hsucceeded)
    rw [bootstrapped_iff, bootstrapped_iff]
    omega
  · intro t ht hdone row hmem
    have hrow := (hends t ht _ hdone).lost rfl row hmem
    exact Table.find_eq_none.mpr ((withdrawn_gone s labels hfresh).gone t ht row hrow)

namespace Sample

def attempt : InvitationLabel :=
  .spawn (.bootstrap ⟨true, .ok ⟨"ada@example.test", none⟩, "eu"⟩)

/-- A step that finds no administrator, and draws the id and the secret it is given. -/
def next (thread : ℕ) (uuid : String) (secret : Bytes) : InvitationLabel :=
  .step thread ⟨false, some ⟨none, none⟩, 1000, uuid, secret, some (some "g"), some (), some 0,
    some [], some .created, some none, .answers⟩

/-- Two attempts, the second one step ahead of the first one's claim. -/
def attempts : List InvitationLabel :=
  List.replicate 3 (next 1 "b" [2]) ++ List.replicate 2 (next 0 "a" [1]) ++
    List.replicate 9 (next 1 "b" [2]) ++ List.replicate 9 (next 0 "a" [1]) ++ [attempt, attempt]

end Sample

/-- The first attempt has its invitation, the second has withdrawn the one it had made. -/
theorem bootstrap_happens_once_sample :
    BootstrapOnce .empty (invitations.after .empty Sample.attempts) ∧
    ∃ t t', (invitations.after .empty Sample.attempts).threads = [t, t'] ∧
      Succeeded t ⟨"a", [1]⟩ (1000 + invitationDefaultTtl) ∧
      t'.prog = .done bootstrapCompleted ∧
      (invitations.after .empty Sample.attempts).shared.invitations.rows.map (·.id) = ["a"] :=
  ⟨bootstrap_happens_once .empty Sample.attempts (by decide), _, _, rfl, ⟨_, _, rfl⟩, rfl,
    by decide⟩

end TinyOidc.Invitation
