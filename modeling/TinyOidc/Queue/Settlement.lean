import TinyOidc.Lib.Trace
import TinyOidc.Queue.Consumer

/-! Every message of a queue batch is settled once, and an audit message is acknowledged only
behind the writes of its events. -/
namespace TinyOidc.Queue
open TinyOidc.Audit

section Messages
variable {δ ρ : Type} {w : Serializer δ} {inv : Invocation δ ρ}

def taskOf (parseEvent : ρ → Option (AuditEvent δ)) (body : Body ρ) : Option (AuditTask δ) :=
  if body.kind = some "audit" then parseAuditTask parseEvent body else none

/-- The audit messages that parse, in the batch's order. -/
def auditMessages (parseEvent : ρ → Option (AuditEvent δ)) (bodies : List (Body ρ))
    (start : ℕ) : List (AuditMessage δ) :=
  (bodies.zipIdx start).filterMap fun (body, i) =>
    (taskOf parseEvent body).map fun task => ⟨i, task⟩

theorem mem_auditMessages {parseEvent : ρ → Option (AuditEvent δ)} {bodies : List (Body ρ)}
    {m : AuditMessage δ} : m ∈ auditMessages parseEvent bodies 0 ↔
      (bodies[m.message]?).bind (taskOf parseEvent) = some m.task := by
  simp only [auditMessages, List.mem_filterMap, Prod.exists, List.mk_mem_zipIdx_iff_getElem?,
    Option.map_eq_some_iff, Option.bind_eq_some_iff]
  constructor
  · rintro ⟨body, i, hbody, task, htask, rfl⟩
    exact ⟨body, hbody, htask⟩
  · rintro ⟨body, hbody, htask⟩
    exact ⟨body, m.message, hbody, m.task, htask, rfl⟩

/-- The loop over the messages keeps the audit messages that parse. -/
theorem triage_messages (i : ℕ) (bodies : List (Body ρ)) :
    (triage inv i bodies).2 = auditMessages inv.parseEvent bodies i := by
  induction bodies generalizing i with
  | nil => rfl
  | cons body rest ih =>
    unfold auditMessages at ih ⊢
    rw [triage, List.zipIdx_cons, List.filterMap_cons]
    dsimp only
    rw [taskOf]
    by_cases haudit : body.kind = some "audit"
    · rw [if_pos haudit, if_pos haudit]
      cases parseAuditTask inv.parseEvent body with
      | none => exact ih (i + 1)
      | some task => exact congrArg _ (ih (i + 1))
    · rw [if_neg haudit, if_neg haudit, ← ih (i + 1)]
      split
      · rfl
      · split <;> rfl

/-- It acknowledges or retries each of the others, once. -/
theorem triage_settles (count i : ℕ) (bodies : List (Body ρ)) :
    ((triage inv i bodies).1.flatMap (Action.settles count) ++
      (triage inv i bodies).2.map AuditMessage.message).Perm (List.range' i bodies.length) := by
  induction bodies generalizing i with
  | nil => exact .refl _
  | cons body rest ih =>
    have hrest := (ih (i + 1)).cons i
    rw [List.length_cons, List.range'_succ, triage]
    dsimp only
    by_cases haudit : body.kind = some "audit"
    · rw [if_pos haudit]
      cases parseAuditTask inv.parseEvent body with
      | none => exact hrest
      | some task => exact List.perm_middle.trans hrest
    · rw [if_neg haudit]
      split
      · exact hrest
      · split
        · exact hrest
        · exact hrest

/-- It settles messages only, and none that carries a task. -/
theorem mem_triage {i : ℕ} {bodies : List (Body ρ)} {a : Action}
    (h : a ∈ (triage inv i bodies).1) : ∃ body j, (body, j) ∈ bodies.zipIdx i ∧
      taskOf inv.parseEvent body = none ∧ (a = .ack j ∨ a = .retry j) := by
  induction bodies generalizing i with
  | nil => cases h
  | cons body rest ih =>
    have hlater : a ∈ (triage inv (i + 1) rest).1 → ∃ body' j,
        (body', j) ∈ (body :: rest).zipIdx i ∧ taskOf inv.parseEvent body' = none ∧
          (a = .ack j ∨ a = .retry j) := by
      intro hrest
      obtain ⟨body', j, hmem, htask, haction⟩ := ih hrest
      exact ⟨body', j, by rw [List.zipIdx_cons]; exact List.mem_cons_of_mem _ hmem, htask, haction⟩
    have hhere : taskOf inv.parseEvent body = none → a = .ack i ∨ a = .retry i → ∃ body' j,
        (body', j) ∈ (body :: rest).zipIdx i ∧ taskOf inv.parseEvent body' = none ∧
          (a = .ack j ∨ a = .retry j) := by
      intro htask haction
      exact ⟨body, i, by rw [List.zipIdx_cons]; exact List.mem_cons_self .., htask, haction⟩
    rw [triage] at h
    dsimp only at h
    by_cases haudit : body.kind = some "audit"
    · rw [if_pos haudit] at h
      cases hparse : parseAuditTask inv.parseEvent body with
      | none =>
        rw [hparse] at h
        rcases List.mem_cons.mp h with hack | hrest
        · exact hhere (by rw [taskOf, if_pos haudit, hparse]) (.inl hack)
        · exact hlater hrest
      | some task =>
        rw [hparse] at h
        exact hlater h
    · have htask : taskOf inv.parseEvent body = none := by rw [taskOf, if_neg haudit]
      rw [if_neg haudit] at h
      split at h
      · rcases List.mem_cons.mp h with hack | hrest
        · exact hhere htask (.inl hack)
        · exact hlater hrest
      · split at h
        · rcases List.mem_cons.mp h with hack | hrest
          · exact hhere htask (.inl hack)
          · exact hlater hrest
        · rcases List.mem_cons.mp h with hretry | hrest
          · exact hhere htask (.inr hretry)
          · exact hlater hrest

theorem statementsSent_append (first second : List Action) :
    statementsSent (first ++ second) = statementsSent first + statementsSent second := by
  simp [statementsSent]

theorem statementsSent_eq_zero {actions : List Action}
    (h : ∀ a ∈ actions, a.statementCount = 0) : statementsSent actions = 0 := by
  apply List.sum_eq_zero
  intro n hn
  obtain ⟨a, ha, rfl⟩ := List.mem_map.mp hn
  exact h a ha

theorem triage_sent (i : ℕ) (bodies : List (Body ρ)) :
    statementsSent (triage inv i bodies).1 = 0 := by
  apply statementsSent_eq_zero
  intro a ha
  obtain ⟨-, j, -, -, rfl | rfl⟩ := mem_triage ha
  · rfl
  · rfl

/-! ### Groups -/

def fitsGroup (groupEvents : ℕ) (group : List (AuditMessage δ)) (item : AuditMessage δ) : Bool :=
  (eventsOf group).length + item.task.events.length ≤ groupEvents

theorem place_eq (groupEvents : ℕ) (groups : List (List (AuditMessage δ)))
    (item : AuditMessage δ) :
    place groupEvents groups item = Packing.place (fitsGroup groupEvents) groups item := by
  unfold place Packing.place fitsGroup eventsOf
  cases hlast : groups.getLast? with
  | none =>
    obtain rfl := List.getLast?_eq_none_iff.mp hlast
    rfl
  | some last =>
    dsimp only
    rw [List.length_flatMap]
    simp

theorem archiveGroups_eq (groupEvents : ℕ) (audit : List (AuditMessage δ)) :
    archiveGroups groupEvents audit = Packing.pack (fitsGroup groupEvents) audit := by
  have hplace : place groupEvents = Packing.place (@fitsGroup δ groupEvents) :=
    funext fun groups => funext fun item => place_eq groupEvents groups item
  rw [archiveGroups, hplace, Packing.foldl_place]

/-- The groups together are the audit messages, in order. -/
theorem archiveGroups_flatten (groupEvents : ℕ) (audit : List (AuditMessage δ)) :
    (archiveGroups groupEvents audit).flatten = audit := by
  rw [archiveGroups_eq, Packing.flatten_pack]

/-- A group of more than one message has at most so many events. -/
theorem archiveGroups_bound {groupEvents : ℕ} {audit group : List (AuditMessage δ)}
    (h : group ∈ archiveGroups groupEvents audit) :
    group ≠ [] ∧ (group.length = 1 ∨ (eventsOf group).length ≤ groupEvents) := by
  have hbound : ∀ (run : List (AuditMessage δ)) (item : AuditMessage δ),
      fitsGroup groupEvents run item = true →
        (eventsOf (run ++ [item])).length ≤ groupEvents := by
    intro run item hfits
    have hroom := of_decide_eq_true hfits
    simp only [eventsOf, List.flatMap_append, List.length_append, List.flatMap_singleton]
    exact hroom
  rw [archiveGroups_eq] at h
  exact @Packing.pack_bound _ _ _ (fun run => (eventsOf run).length ≤ groupEvents) hbound group h

theorem eventsOf_ne_nil {group : List (AuditMessage δ)} (h : group ≠ []) : eventsOf group ≠ [] := by
  obtain ⟨m, rest, rfl⟩ := List.exists_cons_of_ne_nil h
  have hone := m.task.length_range.1
  intro hnil
  rw [eventsOf, List.flatMap_cons, List.append_eq_nil_iff] at hnil
  rw [hnil.1] at hone
  simp at hone

variable (w inv) in
/-- What the loop does with a group: it is deferred beyond the budget, and stored within it. -/
theorem storeGroups_cons (budget i statements : ℕ) (group : List (AuditMessage δ))
    (rest : List (List (AuditMessage δ))) :
    let statements' := statements + hotStatementsFor (eventsOf group)
    let stored := storeAuditBatch w (eventsOf group) (inv.attempt i) (inv.batchAnswer i)
      (inv.putAnswer i)
    (budget < statements' ∧ storeGroups w inv budget i statements (group :: rest) =
      [.deferred (group.map AuditMessage.message)] ++
        (group.map fun m => Action.retry m.message) ++
        storeGroups w inv budget (i + 1) statements' rest) ∨
    (statements' ≤ budget ∧ storeGroups w inv budget i statements (group :: rest) =
      stored.1 ++
        (group.map fun m => if stored.2 then Action.ack m.message else .retry m.message) ++
        storeGroups w inv budget (i + 1) statements' rest) := by
  intro statements' stored
  by_cases hbudget : budget < statements'
  · left
    refine ⟨hbudget, ?_⟩
    rw [storeGroups]
    dsimp only
    rw [if_pos hbudget]
    rfl
  · right
    refine ⟨not_lt.mp hbudget, ?_⟩
    rw [storeGroups]
    dsimp only
    rw [if_neg hbudget]

theorem settles_map (count : ℕ) (group : List (AuditMessage δ)) (stored : Bool) :
    ((group.map fun m => if stored then Action.ack m.message else .retry m.message).flatMap
      (Action.settles count)) = group.map AuditMessage.message := by
  rw [List.flatMap_map, ← List.flatMap_singleton' (group.map AuditMessage.message),
    List.flatMap_map]
  cases stored with
  | false => rfl
  | true => rfl

/-- The messages of the groups are settled in their order. -/
theorem storeGroups_settles (count budget i statements : ℕ) {groups : List (List (AuditMessage δ))}
    (hgroups : ∀ group ∈ groups, group ≠ []) :
    (storeGroups w inv budget i statements groups).flatMap (Action.settles count) =
      groups.flatten.map AuditMessage.message := by
  induction groups generalizing i statements with
  | nil => rfl
  | cons group rest ih =>
    have hrest := ih (i + 1) (statements + hotStatementsFor (eventsOf group))
      fun g hg => hgroups g (List.mem_cons_of_mem _ hg)
    have hevents := eventsOf_ne_nil (hgroups group (List.mem_cons_self ..))
    rcases storeGroups_cons w inv budget i statements group rest with
      ⟨-, hstore⟩ | ⟨-, hstore⟩
    · have hretry := settles_map count group false
      simp only [Bool.false_eq_true, if_false] at hretry
      rw [hstore, List.flatMap_append, List.flatMap_append, hretry, hrest, List.flatten_cons,
        List.map_append]
      rfl
    · rw [hstore, List.flatMap_append, List.flatMap_append, storeAuditBatch_settles hevents,
        settles_map, hrest, List.flatten_cons, List.map_append, List.nil_append]

theorem statementCount_settle (group : List (AuditMessage δ)) (stored : Bool) :
    statementsSent (group.map fun m =>
      if stored then Action.ack m.message else .retry m.message) = 0 := by
  apply statementsSent_eq_zero
  intro a ha
  obtain ⟨m, -, rfl⟩ := List.mem_map.mp ha
  cases stored with
  | false => rfl
  | true => rfl

/-- What is sent and what was counted before stays within the budget, or nothing is sent. -/
theorem storeGroups_sent (budget i statements : ℕ) (groups : List (List (AuditMessage δ))) :
    statementsSent (storeGroups w inv budget i statements groups) + statements ≤
      max budget statements := by
  induction groups generalizing i statements with
  | nil =>
    simp only [storeGroups, statementsSent, List.map_nil, List.sum_nil]
    omega
  | cons group rest ih =>
    have hrest := ih (i + 1) (statements + hotStatementsFor (eventsOf group))
    rcases storeGroups_cons w inv budget i statements group rest with
      ⟨hbeyond, hstore⟩ | ⟨hwithin, hstore⟩
    · have hretry := statementCount_settle group false
      simp only [Bool.false_eq_true, if_false] at hretry
      have hdeferred : statementsSent [Action.deferred (group.map AuditMessage.message)] = 0 := rfl
      rw [hstore, statementsSent_append, statementsSent_append, hretry, hdeferred]
      omega
    · rw [hstore, statementsSent_append, statementsSent_append, statementCount_settle,
        storeAuditBatch_sent]
      omega

/-! ### Acknowledgements -/

/-- The events of an audit message that is acknowledged are written. -/
def Justified (w : Serializer δ) (parseEvent : ρ → Option (AuditEvent δ))
    (bodies : List (Body ρ)) : Action → List Action → Prop
  | .ack i, done => ∀ task, (bodies[i]?).bind (taskOf parseEvent) = some task →
      Written w done task.events
  | _, _ => True

section Justify
variable {parseEvent : ρ → Option (AuditEvent δ)} {bodies : List (Body ρ)}

theorem justified_mono (a : Action) (done more : List Action)
    (h : Justified w parseEvent bodies a done) :
    Justified w parseEvent bodies a (done ++ more) := by
  cases a with
  | ack i => exact fun task htask => (h task htask).mono fun b hb => List.mem_append_left _ hb
  | _ => trivial

/-- Actions that settle nothing, and retries, need nothing. -/
theorem preceded_of_no_ack {done actions : List Action} (h : ∀ i, Action.ack i ∉ actions) :
    Trace.Preceded (Justified w parseEvent bodies) done actions := by
  apply Trace.preceded_of_forall justified_mono
  intro a ha
  cases a with
  | ack i => exact absurd ha (h i)
  | _ => trivial

/-- What the loop over the messages acknowledges carries no task. -/
theorem triage_justified (bodies : List (Body ρ)) :
    Trace.Preceded (Justified w inv.parseEvent bodies) [] (triage inv 0 bodies).1 := by
  apply Trace.preceded_of_forall justified_mono
  intro a ha
  obtain ⟨body, j, hmem, hnone, rfl | rfl⟩ := mem_triage ha
  · intro task htask
    rw [List.mk_mem_zipIdx_iff_getElem?] at hmem
    rw [hmem, Option.bind_some, hnone] at htask
    cases htask
  · trivial

theorem events_within {m : AuditMessage δ} {group : List (AuditMessage δ)} (h : m ∈ group) :
    m.task.events <:+: eventsOf group := by
  rw [eventsOf, List.flatMap_def]
  exact List.infix_of_mem_flatten (List.mem_map_of_mem h)

/-- A group's messages are acknowledged behind its writes. -/
theorem storeGroups_justified (budget i statements : ℕ) (done : List Action)
    {groups : List (List (AuditMessage δ))}
    (hgroups : ∀ group ∈ groups, group ≠ [] ∧
      ∀ m ∈ group, (bodies[m.message]?).bind (taskOf parseEvent) = some m.task) :
    Trace.Preceded (Justified w parseEvent bodies) done
      (storeGroups w inv budget i statements groups) := by
  induction groups generalizing i statements done with
  | nil => trivial
  | cons group rest ih =>
    obtain ⟨hne, htasks⟩ := hgroups group (List.mem_cons_self ..)
    have hrest := fun done => ih (i + 1) (statements + hotStatementsFor (eventsOf group)) done
      fun g hg => hgroups g (List.mem_cons_of_mem _ hg)
    have hevents := eventsOf_ne_nil hne
    rcases storeGroups_cons w inv budget i statements group rest with
      ⟨-, hstore⟩ | ⟨-, hstore⟩
    · rw [hstore]
      refine Trace.preceded_append (preceded_of_no_ack ?_) (hrest _)
      intro j hj
      simp at hj
    · rw [hstore]
      generalize hresult : storeAuditBatch w (eventsOf group) (inv.attempt i) (inv.batchAnswer i)
        (inv.putAnswer i) = stored
      have hsilent : ∀ j, Action.ack j ∉ stored.1 := by
        intro j hj
        have hsettles := @storeAuditBatch_settles _ w _ (inv.attempt i) (inv.batchAnswer i)
          (inv.putAnswer i) hevents 0
        rw [hresult, List.flatMap_eq_nil_iff] at hsettles
        exact absurd (hsettles _ hj) (by simp [Action.settles])
      refine Trace.preceded_append (Trace.preceded_append (preceded_of_no_ack hsilent) ?_) (hrest _)
      cases hstored : stored.2 with
      | false =>
        apply preceded_of_no_ack
        intro j hj
        simp at hj
      | true =>
        apply Trace.preceded_of_forall justified_mono
        intro a ha
        obtain ⟨m, hm, rfl⟩ := List.mem_map.mp ha
        have hwritten := @storeAuditBatch_written _ w _ (inv.attempt i) (inv.batchAnswer i)
          (inv.putAnswer i) hevents
        rw [hresult] at hwritten
        intro task htask
        rw [htasks m hm, Option.some.injEq] at htask
        rw [← htask]
        exact ((hwritten hstored).part (events_within hm)).mono
          fun b hb => List.mem_append_right _ hb

end Justify

/-! ### The handler -/

variable (w inv) (deps : QueueDeps) (bodies : List (Body ρ))

theorem groups_of_batch : ∀ group ∈ archiveGroups deps.groupEvents (triage inv 0 bodies).2,
    group ≠ [] ∧
      ∀ m ∈ group, (bodies[m.message]?).bind (taskOf inv.parseEvent) = some m.task := by
  intro group hgroup
  refine ⟨(archiveGroups_bound hgroup).1, ?_⟩
  intro m hm
  have hmem : m ∈ (archiveGroups deps.groupEvents (triage inv 0 bodies).2).flatten :=
    List.mem_flatten.mpr ⟨group, hgroup, hm⟩
  rw [archiveGroups_flatten, triage_messages] at hmem
  exact mem_auditMessages.mp hmem

/-- Every message is acknowledged or retried, once. -/
theorem queue_settles : ((queue w inv deps bodies).flatMap (Action.settles bodies.length)).Perm
    (List.range bodies.length) := by
  unfold queue
  cases inv.configured with
  | false => simp [Action.settles]
  | true =>
    simp only [Bool.not_true, Bool.false_eq_true, if_false]
    rw [List.flatMap_append, storeGroups_settles _ _ _ _ fun group hgroup =>
      (groups_of_batch inv deps bodies group hgroup).1, archiveGroups_flatten,
      List.range_eq_range']
    exact triage_settles bodies.length 0 bodies

theorem queue_justified {before after : List Action} {i : ℕ}
    (h : queue w inv deps bodies = before ++ .ack i :: after) {task : AuditTask δ}
    (htask : (bodies[i]?).bind (taskOf inv.parseEvent) = some task) :
    Written w before task.events := by
  have hpreceded : Trace.Preceded (Justified w inv.parseEvent bodies) []
      (queue w inv deps bodies) := by
    unfold queue
    cases inv.configured with
    | false => exact ⟨trivial, trivial⟩
    | true =>
      simp only [Bool.not_true, Bool.false_eq_true, if_false]
      exact Trace.preceded_append (triage_justified bodies)
        (storeGroups_justified _ _ _ _ (groups_of_batch inv deps bodies))
  exact Trace.preceded_split hpreceded h task htask

theorem queue_sent : statementsSent (queue w inv deps bodies) ≤ deps.statementBudget := by
  unfold queue
  cases inv.configured with
  | false => simp [statementsSent, Action.statementCount]
  | true =>
    have hsent := @storeGroups_sent _ _ w inv deps.statementBudget 0 0
      (archiveGroups deps.groupEvents (triage inv 0 bodies).2)
    simp only [Bool.not_true, Bool.false_eq_true, if_false]
    rw [statementsSent_append, triage_sent]
    omega

/-- A group of the default size is within the default budget. -/
theorem default_group_within {audit group : List (AuditMessage δ)}
    (h : group ∈ archiveGroups archiveGroupEvents audit) :
    hotStatementsFor (eventsOf group) ≤ hotStatementsPerInvocation := by
  have hevents : (eventsOf group).length ≤ 1000 := by
    rcases (archiveGroups_bound h).2 with hone | hsize
    · obtain ⟨m, rfl⟩ := List.length_eq_one_iff.mp hone
      have hlength := m.task.length_range.2
      rw [eventsOf, List.flatMap_singleton]
      exact hlength.trans (by decide)
    · exact hsize
  have hhot : (hotEvents (eventsOf group)).length ≤ 1000 :=
    (List.length_filter_le _ _).trans hevents
  rw [hotStatementsFor, ceilDiv_le_iff_le_mul (by decide)]
  exact hhot.trans (by decide)

/-- So with the default limits the first group is not deferred. -/
theorem queue_attempts_first (hconfigured : inv.configured = true)
    {first : List (AuditMessage δ)} {rest : List (List (AuditMessage δ))}
    (hfirst : archiveGroups archiveGroupEvents (triage inv 0 bodies).2 = first :: rest) :
    ∃ later, queue w inv ⟨none, none⟩ bodies = (triage inv 0 bodies).1 ++
      (storeAuditBatch w (eventsOf first) (inv.attempt 0) (inv.batchAnswer 0)
        (inv.putAnswer 0)).1 ++ later := by
  have hwithin : hotStatementsFor (eventsOf first) ≤ hotStatementsPerInvocation := by
    apply @default_group_within _ (triage inv 0 bodies).2
    rw [hfirst]
    exact List.mem_cons_self ..
  unfold queue
  rw [hconfigured]
  simp only [Bool.not_true, Bool.false_eq_true, if_false]
  show ∃ later, _ ++ storeGroups w inv hotStatementsPerInvocation 0 0
    (archiveGroups archiveGroupEvents (triage inv 0 bodies).2) = _
  rw [hfirst]
  rcases storeGroups_cons w inv hotStatementsPerInvocation 0 0 first rest with
    ⟨hbeyond, -⟩ | ⟨-, hstore⟩
  · omega
  · rw [hstore]
    exact ⟨_, by rw [List.append_assoc, List.append_assoc]⟩

end Messages

section Conserved
variable {δ ρ : Type}

/-- What a producer queues parses: the consumer reads the batch as it was sent. -/
theorem batch_parses (w : Serializer δ) {parseEvent : ρ → Option (AuditEvent δ)}
    {raw : AuditEvent δ → ρ} (hread : ∀ e, parseEvent (raw e) = some e)
    {events batch : List (AuditEvent δ)} (h : batch ∈ auditBatches w events) :
    ∃ task, taskOf parseEvent ⟨some "audit", some (batch.map raw)⟩ = some task ∧
      task.events = batch := by
  have hfits := auditBatches_fits h
  have hlength : 1 ≤ batch.length ∧ batch.length ≤ auditBatchSize :=
    ⟨List.length_pos_iff.mpr hfits.nonempty, hfits.size⟩
  have hparsed : (batch.map raw).mapM parseEvent = some batch := by
    rw [List.mapM_map]
    clear h hfits hlength
    induction batch with
    | nil => rfl
    | cons e rest ih => simp [List.mapM_cons, hread, ih]
  refine ⟨⟨batch, hlength⟩, ?_, rfl⟩
  rw [taskOf, if_pos rfl, parseAuditTask]
  simp [hparsed, hlength]

/-- The audit pipeline conserves events: a producer's batches are its events within the limits of a
message; the consumer settles every message once, groups the audit messages in order, acknowledges
them behind the writes of their events, stays within the statements it may send, and attempts the
first group. -/
theorem audit_conserved (w : Serializer δ) :
    (∀ events : List (AuditEvent δ), (auditBatches w events).flatten = events ∧
      ∀ batch ∈ auditBatches w events, Fits w batch) ∧
    (∀ (inv : Invocation δ ρ) (deps : QueueDeps) (bodies : List (Body ρ)),
      ((queue w inv deps bodies).flatMap (Action.settles bodies.length)).Perm
        (List.range bodies.length) ∧
      (∀ before i after, queue w inv deps bodies = before ++ .ack i :: after →
        ∀ task, (bodies[i]?).bind (taskOf inv.parseEvent) = some task →
          Written w before task.events) ∧
      statementsSent (queue w inv deps bodies) ≤ deps.statementBudget) ∧
    (∀ (inv : Invocation δ ρ) (groupEvents : ℕ) (bodies : List (Body ρ)),
      let groups := archiveGroups groupEvents (triage inv 0 bodies).2
      groups.flatten = auditMessages inv.parseEvent bodies 0 ∧
      ∀ group ∈ groups, group ≠ [] ∧
        (group.length = 1 ∨ (eventsOf group).length ≤ groupEvents)) ∧
    (∀ (events : List (AuditEvent δ)) (attempt : String) (batchAnswer putAnswer : Answer),
      statementsSent (storeAuditBatch w events attempt batchAnswer putAnswer).1 =
        hotStatementsFor events) ∧
    (∀ (inv : Invocation δ ρ) (bodies : List (Body ρ)) (first : List (AuditMessage δ))
      (rest : List (List (AuditMessage δ))), inv.configured = true →
      archiveGroups archiveGroupEvents (triage inv 0 bodies).2 = first :: rest →
      ∃ later, queue w inv ⟨none, none⟩ bodies = (triage inv 0 bodies).1 ++
        (storeAuditBatch w (eventsOf first) (inv.attempt 0) (inv.batchAnswer 0)
          (inv.putAnswer 0)).1 ++ later) := by
  refine ⟨?_, ?_, ?_, ?_, ?_⟩
  · intro events
    exact ⟨auditBatches_flatten events, fun batch hbatch => auditBatches_fits hbatch⟩
  · intro inv deps bodies
    refine ⟨queue_settles w inv deps bodies, ?_, queue_sent w inv deps bodies⟩
    intro before i after hsplit task htask
    exact queue_justified w inv deps bodies hsplit htask
  · intro inv groupEvents bodies groups
    constructor
    · rw [archiveGroups_flatten, triage_messages]
    · intro group hgroup
      exact archiveGroups_bound hgroup
  · intro events attempt batchAnswer putAnswer
    exact storeAuditBatch_sent w events attempt batchAnswer putAnswer
  · intro inv bodies first rest hconfigured hfirst
    exact queue_attempts_first w inv bodies hconfigured hfirst

namespace QueueSample

def event (id type : String) : AuditEvent Unit :=
  ⟨id, type, 1772323200, .success, "user", none, some "u1", none, none, none, none, none, none,
    none, "r1", none, ()⟩

def serializer : Serializer Unit :=
  ⟨fun e => e.id, fun _ => "\x7b\x7d", fun text => text.toUTF8.data.toList⟩

/-- D1 and R2 answer the first group; the second group's put throws. -/
def invocation : Invocation Unit (AuditEvent Unit) :=
  ⟨true, some, fun _ => true, fun _ => "x", fun _ => .done,
    fun i => if i = 0 then .done else .threw false⟩

/-- A hot event, a task of no kind, and an event for the archive only. -/
def bodies : List (Body (AuditEvent Unit)) :=
  [⟨some "audit", some [event "a" "session.created"]⟩, ⟨none, none⟩,
    ⟨some "audit", some [event "b" "token.issued"]⟩]

def deps : QueueDeps := ⟨some 1, some 1⟩

def actions : List Action := queue serializer invocation deps bodies

end QueueSample

theorem audit_conserved_sample :
    Written QueueSample.serializer (QueueSample.actions.take 3)
        [QueueSample.event "a" "session.created"] ∧
      (QueueSample.actions.flatMap (Action.settles 3)).Perm (List.range 3) :=
  have hrun := (audit_conserved QueueSample.serializer).2.1 QueueSample.invocation
    QueueSample.deps QueueSample.bodies
  ⟨hrun.2.1 (QueueSample.actions.take 3) 0 (QueueSample.actions.drop 4) (by decide)
      ⟨[QueueSample.event "a" "session.created"], by decide⟩ rfl, hrun.1⟩

end Conserved

end TinyOidc.Queue
