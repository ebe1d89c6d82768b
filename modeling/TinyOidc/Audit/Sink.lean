import TinyOidc.Admin.Listings
import TinyOidc.Audit.Archive
import TinyOidc.Lib.Chunks
import TinyOidc.Lib.Packing

/-! The sinks of audit events (`src/audit/sink.ts`): the batches a producer queues, and the rows
and the archive object that the consumer writes for a group of events. -/
namespace TinyOidc.Audit
open TinyOidc.User (Bytes)
open TinyOidc.Admin (AuditRow AuditRows)

def auditBatchSize : ℕ := 50

def auditBatchBytes : ℕ := 120000

def auditRowsPerStatement : ℕ := 5

/-- The types that go to the archive only (`src/audit/catalog.ts`). -/
def archiveOnlyTypes : List String :=
  ["interaction.created", "interaction.completed", "authz.code_issued", "token.issued",
    "token.refreshed", "passkey.auth_succeeded", "identity.login_succeeded", "session.expired",
    "ratelimit.exceeded"]

/-- Every other type is hot. -/
def isHotType (type : String) : Bool := !archiveOnlyTypes.contains type

/-- `JSON.stringify` of an event and of its data, and gzip. -/
structure Serializer (δ : Type) where
  eventText : AuditEvent δ → String
  dataText : δ → String
  gzip : String → Bytes

section Batches
variable {δ : Type} (w : Serializer δ)

/-- An event's serialized bytes and the separator. -/
def eventSize (event : AuditEvent δ) : ℕ := (w.eventText event).utf8ByteSize + 1

def bytesOf (events : List (AuditEvent δ)) : ℕ := (events.map (eventSize w)).sum

/-- The batches that are closed, the one being filled and its bytes. -/
structure Batching (δ : Type) where
  batches : List (List (AuditEvent δ))
  current : List (AuditEvent δ)
  bytes : ℕ

def Batching.add (s : Batching δ) (event : AuditEvent δ) : Batching δ :=
  let size := eventSize w event
  let s := if s.current.length = auditBatchSize ∨
      (0 < s.current.length ∧ auditBatchBytes < s.bytes + size) then
    ⟨s.batches ++ [s.current], [], 0⟩ else s
  ⟨s.batches, s.current ++ [event], s.bytes + size⟩

/-- The batches of a queue message each. -/
def auditBatches (events : List (AuditEvent δ)) : List (List (AuditEvent δ)) :=
  let s := events.foldl (Batching.add w) ⟨[], [], 0⟩
  if 0 < s.current.length then s.batches ++ [s.current] else s.batches

def joins (batch : List (AuditEvent δ)) (event : AuditEvent δ) : Bool :=
  batch.length ≠ auditBatchSize && bytesOf w batch + eventSize w event ≤ auditBatchBytes

variable {w}

@[simp] theorem bytesOf_singleton (event : AuditEvent δ) :
    bytesOf w [event] = eventSize w event := by
  simp [bytesOf]

theorem bytesOf_concat (events : List (AuditEvent δ)) (event : AuditEvent δ) :
    bytesOf w (events ++ [event]) = bytesOf w events + eventSize w event := by
  simp [bytesOf]

theorem add_eq {closed : List (List (AuditEvent δ))} {current : List (AuditEvent δ)}
    (hcurrent : current ≠ []) (event : AuditEvent δ) :
    Batching.add w ⟨closed, current, bytesOf w current⟩ event =
      if joins w current event then
        ⟨closed, current ++ [event], bytesOf w (current ++ [event])⟩
      else ⟨closed ++ [current], [event], bytesOf w [event]⟩ := by
  have hpos : 0 < current.length := List.length_pos_iff.mpr hcurrent
  unfold Batching.add joins
  dsimp only
  by_cases hsize : current.length = auditBatchSize
  · simp [hsize]
  · by_cases hbytes : auditBatchBytes < bytesOf w current + eventSize w event
    · simp [hsize, hpos, hbytes, not_le.mpr hbytes]
    · simp [hsize, hbytes, not_lt.mp hbytes, bytesOf_concat]

/-- The loop's batches, the last included, are the events packed. -/
theorem foldl_add {closed : List (List (AuditEvent δ))} {current : List (AuditEvent δ)}
    (hcurrent : current ≠ []) (events : List (AuditEvent δ)) :
    let s := events.foldl (Batching.add w) ⟨closed, current, bytesOf w current⟩
    s.current ≠ [] ∧
      s.batches ++ [s.current] = closed ++ Packing.packFrom (joins w) current events := by
  induction events generalizing closed current with
  | nil => exact ⟨hcurrent, rfl⟩
  | cons event rest ih =>
    rw [List.foldl_cons, add_eq hcurrent, Packing.packFrom]
    by_cases hjoins : joins w current event = true
    · rw [if_pos hjoins, if_pos hjoins]
      exact ih (by simp)
    · rw [if_neg hjoins, if_neg hjoins]
      obtain ⟨hne, hbatches⟩ := @ih (closed ++ [current]) [event] (by simp)
      refine ⟨hne, ?_⟩
      rw [hbatches, List.append_assoc, List.singleton_append]

theorem auditBatches_eq (events : List (AuditEvent δ)) :
    auditBatches w events = Packing.pack (joins w) events := by
  cases events with
  | nil => rfl
  | cons event rest =>
    have hfirst : Batching.add w ⟨[], [], 0⟩ event = ⟨[], [event], bytesOf w [event]⟩ := by
      simp [Batching.add, auditBatchSize]
    obtain ⟨hne, hbatches⟩ := @foldl_add _ w [] [event] (by simp) rest
    unfold auditBatches Packing.pack
    rw [List.foldl_cons, hfirst]
    dsimp only
    rw [if_pos (List.length_pos_iff.mpr hne), hbatches, List.nil_append]

/-- A batch of a message is not empty and within both limits; one event may be beyond the bytes. -/
structure Fits (w : Serializer δ) (batch : List (AuditEvent δ)) : Prop where
  nonempty : batch ≠ []
  size : batch.length ≤ auditBatchSize
  bytes : batch.length = 1 ∨ bytesOf w batch ≤ auditBatchBytes

theorem auditBatches_fits {events batch : List (AuditEvent δ)}
    (h : batch ∈ auditBatches w events) : Fits w batch := by
  rw [auditBatches_eq] at h
  refine Packing.pack_forall ?_ ?_ batch h
  · intro event
    exact ⟨by simp, by simp [auditBatchSize], .inl rfl⟩
  · intro run event hrun hjoins
    simp only [joins, Bool.and_eq_true, decide_eq_true_eq] at hjoins
    have hsize := hrun.size
    constructor
    · simp
    · rw [List.length_append, List.length_singleton]
      omega
    · rw [bytesOf_concat]
      exact .inr hjoins.2

/-- The batches together are the events, in order. -/
theorem auditBatches_flatten (events : List (AuditEvent δ)) :
    (auditBatches w events).flatten = events := by
  rw [auditBatches_eq, Packing.flatten_pack]

end Batches

/-! ### Storing a group -/

/-- How a storage call ends; one that throws may have been carried out. -/
inductive Answer where
  | done | threw (applied : Bool)
  deriving DecidableEq, Repr

inductive Action where
  | batch (statements : List (List AuditRow)) (answer : Answer)
  | put (key : String) (body : Bytes) (answer : Answer)
  | ack (message : ℕ)
  | retry (message : ℕ)
  | retryAll
  | deferred (messages : List ℕ)
  deriving DecidableEq, Repr

section Store
variable {δ : Type} (w : Serializer δ)

def rowOf (e : AuditEvent δ) : AuditRow where
  id := e.id
  ts := e.ts
  type := e.type
  outcome := e.outcome
  actorKind := e.actorKind
  actorId := e.actorId
  userId := e.userId
  clientId := e.clientId
  upstream := e.upstream
  ipHash := e.ipHash
  data := w.dataText e.data
  sid := e.sid
  interactionId := e.interactionId
  country := e.country
  uaFamily := e.uaFamily
  requestId := e.requestId
  reason := e.reason

/-- The rows of one `INSERT OR IGNORE`. -/
def insertAuditStatement (events : List (AuditEvent δ)) : List AuditRow := events.map (rowOf w)

/-- One JSON object per line, compressed. -/
def gzipNdjson (events : List (AuditEvent δ)) : Bytes :=
  w.gzip ("\n".intercalate (events.map w.eventText) ++ "\n")

def hotEvents (events : List (AuditEvent δ)) : List (AuditEvent δ) :=
  events.filter fun e => isHotType e.type

/-- How many insert statements the events need. -/
def hotStatementsFor (events : List (AuditEvent δ)) : ℕ :=
  (hotEvents events).length ⌈/⌉ auditRowsPerStatement

def hotStatements (events : List (AuditEvent δ)) : List (List AuditRow) :=
  (Chunks.chunks auditRowsPerStatement (hotEvents events)).map (insertAuditStatement w)

/-- The hot events to the table, then all of them to the archive; whether both were written. -/
def storeAuditBatch (events : List (AuditEvent δ)) (attempt : String)
    (batchAnswer putAnswer : Answer) : List Action × Bool :=
  let statements := hotStatements w events
  let inserted := if 0 < statements.length then [Action.batch statements batchAnswer] else []
  if 0 < statements.length ∧ batchAnswer ≠ .done then (inserted, false)
  else
    match events with
    | [] => (inserted, false)
    | first :: _ =>
      (inserted ++ [.put (archiveKey first attempt) (gzipNdjson w events) putAnswer],
        putAnswer = .done)

def Action.statementCount : Action → ℕ
  | .batch statements _ => statements.length
  | _ => 0

def statementsSent (actions : List Action) : ℕ := (actions.map Action.statementCount).sum

/-- The messages that an action settles, of a batch of `count`. -/
def Action.settles (count : ℕ) : Action → List ℕ
  | .ack message => [message]
  | .retry message => [message]
  | .retryAll => List.range count
  | _ => []

/-- The hot rows of the events were inserted and an object with the events was put, both without
an error. -/
structure Written (actions : List Action) (events : List (AuditEvent δ)) : Prop where
  hot : ∀ e ∈ events, isHotType e.type = true →
    ∃ statements, Action.batch statements .done ∈ actions ∧ ∃ rows ∈ statements, rowOf w e ∈ rows
  archived : ∃ key group, Action.put key (gzipNdjson w group) .done ∈ actions ∧ events <:+: group

variable {w}

theorem length_hotStatements (events : List (AuditEvent δ)) :
    (hotStatements w events).length = hotStatementsFor events := by
  rw [hotStatements, List.length_map, Chunks.length_chunks (by decide), hotStatementsFor]

/-- Every hot event is in a statement. -/
theorem mem_hotStatements {events : List (AuditEvent δ)} {e : AuditEvent δ} (he : e ∈ events)
    (hhot : isHotType e.type = true) : ∃ rows ∈ hotStatements w events, rowOf w e ∈ rows := by
  have hmem : e ∈ hotEvents events := List.mem_filter.mpr ⟨he, hhot⟩
  rw [← Chunks.flatten_chunks (show 0 < auditRowsPerStatement by decide) (hotEvents events)] at hmem
  obtain ⟨slice, hslice, hin⟩ := List.mem_flatten.mp hmem
  exact ⟨_, List.mem_map_of_mem hslice, List.mem_map_of_mem hin⟩

section Stored
variable {events : List (AuditEvent δ)} {attempt : String} {batchAnswer putAnswer : Answer}

/-- What storing a group does: an insert that fails ends it; else the put decides. -/
theorem storeAuditBatch_cases (hevents : events ≠ []) :
    (0 < hotStatementsFor events ∧ batchAnswer ≠ .done ∧
      storeAuditBatch w events attempt batchAnswer putAnswer =
        ([.batch (hotStatements w events) batchAnswer], false)) ∨
    ∃ inserted key, (inserted = [Action.batch (hotStatements w events) .done] ∨
        (inserted = [] ∧ hotStatementsFor events = 0)) ∧
      storeAuditBatch w events attempt batchAnswer putAnswer =
        (inserted ++ [.put key (gzipNdjson w events) putAnswer], decide (putAnswer = .done)) := by
  obtain ⟨first, rest, rfl⟩ := List.exists_cons_of_ne_nil hevents
  unfold storeAuditBatch
  dsimp only
  rw [length_hotStatements]
  by_cases hhot : 0 < hotStatementsFor (first :: rest)
  · by_cases hdone : batchAnswer = .done
    · right
      rw [if_neg (by simp [hdone]), if_pos hhot, hdone]
      exact ⟨_, _, .inl rfl, rfl⟩
    · left
      rw [if_pos ⟨hhot, hdone⟩, if_pos hhot]
      exact ⟨hhot, hdone, rfl⟩
  · right
    rw [if_neg (by simp [hhot]), if_neg hhot]
    exact ⟨[], _, .inr ⟨rfl, by omega⟩, rfl⟩

/-- A stored group is written. -/
theorem storeAuditBatch_written (hevents : events ≠ [])
    (h : (storeAuditBatch w events attempt batchAnswer putAnswer).2 = true) :
    Written w (storeAuditBatch w events attempt batchAnswer putAnswer).1 events := by
  rcases @storeAuditBatch_cases _ w events attempt batchAnswer putAnswer hevents with
    ⟨-, -, hstore⟩ | ⟨inserted, key, hinserted, hstore⟩
  · rw [hstore] at h
    cases h
  · rw [hstore] at h ⊢
    have hdone : putAnswer = .done := of_decide_eq_true h
    dsimp only
    rw [hdone]
    constructor
    · intro e he hhot
      rcases hinserted with rfl | ⟨-, hnone⟩
      · exact ⟨_, by simp, mem_hotStatements he hhot⟩
      · have hrows := mem_hotStatements (w := w) he hhot
        rw [← @length_hotStatements _ w, List.length_eq_zero_iff] at hnone
        simp [hnone] at hrows
    · exact ⟨key, events, by simp, List.infix_rfl⟩

/-- What is written stays written. -/
theorem Written.mono {actions more : List Action} (h : Written w actions events)
    (hsub : ∀ a ∈ actions, a ∈ more) : Written w more events where
  hot e he hhot := by
    obtain ⟨statements, hbatch, hrows⟩ := h.hot e he hhot
    exact ⟨statements, hsub _ hbatch, hrows⟩
  archived := by
    obtain ⟨key, group, hput, hinfix⟩ := h.archived
    exact ⟨key, group, hsub _ hput, hinfix⟩

theorem Written.part {actions : List Action} {group : List (AuditEvent δ)}
    (h : Written w actions group) (hpart : events <:+: group) : Written w actions events where
  hot e he hhot := h.hot e (hpart.subset he) hhot
  archived := by
    obtain ⟨key, whole, hput, hinfix⟩ := h.archived
    exact ⟨key, whole, hput, hpart.trans hinfix⟩

/-- As many statements are sent as the estimate says. -/
theorem storeAuditBatch_sent (w : Serializer δ) (events : List (AuditEvent δ)) (attempt : String)
    (batchAnswer putAnswer : Answer) :
    statementsSent (storeAuditBatch w events attempt batchAnswer putAnswer).1 =
      hotStatementsFor events := by
  by_cases hevents : events = []
  · rw [hevents]
    simp [storeAuditBatch, hotStatements, hotStatementsFor, hotEvents, Chunks.chunks,
      Chunks.slices, statementsSent]
  · rcases @storeAuditBatch_cases _ w events attempt batchAnswer putAnswer hevents with
      ⟨-, -, hstore⟩ | ⟨inserted, key, rfl | ⟨rfl, hnone⟩, hstore⟩
    · rw [hstore]
      simp [statementsSent, Action.statementCount, length_hotStatements]
    · rw [hstore]
      simp [statementsSent, Action.statementCount, length_hotStatements]
    · rw [hstore, hnone]
      rfl

/-- Storing a group settles no message. -/
theorem storeAuditBatch_settles (hevents : events ≠ []) (count : ℕ) :
    (storeAuditBatch w events attempt batchAnswer putAnswer).1.flatMap (Action.settles count) =
      [] := by
  rcases @storeAuditBatch_cases _ w events attempt batchAnswer putAnswer hevents with
    ⟨-, -, hstore⟩ | ⟨inserted, key, rfl | ⟨rfl, -⟩, hstore⟩
  · rw [hstore]
    rfl
  · rw [hstore]
    rfl
  · rw [hstore]
    rfl

end Stored
end Store

end TinyOidc.Audit
