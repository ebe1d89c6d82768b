import TinyOidc.Audit.Events
import TinyOidc.Audit.Scrubbing

/-! The auditor of a request (`src/audit/events.ts`): it keeps the keys that the catalog allows,
redacts what they hold, and bounds the serialized size. -/
namespace TinyOidc.Audit
open JsonValues
open JsonValues.Json (Holds)

/-! ### The auditor -/

/-- `Record<string, unknown>`. -/
structure Record where
  entries : List Entry
  distinct : (Json.object entries).isDistinct = true

def Record.value (data : Record) : JsonValue := ⟨.object data.entries, data.distinct⟩

structure AuditInput where
  type : String
  outcome : Outcome
  actorKind : String
  actorId : Option String
  userId : Option String
  clientId : Option String
  upstream : Option String
  sid : Option String
  interactionId : Option String
  reason : Option Text
  data : Option Record

structure RequestContext where
  requestId : String
  ipHash : Option String
  country : Option String
  uaFamily : Option String

/-- An event as it is emitted, with the texts that were scrubbed in code units. -/
structure EmittedEvent where
  id : String
  ts : ℤ
  type : String
  outcome : Outcome
  actorKind : String
  actorId : Option String
  userId : Option String
  clientId : Option String
  upstream : Option String
  sid : Option String
  interactionId : Option String
  ipHash : Option String
  country : Option String
  uaFamily : Option String
  requestId : String
  reason : Option Text
  data : JsonValue

def maxDataBytes : ℕ := 4096

/-- Serialized size of `data` in bytes. -/
def dataSize (data : JsonValue) : ℕ := utf8Length data.json.stringify

def truncatedEntries : List Entry := [(ascii "truncated", .bool true)]

theorem truncated_distinct : (Json.object truncatedEntries).isDistinct = true := by decide

def truncated : JsonValue := ⟨.object truncatedEntries, truncated_distinct⟩

/-- The entries under allowed keys, assigned one after another. -/
def keptEntries (allowed : List Text) (entries : List Entry) : List Entry :=
  (entries.filter fun entry => allowed.contains entry.1).foldl
    (fun out entry => assign out entry.1 entry.2) []

def droppedKeys (allowed : List Text) (entries : List Entry) : List Text :=
  keys (entries.filter fun entry => !allowed.contains entry.1)

theorem keptEntries_eq (allowed : List Text) {entries : List Entry}
    (h : (keys entries).Nodup) : keptEntries allowed entries =
      (entries.filter fun entry => allowed.contains entry.1).filter
        fun entry => entry.1 != protoKey := by
  have hnodup : (keys (entries.filter fun entry => allowed.contains entry.1)).Nodup :=
    h.sublist (List.filter_sublist.map _)
  rw [keptEntries, foldl_assign hnodup (by simp [keys]), List.nil_append]

theorem keptEntries_distinct (allowed : List Text) {entries : List Entry}
    (h : (Json.object entries).isDistinct = true) :
    (Json.object (keptEntries allowed entries)).isDistinct = true := by
  obtain ⟨hnodup, hvalues⟩ := Json.isDistinct_object.mp h
  rw [keptEntries_eq allowed hnodup, List.filter_filter, Json.isDistinct_object]
  exact ⟨hnodup.sublist (List.filter_sublist.map _),
    fun entry hentry => hvalues entry (List.mem_of_mem_filter hentry)⟩

def Record.kept (data : Record) (allowed : List Text) : Record :=
  ⟨keptEntries allowed data.entries, keptEntries_distinct allowed data.distinct⟩

theorem none_distinct : (Json.object []).isDistinct = true := by decide

/-- `input.data ?? {}`. -/
def AuditInput.given (input : AuditInput) : Record := input.data.getD ⟨[], none_distinct⟩

structure Auditor where
  context : RequestContext
  events : List EmittedEvent
  /-- Keys, or whole types, that the catalog did not allow. -/
  dropped : List (String × List Text)

def Auditor.start (context : RequestContext) : Auditor := ⟨context, [], []⟩

def Auditor.emit (a : Auditor) (id : String) (now : ℤ) (input : AuditInput) :
    Auditor × EmittedEvent :=
  let allowed := allowedDataKeys input.type
  let droppedOnes := droppedKeys allowed input.given.entries
  let data := redactData (input.given.kept allowed).value
  let event : EmittedEvent :=
    { id := id
      ts := now
      type := input.type
      outcome := input.outcome
      actorKind := input.actorKind
      actorId := input.actorId
      userId := input.userId
      clientId := input.clientId
      upstream := input.upstream
      sid := input.sid
      interactionId := input.interactionId
      ipHash := a.context.ipHash
      country := a.context.country
      uaFamily := a.context.uaFamily
      requestId := a.context.requestId
      reason := redactReason input.reason
      data := if dataSize data ≤ maxDataBytes then data else truncated }
  ({ a with
      events := a.events ++ [event]
      dropped := if !droppedOnes.isEmpty || !isAuditType input.type then
          a.dropped ++ [(input.type, droppedOnes)]
        else a.dropped },
    event)

/-- A call of `emit`, with the id and the time it draws. -/
structure Emission where
  id : String
  now : ℤ
  input : AuditInput

def Auditor.emitAll (a : Auditor) (emissions : List Emission) : Auditor :=
  emissions.foldl (fun a e => (a.emit e.id e.now e.input).1) a

/-! ### What is emitted -/

/-- The data has allowed keys only, or just `truncated`, and fits. -/
def EmittedEvent.Contained (event : EmittedEvent) : Prop :=
  ∃ entries, event.data.json = .object entries ∧
    ((∀ key ∈ keys entries, key ∈ allowedDataKeys event.type) ∨ entries = truncatedEntries) ∧
    dataSize event.data ≤ maxDataBytes

theorem emit_contained (a : Auditor) (id : String) (now : ℤ) (input : AuditInput) :
    (a.emit id now input).2.Contained := by
  have hnodup : (keys input.given.entries).Nodup :=
    (Json.isDistinct_object.mp input.given.distinct).1
  by_cases hsize : dataSize (redactData (input.given.kept (allowedDataKeys input.type)).value) ≤
      maxDataBytes
  · have hdata : (a.emit id now input).2.data =
        redactData (input.given.kept (allowedDataKeys input.type)).value := if_pos hsize
    have hkept := (Json.isDistinct_object.mp
      (input.given.kept (allowedDataKeys input.type)).distinct).1
    refine ⟨scrubbedEntries (input.given.kept (allowedDataKeys input.type)).entries, ?_,
      .inl fun key hkey => ?_, hdata ▸ hsize⟩
    · rw [hdata]
      exact scrub_object hkept
    · have hmem := (keys_scrubbedEntries _).subset hkey
      obtain ⟨entry, hentry, rfl⟩ := List.mem_map.mp hmem
      have hentry' : entry ∈ keptEntries (allowedDataKeys input.type) input.given.entries := hentry
      rw [keptEntries_eq _ hnodup] at hentry'
      have hallowed := List.mem_filter.mp (List.mem_of_mem_filter hentry')
      exact List.contains_iff_mem.mp hallowed.2
  · have hdata : (a.emit id now input).2.data = truncated := if_neg hsize
    refine ⟨truncatedEntries, ?_, .inr rfl, ?_⟩
    · rw [hdata]
      rfl
    · rw [hdata]
      decide

theorem emitAll_contained {a : Auditor} (h : ∀ event ∈ a.events, event.Contained)
    (emissions : List Emission) : ∀ event ∈ (a.emitAll emissions).events, event.Contained := by
  induction emissions generalizing a with
  | nil => exact h
  | cons e emissions ih =>
    refine ih fun event hevent => ?_
    rcases List.mem_append.mp hevent with hevent | hevent
    · exact h event hevent
    · rw [List.mem_singleton.mp hevent]
      exact emit_contained a e.id e.now e.input

/-! ### The guarantee -/

/-- What redaction is to make of `data`. -/
structure Scrubbed (data : JsonValue) : Prop where
  secrets : ∀ entries, Holds (fun _ => true) (.object entries) (redactData data).json →
    ∀ entry ∈ entries, isSecretKey entry.1 = true → entry.2 = .string redacted
  strings : ∀ text, Holds (fun _ => true) (.string text) (redactData data).json → Clean text
  place : keepsPlace data.json (redactData data).json = true
  again : redactData (redactData data) = redactData data

/-- Redaction does what it is to do exactly on data without the key `__proto__`. -/
theorem redactData_scrubbed_iff (data : JsonValue) :
    (Scrubbed data ∧ ∀ context emissions,
      ∀ event ∈ ((Auditor.start context).emitAll emissions).events, event.Contained) ↔
      noProto data.json = true := by
  constructor
  · rintro ⟨hscrubbed, -⟩
    exact (keepsPlace_scrub data.distinct).mp hscrubbed.place
  · intro hfree
    refine ⟨⟨fun _ => secrets_scrub data.distinct, fun _ => strings_scrub data.distinct,
      (keepsPlace_scrub data.distinct).mpr hfree, ?_⟩, fun context emissions => ?_⟩
    · simp only [redactData, scrub_scrub data.distinct]
    · exact emitAll_contained (by simp [Auditor.start]) emissions

namespace Sample

theorem protoData_distinct : (Json.object [(protoKey, .bool true)]).isDistinct = true := by
  decide

def protoData : JsonValue := ⟨.object [(protoKey, .bool true)], protoData_distinct⟩

end Sample

/-- The key `__proto__` is lost. -/
theorem redactData_loses_key :
    ¬ ∀ data : JsonValue, Scrubbed data ∧ ∀ context emissions,
      ∀ event ∈ ((Auditor.start context).emitAll emissions).events, event.Contained := by
  intro hall
  have hplace := (hall Sample.protoData).1.place
  exact absurd hplace (by decide)

end TinyOidc.Audit
