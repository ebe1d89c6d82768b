import TinyOidc.Federation.Upstreams

/-! The isolate cache of discovery metadata (`src/federation/metadata.ts`, `fetchDiscovery` of
`src/federation/discovery.ts`). Entries stand under the alias of an upstream; the record of an
alias, and with it the issuer, differs between calls. -/
namespace TinyOidc.Federation
open Threads (Prog Entry Label Thread Config System)
open Threads.Prog (Obeys)

def metadataTtlSeconds : ℤ := 3600

def metadataStaleSeconds : ℤ := 86400

structure MetadataEntry where
  metadata : UpstreamMetadata
  fetchedAt : ℤ
  deriving DecidableEq

structure DiscoveryDocument where
  issuer : String
  metadata : UpstreamMetadata
  deriving DecidableEq

/-- The cache, the clock, and what a provider answers with. -/
inductive MetadataOp where
  | now
  | getEntry (recordAlias : String)
  | fetchDocument (url : String)
  | setEntry (recordAlias : String) (entry : MetadataEntry)
  | deleteEntry (recordAlias : String)
  deriving DecidableEq

@[reducible] def MetadataOp.Answer : MetadataOp → Type
  | .now => ℤ
  | .getEntry _ => Option MetadataEntry
  | .fetchDocument _ => Except String DiscoveryDocument
  | .setEntry _ _ | .deleteEntry _ => Unit

abbrev MetadataEntries := String → Option MetadataEntry

structure MetadataOutside where
  clock : ℤ
  document : Except String DiscoveryDocument

def execMetadata (entries : MetadataEntries) (outside : MetadataOutside) :
    (op : MetadataOp) → MetadataEntries × op.Answer
  | .now => (entries, outside.clock)
  | .getEntry recordAlias => (entries, entries recordAlias)
  | .fetchDocument _ => (entries, outside.document)
  | .setEntry recordAlias entry => (Function.update entries recordAlias (some entry), ())
  | .deleteEntry recordAlias => (Function.update entries recordAlias none, ())

abbrev MetadataProgram := Prog MetadataOp MetadataOp.Answer

def onMetadata (op : MetadataOp) : MetadataProgram op.Answer := .perform op

/-- The well-known URL of an issuer, which may end with a slash. -/
def wellKnown (issuer : String) : String :=
  let base := if issuer.toList.getLast? = some '/' then String.ofList issuer.toList.dropLast
    else issuer
  base ++ "/.well-known/openid-configuration"

/-- The document's issuer must be the configured one. -/
def fetchDiscovery (issuer : String) : MetadataProgram (Except String UpstreamMetadata) := do
  match ← onMetadata (.fetchDocument (wellKnown issuer)) with
  | .error reason => return .error reason
  | .ok document =>
    if document.issuer = issuer then return .ok document.metadata
    else return .error "issuer_mismatch"

/-- An upstream as far as its metadata go. -/
structure MetadataRequest where
  recordAlias : String
  issuer : String
  discovery : Discovery
  deriving DecidableEq

/-- `UpstreamUnavailableError`. -/
structure UpstreamUnavailable where
  recordAlias : String
  reason : String
  deriving DecidableEq

/-- A failed fetch leaves the entry found before, while it may be served. -/
def staleMetadata (recordAlias reason : String) (now : ℤ) (cached : Option MetadataEntry) :
    Except UpstreamUnavailable UpstreamMetadata :=
  match cached with
  | some entry =>
    if now - entry.fetchedAt < metadataStaleSeconds then .ok entry.metadata
    else .error ⟨recordAlias, reason⟩
  | none => .error ⟨recordAlias, reason⟩

/-- `UpstreamMetadataCache.get` after the cache was read: a fetch, whose result is kept. -/
def fetchMetadata (u : MetadataRequest) (now : ℤ) (cached : Option MetadataEntry) :
    MetadataProgram (Except UpstreamUnavailable UpstreamMetadata) := do
  match ← fetchDiscovery u.issuer with
  | .ok metadata =>
    onMetadata (.setEntry u.recordAlias ⟨metadata, now⟩)
    return .ok metadata
  | .error reason => return staleMetadata u.recordAlias reason now cached

def isFresh (now : ℤ) (entry : MetadataEntry) : Bool :=
  decide (now - entry.fetchedAt < metadataTtlSeconds)

theorem usable_of_isFresh {now : ℤ} {entry : MetadataEntry} (h : isFresh now entry = true) :
    now - entry.fetchedAt < metadataStaleSeconds := by
  have fresh : now - entry.fetchedAt < 3600 := of_decide_eq_true h
  have ttl : (3600 : ℤ) < metadataStaleSeconds := by decide
  omega

/-- `UpstreamMetadataCache.get`. -/
def getMetadata (u : MetadataRequest) :
    MetadataProgram (Except UpstreamUnavailable UpstreamMetadata) := do
  match u.discovery with
  | .manual endpoints => return .ok endpoints
  | .auto =>
    let now ← onMetadata .now
    let cached ← onMetadata (.getEntry u.recordAlias)
    match cached.filter (isFresh now) with
    | some entry => return .ok entry.metadata
    | none => fetchMetadata u now cached

/-! ### Calls that interleave -/

/-- An invalidation drops the entry of an alias. -/
def metadataCalls : System MetadataRequest MetadataOutside MetadataEntries MetadataOp.Answer
    (Except UpstreamUnavailable UpstreamMetadata) where
  start := getMetadata
  exec := execMetadata
  isOutside
    | .deleteEntry _ => true
    | _ => false

abbrev MetadataLog := List (Entry MetadataOp.Answer)

abbrev MetadataConfig := Config MetadataRequest MetadataEntries MetadataOp.Answer
  (Except UpstreamUnavailable UpstreamMetadata)

abbrev MetadataLabel := Label MetadataRequest MetadataOp MetadataOutside

def ReadClock (log : MetadataLog) (now : ℤ) : Prop :=
  (⟨.now, now⟩ : Entry MetadataOp.Answer) ∈ log

/-- A call has obtained the metadata from the document of an issuer, at its clock. -/
def Obtained (log : MetadataLog) (issuer : String) (entry : MetadataEntry) : Prop :=
  ReadClock log entry.fetchedAt ∧ ∃ document : DiscoveryDocument,
    (⟨.fetchDocument (wellKnown issuer), .ok document⟩ : Entry MetadataOp.Answer) ∈ log ∧
      document.issuer = issuer ∧ document.metadata = entry.metadata

def HasFound (log : MetadataLog) (recordAlias : String) (entry : MetadataEntry) : Prop :=
  (⟨.getEntry recordAlias, some entry⟩ : Entry MetadataOp.Answer) ∈ log

/-- The provider's answer gives `fetchDiscovery` no metadata of the issuer. -/
def fetchFails (issuer : String) : Except String DiscoveryDocument → Bool
  | .error _ => true
  | .ok document => document.issuer != issuer

/-- A found entry is handed out: while it is fresh, or after a failed fetch while it is not too
old. -/
def HandsOut (u : MetadataRequest) (log : MetadataLog) (now : ℤ) (entry : MetadataEntry) : Prop :=
  isFresh now entry = true ∨ now - entry.fetchedAt < metadataStaleSeconds ∧
    ∃ url fetched, (⟨.fetchDocument url, fetched⟩ : Entry MetadataOp.Answer) ∈ log ∧
      fetchFails u.issuer fetched = true

/-- The clock is read first, then the cache, then a document, and what is kept has been
obtained. -/
def MetadataPermits (u : MetadataRequest) (log : MetadataLog) : MetadataOp → Prop
  | .now => log = []
  | .getEntry recordAlias => recordAlias = u.recordAlias ∧ ∃ now, log = [⟨.now, now⟩]
  | .fetchDocument _ => ∃ cached now, log = [⟨.getEntry u.recordAlias, cached⟩, ⟨.now, now⟩]
  | .setEntry recordAlias entry => recordAlias = u.recordAlias ∧ Obtained log u.issuer entry
  | .deleteEntry _ => False

/-- What a call ends with: metadata it has obtained itself, or those of an entry that it has
found. -/
def Answered (u : MetadataRequest) (log : MetadataLog)
    (result : Except UpstreamUnavailable UpstreamMetadata) : Prop :=
  u.discovery = .auto → ∀ metadata, result = .ok metadata → ∃ now entry, ReadClock log now ∧
    entry.metadata = metadata ∧ now - entry.fetchedAt < metadataStaleSeconds ∧
    (Obtained log u.issuer entry ∨
      HasFound log u.recordAlias entry ∧ HandsOut u log now entry)

section Protocol
variable {u : MetadataRequest} {log : MetadataLog}

/-- The log of a call that has read the cache and then asked the provider. -/
def afterFetch (u : MetadataRequest) (now : ℤ) (cached : Option MetadataEntry)
    (fetched : Except String DiscoveryDocument) : MetadataLog :=
  [⟨.fetchDocument (wellKnown u.issuer), fetched⟩, ⟨.getEntry u.recordAlias, cached⟩, ⟨.now, now⟩]

theorem readClock_afterFetch (u : MetadataRequest) (now : ℤ) (cached : Option MetadataEntry)
    (fetched : Except String DiscoveryDocument) : ReadClock (afterFetch u now cached fetched) now :=
  List.mem_cons_of_mem _ (List.mem_cons_of_mem _ List.mem_cons_self)

theorem staleMetadata_answered {reason : String} {now : ℤ} {cached : Option MetadataEntry}
    {fetched : Except String DiscoveryDocument} (hfails : fetchFails u.issuer fetched = true) :
    Answered u (afterFetch u now cached fetched)
      (staleMetadata u.recordAlias reason now cached) := by
  intro _ metadata heq
  unfold staleMetadata at heq
  cases cached with
  | none => cases heq
  | some entry =>
    dsimp only at heq
    split at heq
    · next hage =>
      cases heq
      have hfound : HasFound (afterFetch u now (some entry) fetched) u.recordAlias entry :=
        List.mem_cons_of_mem _ List.mem_cons_self
      exact ⟨now, entry, readClock_afterFetch u now _ fetched, rfl, hage,
        .inr ⟨hfound, .inr ⟨hage, _, fetched, List.mem_cons_self, hfails⟩⟩⟩
    · cases heq

theorem fetchMetadata_obeys (now : ℤ) (cached : Option MetadataEntry) :
    Obeys (MetadataPermits u) (Answered u) [⟨.getEntry u.recordAlias, cached⟩, ⟨.now, now⟩]
      (fetchMetadata u now cached) := by
  refine Obeys.bind (Obeys.perform ⟨cached, now, rfl⟩ fun fetched => ?_)
  cases fetched with
  | error reason => exact staleMetadata_answered rfl
  | ok document =>
    dsimp only
    split
    · next hissuer =>
      have hobtained : ∀ {log' : MetadataLog}, afterFetch u now cached (.ok document) ⊆ log' →
          Obtained log' u.issuer ⟨document.metadata, now⟩ :=
        fun hsub => ⟨hsub (readClock_afterFetch u now cached _), document,
          hsub List.mem_cons_self, hissuer, rfl⟩
      refine Obeys.perform ⟨rfl, hobtained (List.Subset.refl _)⟩ fun _ => ?_
      intro _ metadata heq
      cases heq
      have hclock := readClock_afterFetch u now cached (.ok document)
      refine ⟨now, ⟨document.metadata, now⟩, List.mem_cons_of_mem _ hclock, rfl, ?_,
        .inl (hobtained (List.subset_cons_self _ _))⟩
      simp [metadataStaleSeconds]
    · next hissuer => exact staleMetadata_answered (bne_iff_ne.mpr hissuer)

theorem getMetadata_obeys (u : MetadataRequest) :
    Obeys (MetadataPermits u) (Answered u) [] (getMetadata u) := by
  unfold getMetadata
  cases hmode : u.discovery with
  | manual endpoints =>
    intro hauto
    rw [hmode] at hauto
    cases hauto
  | auto =>
    refine Obeys.perform rfl fun now => Obeys.perform ⟨rfl, now, rfl⟩ fun cached => ?_
    cases hfresh : cached.filter (isFresh now) with
    | none => exact fetchMetadata_obeys now cached
    | some entry =>
      obtain ⟨rfl, hage⟩ := Option.filter_eq_some_iff.mp hfresh
      intro _ metadata heq
      cases heq
      exact ⟨now, entry, List.mem_cons_of_mem _ List.mem_cons_self, rfl, usable_of_isFresh hage,
        .inr ⟨List.mem_cons_self, .inl hage⟩⟩

theorem metadataCalls_follow : metadataCalls.Follows MetadataPermits :=
  fun u => (getMetadata_obeys u).mono fun _ _ _ => trivial

end Protocol

/-! ### The condition -/

def clockRead : MetadataLog → Option ℤ
  | [] => none
  | ⟨.now, now⟩ :: _ => some now
  | _ :: log => clockRead log

def entryFound : MetadataLog → Option MetadataEntry
  | [] => none
  | ⟨.getEntry _, cached⟩ :: _ => cached
  | _ :: log => entryFound log

def isSetOf (recordAlias : String) (entry : MetadataEntry) : Entry MetadataOp.Answer → Bool
  | ⟨.setEntry a e, _⟩ => a == recordAlias && e == entry
  | _ => false

/-- A call for an upstream of this issuer has put the entry into the cache. -/
def setForIssuer (c : MetadataConfig) (u : MetadataRequest) (entry : MetadataEntry) : Bool :=
  c.threads.any fun t => t.request.issuer == u.issuer && t.log.any (isSetOf u.recordAlias entry)

/-- The entry that the next step of a call makes it hand out: one that it finds fresh, or the one
it found before, when the fetch fails and that entry is not too old. -/
def entryUsed (entries : MetadataEntries) (u : MetadataRequest) (log : MetadataLog)
    (outside : MetadataOutside) : MetadataOp → Option MetadataEntry
  | .getEntry recordAlias =>
      (entries recordAlias).filter fun entry => (clockRead log).any (isFresh · entry)
  | .fetchDocument _ =>
      if fetchFails u.issuer outside.document then
        (entryFound log).filter fun entry =>
          (clockRead log).any fun now => decide (now - entry.fetchedAt < metadataStaleSeconds)
      else none
  | _ => none

/-- An entry that the next step hands out was put into the cache for the issuer of its own
record. -/
def usesForIssuer (c : MetadataConfig) : MetadataLabel → Bool
  | .step i outside =>
      match c.threads[i]? with
      | none => true
      | some t => t.prog.head.all fun op =>
          (entryUsed c.shared t.request t.log outside op).all (setForIssuer c t.request)
  | _ => true

/-- The cache starts empty in its isolate. -/
def UsesForIssuer : List MetadataLabel → Prop
  | [] => True
  | l :: labels =>
      usesForIssuer (metadataCalls.after (fun _ => none) labels) l = true ∧ UsesForIssuer labels

instance decidableUsesForIssuer : (labels : List MetadataLabel) → Decidable (UsesForIssuer labels)
  | [] => isTrue trivial
  | _ :: labels =>
      have := decidableUsesForIssuer labels
      inferInstanceAs (Decidable (_ ∧ _))

/-! ### Runs -/

theorem Obtained.grow {log log' : MetadataLog} {issuer : String} {entry : MetadataEntry}
    (h : Obtained log issuer entry) (hgrown : log ⊆ log') : Obtained log' issuer entry := by
  obtain ⟨hclock, document, hmem, hrest⟩ := h
  exact ⟨hgrown hclock, document, hgrown hmem, hrest⟩

def ObtainedBySome (c : MetadataConfig) (issuer : String) (entry : MetadataEntry) : Prop :=
  ∃ t ∈ c.threads, t.request.issuer = issuer ∧ Obtained t.log issuer entry

theorem obtained_of_setForIssuer {labels : List MetadataLabel} {u : MetadataRequest}
    {entry : MetadataEntry}
    (h : setForIssuer (metadataCalls.after (fun _ => none) labels) u entry = true) :
    ObtainedBySome (metadataCalls.after (fun _ => none) labels) u.issuer entry := by
  obtain ⟨t, ht, hset⟩ := List.any_eq_true.mp h
  simp only [Bool.and_eq_true, beq_iff_eq, List.any_eq_true] at hset
  obtain ⟨hissuer, e, he, hsetOf⟩ := hset
  obtain ⟨newer, older, hlog⟩ := List.append_of_mem he
  have hsuffix : e :: older <:+ t.log := ⟨newer, hlog.symm⟩
  have hperm := System.log_permitted metadataCalls_follow (fun _ => none) labels t ht e older
    hsuffix
  have hobtained : Obtained older t.request.issuer entry := by
    unfold isSetOf at hsetOf
    split at hsetOf
    · simp only [Bool.and_eq_true, beq_iff_eq] at hsetOf
      rw [← hsetOf.2]
      exact hperm.2
    · cases hsetOf
  refine ⟨t, ht, hissuer, hissuer ▸ hobtained.grow ?_⟩
  exact fun e' he' => hsuffix.subset (List.mem_cons_of_mem _ he')

/-- What calls have found and hand out has been obtained for their issuer. -/
def FoundObtained (c : MetadataConfig) : Prop :=
  ∀ t ∈ c.threads, ∀ now entry, ReadClock t.log now → HasFound t.log t.request.recordAlias entry →
    HandsOut t.request t.log now entry → ObtainedBySome c t.request.issuer entry

/-- Before the provider was asked only a fresh entry is handed out. -/
theorem isFresh_of_handsOut {u : MetadataRequest} {log : MetadataLog} {now : ℤ}
    {entry : MetadataEntry} (h : HandsOut u log now entry)
    (hunasked : ∀ url fetched, (⟨.fetchDocument url, fetched⟩ : Entry MetadataOp.Answer) ∉ log) :
    isFresh now entry = true := by
  rcases h with hfresh | ⟨-, url, fetched, hmem, -⟩
  · exact hfresh
  · exact absurd hmem (hunasked url fetched)

/-- The log grows by the entry of one step. -/
theorem FoundObtained.step {labels : List MetadataLabel} {i : ℕ} {outside : MetadataOutside}
    {t : Thread MetadataRequest MetadataOp.Answer (Except UpstreamUnavailable UpstreamMetadata)}
    {op : MetadataOp} {answer : op.Answer}
    (h : FoundObtained (metadataCalls.after (fun _ => none) labels))
    (hi : (metadataCalls.after (fun _ => none) labels).threads[i]? = some t)
    (hhead : t.prog.head = some op) (hperm : MetadataPermits t.request t.log op)
    (hanswer : (execMetadata (metadataCalls.after (fun _ => none) labels).shared outside op).2 =
      answer)
    (huses : usesForIssuer (metadataCalls.after (fun _ => none) labels) (.step i outside) = true)
    (now : ℤ) (entry : MetadataEntry) (hclock : ReadClock (⟨op, answer⟩ :: t.log) now)
    (hfound : HasFound (⟨op, answer⟩ :: t.log) t.request.recordAlias entry)
    (hout : HandsOut t.request (⟨op, answer⟩ :: t.log) now entry) :
    ObtainedBySome (metadataCalls.after (fun _ => none) labels) t.request.issuer entry := by
  simp only [usesForIssuer, hi, hhead, Option.all_some] at huses
  have hset : entryUsed (metadataCalls.after (fun _ => none) labels).shared t.request t.log
      outside op = some entry →
      ObtainedBySome (metadataCalls.after (fun _ => none) labels) t.request.issuer entry := by
    intro hused
    rw [hused] at huses
    exact obtained_of_setForIssuer huses
  cases op with
  | now =>
    -- The clock is read before the cache.
    have hempty : t.log = [] := hperm
    rw [hempty] at hfound
    cases List.mem_singleton.mp hfound
  | getEntry recordAlias =>
    obtain ⟨rfl, now', hlog⟩ := hperm
    rw [hlog] at hclock hfound hout
    have hfresh : isFresh now entry = true := isFresh_of_handsOut hout (by simp)
    have hnow : now = now' := by simpa [ReadClock] using hclock
    have hcached : answer = some entry := by simpa [HasFound, eq_comm] using hfound
    have hshared : (metadataCalls.after (fun _ => none) labels).shared t.request.recordAlias =
        some entry := hanswer.trans hcached
    apply hset
    simp [entryUsed, hshared, hlog, clockRead, Option.filter, ← hnow, hfresh]
  | fetchDocument url =>
    obtain ⟨cached, now', hlog⟩ := hperm
    have hclock' : ReadClock t.log now := by simpa [ReadClock] using hclock
    have hfound' : HasFound t.log t.request.recordAlias entry := by
      simpa [HasFound] using hfound
    rcases hout with hfresh | ⟨hage, url', fetched, hmem, hfails⟩
    · exact h t (List.mem_of_getElem? hi) now entry hclock' hfound' (.inl hfresh)
    · -- The answer of this step is the only one of the provider.
      have hfetched : fetched = outside.document := by
        have hmem' : (⟨.fetchDocument url', fetched⟩ : Entry MetadataOp.Answer) =
            ⟨.fetchDocument url, answer⟩ := by simpa [hlog] using hmem
        cases hmem'
        exact hanswer.symm
      rw [hlog] at hclock' hfound'
      have hnow : now = now' := by simpa [ReadClock] using hclock'
      have hcached : cached = some entry := by simpa [HasFound, eq_comm] using hfound'
      apply hset
      simp [entryUsed, ← hfetched, hfails, hlog, entryFound, clockRead, hcached, Option.filter,
        ← hnow, hage]
  | setEntry recordAlias kept =>
    have hmem : ∀ e : Entry MetadataOp.Answer, e ∈ (⟨.setEntry recordAlias kept, answer⟩ ::
        t.log : MetadataLog) → e.1 ≠ .setEntry recordAlias kept → e ∈ t.log := by
      rintro e he hne
      rcases List.mem_cons.mp he with rfl | he
      · exact absurd rfl hne
      · exact he
    refine h t (List.mem_of_getElem? hi) now entry (hmem _ hclock nofun) (hmem _ hfound nofun) ?_
    rcases hout with hfresh | ⟨hage, url, fetched, hfetched, hfails⟩
    · exact .inl hfresh
    · exact .inr ⟨hage, url, fetched, hmem _ hfetched nofun, hfails⟩
  | deleteEntry recordAlias => exact hperm.elim

theorem foundObtained_run {labels : List MetadataLabel} (huses : UsesForIssuer labels) :
    FoundObtained (metadataCalls.after (fun _ => none) labels) := by
  refine System.run_invariant metadataCalls_follow (C := UsesForIssuer) (fun _ _ h => h.2)
    (J := fun c _ => FoundObtained c) (by simp [FoundObtained]) ?_ ?_ (fun _ _ _ h _ => h) labels
    huses
  · intro labels u hfound t ht now entry hclock hentry hout
    rcases List.mem_append.mp ht with ht | hnew
    · obtain ⟨t', ht', hrest⟩ := hfound t ht now entry hclock hentry hout
      exact ⟨t', List.mem_append_left _ ht', hrest⟩
    · rw [List.mem_singleton.mp hnew] at hclock
      cases hclock
  · intro labels i t op outside prog huses _ hfound hi hhead hperm t' ht' now entry hclock hentry
      hout
    suffices hbefore : ObtainedBySome (metadataCalls.after (fun _ => none) labels) t'.request.issuer
        entry by
      obtain ⟨t₀, ht₀, hissuer, hobtained⟩ := hbefore
      obtain ⟨t₁, ht₁, hrequest, hgrown⟩ := Threads.exists_grown_of_mem hi
        ⟨op, (execMetadata (metadataCalls.after (fun _ => none) labels).shared outside op).2⟩ prog
        ht₀
      exact ⟨t₁, ht₁, hrequest ▸ hissuer, hobtained.grow hgrown.subset⟩
    rcases Threads.exists_of_mem_set ht' with rfl | ⟨j, -, hj⟩
    · exact hfound.step hi hhead hperm rfl huses.1 now entry hclock hentry hout
    · exact hfound t' (List.mem_of_getElem? hj) now entry hclock hentry hout

/-- In every run whose calls hand out entries of their own issuer, the metadata of an `auto`
upstream come from a document of its issuer, obtained less than a day before the call or by it. -/
theorem metadata_of_issuer (labels : List MetadataLabel) (huses : UsesForIssuer labels) :
    ∀ t ∈ (metadataCalls.after (fun _ => none) labels).threads, t.request.discovery = .auto →
      ∀ metadata, t.prog.result = some (.ok metadata) → ∃ now entry, ReadClock t.log now ∧
        entry.metadata = metadata ∧ now - entry.fetchedAt < metadataStaleSeconds ∧
        ObtainedBySome (metadataCalls.after (fun _ => none) labels) t.request.issuer entry := by
  intro t ht hauto metadata hresult
  have hends := System.thread_obeys_to (S := metadataCalls) getMetadata_obeys (fun _ => none)
    labels t ht
  rw [Prog.result_eq_some.mp hresult] at hends
  have hanswered : Answered t.request t.log (.ok metadata) := hends
  obtain ⟨now, entry, hclock, hmetadata, hage, hsource⟩ := hanswered hauto metadata rfl
  refine ⟨now, entry, hclock, hmetadata, hage, ?_⟩
  rcases hsource with hobtained | ⟨hfound, hout⟩
  · exact ⟨t, ht, rfl, hobtained⟩
  · exact foundObtained_run huses t ht now entry hclock hfound hout

/-! ### Two records of one alias -/

namespace Sample

def endpoints (host : String) : UpstreamMetadata := ⟨host ++ "/a", host ++ "/t", host ++ "/j", none⟩

def getFor (issuer : String) : MetadataLabel := .spawn ⟨"up", issuer, .auto⟩

def answering (issuer : String) (clock : ℤ) (thread count : ℕ) : List MetadataLabel :=
  List.replicate count (.step thread ⟨clock, .ok ⟨issuer, endpoints issuer⟩⟩)

/-- A second call for the same record, and a call for the record after its issuer was changed,
which finds an entry that is no longer fresh. -/
def laterIssuer : List MetadataLabel :=
  answering "https://b" 4000 2 4 ++ getFor "https://b" :: answering "https://a" 60 1 2 ++
    getFor "https://a" :: answering "https://a" 0 0 4 ++ [getFor "https://a"]

/-- A second call for the record after its issuer was changed. -/
def changedIssuer : List MetadataLabel :=
  answering "https://b" 60 1 2 ++ getFor "https://b" :: answering "https://a" 0 0 4 ++
    [getFor "https://a"]

end Sample

def isFetch : Entry MetadataOp.Answer → Bool
  | ⟨.fetchDocument _, _⟩ => true
  | _ => false

theorem metadata_of_issuer_sample : (∃ t ∈ (metadataCalls.after (fun _ => none)
      Sample.laterIssuer).threads, t.request.issuer = "https://b" ∧
        t.prog.result = some (.ok (Sample.endpoints "https://b"))) ∧
    ∀ t ∈ (metadataCalls.after (fun _ => none) Sample.laterIssuer).threads,
      t.request.discovery = .auto → ∀ metadata, t.prog.result = some (.ok metadata) →
      ∃ now entry, ReadClock t.log now ∧ entry.metadata = metadata ∧
        now - entry.fetchedAt < metadataStaleSeconds ∧
        ObtainedBySome (metadataCalls.after (fun _ => none) Sample.laterIssuer) t.request.issuer
          entry :=
  ⟨⟨_, List.mem_cons_of_mem _ (List.mem_cons_of_mem _ List.mem_cons_self), rfl, rfl⟩,
    metadata_of_issuer Sample.laterIssuer (by decide)⟩

/-- The entry of the old issuer is handed out for the new one. -/
theorem metadata_of_other_issuer :
    ¬ ∀ labels : List MetadataLabel,
      ∀ t ∈ (metadataCalls.after (fun _ => none) labels).threads, t.request.discovery = .auto →
      ∀ metadata, t.prog.result = some (.ok metadata) → ∃ now entry, ReadClock t.log now ∧
        entry.metadata = metadata ∧ now - entry.fetchedAt < metadataStaleSeconds ∧
        ObtainedBySome (metadataCalls.after (fun _ => none) labels) t.request.issuer entry := by
  intro hall
  have hother : ∀ t ∈ (metadataCalls.after (fun _ => none) Sample.changedIssuer).threads,
      t.request.issuer = "https://b" → t.log.all (fun e => !isFetch e) = true := by
    decide
  have hsecond : ∃ t ∈ (metadataCalls.after (fun _ => none) Sample.changedIssuer).threads,
      t.request = ⟨"up", "https://b", .auto⟩ ∧
        t.prog.result = some (.ok (Sample.endpoints "https://a")) :=
    ⟨_, List.mem_cons_of_mem _ List.mem_cons_self, rfl, rfl⟩
  obtain ⟨t, ht, hrequest, hresult⟩ := hsecond
  obtain ⟨now, entry, -, -, -, t', ht', hissuer, -, document, hmem, -⟩ :=
    hall Sample.changedIssuer t ht (by rw [hrequest]) _ hresult
  have hnone := List.all_eq_true.mp (hother t' ht' (by rw [hissuer, hrequest])) _ hmem
  cases hnone

end TinyOidc.Federation
