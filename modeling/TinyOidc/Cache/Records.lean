import TinyOidc.Cache.Loads

/-! The cache of directory records (`src/oidc/client-cache.ts`): clients and upstreams by id, the
least recently used evicted beyond the capacity. Each call that finds no usable entry loads its
own, and an entry that is getting old is refreshed in the background. -/
namespace TinyOidc.Cache
open Threads (Prog Delivery)

structure RecordEntry (V : Type) extends Cached V where
  refresher : ℕ

/-- The loader of one record type, and what its callers see. -/
structure RecordClass (ι δ : Type) {ω : Type} (ρ : ω → Type) (E V : Type) where
  exec : δ → (op : ω) → δ × ρ op
  thrown : E
  load : ι → Prog ω ρ (Except E V)
  ttl : ℤ
  stale : ℤ
  capacity : ℕ
  unavailable : E → E

/-- A load of a record, and the refresher that goes with its entry. -/
structure RecordKey (ι : Type) where
  id : ι
  refresher : ℕ

/-- The entries stand from the least to the most recently used. A refresher holds the refresh it
has started. -/
structure Records (ι δ : Type) {ω : Type} (ρ : ω → Type) (E V : Type) where
  store : Store ρ (RecordKey ι) E V δ
  entries : List (ι × RecordEntry V)
  refreshers : List (Option ℕ)
  gets : List (ι × Get E V)

inductive RecordLabel (ι δ : Type) where
  | get (id : ι) (now : ℤ)
  | statement (load : ℕ) (delivery : Delivery)
  | finish (load : ℕ)
  | settle (load : ℕ)
  | resume (get : ℕ)
  | write (d1 : δ)
  | invalidate (id : Option ι)

variable {ι δ ω : Type} [DecidableEq ι] {ρ : ω → Type} {E V : Type}

namespace Records

def empty (d1 : δ) : Records ι δ ρ E V := ⟨⟨d1, 0, []⟩, [], [], []⟩

section Step
variable (C : RecordClass ι δ ρ E V) (s : Records ι δ ρ E V)

/-- Reinserts as the most recently used, and evicts the oldest entry beyond the capacity. -/
def touched (entries : List (ι × RecordEntry V)) (id : ι) (entry : RecordEntry V) :
    List (ι × RecordEntry V) :=
  let moved := (entries.filter fun e => e.1 ≠ id) ++ [(id, entry)]
  if moved.length > C.capacity then moved.tail else moved

def touch (id : ι) (entry : RecordEntry V) : Records ι δ ρ E V :=
  { s with entries := touched C s.entries id entry }

def addGet (id : ι) (get : Get E V) : Records ι δ ρ E V := { s with gets := s.gets ++ [(id, get)] }

def startLoad (id : ι) (now : ℤ) (refresher : ℕ) : Records ι δ ρ E V :=
  { s with store := s.store.start ⟨id, refresher⟩ now (C.load id) }

/-- The blocking path: a load of its own, which goes on with the entry's refresher. -/
def loadNow (id : ι) (now : ℤ) (found : Option (RecordEntry V)) : Records ι δ ρ E V :=
  let get : Get E V := .waiting now (found.map (·.toCached)) s.store.loads.length
  match found with
  | some c => (s.startLoad C id now c.refresher).addGet id get
  | none =>
    ({ s.startLoad C id now s.refreshers.length with
      refreshers := s.refreshers ++ [none] }).addGet id get

/-- `Refresher.start`: one refresh of an entry at a time. -/
def startRefresh (id : ι) (now : ℤ) (refresher : ℕ) : Records ι δ ρ E V :=
  match s.refreshers[refresher]? with
  | some none =>
    { s.startLoad C id now refresher with
      refreshers := s.refreshers.set refresher (some s.store.loads.length) }
  | _ => s

def get (id : ι) (now : ℤ) : Records ι δ ρ E V :=
  match s.entries.lookup id with
  | none => s.loadNow C id now none
  | some c =>
    match verdict (now - c.cachedAt) C.ttl with
    | .fresh => (s.touch C id c).addGet id (.value c.value c.readAt)
    | .early =>
      ((s.startRefresh C id now c.refresher).touch C id c).addGet id (.value c.value c.readAt)
    | .expired => s.loadNow C id now (some c)

/-- A load has all its answers: it inserts its entry, or fails. -/
def finish (i : ℕ) : Records ι δ ρ E V :=
  match s.store.loads[i]? with
  | some load =>
    match load.phase with
    | .reading (.done (.ok v)) =>
      { s with
        store := s.store.setPhase i load (.returned (.ok v))
        entries := touched C s.entries load.key.id
          ⟨⟨v, load.now, load.readAt⟩, load.key.refresher⟩ }
    | .reading (.done (.error e)) =>
      { s with store := s.store.setPhase i load (.returned (.error e)) }
    | _ => s
  | none => s

/-- The `finally` of a refresh. -/
def settle (i : ℕ) : Records ι δ ρ E V :=
  match s.store.loads[i]? with
  | some load =>
    match load.phase with
    | .returned result =>
      { s with
        store := s.store.setPhase i load (.settled result)
        refreshers := s.refreshers.map fun running => if running = some i then none else running }
    | _ => s
  | none => s

/-- A failed load leaves its caller with the entry found before, while it may be served. -/
def fallback (now : ℤ) (found : Option (Cached V)) (e : E) : Get E V :=
  match found with
  | some c => if now - c.cachedAt < C.stale then .value c.value c.readAt
      else .threw (C.unavailable e)
  | none => .threw (C.unavailable e)

/-- A caller goes on after the load it waits for. -/
def resume (g : ℕ) : Records ι δ ρ E V :=
  match s.gets[g]? with
  | some (id, .waiting now found i) =>
    match s.store.loads[i]? with
    | some load =>
      match load.phase with
      | .returned (.ok v) | .settled (.ok v) =>
        { s with gets := s.gets.set g (id, .value v load.readAt) }
      | .returned (.error e) | .settled (.error e) =>
        { s with gets := s.gets.set g (id, fallback C now found e) }
      | .reading _ => s
    | none => s
  | _ => s

/-- Whether an invalidation is about the record: it names it, or is about everything. -/
def drops (dropped : Option ι) (id : ι) : Bool := dropped.all (· = id)

def invalidate (dropped : Option ι) : Records ι δ ρ E V :=
  { s with entries := s.entries.filter fun e => !drops dropped e.1 }

def step : RecordLabel ι δ → Records ι δ ρ E V
  | .get id now => s.get C id now
  | .statement i delivery => { s with store := s.store.statement C.exec C.thrown i delivery }
  | .finish i => s.finish C i
  | .settle i => s.settle i
  | .resume g => s.resume C g
  | .write d1 => { s with store := s.store.write d1 }
  | .invalidate dropped => s.invalidate dropped

/-- The isolate after a schedule, newest label first. -/
abbrev after (d1 : δ) (labels : List (RecordLabel ι δ)) : Records ι δ ρ E V :=
  Machine.after (fun s l => (s.step C l, ())) (empty d1) labels

end Step

/-! ### What can still be handed out -/

/-- No load of the record in flight has come to its value with answers from before the count. -/
def Quiet (count : ℕ) (id : ι) (s : Records ι δ ρ E V) : Prop :=
  ∀ load ∈ s.store.loads, load.key.id = id → load.isReading = true → load.Since count

instance (count : ℕ) (id : ι) (s : Records ι δ ρ E V) : Decidable (s.Quiet count id) :=
  inferInstanceAs (Decidable (∀ load ∈ _, _))

/-- One of the calls for the record from the first on waits for the load. -/
def Awaited (id : ι) (first : ℕ) (s : Records ι δ ρ E V) (i : ℕ) : Prop :=
  ∃ g now found, first ≤ g ∧ s.gets[g]? = some (id, .waiting now found i)

/-- What the calls for the record from the first on can see is of the count or later. -/
structure Fresh (count : ℕ) (id : ι) (first : ℕ) (s : Records ι δ ρ E V) : Prop where
  clock : count ≤ s.store.statements
  calls : first ≤ s.gets.length
  entries : ∀ c, (id, c) ∈ s.entries → count ≤ c.readAt
  loads : ∀ i load, s.store.loads[i]? = some load →
    (load.key.id = id ∧ load.isReading = true) ∨ s.Awaited id first i → load.Since count
  found : ∀ g now c i, first ≤ g → s.gets[g]? = some (id, .waiting now (some c) i) →
    count ≤ c.readAt
  values : ∀ g v n, first ≤ g → s.gets[g]? = some (id, .value v n) → count ≤ n

section Fresh
variable {C : RecordClass ι δ ρ E V} {s : Records ι δ ρ E V} {count first : ℕ} {id : ι}

theorem mem_touched {entries : List (ι × RecordEntry V)} {id' : ι} {entry : RecordEntry V}
    {e : ι × RecordEntry V} (h : e ∈ touched C entries id' entry) :
    e ∈ entries ∨ e = (id', entry) := by
  have hmoved : e ∈ (entries.filter fun e => e.1 ≠ id') ++ [(id', entry)] := by
    unfold touched at h
    dsimp only at h
    split at h
    · exact List.mem_of_mem_tail h
    · exact h
  rcases List.mem_append.mp hmoved with hkept | hnew
  · exact .inl (List.mem_of_mem_filter hkept)
  · exact .inr (List.mem_singleton.mp hnew)

theorem Fresh.touch (h : Fresh count id first s) (id' : ι) (entry : RecordEntry V)
    (hentry : id' = id → count ≤ entry.readAt) : Fresh count id first (s.touch C id' entry) where
  clock := h.clock
  calls := h.calls
  entries c hc := by
    rcases mem_touched hc with hold | hnew
    · exact h.entries c hold
    · obtain ⟨hid, rfl⟩ := Prod.mk.inj hnew
      exact hentry hid.symm
  loads := h.loads
  found := h.found
  values := h.values

omit [DecidableEq ι] in
/-- A new call: it waits for a load, or ends with a value; both are of the count or later when the
call is for the record. -/
theorem Fresh.addGet (h : Fresh count id first s) {id' : ι} {get : Get E V}
    (hload : ∀ now found i load, get = .waiting now found i → s.store.loads[i]? = some load →
      id' = id → load.Since count)
    (hfound : ∀ now c i, get = .waiting now (some c) i → id' = id → count ≤ c.readAt)
    (hvalue : ∀ v n, get = .value v n → id' = id → count ≤ n) :
    Fresh count id first (s.addGet id' get) where
  clock := h.clock
  calls := by
    have := h.calls
    simp only [Records.addGet, List.length_append, List.length_singleton]
    omega
  entries := h.entries
  loads i load hi hlive := by
    rcases hlive with hreading | ⟨g, now, found, hg, hget⟩
    · exact h.loads i load hi (.inl hreading)
    · rcases getElem?_concat hget with hold | hnew
      · exact h.loads i load hi (.inr ⟨g, now, found, hg, hold⟩)
      · obtain ⟨hid, hsame⟩ := Prod.mk.inj hnew
        exact hload now found i load hsame.symm hi hid.symm
  found g now c i hg hget := by
    rcases getElem?_concat hget with hold | hnew
    · exact h.found g now c i hg hold
    · obtain ⟨hid, hsame⟩ := Prod.mk.inj hnew
      exact hfound now c i hsame.symm hid.symm
  values g v n hg hget := by
    rcases getElem?_concat hget with hold | hnew
    · exact h.values g v n hg hold
    · obtain ⟨hid, hsame⟩ := Prod.mk.inj hnew
      exact hvalue v n hsame.symm hid.symm

omit [DecidableEq ι] in
theorem Fresh.startLoad (h : Fresh count id first s) (id' : ι) (now : ℤ) (refresher : ℕ)
    (refreshers : List (Option ℕ)) :
    Fresh count id first
      { s.startLoad C id' now refresher with refreshers := refreshers } where
  clock := h.clock
  calls := h.calls
  entries := h.entries
  loads i load hi hlive := by
    rcases Store.since_start h.clock hi with hold | ⟨-, hnew⟩
    · exact h.loads i load hold hlive
    · exact hnew
  found := h.found
  values := h.values

theorem mem_of_lookup {entries : List (ι × RecordEntry V)} {id' : ι} {c : RecordEntry V}
    (h : entries.lookup id' = some c) : (id', c) ∈ entries := by
  induction entries with
  | nil => cases h
  | cons e entries ih =>
    rw [List.lookup_cons] at h
    by_cases hid : id' = e.1
    · simp only [hid, beq_self_eq_true] at h
      cases h
      rw [hid]
      exact List.mem_cons_self
    · have hne : (id' == e.1) = false := by simpa using hid
      simp only [hne] at h
      exact List.mem_cons_of_mem _ (ih h)

omit [DecidableEq ι] in
/-- The load that a call starts and waits for. -/
theorem since_started (hcount : count ≤ s.store.statements) {id' : ι} {now : ℤ} {refresher : ℕ}
    {load : Load ρ (RecordKey ι) E V}
    (hi : (s.startLoad C id' now refresher).store.loads[s.store.loads.length]? = some load) :
    load.Since count := by
  rcases Store.since_start hcount hi with hold | ⟨-, hnew⟩
  · exact absurd (List.getElem?_eq_some_iff.mp hold).1 (lt_irrefl _)
  · exact hnew

omit [DecidableEq ι] in
theorem Fresh.loadNow (h : Fresh count id first s) (id' : ι) (now : ℤ)
    (found : Option (RecordEntry V)) (hfound : ∀ c, found = some c → (id', c) ∈ s.entries) :
    Fresh count id first (s.loadNow C id' now found) := by
  have hstarted : ∀ refresher refreshers (get : Get E V),
      get = .waiting now (found.map (·.toCached)) s.store.loads.length →
      Fresh count id first (({ s.startLoad C id' now refresher with
        refreshers := refreshers }).addGet id' get) := by
    intro refresher refreshers get hget
    apply (h.startLoad id' now refresher refreshers).addGet
    · intro now' found' i load heq hi _
      rw [hget] at heq
      obtain ⟨-, -, rfl⟩ := Get.waiting.inj heq
      exact since_started h.clock hi
    · intro now' c i heq hid
      rw [hget] at heq
      obtain ⟨-, hc, -⟩ := Get.waiting.inj heq
      obtain ⟨entry, hentry, rfl⟩ := Option.map_eq_some_iff.mp hc
      subst hid
      exact h.entries entry (hfound entry hentry)
    · intro v n heq
      rw [hget] at heq
      cases heq
  unfold Records.loadNow
  cases found with
  | none => exact hstarted _ _ _ rfl
  | some c => exact hstarted c.refresher s.refreshers _ rfl

omit [DecidableEq ι] in
theorem Fresh.startRefresh (h : Fresh count id first s) (id' : ι) (now : ℤ) (refresher : ℕ) :
    Fresh count id first (s.startRefresh C id' now refresher) := by
  unfold Records.startRefresh
  split
  · exact h.startLoad id' now refresher _
  · exact h

theorem Fresh.get (h : Fresh count id first s) (id' : ι) (now : ℤ) :
    Fresh count id first (s.get C id' now) := by
  unfold Records.get
  split
  · exact h.loadNow id' now none (by simp)
  · next c hc =>
    have hmem := mem_of_lookup hc
    have hread : id' = id → count ≤ c.readAt := by
      intro hid
      subst hid
      exact h.entries c hmem
    have hanswered : ∀ {s' : Records ι δ ρ E V}, Fresh count id first s' →
        Fresh count id first ((s'.touch C id' c).addGet id' (.value c.value c.readAt)) := by
      intro s' h'
      apply (h'.touch id' c hread).addGet (by simp) (by simp)
      intro v n heq hid
      obtain ⟨-, rfl⟩ := Get.value.inj heq
      exact hread hid
    split
    · exact hanswered h
    · exact hanswered (h.startRefresh id' now c.refresher)
    · apply h.loadNow id' now (some c)
      intro c' hc'
      cases hc'
      exact hmem

omit [DecidableEq ι] in
theorem Fresh.statement (h : Fresh count id first s) (i : ℕ) (delivery : Delivery) :
    Fresh count id first
      { s with store := s.store.statement C.exec C.thrown i delivery } where
  clock := h.clock.trans (Store.statements_le_statement C.exec C.thrown i delivery)
  calls := h.calls
  entries := h.entries
  loads j load hj hlive := by
    rcases Store.since_statement h.clock hj with hsince | hold
    · exact hsince
    · exact h.loads j load hold hlive
  found := h.found
  values := h.values

omit [DecidableEq ι] in
/-- A load that moves on without coming to another value. -/
theorem Fresh.setPhase (h : Fresh count id first s) {i : ℕ} {load : Load ρ (RecordKey ι) E V}
    (phase : Phase ρ E V) (hi : s.store.loads[i]? = some load)
    (hvalue : ({ load with phase := phase } : Load ρ (RecordKey ι) E V).value = load.value)
    (hreading : ({ load with phase := phase } : Load ρ (RecordKey ι) E V).isReading = false)
    (refreshers : List (Option ℕ)) :
    Fresh count id first ⟨s.store.setPhase i load phase, s.entries, refreshers, s.gets⟩ where
  clock := h.clock
  calls := h.calls
  entries := h.entries
  loads j load' hj hlive := by
    rcases Store.of_setPhase hi hj with ⟨rfl, rfl⟩ | ⟨-, hold⟩
    · intro hsome
      rw [hvalue] at hsome
      refine h.loads j load hi ?_ hsome
      rcases hlive with ⟨-, hread⟩ | hawaited
      · rw [hreading] at hread
        cases hread
      · exact .inr hawaited
    · exact h.loads j load' hold hlive
  found := h.found
  values := h.values

theorem Fresh.finish (h : Fresh count id first s) (i : ℕ) :
    Fresh count id first (s.finish C i) := by
  unfold Records.finish
  split
  · next load hi =>
    split
    · next v hphase =>
      have hreads : load.isReading = true := by rw [Load.isReading, hphase]
      have hvalue : load.value = some v := by rw [Load.value, hphase]
      have hmoved := h.setPhase (.returned (.ok v)) hi (by rw [hvalue]; rfl) rfl
        s.refreshers
      apply hmoved.touch (C := C) load.key.id ⟨⟨v, load.now, load.readAt⟩, load.key.refresher⟩
      intro hid
      exact h.loads i load hi (.inl ⟨hid, hreads⟩) (by rw [hvalue]; rfl)
    · next e hphase =>
      exact h.setPhase _ hi (by rw [Load.value, Load.value, hphase]) rfl s.refreshers
    · exact h
  · exact h

omit [DecidableEq ι] in
theorem Fresh.settle (h : Fresh count id first s) (i : ℕ) :
    Fresh count id first (s.settle i) := by
  unfold Records.settle
  split
  · next load hi =>
    split
    · next result hphase =>
      refine h.setPhase _ hi ?_ rfl _
      cases result with
      | ok v => rw [Load.value, Load.value, hphase]
      | error e => rw [Load.value, Load.value, hphase]
    · exact h
  · exact h

omit [DecidableEq ι] in
/-- A caller for `id'` that goes on with a value or an error. -/
theorem Fresh.setGet (h : Fresh count id first s) {g : ℕ} {id' : ι} {get : Get E V}
    (hwaiting : ∀ now found i, get ≠ .waiting now found i)
    (hvalue : ∀ v n, get = .value v n → first ≤ g → id' = id → count ≤ n) :
    Fresh count id first { s with gets := s.gets.set g (id', get) } where
  clock := h.clock
  calls := by simpa using h.calls
  entries := h.entries
  loads i load hi hlive := by
    apply h.loads i load hi
    rcases hlive with hread | ⟨g', now, found, hg', hget⟩
    · exact .inl hread
    · by_cases hgg : g = g'
      · subst hgg
        rw [List.getElem?_set_self'] at hget
        obtain ⟨_, -, hsame⟩ := Option.map_eq_some_iff.mp hget
        exact absurd (Prod.mk.inj hsame).2 (hwaiting now found i)
      · rw [List.getElem?_set_ne hgg] at hget
        exact .inr ⟨g', now, found, hg', hget⟩
  found g' now c i hg' hget := by
    by_cases hgg : g = g'
    · subst hgg
      rw [List.getElem?_set_self'] at hget
      obtain ⟨_, -, hsame⟩ := Option.map_eq_some_iff.mp hget
      exact absurd (Prod.mk.inj hsame).2 (hwaiting now (some c) i)
    · rw [List.getElem?_set_ne hgg] at hget
      exact h.found g' now c i hg' hget
  values g' v n hg' hget := by
    by_cases hgg : g = g'
    · subst hgg
      rw [List.getElem?_set_self'] at hget
      obtain ⟨_, -, hsame⟩ := Option.map_eq_some_iff.mp hget
      obtain ⟨hid, hsame⟩ := Prod.mk.inj hsame
      exact hvalue v n hsame hg' hid
    · rw [List.getElem?_set_ne hgg] at hget
      exact h.values g' v n hg' hget

omit [DecidableEq ι] in
theorem fallback_cases (now : ℤ) (found : Option (Cached V)) (e : E) :
    (∃ c, found = some c ∧ fallback C now found e = .value c.value c.readAt) ∨
      ∃ e', fallback C now found e = .threw e' := by
  unfold fallback
  cases found with
  | none => exact .inr ⟨_, rfl⟩
  | some c =>
    dsimp only
    split
    · exact .inl ⟨c, rfl, rfl⟩
    · exact .inr ⟨_, rfl⟩

omit [DecidableEq ι] in
theorem Fresh.resume (h : Fresh count id first s) (g : ℕ) :
    Fresh count id first (s.resume C g) := by
  unfold Records.resume
  split
  · next id' now found i hget =>
    split
    · next load hi =>
      have hloaded : ∀ v, load.value = some v →
          Fresh count id first { s with gets := s.gets.set g (id', .value v load.readAt) } := by
        intro v hvalue
        apply h.setGet (by simp)
        intro v' n heq hg hid
        subst hid
        obtain ⟨-, rfl⟩ := Get.value.inj heq
        exact h.loads i load hi (.inr ⟨g, now, found, hg, hget⟩) (by rw [hvalue]; rfl)
      have hfailed : ∀ e, Fresh count id first
          { s with gets := s.gets.set g (id', fallback C now found e) } := by
        intro e
        rcases fallback_cases (C := C) now found e with ⟨c, rfl, hfallback⟩ | ⟨e', hfallback⟩
        · rw [hfallback]
          apply h.setGet (by simp)
          intro v n heq hg hid
          subst hid
          obtain ⟨-, rfl⟩ := Get.value.inj heq
          exact h.found g now c i hg hget
        · rw [hfallback]
          exact h.setGet (by simp) (by simp)
      split
      · next v hphase => exact hloaded v (by rw [Load.value, hphase])
      · next v hphase => exact hloaded v (by rw [Load.value, hphase])
      · exact hfailed _
      · exact hfailed _
      · exact h
    · exact h
  · exact h

theorem Fresh.invalidate (h : Fresh count id first s) (dropped : Option ι) :
    Fresh count id first (s.invalidate dropped) :=
  ⟨h.clock, h.calls, fun c hc => h.entries c (List.mem_of_mem_filter hc), h.loads, h.found,
    h.values⟩

/-- Whatever happens next, what later calls can see stays of the count or later. -/
theorem Fresh.step (h : Fresh count id first s) (l : RecordLabel ι δ) :
    Fresh count id first (s.step C l) := by
  cases l with
  | get id' now => exact h.get id' now
  | statement i delivery => exact h.statement i delivery
  | finish i => exact h.finish i
  | settle i => exact h.settle i
  | resume g => exact h.resume g
  | write d1 =>
    exact ⟨h.clock.trans (Nat.le_succ _), h.calls, h.entries, h.loads, h.found, h.values⟩
  | invalidate dropped => exact h.invalidate dropped

theorem Fresh.run {d1 : δ} {labels : List (RecordLabel ι δ)}
    (h : Fresh count id first (after C d1 labels)) (later : List (RecordLabel ι δ)) :
    Fresh count id first (after C d1 (later ++ labels)) := by
  induction later with
  | nil => exact h
  | cons l later ih => exact ih.step l

/-- An invalidation of the record, with no older load of it in flight, leaves nothing of it from
before the count. -/
theorem fresh_invalidate {dropped : Option ι} (hclock : count ≤ s.store.statements)
    (hdrops : drops dropped id = true) (hquiet : s.Quiet count id) :
    Fresh count id s.gets.length (s.invalidate dropped) where
  clock := hclock
  calls := Nat.le_refl _
  entries c hc := by
    have hkept := List.of_mem_filter hc
    simp [hdrops] at hkept
  loads i load hi hlive := by
    rcases hlive with ⟨hid, hread⟩ | ⟨g, now, found, hg, hget⟩
    · exact hquiet load (List.mem_of_getElem? hi) hid hread
    · exact absurd (List.getElem?_eq_some_iff.mp hget).1 (Nat.not_lt.mpr hg)
  found g now c i hg hget :=
    absurd (List.getElem?_eq_some_iff.mp hget).1 (Nat.not_lt.mpr hg)
  values g v n hg hget :=
    absurd (List.getElem?_eq_some_iff.mp hget).1 (Nat.not_lt.mpr hg)

/-- D1 only executes more statements. -/
theorem statements_mono (l : RecordLabel ι δ) :
    s.store.statements ≤ (s.step C l).store.statements := by
  have hload : ∀ id now found,
      (s.loadNow C id now found).store.statements = s.store.statements := by
    intro id now found
    unfold Records.loadNow
    cases found <;> rfl
  have hrefresh : ∀ id now refresher,
      (s.startRefresh C id now refresher).store.statements = s.store.statements := by
    intro id now refresher
    unfold Records.startRefresh
    split <;> rfl
  cases l with
  | get id now =>
    apply le_of_eq
    show s.store.statements = (s.get C id now).store.statements
    unfold Records.get
    split
    · rw [hload]
    · split
      · rfl
      · exact (hrefresh id now _).symm
      · rw [hload]
  | statement i delivery => exact Store.statements_le_statement C.exec C.thrown i delivery
  | finish i =>
    apply le_of_eq
    show s.store.statements = (s.finish C i).store.statements
    unfold Records.finish
    split
    · split <;> rfl
    · rfl
  | settle i =>
    apply le_of_eq
    show s.store.statements = (s.settle i).store.statements
    unfold Records.settle
    split
    · split <;> rfl
    · rfl
  | resume g =>
    apply le_of_eq
    show s.store.statements = (s.resume C g).store.statements
    unfold Records.resume
    split
    · split
      · split <;> rfl
      · rfl
    · rfl
  | write d1 => exact Nat.le_succ _
  | invalidate dropped => exact Nat.le_refl _

theorem statements_le_after {d1 : δ} (later earlier : List (RecordLabel ι δ)) :
    (after C d1 earlier).store.statements ≤ (after C d1 (later ++ earlier)).store.statements := by
  induction later with
  | nil => exact Nat.le_refl _
  | cons l later ih => exact ih.trans (statements_mono l)

end Fresh

/-- Every call for the record from the first on that has ended with a value has one of the count
or later. -/
def SeesSince (count : ℕ) (id : ι) (first : ℕ) (gets : List (ι × Get E V)) : Prop :=
  ∀ g v n, first ≤ g → gets[g]? = some (id, .value v n) → count ≤ n

/-- The calls that start after an invalidation of the record read D1 after the writes before it,
if no load of the record in flight then has its answers from before the write. -/
theorem sees_after_invalidate (C : RecordClass ι δ ρ E V) (d1 written : δ) (dropped : Option ι)
    (id : ι) (hdrops : drops dropped id = true) (later mid earlier : List (RecordLabel ι δ))
    (hquiet : (after C d1 (mid ++ .write written :: earlier)).Quiet
      (after C d1 (.write written :: earlier)).store.statements id) :
    SeesSince (after C d1 (.write written :: earlier)).store.statements id
      (after C d1 (mid ++ .write written :: earlier)).gets.length
      (after C d1 (later ++ .invalidate dropped :: (mid ++ .write written :: earlier))).gets := by
  have hclock : (after C d1 (.write written :: earlier)).store.statements ≤
      (after C d1 (mid ++ .write written :: earlier)).store.statements :=
    statements_le_after mid _
  have hfresh : Fresh _ id _
      (after C d1 (.invalidate dropped :: (mid ++ .write written :: earlier))) :=
    fresh_invalidate hclock hdrops hquiet
  exact (hfresh.run later).values

end Records

end TinyOidc.Cache
