import TinyOidc.Cache.Invalidation
import TinyOidc.Lib.Recency

/-! How old the records are that the directory cache hands out, and how many it holds
(`src/oidc/client-cache.ts`). An entry bears the time at which its load was started, whichever load
finishes last. -/
namespace TinyOidc.Cache
open Threads (Prog Delivery)

/-! ### What a load comes to -/

section Loads
variable {ω : Type} {ρ : ω → Type} {κ E V δ : Type}

def Load.Failed (load : Load ρ κ E V) : Prop :=
  ∃ e, load.phase = .returned (.error e) ∨ load.phase = .settled (.error e)

/-- A load at a later moment: it keeps its key and start, and what it has come to. -/
structure Load.Onward (load later : Load ρ κ E V) : Prop where
  key : later.key = load.key
  now : later.now = load.now
  value : ∀ v, load.value = some v → later.value = some v
  failed : load.Failed → later.Failed

theorem Load.Onward.refl (load : Load ρ κ E V) : load.Onward load :=
  ⟨rfl, rfl, fun _ h => h, fun h => h⟩

/-- The loads of a store are those of another, at a later moment, and perhaps more. -/
def Store.Onward (s later : Store ρ κ E V δ) : Prop :=
  ∀ (i : ℕ) (load : Load ρ κ E V), s.loads[i]? = some load →
    ∃ load' : Load ρ κ E V, later.loads[i]? = some load' ∧ load.Onward load'

namespace Store
variable {s : Store ρ κ E V δ}

theorem Onward.refl (s : Store ρ κ E V δ) : s.Onward s :=
  fun _ load h => ⟨load, h, .refl load⟩

theorem onward_start (key : κ) (now : ℤ) (prog : Prog ω ρ (Except E V)) :
    s.Onward (s.start key now prog) := by
  intro i load hi
  refine ⟨load, ?_, .refl load⟩
  show (s.loads ++ [_])[i]? = some load
  rw [List.getElem?_append_left (List.getElem?_eq_some_iff.mp hi).1]
  exact hi

/-- One load moves on, and the others stand. -/
theorem onward_set {i : ℕ} {load moved : Load ρ κ E V} (hi : s.loads[i]? = some load)
    (hmoved : load.Onward moved) {later : Store ρ κ E V δ}
    (hlater : later.loads = s.loads.set i moved) : s.Onward later := by
  intro j other hj
  rw [hlater]
  by_cases hji : i = j
  · subst hji
    rw [hi] at hj
    cases hj
    exact ⟨moved, List.getElem?_set_self (List.getElem?_eq_some_iff.mp hi).1, hmoved⟩
  · rw [List.getElem?_set_ne hji]
    exact ⟨other, hj, .refl other⟩

theorem onward_statement (exec : δ → (op : ω) → δ × ρ op) (thrown : E) (i : ℕ)
    (delivery : Delivery) : s.Onward (s.statement exec thrown i delivery) := by
  unfold statement
  split
  · next load hi =>
    split
    · next op next hphase =>
      apply onward_set hi _ rfl
      constructor
      · rfl
      · rfl
      · intro v hv
        rw [Load.value, hphase] at hv
        cases hv
      · rintro ⟨e, he | he⟩
        · rw [hphase] at he
          cases he
        · rw [hphase] at he
          cases he
    · exact .refl s
  · exact .refl s

end Store

end Loads

variable {ι δ ω : Type} [DecidableEq ι] {ρ : ω → Type} {E V : Type}

/-! ### The calls of a run -/

/-- A call of `get`: for which record, when, and the load of its own, if it started one. -/
structure Call (ι : Type) where
  id : ι
  now : ℤ
  load : Option ℕ
  deriving DecidableEq

def Get.load : Get E V → Option ℕ
  | .waiting _ _ i => some i
  | _ => none

namespace Records

section Calls
variable (C : RecordClass ι δ ρ E V) (d1 : δ)

def calls : List (RecordLabel ι δ) → List (Call ι)
  | [] => []
  | .get id now :: earlier =>
    calls earlier ++
      [⟨id, now, (after C d1 (.get id now :: earlier)).gets.getLast?.bind (·.2.load)⟩]
  | _ :: earlier => calls earlier

/-- The record that an operation makes the most recently used. -/
def touchedId (s : Records ι δ ρ E V) : RecordLabel ι δ → Option ι
  | .get id now =>
    match s.entries.lookup id with
    | some c => if verdict (now - c.cachedAt) C.ttl = .expired then none else some id
    | none => none
  | .finish i =>
    match s.store.loads[i]? with
    | some load =>
      match load.phase with
      | .reading (.done (.ok _)) => some load.key.id
      | _ => none
    | none => none
  | _ => none

/-- The uses of records in a run, newest first. -/
def uses : List (RecordLabel ι δ) → List ι
  | [] => []
  | l :: earlier => (touchedId C (after C d1 earlier) l).toList ++ uses earlier

end Calls

def ids (s : Records ι δ ρ E V) : List ι := s.entries.map Prod.fst

/-! ### Ages -/

def Produced (s : Records ι δ ρ E V) (id : ι) (v : V) (now : ℤ) : Prop :=
  ∃ (i : ℕ) (load : Load ρ (RecordKey ι) E V), s.store.loads[i]? = some load ∧
    load.key.id = id ∧ load.now = now ∧ load.value = some v

def OwnFailed (s : Records ι δ ρ E V) (call : Call ι) : Prop :=
  ∃ (i : ℕ) (load : Load ρ (RecordKey ι) E V), call.load = some i ∧
    s.store.loads[i]? = some load ∧ load.Failed

/-- A value for a call: of a load within the lifetime, or within the time it may be served stale
when the call's own load has failed. -/
def Timely (C : RecordClass ι δ ρ E V) (s : Records ι δ ρ E V) (call : Call ι) (v : V) : Prop :=
  ∃ now, s.Produced call.id v now ∧
    (call.now - C.ttl < now ∨ s.OwnFailed call ∧ call.now - C.stale < now)

def OwnLoad (s : Records ι δ ρ E V) (call : Call ι) : Prop :=
  ∀ i, call.load = some i → ∃ load : Load ρ (RecordKey ι) E V, s.store.loads[i]? = some load ∧
    load.key.id = call.id ∧ load.now = call.now

/-- What a call has come to, or holds while it waits for the load it started. -/
def Answers (C : RecordClass ι δ ρ E V) (s : Records ι δ ρ E V) (call : Call ι) : Get E V → Prop
  | .waiting now found i => call.now = now ∧ call.load = some i ∧
      ∀ c, found = some c → s.Produced call.id c.value c.cachedAt
  | .value v _ => s.Timely C call v
  | .threw _ => True

/-- Every entry and every call goes back to loads of its record. -/
structure Aged (C : RecordClass ι δ ρ E V) (calls : List (Call ι)) (s : Records ι δ ρ E V) :
    Prop where
  length : s.gets.length = calls.length
  entries : ∀ e ∈ s.entries, s.Produced e.1 e.2.value e.2.cachedAt
  own : ∀ call ∈ calls, s.OwnLoad call
  gets : ∀ (g : ℕ) (id : ι) (get : Get E V) (call : Call ι), s.gets[g]? = some (id, get) →
    calls[g]? = some call → call.id = id ∧ s.Answers C call get

section Onward
variable {C : RecordClass ι δ ρ E V} {s s' : Records ι δ ρ E V}

omit [DecidableEq ι] in
theorem Produced.onward {id : ι} {v : V} {now : ℤ} (h : s.Produced id v now)
    (hs : s.store.Onward s'.store) : s'.Produced id v now := by
  obtain ⟨i, load, hi, hid, hnow, hv⟩ := h
  obtain ⟨load', hi', honward⟩ := hs i load hi
  refine ⟨i, load', hi', ?_, ?_, honward.value v hv⟩
  · rw [honward.key, hid]
  · rw [honward.now, hnow]

omit [DecidableEq ι] in
theorem Timely.onward {call : Call ι} {v : V} (h : s.Timely C call v)
    (hs : s.store.Onward s'.store) : s'.Timely C call v := by
  obtain ⟨now, hproduced, hage⟩ := h
  refine ⟨now, hproduced.onward hs, ?_⟩
  rcases hage with hfresh | ⟨⟨i, load, hload, hi, hfailed⟩, hstale⟩
  · exact .inl hfresh
  · obtain ⟨load', hi', honward⟩ := hs i load hi
    exact .inr ⟨⟨i, load', hload, hi', honward.failed hfailed⟩, hstale⟩

omit [DecidableEq ι] in
theorem OwnLoad.onward {call : Call ι} (h : s.OwnLoad call) (hs : s.store.Onward s'.store) :
    s'.OwnLoad call := by
  intro i hi
  obtain ⟨load, hload, hid, hnow⟩ := h i hi
  obtain ⟨load', hload', honward⟩ := hs i load hload
  refine ⟨load', hload', ?_, ?_⟩
  · rw [honward.key, hid]
  · rw [honward.now, hnow]

omit [DecidableEq ι] in
theorem Answers.onward {call : Call ι} {get : Get E V} (h : s.Answers C call get)
    (hs : s.store.Onward s'.store) : s'.Answers C call get := by
  cases get with
  | waiting now found i =>
    obtain ⟨hnow, hload, hfound⟩ := h
    exact ⟨hnow, hload, fun c hc => (hfound c hc).onward hs⟩
  | value v n => exact Timely.onward h hs
  | threw e => trivial

omit [DecidableEq ι] in
/-- Loads go on and entries are added that loads have come to: the calls stand. -/
theorem Aged.onward {calls : List (Call ι)} (h : Aged C calls s) (hs : s.store.Onward s'.store)
    (hgets : s'.gets = s.gets)
    (hentries : ∀ e ∈ s'.entries, e ∈ s.entries ∨ s'.Produced e.1 e.2.value e.2.cachedAt) :
    Aged C calls s' where
  length := by rw [hgets, h.length]
  entries e he := by
    rcases hentries e he with hold | hnew
    · exact (h.entries e hold).onward hs
    · exact hnew
  own call hcall := (h.own call hcall).onward hs
  gets g id get call hg hcall := by
    rw [hgets] at hg
    obtain ⟨hid, hanswers⟩ := h.gets g id get call hg hcall
    exact ⟨hid, hanswers.onward hs⟩

omit [DecidableEq ι] in
theorem Aged.addGet {calls : List (Call ι)} (h : Aged C calls s) (call : Call ι) {get : Get E V}
    (hown : s.OwnLoad call) (hanswers : s.Answers C call get) :
    Aged C (calls ++ [call]) (s.addGet call.id get) where
  length := by
    simp only [Records.addGet, List.length_append, h.length, List.length_singleton]
  entries := h.entries
  own call' hcall := by
    rcases List.mem_append.mp hcall with hold | hnew
    · exact h.own call' hold
    · rw [List.mem_singleton.mp hnew]
      exact hown
  gets g id get' call' hg hcall := by
    change (s.gets ++ [(call.id, get)])[g]? = some (id, get') at hg
    by_cases hlt : g < s.gets.length
    · rw [List.getElem?_append_left hlt] at hg
      rw [List.getElem?_append_left (h.length ▸ hlt)] at hcall
      exact h.gets g id get' call' hg hcall
    · have hge := Nat.le_of_not_lt hlt
      rw [List.getElem?_append_right hge] at hg
      rw [List.getElem?_append_right (h.length ▸ hge)] at hcall
      have hget := List.mem_singleton.mp (List.mem_of_getElem? hg)
      have hsame := List.mem_singleton.mp (List.mem_of_getElem? hcall)
      obtain ⟨hid, rfl⟩ := Prod.mk.inj hget
      rw [hsame]
      exact ⟨hid.symm, hanswers⟩

omit [DecidableEq ι] in
/-- A caller goes on with what its call may come to. -/
theorem Aged.setGet {calls : List (Call ι)} (h : Aged C calls s) {g : ℕ} {id : ι}
    {before get : Get E V} (hg : s.gets[g]? = some (id, before))
    (hanswers : ∀ call, calls[g]? = some call → s.Answers C call before → s.Answers C call get) :
    Aged C calls { s with gets := s.gets.set g (id, get) } where
  length := by simpa using h.length
  entries := h.entries
  own := h.own
  gets g' id' get' call hg' hcall := by
    by_cases hgg : g = g'
    · subst hgg
      obtain ⟨hid, hbefore⟩ := h.gets g id before call hg hcall
      rw [List.getElem?_set_self (List.getElem?_eq_some_iff.mp hg).1] at hg'
      obtain ⟨rfl, rfl⟩ := Prod.mk.inj (Option.some.inj hg')
      exact ⟨hid, hanswers call hcall hbefore⟩
    · rw [List.getElem?_set_ne hgg] at hg'
      exact h.gets g' id' get' call hg' hcall

end Onward

/-! ### One step -/

section Step
variable {C : RecordClass ι δ ρ E V} {s : Records ι δ ρ E V} {calls : List (Call ι)}

theorem touch_mem {id : ι} {entry : RecordEntry V} {e : ι × RecordEntry V}
    (h : e ∈ (s.touch C id entry).entries) : e ∈ s.entries ∨ e = (id, entry) :=
  mem_touched h

omit [DecidableEq ι] in
/-- The blocking path, before the call is noted: its load is the last one. -/
theorem loadNow_eq (id : ι) (now : ℤ) (found : Option (RecordEntry V)) :
    ∃ before : Records ι δ ρ E V, s.loadNow C id now found = before.addGet id
        (.waiting now (found.map (·.toCached)) s.store.loads.length) ∧
      (∃ refresher, before.store = s.store.start ⟨id, refresher⟩ now (C.load id)) ∧
      before.entries = s.entries ∧ before.gets = s.gets := by
  unfold loadNow
  cases found with
  | none => exact ⟨_, rfl, ⟨_, rfl⟩, rfl, rfl⟩
  | some c => exact ⟨_, rfl, ⟨_, rfl⟩, rfl, rfl⟩

omit [DecidableEq ι] in
theorem startRefresh_eq (id : ι) (now : ℤ) (refresher : ℕ) :
    s.store.Onward (s.startRefresh C id now refresher).store ∧
      (s.startRefresh C id now refresher).entries = s.entries ∧
      (s.startRefresh C id now refresher).gets = s.gets := by
  unfold startRefresh
  split
  · exact ⟨Store.onward_start _ _ _, rfl, rfl⟩
  · exact ⟨.refl _, rfl, rfl⟩

omit [DecidableEq ι] in
/-- The call waits for a load of its own, with the entry found. -/
theorem Aged.loadNow (h : Aged C calls s) (id : ι) (now : ℤ) (found : Option (RecordEntry V))
    (hfound : ∀ c, found = some c → (id, c) ∈ s.entries) :
    ∃ get, (s.loadNow C id now found).gets.getLast? = some (id, get) ∧
      Aged C (calls ++ [⟨id, now, get.load⟩]) (s.loadNow C id now found) := by
  obtain ⟨before, heq, ⟨refresher, hstore⟩, hentries, hgets⟩ := loadNow_eq (C := C) id now found
  have hs : s.store.Onward before.store := by
    rw [hstore]
    exact Store.onward_start _ _ _
  have hbefore : Aged C calls before := by
    apply h.onward hs hgets
    intro e he
    exact .inl (hentries ▸ he)
  refine ⟨.waiting now (found.map (·.toCached)) s.store.loads.length, ?_, ?_⟩
  · rw [heq]
    exact List.getLast?_concat
  · rw [heq]
    apply hbefore.addGet ⟨id, now, some s.store.loads.length⟩
    · intro i hi
      cases hi
      refine ⟨⟨⟨id, refresher⟩, now, s.store.statements, .reading (C.load id)⟩, ?_, rfl, rfl⟩
      rw [hstore]
      simp [Store.start]
    · refine ⟨rfl, rfl, ?_⟩
      intro c hc
      obtain ⟨entry, hentry, rfl⟩ := Option.map_eq_some_iff.mp hc
      exact (h.entries (id, entry) (hfound entry hentry)).onward hs

omit [DecidableEq ι] in
theorem verdict_served {age ttl : ℤ} (h : verdict age ttl ≠ .expired) : age < ttl := by
  by_contra hge
  apply h
  unfold verdict
  rw [if_pos (not_lt.mp hge)]

/-- An entry that has not expired is served. -/
theorem Aged.serve (h : Aged C calls s) {id : ι} {now : ℤ} {c : RecordEntry V}
    (hc : (id, c) ∈ s.entries) (hage : now - c.cachedAt < C.ttl) {s' : Records ι δ ρ E V}
    (hs : s.store.Onward s'.store) (hgets : s'.gets = s.gets) (hentries : s'.entries = s.entries) :
    Aged C (calls ++ [⟨id, now, none⟩])
      ((s'.touch C id c).addGet id (.value c.value c.readAt)) := by
  have hproduced : s'.Produced id c.value c.cachedAt := (h.entries (id, c) hc).onward hs
  have htouched : Aged C calls (s'.touch C id c) := by
    refine h.onward hs hgets fun e he => ?_
    rcases touch_mem he with hold | rfl
    · exact .inl (hentries ▸ hold)
    · exact .inr hproduced
  apply htouched.addGet ⟨id, now, none⟩
  · intro i hi
    cases hi
  · refine ⟨c.cachedAt, hproduced, .inl ?_⟩
    show now - C.ttl < c.cachedAt
    omega

theorem Aged.get (h : Aged C calls s) (id : ι) (now : ℤ) :
    Aged C (calls ++ [⟨id, now, (s.get C id now).gets.getLast?.bind (·.2.load)⟩])
      (s.get C id now) := by
  have hloads : ∀ found, (∀ c, found = some c → (id, c) ∈ s.entries) →
      Aged C (calls ++ [⟨id, now, (s.loadNow C id now found).gets.getLast?.bind (·.2.load)⟩])
        (s.loadNow C id now found) := by
    intro found hfound
    obtain ⟨get, hlast, haged⟩ := h.loadNow id now found hfound
    rw [hlast]
    exact haged
  unfold Records.get
  split
  · exact hloads none (by simp)
  · next c hc =>
    have hmem := mem_of_lookup hc
    have hserves : ∀ {s' : Records ι δ ρ E V}, now - c.cachedAt < C.ttl →
        s.store.Onward s'.store → s'.gets = s.gets → s'.entries = s.entries →
        Aged C (calls ++ [⟨id, now, ((s'.touch C id c).addGet id
            (.value c.value c.readAt)).gets.getLast?.bind (·.2.load)⟩])
          ((s'.touch C id c).addGet id (.value c.value c.readAt)) := by
      intro s' hage hs hgets hentries
      have hlast : ((s'.touch C id c).addGet id (.value c.value c.readAt)).gets.getLast? =
          some (id, .value c.value c.readAt) := List.getLast?_concat
      rw [hlast]
      exact h.serve hmem hage hs hgets hentries
    cases hverdict : verdict (now - c.cachedAt) C.ttl with
    | fresh =>
      have hage := verdict_served (by rw [hverdict]; simp)
      exact hserves hage (.refl _) rfl rfl
    | early =>
      have hage := verdict_served (by rw [hverdict]; simp)
      obtain ⟨hs, hentries, hgets⟩ := startRefresh_eq (C := C) (s := s) id now c.refresher
      exact hserves hage hs hgets hentries
    | expired =>
      apply hloads (some c)
      intro c' hc'
      cases hc'
      exact hmem

/-- A load that ends with a value inserts the entry that it has produced. -/
theorem Aged.finish (h : Aged C calls s) (i : ℕ) : Aged C calls (s.finish C i) := by
  unfold Records.finish
  split
  · next load hi =>
    split
    · next v hphase =>
      have hs : s.store.Onward (s.store.setPhase i load (.returned (.ok v))) := by
        apply Store.onward_set hi _ rfl
        refine ⟨rfl, rfl, ?_, ?_⟩
        · intro v' hv'
          rw [Load.value, hphase] at hv'
          exact hv'
        · rintro ⟨e, he | he⟩
          · rw [hphase] at he
            cases he
          · rw [hphase] at he
            cases he
      refine h.onward hs rfl fun e he => ?_
      rcases mem_touched he with hold | rfl
      · exact .inl hold
      · refine .inr ⟨i, { load with phase := .returned (.ok v) }, ?_, rfl, rfl, rfl⟩
        exact List.getElem?_set_self (List.getElem?_eq_some_iff.mp hi).1
    · next e hphase =>
      have hs : s.store.Onward (s.store.setPhase i load (.returned (.error e))) := by
        apply Store.onward_set hi _ rfl
        refine ⟨rfl, rfl, ?_, fun _ => ⟨e, .inl rfl⟩⟩
        intro v hv
        rw [Load.value, hphase] at hv
        cases hv
      exact h.onward hs rfl fun e he => .inl he
    · exact h
  · exact h

omit [DecidableEq ι] in
theorem Aged.settle (h : Aged C calls s) (i : ℕ) : Aged C calls (s.settle i) := by
  unfold Records.settle
  split
  · next load hi =>
    split
    · next result hphase =>
      have hs : s.store.Onward (s.store.setPhase i load (.settled result)) := by
        apply Store.onward_set hi _ rfl
        refine ⟨rfl, rfl, ?_, ?_⟩
        · intro v hv
          rw [Load.value, hphase] at hv
          cases result with
          | ok v' => exact hv
          | error e => cases hv
        · rintro ⟨e, he | he⟩
          · rw [hphase] at he
            cases he
            exact ⟨e, .inr rfl⟩
          · rw [hphase] at he
            cases he
      exact h.onward hs rfl fun e he => .inl he
    · exact h
  · exact h

omit [DecidableEq ι] in
/-- The caller has the value of its own load, or the entry it found when that load has failed. -/
theorem Aged.resume (h : Aged C calls s) (httl : 0 < C.ttl) (g : ℕ) :
    Aged C calls (s.resume C g) := by
  unfold Records.resume
  split
  · next id now found i hg =>
    split
    · next load hi =>
      have hloaded : ∀ v, load.value = some v →
          Aged C calls { s with gets := s.gets.set g (id, .value v load.readAt) } := by
        intro v hv
        apply h.setGet hg
        intro call hcall hwaits
        obtain ⟨-, hload, -⟩ := hwaits
        obtain ⟨own, hown, hid, hnow⟩ := h.own call (List.mem_of_getElem? hcall) i hload
        rw [hi] at hown
        cases hown
        refine ⟨call.now, ⟨i, load, hi, hid, hnow, hv⟩, .inl ?_⟩
        omega
      have hfailed : ∀ e, load.Failed →
          Aged C calls { s with gets := s.gets.set g (id, fallback C now found e) } := by
        intro e hload
        apply h.setGet hg
        intro call hcall hwaits
        obtain ⟨hnow, hown, hfound⟩ := hwaits
        unfold fallback
        cases found with
        | none => trivial
        | some c =>
          dsimp only
          split
          · next hage =>
            refine ⟨c.cachedAt, hfound c rfl, .inr ⟨⟨i, load, hown, hi, hload⟩, ?_⟩⟩
            omega
          · trivial
      split
      · next v hphase => exact hloaded v (by rw [Load.value, hphase])
      · next v hphase => exact hloaded v (by rw [Load.value, hphase])
      · next e hphase => exact hfailed e ⟨e, .inl hphase⟩
      · next e hphase => exact hfailed e ⟨e, .inr hphase⟩
      · exact h
    · exact h
  · exact h

theorem aged_after (httl : 0 < C.ttl) (d1 : δ) (labels : List (RecordLabel ι δ)) :
    Aged C (Records.calls C d1 labels) (after C d1 labels) := by
  induction labels with
  | nil =>
    constructor
    · rfl
    · intro e he
      cases he
    · intro call hcall
      cases hcall
    · intro g id get call hg
      cases hg
  | cons l earlier ih =>
    cases l with
    | get id now => exact ih.get id now
    | statement i delivery =>
      exact ih.onward (Store.onward_statement C.exec C.thrown i delivery) rfl fun e he => .inl he
    | finish i => exact ih.finish i
    | settle i => exact ih.settle i
    | resume g => exact ih.resume httl g
    | write d => exact ih.onward (.refl _) rfl fun e he => .inl he
    | invalidate dropped =>
      exact ih.onward (.refl _) rfl fun e he => .inl (List.mem_of_mem_filter he)

/-! ### The entries -/

/-- An operation makes one record the most recently used, drops some when it invalidates, or
leaves the entries as they are. -/
theorem entries_step (l : RecordLabel ι δ) :
    (∃ id entry, touchedId C s l = some id ∧
      (s.step C l).entries = Recency.touch C.capacity s.entries id entry) ∨
    (touchedId C s l = none ∧ ∃ dropped, l = .invalidate dropped ∧
      (s.step C l).entries = s.entries.filter fun e => !drops dropped e.1) ∨
    (touchedId C s l = none ∧ (∀ dropped, l ≠ .invalidate dropped) ∧
      (s.step C l).entries = s.entries) := by
  have hloads : ∀ id now found, (s.loadNow C id now found).entries = s.entries := by
    intro id now found
    obtain ⟨before, heq, -, hentries, -⟩ := loadNow_eq (C := C) (s := s) id now found
    rw [heq]
    exact hentries
  cases l with
  | get id now =>
    simp only [touchedId, Records.step, Records.get]
    cases hc : s.entries.lookup id with
    | none => exact .inr (.inr ⟨rfl, by simp, hloads id now none⟩)
    | some c =>
      cases hverdict : verdict (now - c.cachedAt) C.ttl with
      | fresh =>
        simp only [hverdict]
        exact .inl ⟨id, c, by simp, rfl⟩
      | early =>
        simp only [hverdict]
        obtain ⟨-, hentries, -⟩ := startRefresh_eq (C := C) (s := s) id now c.refresher
        refine .inl ⟨id, c, by simp, ?_⟩
        show touched C (s.startRefresh C id now c.refresher).entries id c = _
        rw [hentries]
        rfl
      | expired =>
        simp only [hverdict]
        exact .inr (.inr ⟨by simp, by simp, hloads id now (some c)⟩)
  | statement i delivery => exact .inr (.inr ⟨rfl, by simp, rfl⟩)
  | finish i =>
    simp only [touchedId, Records.step, Records.finish]
    cases hi : s.store.loads[i]? with
    | none => exact .inr (.inr ⟨rfl, by simp, rfl⟩)
    | some load =>
      cases hphase : load.phase with
      | reading prog =>
        cases prog with
        | done result =>
          cases result with
          | ok v =>
            simp only [hphase]
            exact .inl ⟨load.key.id, _, rfl, rfl⟩
          | error e => simp [hphase]
        | call op next => simp [hphase]
      | returned result => simp [hphase]
      | settled result => simp [hphase]
  | settle i =>
    refine .inr (.inr ⟨rfl, by simp, ?_⟩)
    show (s.settle i).entries = s.entries
    unfold Records.settle
    split
    · split <;> rfl
    · rfl
  | resume g =>
    refine .inr (.inr ⟨rfl, by simp, ?_⟩)
    show (s.resume C g).entries = s.entries
    unfold Records.resume
    split
    · split
      · split <;> rfl
      · rfl
    · rfl
  | write d => exact .inr (.inr ⟨rfl, by simp, rfl⟩)
  | invalidate dropped => exact .inr (.inl ⟨rfl, dropped, rfl, rfl⟩)

theorem ordered_after (hcapacity : 0 < C.capacity) (d1 : δ) (labels : List (RecordLabel ι δ)) :
    Recency.Ordered C.capacity (uses C d1 labels) (after C d1 labels).entries := by
  induction labels with
  | nil => exact Recency.ordered_nil
  | cons l earlier ih =>
    have hstep := entries_step (C := C) (s := after C d1 earlier) l
    show Recency.Ordered C.capacity ((touchedId C (after C d1 earlier) l).toList ++ _)
      ((after C d1 earlier).step C l).entries
    rcases hstep with ⟨id, entry, hid, heq⟩ | ⟨hnone, dropped, -, heq⟩ | ⟨hnone, -, heq⟩
    · rw [hid, heq]
      exact ih.touch hcapacity id entry
    · rw [hnone, heq]
      exact ih.filter _
    · rw [hnone, heq]
      exact ih

end Step

end Records

/-! ### The directory cache -/

/-- A value comes from a load of its record that was started less than a minute before the call,
or less than an hour when the call's own load has failed. The cache holds at most a thousand
entries, one an id, and a new one beyond that takes the place of the one used longest ago. -/
theorem recordCache_fresh_and_bounded {ι δ T : Type} [DecidableEq ι] (select : δ → ι → Option T)
    (d1 : δ) (labels : List (RecordLabel ι δ)) :
    let C := RecordCache select
    let s := Records.after C d1 labels
    (s.gets.length = (Records.calls C d1 labels).length ∧
      ∀ (g : ℕ) (id : ι) (v : Option T) (n : ℕ), s.gets[g]? = some (id, .value v n) →
        ∃ call, (Records.calls C d1 labels)[g]? = some call ∧ call.id = id ∧ s.OwnLoad call ∧
          ∃ now, s.Produced id v now ∧
            (call.now - 60 < now ∨ s.OwnFailed call ∧ call.now - 3600 < now)) ∧
    (s.entries.length ≤ 1000 ∧ s.ids.Nodup) ∧
    ∀ l : RecordLabel ι δ,
      (∀ id, Records.touchedId C s l = some id →
        if id ∈ s.ids ∨ s.entries.length < 1000 then (s.step C l).ids = s.ids.erase id ++ [id]
        else ∃ old, Recency.LeastRecent (Records.uses C d1 labels) s.ids old ∧
          (s.step C l).ids = s.ids.erase old ++ [id]) ∧
      (Records.touchedId C s l = none → (∀ dropped, l ≠ .invalidate dropped) →
        (s.step C l).ids = s.ids) := by
  intro C s
  have haged : Records.Aged C (Records.calls C d1 labels) s :=
    Records.aged_after (show (0 : ℤ) < 60 by decide) d1 labels
  have hordered : Recency.Ordered 1000 (Records.uses C d1 labels) s.entries :=
    Records.ordered_after (C := C) (show 0 < 1000 by decide) d1 labels
  refine ⟨⟨haged.length, ?_⟩, ⟨hordered.bounded, hordered.nodup⟩, ?_⟩
  · intro g id v n hg
    have hlt : g < (Records.calls C d1 labels).length := by
      rw [← haged.length]
      exact (List.getElem?_eq_some_iff.mp hg).1
    have hcall : (Records.calls C d1 labels)[g]? = some (Records.calls C d1 labels)[g] :=
      List.getElem?_eq_getElem hlt
    obtain ⟨rfl, hanswers⟩ := haged.gets g id _ _ hg hcall
    exact ⟨_, hcall, rfl, haged.own _ (List.mem_of_getElem? hcall), hanswers⟩
  · intro l
    rcases Records.entries_step (C := C) (s := s) l with
      ⟨id, entry, hid, heq⟩ | ⟨hnone, dropped, rfl, -⟩ | ⟨hnone, -, heq⟩
    · constructor
      · intro id' hid'
        rw [hid] at hid'
        cases hid'
        have hids : (s.step C l).ids = (Recency.touch 1000 s.entries id entry).map Prod.fst :=
          congrArg (List.map Prod.fst) heq
        rw [hids]
        split
        · next hroom => exact Recency.map_fst_touch_of_room hordered (by decide) hroom
        · next hfull =>
          obtain ⟨hnew, hlength⟩ := not_or.mp hfull
          exact Recency.map_fst_touch_of_full hordered (by decide) hnew (Nat.le_of_not_lt hlength)
      · intro hnone
        rw [hid] at hnone
        cases hnone
    · constructor
      · intro id hid
        rw [hnone] at hid
        cases hid
      · intro _ hnot
        exact absurd rfl (hnot dropped)
    · constructor
      · intro id hid
        rw [hnone] at hid
        cases hid
      · intro _ _
        exact congrArg (List.map Prod.fst) heq

end TinyOidc.Cache
