import TinyOidc.Cache.Loads

/-! A cache of one value (`SettingsLoader` of `src/env.ts`, `KeyStore` of
`src/crypto/keystore.ts`): callers that find no usable value share one load, and a value that is
getting old is refreshed in the background. -/
namespace TinyOidc.Cache
open Threads (Prog Delivery)

/-- One cache class: how a value is loaded from D1, for how long it is served, and which errors
its callers see. `F` is what a load draws. -/
structure SlotClass (F δ : Type) {ω : Type} (ρ : ω → Type) (E V : Type) where
  exec : δ → (op : ω) → δ × ρ op
  thrown : E
  load : F → ℤ → Prog ω ρ (Except E V)
  ttl : ℤ
  stale : ℤ
  /-- Errors that are thrown on as they are, whatever is cached. -/
  passesOn : E → Bool
  unavailable : E → E

structure Slot (δ : Type) {ω : Type} (ρ : ω → Type) (E V : Type) where
  store : Store ρ Unit E V δ
  cached : Option (Cached V)
  loading : Option ℕ
  refreshing : Option ℕ
  gets : List (Get E V)

/-- What happens next in the isolate, and in D1. -/
inductive SlotLabel (F δ : Type) where
  | get (now : ℤ) (drawn : F)
  | statement (load : ℕ) (delivery : Delivery)
  | finish (load : ℕ)
  | settle (load : ℕ)
  | resume (get : ℕ)
  | write (d1 : δ)
  | invalidate

variable {F δ ω : Type} {ρ : ω → Type} {E V : Type}

namespace Slot

def empty (d1 : δ) : Slot δ ρ E V := ⟨⟨d1, 0, []⟩, none, none, none, []⟩

section Step
variable (C : SlotClass F δ ρ E V) (s : Slot δ ρ E V)

def startLoad (now : ℤ) (drawn : F) : Slot δ ρ E V :=
  { s with store := s.store.start () now (C.load drawn now) }

/-- `Refresher.start`: one refresh at a time. -/
def startRefresh (now : ℤ) (drawn : F) : Slot δ ρ E V :=
  match s.refreshing with
  | some _ => s
  | none => { s.startLoad C now drawn with refreshing := some s.store.loads.length }

def addGet (get : Get E V) : Slot δ ρ E V := { s with gets := s.gets ++ [get] }

/-- The blocking path: the load under way, or a new one. -/
def awaitLoad (now : ℤ) (drawn : F) : Slot δ ρ E V :=
  match s.loading with
  | some i => s.addGet (.waiting now s.cached i)
  | none => ({ s.startLoad C now drawn with loading := some s.store.loads.length }).addGet
      (.waiting now s.cached s.store.loads.length)

def get (now : ℤ) (drawn : F) : Slot δ ρ E V :=
  match s.cached with
  | none => s.awaitLoad C now drawn
  | some c =>
    match verdict (now - c.cachedAt) C.ttl with
    | .fresh => s.addGet (.value c.value c.readAt)
    | .early => (s.startRefresh C now drawn).addGet (.value c.value c.readAt)
    | .expired => s.awaitLoad C now drawn

/-- A load has all its answers: it writes the cache, or fails. -/
def finish (i : ℕ) : Slot δ ρ E V :=
  match s.store.loads[i]? with
  | some load =>
    match load.phase with
    | .reading (.done (.ok v)) =>
      { s with
        store := s.store.setPhase i load (.returned (.ok v))
        cached := some ⟨v, load.now, load.readAt⟩ }
    | .reading (.done (.error e)) =>
      { s with store := s.store.setPhase i load (.returned (.error e)) }
    | _ => s
  | none => s

def cleared (running : Option ℕ) (i : ℕ) : Option ℕ := if running = some i then none else running

/-- The `finally` of a load's promise. -/
def settle (i : ℕ) : Slot δ ρ E V :=
  match s.store.loads[i]? with
  | some load =>
    match load.phase with
    | .returned result =>
      { s with
        store := s.store.setPhase i load (.settled result)
        loading := cleared s.loading i
        refreshing := cleared s.refreshing i }
    | _ => s
  | none => s

/-- The value of a failed load: the one found before, while it may be served. -/
def fallback (now : ℤ) (found : Option (Cached V)) (e : E) : Get E V :=
  if C.passesOn e then .threw e
  else
    match found with
    | some c => if now - c.cachedAt < C.stale then .value c.value c.readAt
        else .threw (C.unavailable e)
    | none => .threw (C.unavailable e)

/-- A caller goes on after the load it waits for. -/
def resume (g : ℕ) : Slot δ ρ E V :=
  match s.gets[g]? with
  | some (.waiting now found i) =>
    match s.store.loads[i]? with
    | some load =>
      match load.phase with
      | .settled (.ok v) => { s with gets := s.gets.set g (.value v load.readAt) }
      | .settled (.error e) => { s with gets := s.gets.set g (fallback C now found e) }
      | _ => s
    | none => s
  | _ => s

def invalidate : Slot δ ρ E V := { s with cached := none }

def step : SlotLabel F δ → Slot δ ρ E V
  | .get now drawn => s.get C now drawn
  | .statement i delivery => { s with store := s.store.statement C.exec C.thrown i delivery }
  | .finish i => s.finish i
  | .settle i => s.settle i
  | .resume g => s.resume C g
  | .write d1 => { s with store := s.store.write d1 }
  | .invalidate => s.invalidate

/-- The isolate after a schedule, newest label first. -/
abbrev after (d1 : δ) (labels : List (SlotLabel F δ)) : Slot δ ρ E V :=
  Machine.after (fun s l => (s.step C l, ())) (empty d1) labels

end Step

/-! ### What can still be handed out -/

/-- The load will write the cache, or be shared by callers to come. -/
def isInFlight (s : Slot δ ρ E V) (load : Load ρ Unit E V) (i : ℕ) : Bool :=
  load.isReading || s.loading == some i

/-- No load in flight has come to its value with answers from before the count. -/
def Quiet (count : ℕ) (s : Slot δ ρ E V) : Prop :=
  ∀ p ∈ s.store.loads.zipIdx, s.isInFlight p.1 p.2 = true → p.1.Since count

instance (count : ℕ) (s : Slot δ ρ E V) : Decidable (s.Quiet count) :=
  inferInstanceAs (Decidable (∀ p ∈ _, _))

/-- One of the calls from the first on waits for the load. -/
def Awaited (first : ℕ) (s : Slot δ ρ E V) (i : ℕ) : Prop :=
  ∃ g now found, first ≤ g ∧ s.gets[g]? = some (.waiting now found i)

/-- What the calls from the first on can see is of the count or later. -/
structure Fresh (count first : ℕ) (s : Slot δ ρ E V) : Prop where
  clock : count ≤ s.store.statements
  calls : first ≤ s.gets.length
  cached : ∀ c, s.cached = some c → count ≤ c.readAt
  loads : ∀ i load, s.store.loads[i]? = some load →
    load.isReading = true ∨ s.loading = some i ∨ s.Awaited first i → load.Since count
  found : ∀ g now c i, first ≤ g → s.gets[g]? = some (.waiting now (some c) i) → count ≤ c.readAt
  values : ∀ g v n, first ≤ g → s.gets[g]? = some (.value v n) → count ≤ n

section Fresh
variable {C : SlotClass F δ ρ E V} {s : Slot δ ρ E V} {count first : ℕ}

/-- A call that ends at once with a value that is cached. -/
theorem Fresh.addValue (h : Fresh count first s) {v : V} {n : ℕ} (hn : count ≤ n) :
    Fresh count first (s.addGet (.value v n)) where
  clock := h.clock
  calls := by
    have := h.calls
    simp only [addGet, List.length_append, List.length_singleton]
    omega
  cached := h.cached
  loads i load hi hlive := by
    apply h.loads i load hi
    rcases hlive with hreading | hloading | ⟨g, now, found, hg, hget⟩
    · exact .inl hreading
    · exact .inr (.inl hloading)
    · rcases getElem?_concat hget with hold | hnew
      · exact .inr (.inr ⟨g, now, found, hg, hold⟩)
      · cases hnew
  found g now c i hg hget := by
    rcases getElem?_concat hget with hold | hnew
    · exact h.found g now c i hg hold
    · cases hnew
  values g v' n' hg hget := by
    rcases getElem?_concat hget with hold | hnew
    · exact h.values g v' n' hg hold
    · cases hnew
      exact hn

/-- A call that waits for the load that all share. -/
theorem Fresh.addWaiting (h : Fresh count first s) {now : ℤ} {i : ℕ} (hi : s.loading = some i) :
    Fresh count first (s.addGet (.waiting now s.cached i)) where
  clock := h.clock
  calls := by
    have := h.calls
    simp only [addGet, List.length_append, List.length_singleton]
    omega
  cached := h.cached
  loads j load hj hlive := by
    apply h.loads j load hj
    rcases hlive with hreading | hloading | ⟨g, now', found, hg, hget⟩
    · exact .inl hreading
    · exact .inr (.inl hloading)
    · rcases getElem?_concat hget with hold | hnew
      · exact .inr (.inr ⟨g, now', found, hg, hold⟩)
      · cases hnew
        exact .inr (.inl hi)
  found g now' c j hg hget := by
    rcases getElem?_concat hget with hold | hnew
    · exact h.found g now' c j hg hold
    · obtain ⟨-, hcached, -⟩ := Get.waiting.inj hnew
      exact h.cached c hcached.symm
  values g v n hg hget := by
    rcases getElem?_concat hget with hold | hnew
    · exact h.values g v n hg hold
    · cases hnew

/-- A load that starts, as the shared one or as the refresh. -/
theorem Fresh.startLoad (h : Fresh count first s) (now : ℤ) (drawn : F)
    (loading refreshing : Option ℕ)
    (hloading : loading = s.loading ∨ loading = some s.store.loads.length) :
    Fresh count first
      { s.startLoad C now drawn with loading := loading, refreshing := refreshing } where
  clock := h.clock
  calls := h.calls
  cached := h.cached
  loads i load hi hlive := by
    rcases Store.since_start h.clock hi with hold | ⟨-, hnew⟩
    · apply h.loads i load hold
      rcases hlive with hreading | hshared | hawaited
      · exact .inl hreading
      · rcases hloading with hsame | hlast
        · exact .inr (.inl (hsame.symm.trans hshared))
        · cases hlast.symm.trans hshared
          have hlt := (List.getElem?_eq_some_iff.mp hold).1
          exact absurd hlt (lt_irrefl _)
      · exact .inr (.inr hawaited)
    · exact hnew
  found := h.found
  values := h.values

theorem Fresh.awaitLoad (h : Fresh count first s) (now : ℤ) (drawn : F) :
    Fresh count first (s.awaitLoad C now drawn) := by
  unfold Slot.awaitLoad
  split
  · next i hi => exact h.addWaiting hi
  · have hstarted := h.startLoad (C := C) now drawn (some s.store.loads.length) s.refreshing
      (.inr rfl)
    exact hstarted.addWaiting rfl

theorem Fresh.get (h : Fresh count first s) (now : ℤ) (drawn : F) :
    Fresh count first (s.get C now drawn) := by
  unfold Slot.get
  split
  · exact h.awaitLoad now drawn
  · next c hc =>
    have hread := h.cached c hc
    split
    · exact h.addValue hread
    · apply Fresh.addValue _ hread
      unfold startRefresh
      split
      · exact h
      · exact h.startLoad now drawn s.loading _ (.inl rfl)
    · exact h.awaitLoad now drawn

theorem Fresh.statement (h : Fresh count first s) (i : ℕ) (delivery : Delivery) :
    Fresh count first
      { s with store := s.store.statement C.exec C.thrown i delivery } where
  clock := h.clock.trans (Store.statements_le_statement C.exec C.thrown i delivery)
  calls := h.calls
  cached := h.cached
  loads j load hj hlive := by
    rcases Store.since_statement h.clock hj with hsince | hold
    · exact hsince
    · exact h.loads j load hold hlive
  found := h.found
  values := h.values

/-- A load that moves on without coming to another value. -/
theorem Fresh.setPhase (h : Fresh count first s) {i : ℕ} {load : Load ρ Unit E V}
    {phase : Phase ρ E V} (hi : s.store.loads[i]? = some load)
    (hvalue : ({ load with phase := phase } : Load ρ Unit E V).value = load.value)
    (hreading : ({ load with phase := phase } : Load ρ Unit E V).isReading = true →
      load.isReading = true) (cached : Option (Cached V))
    (hcached : ∀ c, cached = some c → count ≤ c.readAt) (loading refreshing : Option ℕ)
    (hloading : ∀ j, loading = some j → s.loading = some j) :
    Fresh count first ⟨s.store.setPhase i load phase, cached, loading, refreshing, s.gets⟩ where
  clock := h.clock
  calls := h.calls
  cached := hcached
  loads j load' hj hlive := by
    rcases Store.of_setPhase hi hj with ⟨rfl, rfl⟩ | ⟨-, hold⟩
    · have hsince : load.Since count := by
        apply h.loads j load hi
        rcases hlive with hread | hshared | hawaited
        · exact .inl (hreading hread)
        · exact .inr (.inl (hloading j hshared))
        · exact .inr (.inr hawaited)
      intro hsome
      rw [hvalue] at hsome
      exact hsince hsome
    · apply h.loads j load' hold
      rcases hlive with hread | hshared | hawaited
      · exact .inl hread
      · exact .inr (.inl (hloading j hshared))
      · exact .inr (.inr hawaited)
  found := h.found
  values := h.values

theorem Fresh.finish (h : Fresh count first s) (i : ℕ) : Fresh count first (s.finish i) := by
  unfold Slot.finish
  split
  · next load hi =>
    split
    · next v hphase =>
      have hreads : load.isReading = true := by rw [Load.isReading, hphase]
      have hvalue : load.value = some v := by rw [Load.value, hphase]
      have hsince := h.loads i load hi (.inl hreads) (by rw [hvalue]; rfl)
      refine h.setPhase hi ?_ ?_ _ ?_ _ _ (fun _ hj => hj)
      · rw [hvalue]
        rfl
      · exact fun _ => hreads
      · intro c hc
        cases hc
        exact hsince
    · next e hphase =>
      refine h.setPhase hi ?_ ?_ _ h.cached _ _ (fun _ hj => hj)
      · rw [Load.value, Load.value, hphase]
      · exact fun hread => nomatch hread
    · exact h
  · exact h

theorem cleared_some {running : Option ℕ} {i j : ℕ} (h : cleared running i = some j) :
    running = some j := by
  unfold cleared at h
  split at h
  · cases h
  · exact h

theorem Fresh.settle (h : Fresh count first s) (i : ℕ) : Fresh count first (s.settle i) := by
  unfold Slot.settle
  split
  · next load hi =>
    split
    · next result hphase =>
      refine h.setPhase hi ?_ ?_ _ h.cached _ _ (fun _ hj => cleared_some hj)
      · cases result with
        | ok v => rw [Load.value, Load.value, hphase]
        | error e => rw [Load.value, Load.value, hphase]
      · exact fun hread => nomatch hread
    · exact h
  · exact h

/-- A caller that goes on with a value of the count or later, or with an error. -/
theorem Fresh.setGet (h : Fresh count first s) {g : ℕ} {get : Get E V}
    (hwaiting : ∀ now found i, get ≠ .waiting now found i)
    (hvalue : ∀ v n, get = .value v n → first ≤ g → count ≤ n) :
    Fresh count first { s with gets := s.gets.set g get } where
  clock := h.clock
  calls := by simpa using h.calls
  cached := h.cached
  loads i load hi hlive := by
    apply h.loads i load hi
    rcases hlive with hread | hshared | ⟨g', now, found, hg', hget⟩
    · exact .inl hread
    · exact .inr (.inl hshared)
    · by_cases hgg : g = g'
      · subst hgg
        rw [List.getElem?_set_self'] at hget
        obtain ⟨_, -, hsame⟩ := Option.map_eq_some_iff.mp hget
        exact absurd hsame (hwaiting now found i)
      · rw [List.getElem?_set_ne hgg] at hget
        exact .inr (.inr ⟨g', now, found, hg', hget⟩)
  found g' now c i hg' hget := by
    by_cases hgg : g = g'
    · subst hgg
      rw [List.getElem?_set_self'] at hget
      obtain ⟨_, -, hsame⟩ := Option.map_eq_some_iff.mp hget
      exact absurd hsame (hwaiting now (some c) i)
    · rw [List.getElem?_set_ne hgg] at hget
      exact h.found g' now c i hg' hget
  values g' v n hg' hget := by
    by_cases hgg : g = g'
    · subst hgg
      rw [List.getElem?_set_self'] at hget
      obtain ⟨_, -, hsame⟩ := Option.map_eq_some_iff.mp hget
      exact hvalue v n hsame hg'
    · rw [List.getElem?_set_ne hgg] at hget
      exact h.values g' v n hg' hget

/-- What a failed load leaves its caller with was found in the cache. -/
theorem fallback_cases (now : ℤ) (found : Option (Cached V)) (e : E) :
    (∃ c, found = some c ∧ fallback C now found e = .value c.value c.readAt) ∨
      ∃ e', fallback C now found e = .threw e' := by
  unfold fallback
  split
  · exact .inr ⟨_, rfl⟩
  · cases found with
    | none => exact .inr ⟨_, rfl⟩
    | some c =>
      dsimp only
      split
      · exact .inl ⟨c, rfl, rfl⟩
      · exact .inr ⟨_, rfl⟩

theorem Fresh.resume (h : Fresh count first s) (g : ℕ) : Fresh count first (s.resume C g) := by
  unfold Slot.resume
  split
  · next now found i hget =>
    split
    · next load hi =>
      split
      · next v hphase =>
        apply h.setGet (by simp)
        intro v' n heq hg
        obtain ⟨-, rfl⟩ := Get.value.inj heq
        have hvalue : load.value = some v := by rw [Load.value, hphase]
        exact h.loads i load hi (.inr (.inr ⟨g, now, found, hg, hget⟩)) (by rw [hvalue]; rfl)
      · next e hphase =>
        rcases fallback_cases (C := C) now found e with ⟨c, rfl, hfallback⟩ | ⟨e', hfallback⟩
        · rw [hfallback]
          apply h.setGet (by simp)
          intro v n heq hg
          obtain ⟨-, rfl⟩ := Get.value.inj heq
          exact h.found g now c i hg hget
        · rw [hfallback]
          exact h.setGet (by simp) (by simp)
      · exact h
    · exact h
  · exact h

/-- Whatever happens next, what later calls can see stays of the count or later. -/
theorem Fresh.step (h : Fresh count first s) (l : SlotLabel F δ) :
    Fresh count first (s.step C l) := by
  cases l with
  | get now drawn => exact h.get now drawn
  | statement i delivery => exact h.statement i delivery
  | finish i => exact h.finish i
  | settle i => exact h.settle i
  | resume g => exact h.resume g
  | write d1 => exact ⟨h.clock.trans (Nat.le_succ _), h.calls, h.cached, h.loads, h.found, h.values⟩
  | invalidate =>
    exact ⟨h.clock, h.calls, by simp [Slot.step, invalidate], h.loads, h.found, h.values⟩

theorem Fresh.run {d1 : δ} {labels : List (SlotLabel F δ)}
    (h : Fresh count first (after C d1 labels)) (later : List (SlotLabel F δ)) :
    Fresh count first (after C d1 (later ++ labels)) := by
  induction later with
  | nil => exact h
  | cons l later ih => exact ih.step l

/-- An invalidation with no older load in flight leaves nothing from before the count. -/
theorem fresh_invalidate (hclock : count ≤ s.store.statements) (hquiet : s.Quiet count) :
    Fresh count s.gets.length s.invalidate where
  clock := hclock
  calls := Nat.le_refl _
  cached _ hc := nomatch hc
  loads i load hi hlive := by
    apply hquiet (load, i) (List.mem_zipIdx_iff_getElem?.mpr hi)
    rcases hlive with hread | hshared | ⟨g, now, found, hg, hget⟩
    · simp [isInFlight, hread]
    · have hloading : s.loading = some i := hshared
      simp [isInFlight, hloading]
    · have hlt := (List.getElem?_eq_some_iff.mp hget).1
      exact absurd hlt (Nat.not_lt.mpr hg)
  found g now c i hg hget :=
    absurd (List.getElem?_eq_some_iff.mp hget).1 (Nat.not_lt.mpr hg)
  values g v n hg hget :=
    absurd (List.getElem?_eq_some_iff.mp hget).1 (Nat.not_lt.mpr hg)

/-- D1 only executes more statements. -/
theorem statements_mono (l : SlotLabel F δ) :
    s.store.statements ≤ (s.step C l).store.statements := by
  have hawait : ∀ now drawn, (s.awaitLoad C now drawn).store.statements = s.store.statements := by
    intro now drawn
    unfold awaitLoad
    split <;> rfl
  cases l with
  | get now drawn =>
    apply le_of_eq
    show s.store.statements = (s.get C now drawn).store.statements
    unfold Slot.get
    split
    · rw [hawait]
    · split
      · rfl
      · unfold startRefresh
        split <;> rfl
      · rw [hawait]
  | statement i delivery => exact Store.statements_le_statement C.exec C.thrown i delivery
  | finish i =>
    apply le_of_eq
    show s.store.statements = (s.finish i).store.statements
    unfold Slot.finish
    split
    · split <;> rfl
    · rfl
  | settle i =>
    apply le_of_eq
    show s.store.statements = (s.settle i).store.statements
    unfold Slot.settle
    split
    · split <;> rfl
    · rfl
  | resume g =>
    apply le_of_eq
    show s.store.statements = (s.resume C g).store.statements
    unfold Slot.resume
    split
    · split
      · split <;> rfl
      · rfl
    · rfl
  | write d1 => exact Nat.le_succ _
  | invalidate => exact Nat.le_refl _

theorem statements_le_after {d1 : δ} (later earlier : List (SlotLabel F δ)) :
    (after C d1 earlier).store.statements ≤ (after C d1 (later ++ earlier)).store.statements := by
  induction later with
  | nil => exact Nat.le_refl _
  | cons l later ih => exact ih.trans (statements_mono l)

end Fresh

/-- Every call from the first on that has ended with a value has one of the count or later. -/
def SeesSince (count first : ℕ) (gets : List (Get E V)) : Prop :=
  ∀ g v n, first ≤ g → gets[g]? = some (.value v n) → count ≤ n

/-- The calls that start after an invalidation read D1 after the writes before it, if no load in
flight then has its answers from before the write. -/
theorem sees_after_invalidate (C : SlotClass F δ ρ E V) (d1 written : δ)
    (later mid earlier : List (SlotLabel F δ))
    (hquiet : (after C d1 (mid ++ .write written :: earlier)).Quiet
      (after C d1 (.write written :: earlier)).store.statements) :
    SeesSince (after C d1 (.write written :: earlier)).store.statements
      (after C d1 (mid ++ .write written :: earlier)).gets.length
      (after C d1 (later ++ .invalidate :: (mid ++ .write written :: earlier))).gets := by
  have hclock : (after C d1 (.write written :: earlier)).store.statements ≤
      (after C d1 (mid ++ .write written :: earlier)).store.statements :=
    statements_le_after mid _
  have hfresh : Fresh _ _ (after C d1 (.invalidate :: (mid ++ .write written :: earlier))) :=
    fresh_invalidate hclock hquiet
  exact (hfresh.run later).values

end Slot

end TinyOidc.Cache
