import TinyOidc.Lib.Threads

/-! Secrets and the clock. A request that presents a secret did not arrive before the secret was
drawn; while the clock never goes back, whatever time it reads is no earlier than any time that
was read before the draw. -/
namespace Threads

variable {κ ε σ ω α τ β : Type} {ρ : ω → Type}

def readingsOf (reads : Entry ρ → Option β) (effects : List (Effect κ ρ α)) : List β :=
  effects.filterMap fun e => reads e.entry

/-- The value was drawn, after the clock had been read to say `time`. -/
def DrewAfter (reads : Entry ρ → Option β) (draws : Entry ρ → Option τ) (log : List (Entry ρ))
    (x : τ) (time : β) : Prop :=
  ∃ e older, e :: older <:+ log ∧ draws e = some x ∧ ∃ r ∈ older, reads r = some time

theorem DrewAfter.head_or_tail {reads : Entry ρ → Option β} {draws : Entry ρ → Option τ}
    {log : List (Entry ρ)} {entry : Entry ρ} {x : τ} {time : β}
    (h : DrewAfter reads draws (entry :: log) x time) :
    draws entry = some x ∨ DrewAfter reads draws log x time := by
  obtain ⟨e, older, hsuffix, hdrawn, hread⟩ := h
  rcases List.suffix_cons_iff.mp hsuffix with heq | hsuffix
  · cases heq
    exact .inl hdrawn
  · exact .inr ⟨e, older, hsuffix, hdrawn, hread⟩

namespace System

variable (S : System κ ε σ ρ α)

def drawnAt (draws : Entry ρ → Option τ) (e : S.Event) : Option τ :=
  e.reply.bind fun effect => draws effect.entry

def presentedAt (presents : κ → Option τ) (e : S.Event) : Option τ :=
  e.input.request.bind presents

/-- No value is presented before it is drawn. -/
def Unforeseen (draws : Entry ρ → Option τ) (presents : κ → Option τ) (events : List S.Event) :
    Prop :=
  events.Pairwise fun later earlier => S.drawnAt draws later = none ∨
    S.drawnAt draws later ≠ S.presentedAt presents earlier

instance [DecidableEq τ] (draws : Entry ρ → Option τ) (presents : κ → Option τ)
    (events : List S.Event) : Decidable (S.Unforeseen draws presents events) :=
  inferInstanceAs (Decidable (List.Pairwise _ events))

variable {S} {reads : Entry ρ → Option β} {draws : Entry ρ → Option τ} {presents : κ → Option τ}

/-- A request that is under way is that of an earlier event. -/
theorem exists_presentedAt (presents : κ → Option τ) {s : σ} {labels : List (Label κ ω ε)}
    {t : Thread κ ρ α}
    (ht : t ∈ (S.after s labels).threads) :
    ∃ e ∈ S.history s labels, S.presentedAt presents e = presents t.request := by
  have hspawn := S.spawn_mem_of_thread ht
  obtain ⟨later, earlier, rfl⟩ := List.append_of_mem hspawn
  refine ⟨Machine.event S.step (S.after s earlier) (.spawn t.request), ?_, rfl⟩
  rw [history, Machine.events_append]
  exact List.mem_append_right _ List.mem_cons_self

/-- What a thread has read is read in the run. -/
theorem mem_readingsOf {s : σ} {labels : List (Label κ ω ε)} {t : Thread κ ρ α}
    (ht : t ∈ (S.after s labels).threads) {r : Entry ρ} (hr : r ∈ t.log) {time : β}
    (htime : reads r = some time) : time ∈ readingsOf reads (S.effects s labels) := by
  obtain ⟨e, he, i, t₀, hreply, -⟩ := S.exists_event_of_mem_log s labels t ht r hr
  exact List.mem_filterMap.mpr ⟨.thread i t₀ r, List.mem_filterMap.mpr ⟨e, he, hreply⟩, htime⟩

/-- A thread after a step: it is new, or one from before that may have made the call. -/
theorem thread_before {s : σ} {l : Label κ ω ε} {labels : List (Label κ ω ε)} {t : Thread κ ρ α}
    (ht : t ∈ (S.after s (l :: labels)).threads) :
    t.log = [] ∨ ∃ t₀ ∈ (S.after s labels).threads, t.request = t₀.request ∧
      (t.log = t₀.log ∨ ∃ i entry, (S.step (S.after s labels) l).2 = some (.thread i t₀ entry) ∧
        t.log = entry :: t₀.log) := by
  rcases S.mem_threads_of_steps (S.step_steps (S.after s labels) l) ht with
    hold | ⟨q, rfl⟩ | ⟨i, t₀, op, next, r, hi, -, hreply, rfl⟩
  · exact .inr ⟨t, hold, rfl, .inl rfl⟩
  · exact .inl rfl
  · exact .inr ⟨t₀, List.mem_of_getElem? hi, rfl, .inr ⟨i, ⟨op, r⟩, hreply, rfl⟩⟩

/-- A thread that presents a value reads no time before one that was read before its draw. -/
theorem le_of_presented [Preorder β] (s : σ) (labels : List (Label κ ω ε))
    (hclock : (readingsOf reads (S.effects s labels)).Pairwise (· ≥ ·))
    (hsecret : S.Unforeseen draws presents (S.history s labels)) {t t' : Thread κ ρ α}
    (ht : t ∈ (S.after s labels).threads) (ht' : t' ∈ (S.after s labels).threads) {x : τ}
    (hx : presents t.request = some x) {earlier : β}
    (hdrew : DrewAfter reads draws t'.log x earlier) {r : Entry ρ} (hr : r ∈ t.log) {now : β}
    (hnow : reads r = some now) : earlier ≤ now := by
  induction labels generalizing t t' with
  | nil => cases ht
  | cons l labels ih =>
    obtain ⟨hforeseen, hsecret'⟩ := List.pairwise_cons.mp hsecret
    have hreadings : readingsOf reads (S.effects s (l :: labels)) =
        readingsOf reads (S.step (S.after s labels) l).2.toList ++
          readingsOf reads (S.effects s labels) := by
      rw [effects, effectsFrom_cons, readingsOf, List.filterMap_append]
      rfl
    rw [hreadings, List.pairwise_append] at hclock
    obtain ⟨-, hclock', hlater⟩ := hclock
    rcases thread_before ht with hnew | ⟨t₀, ht₀, hrequest, hlog⟩
    · rw [hnew] at hr
      cases hr
    rcases thread_before ht' with hnew | ⟨t₀', ht₀', -, hlog'⟩
    · obtain ⟨e, older, hsuffix, -⟩ := hdrew
      rw [hnew] at hsuffix
      cases List.suffix_nil.mp hsuffix
    rw [hrequest] at hx
    have hdrew₀ : DrewAfter reads draws t₀'.log x earlier := by
      rcases hlog' with hlog' | ⟨i, entry, hreply, hlog'⟩
      · rwa [hlog'] at hdrew
      rw [hlog'] at hdrew
      refine hdrew.head_or_tail.resolve_left fun hdrawn => ?_
      -- The thread presents the value already, so this step cannot draw it.
      obtain ⟨e, he, hpresented⟩ := exists_presentedAt presents ht₀
      have hnow : S.drawnAt draws (Machine.event S.step (S.after s labels) l) = some x := by
        simp [drawnAt, hreply, hdrawn]
      rcases hforeseen e he with hnone | hne
      · simp [hnow] at hnone
      · exact hne (hnow.trans (hpresented.trans hx).symm)
    rcases hlog with hlog | ⟨i, entry, hreply, hlog⟩
    · rw [hlog] at hr
      exact ih hclock' hsecret' ht₀ ht₀' hx hdrew₀ hr
    · rw [hlog] at hr
      rcases List.mem_cons.mp hr with rfl | hr
      · obtain ⟨e, older, hsuffix, -, r', hr', htime⟩ := hdrew₀
        refine hlater now ?_ earlier ?_
        · simp [readingsOf, hreply, hnow]
        · exact mem_readingsOf ht₀' (hsuffix.subset (List.mem_cons_of_mem _ hr')) htime
      · exact ih hclock' hsecret' ht₀ ht₀' hx hdrew₀ hr

end System

end Threads
