import TinyOidc.Lib.Lists
import TinyOidc.Logout.Attempts

/-! Every client of an ended session that registered a logout address is told, or the failure is on
record. A retry follows a failure, on the schedule and under the id of the first token. -/
namespace TinyOidc.Logout
open TinyOidc.Keys (LoadedKeys)
open Lists (mem_eraseIdx_or)

abbrev after (issuer : String) (turns : List Turn) : Deliveries :=
  Machine.after (Deliveries.step issuer) .empty turns

abbrev history (issuer : String) (turns : List Turn) :
    List (Machine.Event Deliveries Turn (List Action)) :=
  Machine.events (Deliveries.step issuer) .empty turns

def notices (turns : List Turn) : List Notice := turns.flatMap Turn.notices

def actions (issuer : String) (turns : List Turn) : List Action :=
  (history issuer turns).flatMap (·.reply)

theorem notices_cons (turn : Turn) (turns : List Turn) :
    notices (turn :: turns) = turn.notices ++ notices turns := rfl

theorem actions_cons (issuer : String) (turn : Turn) (turns : List Turn) :
    actions issuer (turn :: turns) =
      ((after issuer turns).step issuer turn).2 ++ actions issuer turns := rfl

/-! ### Failures -/

/-- Whether a post is one for the notice: its place, and the client, user, session and id of its
token. -/
def Notice.names (n : Notice) (uri : String) (token : LogoutJwt) : Bool :=
  uri = n.uri && token.claims.aud = n.clientId && token.claims.sub = n.uid &&
    token.claims.sid = n.sid && token.claims.jti = n.jti

theorem Notice.names_token (n : Notice) (issuer : String) (keys : LoadedKeys) (now : ℤ) :
    n.names n.uri (n.token issuer keys now) = true := by
  simp [Notice.names, Notice.token, mintLogoutToken, logoutTokenClaims, Token.signJwt]

def Action.fails (n : Notice) : Action → Bool
  | .answered uri token (.failed _) => n.names uri token
  | _ => false

def failures (n : Notice) (done : List Action) : ℕ := done.countP (Action.fails n)

theorem failures_append (n : Notice) (first second : List Action) :
    failures n (first ++ second) = failures n first + failures n second := by
  simp [failures]

theorem failures_failed {n : Notice} {uri : String} {token : LogoutJwt}
    (h : n.names uri token = true) (reason : String) (before : List Action) :
    0 < failures n (before ++ [.answered uri token (.failed reason)]) := by
  rw [failures_append]
  simp [failures, Action.fails, h]

section Attempted
variable {issuer : String} {known : List Notice} {tried : Notice → ℕ} {s left : Deliveries}
  {turn : Turn} {n : Notice} {k : ℕ} {token : LogoutJwt} {before : List Action}

/-- An attempt leaves first posts and messages that were there. -/
theorem Attempted.left_subset (h : Attempted issuer known tried s turn n k token before left) :
    left.inFlight ⊆ s.inFlight ∧ left.queued ++ left.dead ⊆ s.queued ++ s.dead := by
  cases h with
  | first answer accepted hn hi =>
    exact ⟨List.eraseIdx_subset, List.Subset.refl _⟩
  | retry keys now answer accepted acked hn hi htoken hk hmax htried =>
    cases acked with
    | true =>
      exact ⟨List.Subset.refl _, List.append_subset.mpr
        ⟨fun m hm => List.mem_append_left _ (List.eraseIdx_subset hm),
          fun m hm => List.mem_append_right _ hm⟩⟩
    | false => exact ⟨List.Subset.refl _, List.Subset.refl _⟩

theorem Attempted.notice (h : Attempted issuer known tried s turn n k token before left) :
    n ∈ known ∧ k ≤ tried n ∧ turn.notices = [] ∧ ∃ keys now, token = n.token issuer keys now := by
  cases h with
  | first answer accepted hn hi => exact ⟨hn, Nat.zero_le _, rfl, _, _, rfl⟩
  | retry keys now answer accepted acked hn hi htoken hk hmax htried =>
    exact ⟨hn, htried, rfl, _, _, rfl⟩

theorem Attempted.names (h : Attempted issuer known tried s turn n k token before left) :
    n.names n.uri token = true := by
  obtain ⟨-, -, -, keys, now, rfl⟩ := h.notice
  exact n.names_token issuer keys now

end Attempted

/-! ### What is under way -/

section Carried
variable {issuer : String} {known : List Notice} {tried : Notice → ℕ} {s s' : Deliveries}
  {turn : Turn} {done : List Action}

/-- What holds of the rest of what was under way still holds as notices and failures are added. -/
theorem Carried.rest (h : Carried issuer known tried s) {known' : List Notice}
    {tried' : Notice → ℕ} (hknown : known ⊆ known') (htried : ∀ n, tried n ≤ tried' n)
    (hfirst : s'.inFlight ⊆ s.inFlight) (hretries : s'.queued ++ s'.dead ⊆ s.queued ++ s.dead) :
    Carried issuer known' tried' s' where
  first p hp := by
    obtain ⟨n, hn, rest⟩ := h.first p (hfirst hp)
    exact ⟨n, hknown hn, rest⟩
  retries m hm := by
    obtain ⟨n, hn, token, k, htoken, hk, hmax, hcount, rfl⟩ := h.retries m (hretries hm)
    exact ⟨n, hknown hn, token, k, htoken, hk, hmax, hcount.trans (htried n), rfl⟩

theorem Moved.carried (h : Carried issuer known tried s)
    (hmoved : Moved issuer known tried s turn s' done) :
    Carried issuer (turn.notices ++ known) (fun n => failures n done + tried n) s' := by
  have hknown : known ⊆ turn.notices ++ known := fun n hn => List.mem_append_right _ hn
  have htried : ∀ n, tried n ≤ failures n done + tried n := fun n => Nat.le_add_left _ _
  cases hmoved with
  | idle hturn => exact h.rest hknown htried (List.Subset.refl _) (List.Subset.refl _)
  | notified keys now uid sid clients =>
    refine ⟨fun p hp => ?_, fun m hm => ?_⟩
    · rcases List.mem_append.mp hp with hold | hnew
      · obtain ⟨n, hn, rest⟩ := h.first p hold
        exact ⟨n, hknown hn, rest⟩
      · obtain ⟨n, hn, rfl⟩ := List.mem_map.mp hnew
        exact ⟨n, List.mem_append_left _ hn, keys, now, rfl⟩
    · obtain ⟨n, hn, token, k, htoken, hk, hmax, hcount, rfl⟩ := h.retries m hm
      exact ⟨n, hknown hn, token, k, htoken, hk, hmax, hcount.trans (htried n), rfl⟩
  | delivered hattempt =>
    exact h.rest hknown htried hattempt.left_subset.1 hattempt.left_subset.2
  | @again _ n k token before left hattempt reason hk =>
    have hleft := h.rest hknown htried hattempt.left_subset.1 hattempt.left_subset.2
    refine ⟨hleft.first, fun m hm => ?_⟩
    rcases List.mem_append.mp hm with hqueued | hdead
    · rcases List.mem_append.mp hqueued with hold | hnew
      · exact hleft.retries m (List.mem_append_left _ hold)
      · obtain rfl := List.mem_singleton.mp hnew
        obtain ⟨hn, hcount, -, keys, now, htoken⟩ := hattempt.notice
        have hjti : (n.token issuer keys now).claims.jti = n.jti := rfl
        have hfailed := failures_failed hattempt.names reason before
        exact ⟨n, hknown hn, token, k + 1, htoken ▸ hjti, by omega, hk, by omega, rfl⟩
    · exact hleft.retries m (List.mem_append_right _ hdead)
  | lost hattempt reason hk =>
    exact h.rest hknown htried hattempt.left_subset.1 hattempt.left_subset.2
  | exhausted hattempt reason =>
    exact h.rest hknown htried hattempt.left_subset.1 hattempt.left_subset.2
  | dropped hattempt hn =>
    exact h.rest hknown htried hattempt.left_subset.1 hattempt.left_subset.2
  | buried hi =>
    refine h.rest hknown htried (List.Subset.refl _) (List.append_subset.mpr ⟨?_, ?_⟩)
    · exact fun m hm => List.mem_append_left _ (List.eraseIdx_subset hm)
    · refine List.append_subset.mpr ⟨List.subset_append_right _ _, fun m hm => ?_⟩
      obtain rfl := List.mem_singleton.mp hm
      exact List.mem_append_left _ (List.mem_of_getElem? hi)

theorem carried_after (issuer : String) (turns : List Turn) :
    Carried issuer (notices turns) (fun n => failures n (actions issuer turns))
      (after issuer turns) := by
  induction turns with
  | nil => exact ⟨by simp [Deliveries.empty], by simp [Deliveries.empty]⟩
  | cons turn turns ih =>
    have hnext := (step_moved ih turn).carried ih
    simp only [actions_cons, failures_append, notices_cons]
    exact hnext

/-- The steps of a run are moves. -/
theorem moved_after (issuer : String) (turns : List Turn) (turn : Turn) :
    Moved issuer (notices turns) (fun n => failures n (actions issuer turns)) (after issuer turns)
      turn (after issuer (turn :: turns)) ((after issuer turns).step issuer turn).2 :=
  step_moved (carried_after issuer turns) turn

end Carried

/-! ### Where a notice is -/

/-- A notice is under way, or its end is on record. -/
inductive Kept (issuer : String) (s : Deliveries) (done : List Action) (n : Notice) : Prop where
  | posting (keys : LoadedKeys) (now : ℤ) (h : n.first issuer keys now ∈ s.inFlight)
  | queued (token : LogoutJwt) (k : ℕ) (htoken : token.claims.jti = n.jti)
      (h : n.message token k ∈ s.queued)
  | dead (token : LogoutJwt) (k : ℕ) (htoken : token.claims.jti = n.jti)
      (h : n.message token k ∈ s.dead)
  | delivered (token : LogoutJwt) (hnames : n.names n.uri token = true)
      (h : .answered n.uri token .ok ∈ done)
  | gaveUp (reason : String)
      (h : .gaveUp n.uid n.clientId n.sid reason n.jti maxAttempts ∈ done)
  | unqueued (token : LogoutJwt) (k : ℕ) (htoken : token.claims.jti = n.jti)
      (h : .unqueued (n.retry token k) ∈ done)
  | unnamed (h : ¬ n.Named)

theorem Notice.first_inj {issuer : String} {keys keys' : LoadedKeys} {now now' : ℤ} {n n' : Notice}
    (h : n.first issuer keys now = n'.first issuer keys' now') : n = n' := by
  have htoken := congrArg (fun p => p.token.claims.jti) h
  have htask := congrArg FirstPost.task h
  cases n
  cases n'
  simp_all [Notice.first, Notice.task, Notice.token, mintLogoutToken, logoutTokenClaims,
    Token.signJwt]

theorem Notice.message_inj {token token' : LogoutJwt} {k k' : ℕ} {n n' : Notice}
    (h : n.message token k = n'.message token' k') (htoken : token.claims.jti = n.jti)
    (htoken' : token'.claims.jti = n'.jti) : n = n' := by
  have hbody := congrArg Message.body h
  cases n
  cases n'
  simp_all [Notice.message, Notice.retry, BackchannelTask.body]

section Kept
variable {issuer : String} {known : List Notice} {tried : Notice → ℕ} {s s' left : Deliveries}
  {turn : Turn} {done more : List Action} {n n' : Notice} {k : ℕ} {token : LogoutJwt}
  {before : List Action}

theorem Kept.mono (h : Kept issuer s done n) (hfirst : s.inFlight ⊆ s'.inFlight)
    (hqueued : s.queued ⊆ s'.queued) (hdead : s.dead ⊆ s'.dead) :
    Kept issuer s' (more ++ done) n := by
  cases h with
  | posting keys now h => exact .posting keys now (hfirst h)
  | queued token k htoken h => exact .queued token k htoken (hqueued h)
  | dead token k htoken h => exact .dead token k htoken (hdead h)
  | delivered token hnames h => exact .delivered token hnames (List.mem_append_right _ h)
  | gaveUp reason h => exact .gaveUp reason (List.mem_append_right _ h)
  | unqueued token k htoken h => exact .unqueued token k htoken (List.mem_append_right _ h)
  | unnamed h => exact .unnamed h

/-- An attempt at one notice leaves the others where they are. -/
theorem Attempted.kept (h : Attempted issuer known tried s turn n k token before left)
    (hkept : Kept issuer s done n') : n' = n ∨ Kept issuer left done n' := by
  cases h with
  | first answer accepted hn hi =>
    cases hkept with
    | posting keys now h =>
      rcases mem_eraseIdx_or h hi with heq | hstays
      · exact .inl (Notice.first_inj heq)
      · exact .inr (.posting keys now hstays)
    | queued token k htoken h => exact .inr (.queued token k htoken h)
    | dead token k htoken h => exact .inr (.dead token k htoken h)
    | delivered token hnames h => exact .inr (.delivered token hnames h)
    | gaveUp reason h => exact .inr (.gaveUp reason h)
    | unqueued token k htoken h => exact .inr (.unqueued token k htoken h)
    | unnamed h => exact .inr (.unnamed h)
  | retry keys now answer accepted acked hn hi htoken hk hmax htried =>
    cases acked with
    | false => exact .inr hkept
    | true =>
      cases hkept with
      | posting keys now h => exact .inr (.posting keys now h)
      | queued token' k' htoken' h =>
        rcases mem_eraseIdx_or h hi with heq | hstays
        · exact .inl (Notice.message_inj heq htoken' htoken)
        · exact .inr (.queued token' k' htoken' hstays)
      | dead token k htoken h => exact .inr (.dead token k htoken h)
      | delivered token hnames h => exact .inr (.delivered token hnames h)
      | gaveUp reason h => exact .inr (.gaveUp reason h)
      | unqueued token k htoken h => exact .inr (.unqueued token k htoken h)
      | unnamed h => exact .inr (.unnamed h)

theorem Attempted.token_jti (h : Attempted issuer known tried s turn n k token before left) :
    token.claims.jti = n.jti := by
  obtain ⟨-, -, -, keys, now, rfl⟩ := h.notice
  rfl

/-- A move keeps a notice: it stays where it is, or the attempt at it is answered and recorded. -/
theorem Moved.kept (hmoved : Moved issuer known tried s turn s' more)
    (hkept : Kept issuer s done n') : Kept issuer s' (more ++ done) n' := by
  cases hmoved with
  | idle hturn => exact hkept
  | notified keys now uid sid clients =>
    exact hkept.mono (List.subset_append_left _ _) (List.Subset.refl _) (List.Subset.refl _)
  | delivered hattempt =>
    rcases hattempt.kept hkept with rfl | hrest
    · exact .delivered _ hattempt.names (by simp)
    · exact hrest.mono (List.Subset.refl _) (List.Subset.refl _) (List.Subset.refl _)
  | again hattempt reason hk =>
    rcases hattempt.kept hkept with rfl | hrest
    · exact .queued _ _ hattempt.token_jti (List.mem_append_right _ (List.mem_singleton.mpr rfl))
    · exact hrest.mono (List.Subset.refl _) (List.subset_append_left _ _) (List.Subset.refl _)
  | @lost _ _ k _ _ _ hattempt reason hk =>
    rcases hattempt.kept hkept with rfl | hrest
    · exact .unqueued _ (k + 1) hattempt.token_jti (by simp)
    · exact hrest.mono (List.Subset.refl _) (List.Subset.refl _) (List.Subset.refl _)
  | exhausted hattempt reason =>
    rcases hattempt.kept hkept with rfl | hrest
    · exact .gaveUp reason (by simp)
    · exact hrest.mono (List.Subset.refl _) (List.Subset.refl _) (List.Subset.refl _)
  | dropped hattempt hn =>
    rcases hattempt.kept hkept with rfl | hrest
    · exact .unnamed hn
    · exact hrest.mono (List.Subset.refl _) (List.Subset.refl _) (List.Subset.refl _)
  | @buried i m hi =>
    cases hkept with
    | queued token k htoken h =>
      rcases mem_eraseIdx_or h hi with rfl | hstays
      · exact .dead token k htoken (by simp)
      · exact .queued token k htoken hstays
    | posting keys now h => exact .posting keys now h
    | dead token k htoken h => exact .dead token k htoken (List.mem_append_left _ h)
    | delivered token hnames h => exact .delivered token hnames h
    | gaveUp reason h => exact .gaveUp reason h
    | unqueued token k htoken h => exact .unqueued token k htoken h
    | unnamed h => exact .unnamed h

/-- A notice is under way once its turn is over. -/
theorem Moved.keeps_new (hmoved : Moved issuer known tried s turn s' more)
    (hn : n ∈ turn.notices) : Kept issuer s' (more ++ done) n := by
  cases hmoved with
  | notified keys now uid sid clients =>
    exact .posting keys now (List.mem_append_right _ (List.mem_map.mpr ⟨n, hn, rfl⟩))
  | idle hturn =>
    rw [hturn] at hn
    cases hn
  | delivered hattempt | again hattempt | lost hattempt | exhausted hattempt | dropped hattempt =>
    rw [hattempt.notice.2.2.1] at hn
    cases hn
  | buried hi => cases hn

end Kept

theorem kept_after (issuer : String) (turns : List Turn) :
    ∀ n ∈ notices turns, Kept issuer (after issuer turns) (actions issuer turns) n := by
  induction turns with
  | nil => simp [notices]
  | cons turn turns ih =>
    intro n hn
    have hmoved := moved_after issuer turns turn
    rw [notices_cons, List.mem_append] at hn
    rcases hn with hnew | hold
    · exact hmoved.keeps_new hnew
    · exact hmoved.kept (ih n hold)

/-! ### What is posted -/

def Turn.now? : Turn → Option ℤ
  | .notify _ now _ _ _ => some now
  | .consume _ _ now _ _ _ => some now
  | .answer _ _ _ | .giveUp _ => none

section Posted
variable {issuer : String} {known : List Notice} {tried : Notice → ℕ} {s s' left : Deliveries}
  {turn : Turn} {done : List Action} {n : Notice} {k : ℕ} {token : LogoutJwt}
  {before : List Action} {uri : String} {jwt : LogoutJwt}

def PostedFor (issuer : String) (known : List Notice) (turn : Turn) (uri : String)
    (token : LogoutJwt) : Prop :=
  ∃ n ∈ known, ∃ keys now, turn.now? = some now ∧ uri = n.uri ∧ token = n.token issuer keys now

theorem Attempted.posted (h : Attempted issuer known tried s turn n k token before left)
    (hposted : .posted uri jwt ∈ before) : PostedFor issuer known turn uri jwt := by
  cases h with
  | first answer accepted hn hi => cases hposted
  | retry keys now answer accepted acked hn hi htoken hk hmax htried =>
    cases List.mem_singleton.mp hposted
    exact ⟨n, hn, keys, now, rfl, rfl, rfl⟩

theorem Moved.posted (hmoved : Moved issuer known tried s turn s' done)
    (hposted : .posted uri jwt ∈ done) :
    PostedFor issuer (turn.notices ++ known) turn uri jwt := by
  have hmono : PostedFor issuer known turn uri jwt →
      PostedFor issuer (turn.notices ++ known) turn uri jwt := by
    rintro ⟨n, hn, rest⟩
    exact ⟨n, List.mem_append_right _ hn, rest⟩
  cases hmoved with
  | notified keys now uid sid clients =>
    obtain ⟨n, hn, hmem⟩ := List.mem_flatMap.mp hposted
    simp only [Notice.actions, List.mem_cons, reduceCtorEq, List.not_mem_nil, or_false,
      false_or] at hmem
    cases hmem
    exact ⟨n, List.mem_append_left _ hn, keys, now, rfl, rfl, rfl⟩
  | delivered hattempt => exact hmono (hattempt.posted (by simpa using hposted))
  | again hattempt reason hk => exact hmono (hattempt.posted (by simpa using hposted))
  | lost hattempt reason hk => exact hmono (hattempt.posted (by simpa using hposted))
  | exhausted hattempt reason => exact hmono (hattempt.posted (by simpa using hposted))
  | dropped hattempt hn => simp at hposted
  | idle hturn => cases hposted
  | buried hi => cases hposted

/-- The failure event is for a notice whose first post and five retries failed. -/
def GaveUpFor (known : List Notice) (failed : Notice → ℕ) (a : Action) : Prop :=
  ∃ n ∈ known, ∃ reason, a = .gaveUp n.uid n.clientId n.sid reason n.jti maxAttempts ∧
    maxAttempts < failed n

theorem Attempted.before_posts (h : Attempted issuer known tried s turn n k token before left)
    {a : Action} (ha : a ∈ before) : ∃ uri jwt, a = .posted uri jwt := by
  cases h with
  | first answer accepted hn hi => cases ha
  | retry keys now answer accepted acked hn hi htoken hk hmax htried =>
    exact ⟨_, _, List.mem_singleton.mp ha⟩

theorem Moved.gaveUp (hmoved : Moved issuer known tried s turn s' done) {uid clientId sid : String}
    {reason jti : String} {attempts : ℕ}
    (hgave : .gaveUp uid clientId sid reason jti attempts ∈ done) :
    GaveUpFor known (fun n => failures n done + tried n)
      (.gaveUp uid clientId sid reason jti attempts) := by
  have hbefore : ∀ {n : Notice} {k : ℕ} {token : LogoutJwt} {before : List Action}
      {left : Deliveries}, Attempted issuer known tried s turn n k token before left →
      Action.gaveUp uid clientId sid reason jti attempts ∉ before := by
    intro n k token before left hattempt hmem
    obtain ⟨uri, jwt, heq⟩ := hattempt.before_posts hmem
    cases heq
  cases hmoved with
  | notified keys now uid sid clients =>
    obtain ⟨n, hn, hmem⟩ := List.mem_flatMap.mp hgave
    simp [Notice.actions] at hmem
  | delivered hattempt => simp [hbefore hattempt] at hgave
  | again hattempt reason hk => simp [hbefore hattempt] at hgave
  | lost hattempt reason hk => simp [hbefore hattempt] at hgave
  | @exhausted _ n token before left hattempt reason' =>
    obtain ⟨hn, hcount, -⟩ := hattempt.notice
    have hfailed := failures_failed hattempt.names reason' before
    rcases List.mem_append.mp hgave with hmem | hmem
    · exact absurd hmem (hbefore hattempt)
    · simp only [List.mem_cons, reduceCtorEq, List.not_mem_nil, or_false, false_or] at hmem
      refine ⟨n, hn, reason', hmem, ?_⟩
      rw [List.append_cons]
      dsimp only
      rw [failures_append]
      omega
  | dropped hattempt hn => simp at hgave
  | idle hturn => cases hgave
  | buried hi => cases hgave

end Posted

theorem gaveUp_after (issuer : String) (turns : List Turn) (uid clientId sid reason jti : String)
    (attempts : ℕ)
    (hgave : .gaveUp uid clientId sid reason jti attempts ∈ actions issuer turns) :
    GaveUpFor (notices turns) (fun n => failures n (actions issuer turns))
      (.gaveUp uid clientId sid reason jti attempts) := by
  induction turns with
  | nil => cases hgave
  | cons turn turns ih =>
    have hmono : ∀ n, failures n (actions issuer turns) ≤
        failures n (actions issuer (turn :: turns)) := by
      intro n
      rw [actions_cons, failures_append]
      exact Nat.le_add_left _ _
    rw [actions_cons, List.mem_append] at hgave
    rcases hgave with hnow | hbefore
    · obtain ⟨n, hn, reason', heq, hcount⟩ := (moved_after issuer turns turn).gaveUp hnow
      refine ⟨n, List.mem_append_right _ hn, reason', heq, ?_⟩
      dsimp only at hcount ⊢
      rwa [actions_cons, failures_append]
    · obtain ⟨n, hn, reason', heq, hcount⟩ := ih hbefore
      exact ⟨n, List.mem_append_right _ hn, reason', heq, hcount.trans_le (hmono n)⟩

/-- Every token a run posts is one of a notice, minted at that time under the notice's id. A message
of the queue counts failed posts of its notice, and waits for the delay of that count; the failure
event comes after six failed posts. And no notice is lost: it is posted, queued or given up by the
queue, it was delivered or failed, its retry was logged as not queued, or it has an empty text. -/
theorem logout_notices_kept (issuer : String) (turns : List Turn) :
    (∀ later turn earlier, turns = later ++ turn :: earlier → ∀ uri token,
      .posted uri token ∈ ((after issuer earlier).step issuer turn).2 →
        PostedFor issuer (notices (turn :: earlier)) turn uri token) ∧
    (∀ m ∈ (after issuer turns).queued ++ (after issuer turns).dead,
      ∃ n ∈ notices turns, ∃ token k, token.claims.jti = n.jti ∧ 1 ≤ k ∧ k ≤ maxAttempts ∧
        k ≤ failures n (actions issuer turns) ∧ m = n.message token k) ∧
    (∀ uid clientId sid reason jti attempts,
      .gaveUp uid clientId sid reason jti attempts ∈ actions issuer turns →
        GaveUpFor (notices turns) (fun n => failures n (actions issuer turns))
          (.gaveUp uid clientId sid reason jti attempts)) ∧
    ∀ n ∈ notices turns, Kept issuer (after issuer turns) (actions issuer turns) n := by
  refine ⟨?_, (carried_after issuer turns).retries, ?_, kept_after issuer turns⟩
  · rintro later turn earlier rfl uri token hposted
    exact (moved_after issuer earlier turn).posted hposted
  · exact gaveUp_after issuer turns

end TinyOidc.Logout
