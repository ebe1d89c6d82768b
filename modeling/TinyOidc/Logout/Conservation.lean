import TinyOidc.Logout.Deliveries

/-! While the queue hands out each message once, a notice is in one place: it is under way once or
it was closed once, and nothing is posted for it after that. -/
namespace TinyOidc.Logout
open TinyOidc.Keys (LoadedKeys)

/-- The consumer's messages are not handed out again once they were handled. -/
def Turn.acked : Turn → Bool
  | .consume _ _ _ _ _ acked => acked
  | .notify _ _ _ _ _ | .answer _ _ _ | .giveUp _ => true

/-! ### Counting by the id of a token -/

def FirstPost.jti (p : FirstPost) : String := p.token.claims.jti

def Message.jti? (m : Message) : Option String := m.body.token.bind decodeJwtId

/-- The posts that may still follow from a message. -/
def Message.remaining (m : Message) : ℕ := maxAttempts + 1 - (m.body.attempt.getD 0).toNat

def Turn.drawn (jti : String) (turn : Turn) : ℕ := turn.notices.countP (·.jti = jti)

def waiting (jti : String) (s : Deliveries) : ℕ :=
  s.inFlight.countP (·.jti = jti) + s.queued.countP (·.jti? = some jti) +
    s.dead.countP (·.jti? = some jti)

/-- A delivery, a failure event or the log of a retry that was not queued. -/
def Action.closes (jti : String) : Action → Bool
  | .answered _ token .ok => token.claims.jti = jti
  | .gaveUp _ _ _ _ closed _ => closed = jti
  | .unqueued task => decodeJwtId task.token = some jti
  | _ => false

def closings (jti : String) (done : List Action) : ℕ := done.countP (Action.closes jti)

def Action.posts (jti : String) : Action → Bool
  | .posted _ token => token.claims.jti = jti
  | _ => false

def posts (jti : String) (done : List Action) : ℕ := done.countP (Action.posts jti)

/-- The posts that may still follow from what is under way under an id. -/
def budget (jti : String) (s : Deliveries) : ℕ :=
  maxAttempts * s.inFlight.countP (·.jti = jti) +
    ((s.queued.filter (·.jti? = some jti)).map Message.remaining).sum +
    ((s.dead.filter (·.jti? = some jti)).map Message.remaining).sum

section Lists
variable {α : Type} {l : List α} {i : ℕ} {a : α}

theorem countP_eraseIdx (p : α → Bool) (hi : l[i]? = some a) :
    l.countP p = (if p a then 1 else 0) + (l.eraseIdx i).countP p := by
  obtain ⟨hlt, rfl⟩ := List.getElem?_eq_some_iff.mp hi
  rw [← (List.getElem_cons_eraseIdx_perm hlt).countP_eq p, List.countP_cons, Nat.add_comm]

theorem sum_filter_eraseIdx (p : α → Bool) (f : α → ℕ) (hi : l[i]? = some a) :
    ((l.filter p).map f).sum =
      (if p a then f a else 0) + (((l.eraseIdx i).filter p).map f).sum := by
  obtain ⟨hlt, rfl⟩ := List.getElem?_eq_some_iff.mp hi
  rw [← (((List.getElem_cons_eraseIdx_perm hlt).filter p).map f).sum_eq, List.filter_cons]
  split <;> simp

end Lists

section Counts
variable {issuer : String} {keys : LoadedKeys} {now : ℤ} {n : Notice} {token : LogoutJwt} {k : ℕ}
  {jti : String}

theorem posts_append (first second : List Action) :
    posts jti (first ++ second) = posts jti first + posts jti second := List.countP_append

theorem closings_append (first second : List Action) :
    closings jti (first ++ second) = closings jti first + closings jti second := List.countP_append

theorem message_jti (htoken : token.claims.jti = n.jti) : (n.message token k).jti? = some n.jti :=
  congrArg some htoken

theorem message_remaining : (n.message token k).remaining = maxAttempts + 1 - k := by
  simp [Message.remaining, Notice.message, BackchannelTask.body, Notice.retry]

end Counts

/-! ### One move -/

section Moves
variable {issuer : String} {known : List Notice} {tried : Notice → ℕ} {s s' left : Deliveries}
  {turn : Turn} {n : Notice} {k : ℕ} {token : LogoutJwt} {before done : List Action} (jti : String)

/-- An attempt takes its notice out of what is under way. -/
theorem Attempted.takes (h : Attempted issuer known tried s turn n k token before left)
    (hacked : turn.acked = true) :
    waiting jti s = waiting jti left + (if n.jti = jti then 1 else 0) ∧
      budget jti s =
        budget jti left + posts jti before + (if n.jti = jti then maxAttempts - k else 0) ∧
      closings jti before = 0 ∧ posts jti before ≤ if n.jti = jti then 1 else 0 := by
  cases h with
  | @first i n keys now answer accepted hn hi =>
    have hcount := countP_eraseIdx (fun p : FirstPost => decide (p.jti = jti)) hi
    have hjti : (n.first issuer keys now).jti = n.jti := rfl
    rw [hjti] at hcount
    simp only [waiting, budget, hcount, decide_eq_true_eq]
    refine ⟨by omega, ?_, rfl, by simp [posts]⟩
    have hposts : posts jti [] = 0 := rfl
    rw [hposts]
    by_cases heq : n.jti = jti
    · simp only [heq, if_true, Nat.mul_add]
      omega
    · simp only [heq, if_false, Nat.zero_add]
      omega
  | @retry i n token k keys now answer accepted acked hn hi htoken hk hmax htried =>
    cases acked with
    | false => cases hacked
    | true =>
      have hcount := countP_eraseIdx (fun m : Message => decide (m.jti? = some jti)) hi
      have hsum := sum_filter_eraseIdx (fun m : Message => decide (m.jti? = some jti))
        Message.remaining hi
      have hposts : posts jti [.posted n.uri (n.token issuer keys now)] =
          if n.jti = jti then 1 else 0 := by
        have hjti : (n.token issuer keys now).claims.jti = n.jti := rfl
        by_cases heq : n.jti = jti <;> simp [posts, Action.posts, hjti, heq]
      have hclosings : closings jti [.posted n.uri (n.token issuer keys now)] = 0 := rfl
      simp only [message_jti htoken, message_remaining, Option.some.injEq, decide_eq_true_eq]
        at hcount hsum
      simp only [waiting, budget, if_true, hcount, hsum, hposts]
      refine ⟨by omega, ?_, hclosings, le_rfl⟩
      split <;> omega

theorem waiting_queued (s : Deliveries) (m : Message) (hm : m.jti? = some n.jti) :
    waiting jti { s with queued := s.queued ++ [m] } =
      waiting jti s + (if n.jti = jti then 1 else 0) := by
  simp only [waiting, List.countP_append, List.countP_singleton, hm, Option.some.injEq,
    decide_eq_true_eq]
  omega

theorem budget_queued (s : Deliveries) (m : Message) (hm : m.jti? = some n.jti) :
    budget jti { s with queued := s.queued ++ [m] } =
      budget jti s + (if n.jti = jti then m.remaining else 0) := by
  simp only [budget, List.filter_append, List.map_append, List.sum_append, List.filter_singleton,
    hm, Option.some.injEq]
  by_cases hjti : n.jti = jti
  · simp only [hjti, decide_true, cond_true, if_true, List.map_singleton, List.sum_singleton]
    omega
  · simp only [hjti, decide_false, cond_false, if_false, List.map_nil, List.sum_nil]
    omega

theorem closings_ok (h : token.claims.jti = n.jti) (uri : String) :
    closings jti [.answered uri token .ok] = if n.jti = jti then 1 else 0 := by
  by_cases heq : n.jti = jti <;> simp [closings, Action.closes, h, heq]

theorem closings_unqueued (h : token.claims.jti = n.jti) (uri reason : String) :
    closings jti [.answered uri token (.failed reason), .unqueued (n.retry token k)] =
      if n.jti = jti then 1 else 0 := by
  by_cases heq : n.jti = jti <;>
    simp [closings, Action.closes, Notice.retry, decodeJwtId, h, heq]

theorem closings_gaveUp (uri reason uid clientId sid : String) :
    closings jti [.answered uri token (.failed reason),
      .gaveUp uid clientId sid reason n.jti k] = if n.jti = jti then 1 else 0 := by
  by_cases heq : n.jti = jti <;> simp [closings, Action.closes, heq]

theorem closings_failed (uri reason : String) :
    closings jti [.answered uri token (.failed reason)] = 0 := rfl

theorem posts_answered (uri : String) (result : DeliveryResult) :
    posts jti [.answered uri token result] = 0 := rfl

theorem posts_unqueued (uri : String) (result : DeliveryResult) (task : BackchannelTask) :
    posts jti [.answered uri token result, .unqueued task] = 0 := rfl

theorem posts_gaveUp (uri uid clientId sid reason closed : String) (result : DeliveryResult) :
    posts jti [.answered uri token result, .gaveUp uid clientId sid reason closed k] = 0 := rfl

theorem Attempted.drawn (h : Attempted issuer known tried s turn n k token before left) :
    turn.drawn jti = 0 := by
  rw [Turn.drawn, h.notice.2.2.1]
  rfl

theorem notified_counts (issuer : String) (keys : LoadedKeys) (now : ℤ) (list : List Notice) :
    closings jti (list.flatMap (Notice.actions issuer keys now)) = 0 ∧
      posts jti (list.flatMap (Notice.actions issuer keys now)) = list.countP (·.jti = jti) ∧
      (list.map (Notice.first issuer keys now)).countP (·.jti = jti) =
        list.countP (·.jti = jti) := by
  induction list with
  | nil => exact ⟨rfl, rfl, rfl⟩
  | cons n list ih =>
    obtain ⟨hclosings, hposts, hfirst⟩ := ih
    have hjti : (n.token issuer keys now).claims.jti = n.jti := rfl
    have hfirstJti : (n.first issuer keys now).jti = n.jti := rfl
    refine ⟨?_, ?_, ?_⟩
    · rw [List.flatMap_cons, closings_append, hclosings]
      rfl
    · rw [List.flatMap_cons, posts_append, hposts, List.countP_cons]
      by_cases heq : n.jti = jti <;>
        simp [Notice.actions, posts, Action.posts, hjti, heq, Nat.add_comm]
    · rw [List.map_cons, List.countP_cons, List.countP_cons, hfirst, hfirstJti]

/-- A move closes what it takes away, and posts within the budget. -/
theorem Moved.conserves (hmoved : Moved issuer known tried s turn s' done)
    (hacked : turn.acked = true) (hnamed : ∀ n ∈ known, n.Named) (jti : String) :
    waiting jti s' + closings jti done = waiting jti s + turn.drawn jti ∧
      budget jti s' + posts jti done ≤ budget jti s + (maxAttempts + 1) * turn.drawn jti ∧
      posts jti done ≤ waiting jti s + turn.drawn jti := by
  cases hmoved with
  | idle hturn => simp [closings, posts, Turn.drawn, hturn]
  | notified keys now uid sid clients =>
    obtain ⟨hclosings, hposts, hfirst⟩ :=
      notified_counts jti issuer keys now (noticesOf uid sid clients)
    rw [hclosings, hposts]
    simp only [waiting, budget, Turn.drawn, Turn.notices, List.countP_append, hfirst, Nat.mul_add,
      Nat.add_mul]
    omega
  | delivered hattempt =>
    obtain ⟨hwaiting, hbudget, hbefore, hone⟩ := hattempt.takes jti hacked
    have hdrawn := hattempt.drawn jti
    rw [closings_append, posts_append, closings_ok jti hattempt.token_jti]
    simp only [posts_answered]
    omega
  | @again _ n k token _ left hattempt reason hk =>
    obtain ⟨hwaiting, hbudget, hbefore, hone⟩ := hattempt.takes jti hacked
    have hdrawn := hattempt.drawn jti
    have hjti := message_jti (k := k + 1) hattempt.token_jti
    rw [waiting_queued jti left _ hjti, budget_queued jti left _ hjti, message_remaining,
      closings_append, posts_append]
    simp only [posts_answered, closings_failed]
    by_cases heq : n.jti = jti
    · simp only [if_pos heq] at hwaiting hbudget hone ⊢
      omega
    · simp only [if_neg heq] at hwaiting hbudget hone ⊢
      omega
  | lost hattempt reason hk =>
    obtain ⟨hwaiting, hbudget, hbefore, hone⟩ := hattempt.takes jti hacked
    have hdrawn := hattempt.drawn jti
    rw [closings_append, posts_append, closings_unqueued jti hattempt.token_jti]
    simp only [posts_unqueued]
    omega
  | exhausted hattempt reason =>
    obtain ⟨hwaiting, hbudget, hbefore, hone⟩ := hattempt.takes jti hacked
    have hdrawn := hattempt.drawn jti
    rw [closings_append, posts_append, closings_gaveUp]
    simp only [posts_gaveUp]
    omega
  | dropped hattempt hn => exact absurd (hnamed _ hattempt.notice.1) hn
  | @buried i m hi =>
    have hcount := countP_eraseIdx (fun m : Message => decide (m.jti? = some jti)) hi
    have hsum := sum_filter_eraseIdx (fun m : Message => decide (m.jti? = some jti))
      Message.remaining hi
    have hclosings : closings jti [] = 0 := rfl
    have hposts : posts jti [] = 0 := rfl
    simp only [waiting, budget, Turn.drawn, Turn.notices, List.countP_append, List.filter_append,
      List.map_append, List.sum_append, hcount, hsum, hclosings, hposts, List.countP_singleton,
      List.filter_singleton, List.countP_nil]
    by_cases heq : m.jti? = some jti
    · simp only [heq, decide_true, if_true, cond_true, List.map_singleton, List.sum_singleton]
      omega
    · simp only [heq, decide_false, Bool.false_eq_true, if_false, cond_false, List.map_nil,
        List.sum_nil]
      omega

end Moves

/-! ### Whole runs -/

/-- How often the notices of a run drew an id. -/
def drawn (jti : String) (turns : List Turn) : ℕ := (notices turns).countP (·.jti = jti)

theorem drawn_cons (jti : String) (turn : Turn) (turns : List Turn) :
    drawn jti (turn :: turns) = turn.drawn jti + drawn jti turns := List.countP_append

theorem drawn_append (jti : String) (later earlier : List Turn) :
    drawn jti (later ++ earlier) = drawn jti later + drawn jti earlier := by
  rw [drawn, notices, List.flatMap_append]
  exact List.countP_append

theorem drawn_eq_count (jti : String) (turns : List Turn) :
    drawn jti turns = ((notices turns).map (·.jti)).count jti := by
  rw [drawn, List.count, List.countP_map]
  rfl

/-- What is drawn is under way or closed, and the posts are within the budget. -/
theorem conserved_after (issuer : String) (turns : List Turn)
    (hacked : ∀ turn ∈ turns, turn.acked = true) (hnamed : ∀ n ∈ notices turns, n.Named)
    (jti : String) :
    waiting jti (after issuer turns) + closings jti (actions issuer turns) = drawn jti turns ∧
      budget jti (after issuer turns) + posts jti (actions issuer turns) ≤
        (maxAttempts + 1) * drawn jti turns := by
  induction turns with
  | nil => exact ⟨rfl, le_rfl⟩
  | cons turn turns ih =>
    have hrest : ∀ n ∈ notices turns, n.Named := fun n hn => hnamed n (List.mem_append_right _ hn)
    obtain ⟨hwaiting, hposts⟩ := ih (fun t ht => hacked t (List.mem_cons_of_mem _ ht)) hrest
    obtain ⟨hmoved, hspent, -⟩ := (moved_after issuer turns turn).conserves
      (hacked turn List.mem_cons_self) hrest jti
    rw [actions_cons, closings_append, posts_append, drawn_cons, Nat.mul_add]
    omega

/-- While every message is handed out once and ids are fresh, a notice is under way once or closed
once; it is posted six times at most, and no more once it is closed. -/
theorem logout_notice_once (issuer : String) (turns : List Turn)
    (hacked : ∀ turn ∈ turns, turn.acked = true) (hnamed : ∀ n ∈ notices turns, n.Named)
    (hfresh : ((notices turns).map (·.jti)).Nodup) : ∀ n ∈ notices turns,
      waiting n.jti (after issuer turns) + closings n.jti (actions issuer turns) = 1 ∧
      posts n.jti (actions issuer turns) ≤ 6 ∧
      ∀ later turn earlier, turns = later ++ turn :: earlier →
        closings n.jti (actions issuer earlier) = 1 →
          posts n.jti ((after issuer earlier).step issuer turn).2 = 0 := by
  intro n hn
  have hdrawn : drawn n.jti turns = 1 := by
    rw [drawn_eq_count]
    exact List.count_eq_one_of_mem hfresh (List.mem_map.mpr ⟨n, hn, rfl⟩)
  obtain ⟨hwaiting, hposts⟩ := conserved_after issuer turns hacked hnamed n.jti
  have hmax : maxAttempts = 5 := rfl
  refine ⟨hwaiting.trans hdrawn, ?_, ?_⟩
  · rw [hdrawn, hmax] at hposts
    omega
  rintro later turn earlier rfl hclosed
  have hacked' : ∀ t ∈ turn :: earlier, t.acked = true :=
    fun t ht => hacked t (List.mem_append_right _ ht)
  have hnamed' : ∀ n ∈ notices earlier, n.Named := by
    intro n' hn'
    refine hnamed n' ?_
    rw [notices, List.flatMap_append, List.flatMap_cons]
    exact List.mem_append_right _ (List.mem_append_right _ hn')
  have hbefore := (conserved_after issuer earlier
    (fun t ht => hacked' t (List.mem_cons_of_mem _ ht)) hnamed' n.jti).1
  have hposted := ((moved_after issuer earlier turn).conserves
    (hacked' turn List.mem_cons_self) hnamed' n.jti).2.2
  rw [drawn_append, drawn_cons] at hdrawn
  omega

namespace Sample

def keys : LoadedKeys := ⟨"k1", ["k1"]⟩

/-- A session of two clients, one of which registered an address: its first post fails, and the
retry is delivered. -/
def turns : List Turn :=
  [.consume 0 (some keys) 90 (.status 200) true true, .answer 0 (.status 503) true,
    .notify keys 0 "u1" "s1"
      [⟨"app", .found (some "https://app.test/logout"), "j1"⟩, ⟨"cli", .found none, "j2"⟩]]

def notice : Notice := ⟨"u1", "s1", "app", "https://app.test/logout", "j1"⟩

end Sample

theorem logout_notice_once_sample :
    closings "j1" (actions "https://op.test" Sample.turns) = 1 ∧
      posts "j1" (actions "https://op.test" Sample.turns) = 2 ∧
      waiting "j1" (after "https://op.test" Sample.turns) = 0 := by
  have hone := logout_notice_once "https://op.test" Sample.turns (by decide) (by decide)
    (by decide) Sample.notice (by decide)
  have hclosed : closings "j1" (actions "https://op.test" Sample.turns) = 1 := by decide
  have hwaiting : waiting "j1" (after "https://op.test" Sample.turns) +
      closings "j1" (actions "https://op.test" Sample.turns) = 1 := hone.1
  refine ⟨hclosed, by decide, ?_⟩
  omega

end TinyOidc.Logout
