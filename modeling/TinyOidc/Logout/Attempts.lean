import TinyOidc.Logout.Backchannel

/-! What a step of the deliveries is about: one attempt at one notice, its first post or the retry
a message carries. -/
namespace TinyOidc.Logout
open TinyOidc.Keys (LoadedKeys)

/-! ### Reading a task back -/

/-- The texts of the notice can be read back from a message. -/
structure Notice.Named (n : Notice) : Prop where
  clientId : n.clientId ≠ ""
  uri : n.uri ≠ ""
  sid : n.sid ≠ ""
  uid : n.uid ≠ ""

instance (n : Notice) : Decidable n.Named :=
  decidable_of_iff (n.clientId ≠ "" ∧ n.uri ≠ "" ∧ n.sid ≠ "" ∧ n.uid ≠ "")
    ⟨fun h => ⟨h.1, h.2.1, h.2.2.1, h.2.2.2⟩, fun h => ⟨h.clientId, h.uri, h.sid, h.uid⟩⟩

/-- The task of the `k`-th retry, with the token of the attempt before it. -/
def Notice.retry (n : Notice) (token : LogoutJwt) (k : ℕ) : BackchannelTask where
  clientId := n.clientId
  uri := n.uri
  token := .minted token
  attempt := k
  sid := n.sid
  uid := n.uid

def Notice.message (n : Notice) (token : LogoutJwt) (k : ℕ) : Message where
  body := (n.retry token k).body
  delaySeconds := retryDelaysSeconds.getD (k - 1) 0

theorem parseTask_retry (n : Notice) (token : LogoutJwt) {k : ℕ} (hk : 1 ≤ k) :
    parseTask (n.retry token k).body = if n.Named then some (n.retry token k) else none := by
  refine if_congr ⟨?_, ?_⟩ rfl rfl
  · rintro ⟨-, hclient, huri, -, -, hsid, huid⟩
    exact ⟨hclient, huri, hsid, huid⟩
  · intro h
    have hattempt : (1 : ℤ) ≤ k := by omega
    exact ⟨rfl, h.clientId, h.uri, rfl, hattempt, h.sid, h.uid⟩

section Retry
variable {issuer : String} {keys : LoadedKeys} {now : ℤ} {n : Notice} {token : LogoutJwt} {k : ℕ}
  {answer : FetchAnswer}

theorem decodeJwtId_retry (htoken : token.claims.jti = n.jti) :
    decodeJwtId (n.retry token k).token = some n.jti := congrArg some htoken

theorem retryBackchannel_unnamed (hk : 1 ≤ k) (hn : ¬ n.Named) :
    retryBackchannel issuer keys now (n.retry token k).body answer = ([.malformed], none) := by
  simp only [retryBackchannel, parseTask_retry n token hk, if_neg hn]

/-- What a retry of a named notice posts: the token minted anew under the id of the first one. -/
theorem retryBackchannel_delivered (hk : 1 ≤ k) (hn : n.Named) (htoken : token.claims.jti = n.jti)
    (hanswer : deliverLogoutToken answer = .ok) :
    retryBackchannel issuer keys now (n.retry token k).body answer =
      ([.posted n.uri (n.token issuer keys now), .answered n.uri (n.token issuer keys now) .ok],
        none) := by
  simp only [retryBackchannel, parseTask_retry n token hk, if_pos hn, decodeJwtId_retry htoken,
    hanswer]
  rfl

/-- A failed retry before the last is followed by the next, after its delay. -/
theorem retryBackchannel_next (hk : 1 ≤ k) (hn : n.Named) (htoken : token.claims.jti = n.jti)
    {reason : String} (hanswer : deliverLogoutToken answer = .failed reason)
    (hlast : k < maxAttempts) :
    retryBackchannel issuer keys now (n.retry token k).body answer =
      ([.posted n.uri (n.token issuer keys now),
          .answered n.uri (n.token issuer keys now) (.failed reason)],
        some (n.retry (n.token issuer keys now) (k + 1), retryDelaysSeconds.getD k 0)) := by
  have hattempt : ¬ maxAttempts ≤ (n.retry token k).attempt := not_le.mpr hlast
  simp only [retryBackchannel, parseTask_retry n token hk, if_pos hn, decodeJwtId_retry htoken,
    hanswer, if_neg hattempt]
  rfl

theorem retryBackchannel_last (hk : 1 ≤ k) (hn : n.Named) (htoken : token.claims.jti = n.jti)
    {reason : String} (hanswer : deliverLogoutToken answer = .failed reason)
    (hlast : maxAttempts ≤ k) :
    retryBackchannel issuer keys now (n.retry token k).body answer =
      ([.posted n.uri (n.token issuer keys now),
          .answered n.uri (n.token issuer keys now) (.failed reason),
          .gaveUp n.uid n.clientId n.sid reason n.jti k], none) := by
  have hattempt : maxAttempts ≤ (n.retry token k).attempt := hlast
  simp only [retryBackchannel, parseTask_retry n token hk, if_pos hn, decodeJwtId_retry htoken,
    hanswer, if_pos hattempt]
  rfl

end Retry

/-! ### Steps -/

/-- What is under way is for known notices: a first post, or a retry after as many failures as it
counts. `tried` are the failures so far. -/
structure Carried (issuer : String) (known : List Notice) (tried : Notice → ℕ) (s : Deliveries) :
    Prop where
  first : ∀ p ∈ s.inFlight, ∃ n ∈ known, ∃ keys now, p = n.first issuer keys now
  retries : ∀ m ∈ s.queued ++ s.dead, ∃ n ∈ known, ∃ token k, token.claims.jti = n.jti ∧
    1 ≤ k ∧ k ≤ maxAttempts ∧ k ≤ tried n ∧ m = n.message token k

/-- A turn makes the attempt `k` at a notice, and what it leaves of the rest. -/
inductive Attempted (issuer : String) (known : List Notice) (tried : Notice → ℕ)
    (s : Deliveries) : Turn → Notice → ℕ → LogoutJwt → List Action → Deliveries → Prop where
  | first {i : ℕ} {n : Notice} {keys : LoadedKeys} {now : ℤ} (answer : FetchAnswer)
      (accepted : Bool) (hn : n ∈ known) (hi : s.inFlight[i]? = some (n.first issuer keys now)) :
      Attempted issuer known tried s (.answer i answer accepted) n 0 (n.token issuer keys now) []
        { s with inFlight := s.inFlight.eraseIdx i }
  | retry {i : ℕ} {n : Notice} {token : LogoutJwt} {k : ℕ} (keys : LoadedKeys) (now : ℤ)
      (answer : FetchAnswer) (accepted acked : Bool) (hn : n ∈ known)
      (hi : s.queued[i]? = some (n.message token k)) (htoken : token.claims.jti = n.jti)
      (hk : 1 ≤ k) (hmax : k ≤ maxAttempts) (htried : k ≤ tried n) :
      Attempted issuer known tried s (.consume i (some keys) now answer accepted acked) n k
        (n.token issuer keys now) [.posted n.uri (n.token issuer keys now)]
        (if acked then { s with queued := s.queued.eraseIdx i } else s)

/-- Everything a turn can do while what is under way is for known notices. -/
inductive Moved (issuer : String) (known : List Notice) (tried : Notice → ℕ) (s : Deliveries) :
    Turn → Deliveries → List Action → Prop where
  | idle {turn : Turn} (hturn : turn.notices = []) : Moved issuer known tried s turn s []
  | notified (keys : LoadedKeys) (now : ℤ) (uid sid : String) (clients : List SessionClient) :
      Moved issuer known tried s (.notify keys now uid sid clients)
        { s with
          inFlight := s.inFlight ++
            (noticesOf uid sid clients).map (Notice.first issuer keys now) }
        ((noticesOf uid sid clients).flatMap (Notice.actions issuer keys now))
  | delivered {turn : Turn} {n : Notice} {k : ℕ} {token : LogoutJwt} {before : List Action}
      {left : Deliveries} (h : Attempted issuer known tried s turn n k token before left) :
      Moved issuer known tried s turn left (before ++ [.answered n.uri token .ok])
  | again {turn : Turn} {n : Notice} {k : ℕ} {token : LogoutJwt} {before : List Action}
      {left : Deliveries} (h : Attempted issuer known tried s turn n k token before left)
      (reason : String) (hk : k < maxAttempts) :
      Moved issuer known tried s turn
        { left with queued := left.queued ++ [n.message token (k + 1)] }
        (before ++ [.answered n.uri token (.failed reason)])
  | lost {turn : Turn} {n : Notice} {k : ℕ} {token : LogoutJwt} {before : List Action}
      {left : Deliveries} (h : Attempted issuer known tried s turn n k token before left)
      (reason : String) (hk : k < maxAttempts) :
      Moved issuer known tried s turn left (before ++
        [.answered n.uri token (.failed reason), .unqueued (n.retry token (k + 1))])
  | exhausted {turn : Turn} {n : Notice} {token : LogoutJwt} {before : List Action}
      {left : Deliveries} (h : Attempted issuer known tried s turn n maxAttempts token before left)
      (reason : String) :
      Moved issuer known tried s turn left (before ++ [.answered n.uri token (.failed reason),
        .gaveUp n.uid n.clientId n.sid reason n.jti maxAttempts])
  | dropped {turn : Turn} {n : Notice} {k : ℕ} {token : LogoutJwt} {before : List Action}
      {left : Deliveries} (h : Attempted issuer known tried s turn n k token before left)
      (hn : ¬ n.Named) : Moved issuer known tried s turn left [.malformed]
  | buried {i : ℕ} {m : Message} (hi : s.queued[i]? = some m) :
      Moved issuer known tried s (.giveUp i)
        { s with queued := s.queued.eraseIdx i, dead := s.dead ++ [m] } []

section Step
variable {issuer : String} {known : List Notice} {tried : Notice → ℕ} {s : Deliveries}

theorem firstAnswered_moved {i : ℕ} {n : Notice} {keys : LoadedKeys} {now : ℤ}
    (answer : FetchAnswer) (accepted : Bool) (hn : n ∈ known)
    (hi : s.inFlight[i]? = some (n.first issuer keys now)) :
    Moved issuer known tried s (.answer i answer accepted)
      (firstAnswered { s with inFlight := s.inFlight.eraseIdx i } (n.first issuer keys now) answer
        accepted).1
      (firstAnswered { s with inFlight := s.inFlight.eraseIdx i } (n.first issuer keys now) answer
        accepted).2 := by
  have hattempt : Attempted issuer known tried s (.answer i answer accepted) n 0
      (n.token issuer keys now) [] { s with inFlight := s.inFlight.eraseIdx i } :=
    .first answer accepted hn hi
  cases hanswer : deliverLogoutToken answer with
  | ok =>
    simp only [firstAnswered, hanswer]
    exact .delivered hattempt
  | failed reason =>
    simp only [firstAnswered, hanswer, enqueueRetry]
    cases accepted with
    | true => exact .again hattempt reason (by decide)
    | false => exact .lost hattempt reason (by decide)

theorem consumed_moved {turn : Turn} {n : Notice} {k : ℕ} {token : LogoutJwt} {keys : LoadedKeys}
    {now : ℤ} {left : Deliveries} (answer : FetchAnswer) (accepted : Bool)
    (hattempt : Attempted issuer known tried s turn n k (n.token issuer keys now)
      [.posted n.uri (n.token issuer keys now)] left)
    (htoken : token.claims.jti = n.jti) (hk : 1 ≤ k) (hmax : k ≤ maxAttempts) :
    Moved issuer known tried s turn
      (consumed issuer left keys now (n.message token k).body answer accepted).1
      (consumed issuer left keys now (n.message token k).body answer accepted).2 := by
  have hbody : (n.message token k).body = (n.retry token k).body := rfl
  by_cases hn : n.Named
  · cases hanswer : deliverLogoutToken answer with
    | ok =>
      simp only [consumed, hbody, retryBackchannel_delivered hk hn htoken hanswer]
      exact .delivered hattempt
    | failed reason =>
      rcases Nat.lt_or_ge k maxAttempts with hlt | hge
      · simp only [consumed, hbody, retryBackchannel_next hk hn htoken hanswer hlt, enqueueRetry]
        cases accepted with
        | true => exact .again hattempt reason hlt
        | false => exact .lost hattempt reason hlt
      · obtain rfl : k = maxAttempts := Nat.le_antisymm hmax hge
        simp only [consumed, hbody, retryBackchannel_last hk hn htoken hanswer hge]
        exact .exhausted hattempt reason
  · simp only [consumed, hbody, retryBackchannel_unnamed hk hn]
    exact .dropped hattempt hn

theorem step_moved (h : Carried issuer known tried s) (turn : Turn) :
    Moved issuer known tried s turn (s.step issuer turn).1 (s.step issuer turn).2 := by
  cases turn with
  | notify keys now uid sid clients => exact .notified keys now uid sid clients
  | answer i answer accepted =>
    cases hi : s.inFlight[i]? with
    | none =>
      simp only [Deliveries.step, hi]
      exact .idle rfl
    | some p =>
      obtain ⟨n, hn, keys, now, rfl⟩ := h.first p (List.mem_of_getElem? hi)
      simp only [Deliveries.step, hi]
      exact firstAnswered_moved answer accepted hn hi
  | consume i keys now answer accepted acked =>
    cases hi : s.queued[i]? with
    | none =>
      simp only [Deliveries.step, hi]
      exact .idle rfl
    | some m =>
      cases keys with
      | none =>
        simp only [Deliveries.step, hi]
        exact .idle rfl
      | some keys =>
        have hm : m ∈ s.queued ++ s.dead := List.mem_append_left _ (List.mem_of_getElem? hi)
        obtain ⟨n, hn, token, k, htoken, hk, hmax, htried, rfl⟩ := h.retries m hm
        simp only [Deliveries.step, hi]
        exact consumed_moved answer accepted
          (.retry keys now answer accepted acked hn hi htoken hk hmax htried) htoken hk hmax
  | giveUp i =>
    cases hi : s.queued[i]? with
    | none =>
      simp only [Deliveries.step, hi]
      exact .idle rfl
    | some m =>
      simp only [Deliveries.step, hi]
      exact .buried hi

end Step
end TinyOidc.Logout
