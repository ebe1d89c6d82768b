import TinyOidc.Logout.Endings

/-! No session ends silently: what a call of a request ends, the request hands to the notifier,
but for a reused refresh token, an import that creates a disabled user, and a call that throws. -/
namespace TinyOidc.Logout
open TinyOidc.User TinyOidc.Account
open Threads (Prog Entry Effect System)
open Threads.Prog (Obeys)

/-! ### Logs -/

def announcedIn : Entry Op.Answer → List EndedSession
  | ⟨.account (.user uid call), some reply⟩ => endedOf uid (call.announced reply)
  | _ => []

def notifiedIn : Entry Op.Answer → List EndedSession
  | ⟨.notify ended, _⟩ => ended
  | _ => []

/-- A session that `revokeSession` ended is the one it was asked to end. -/
def Genuine (log : List (Entry Op.Answer)) : Prop :=
  ∀ uid sid now reason revoked,
    (⟨.account (.user uid (.revokeSession sid now reason)),
      some (.revokedSession (.ok (some revoked)))⟩ : Entry Op.Answer) ∈ log → revoked.sid = sid

/-- What was announced is `ended`, the newest, and what the notifier was given before. -/
def Owes (ended : List EndedSession) (log : List (Entry Op.Answer)) : Prop :=
  Genuine log → log.flatMap announcedIn = ended ++ log.flatMap notifiedIn

/-- A call that gives no reply, or a row that is not deleted. -/
def threw : Entry Op.Answer → Bool
  | ⟨.account (.user _ _), none⟩ => true
  | ⟨.account (.d1 (.deleteUserRow _)), .error _⟩ => true
  | _ => false

/-- Nothing is owed, or it failed and its last call threw. -/
def Settled (failed : Prop) (log : List (Entry Op.Answer)) : Prop :=
  Owes [] log ∨ failed ∧ ∃ entry older, log = entry :: older ∧ threw entry = true

/-- A request owes the notifier nothing, unless its last call threw. -/
def Forwarded (log : List (Entry Op.Answer)) (response : EndingResponse) : Prop :=
  Settled (response.failed = true) log

theorem Genuine.tail {entry : Entry Op.Answer} {log : List (Entry Op.Answer)}
    (h : Genuine (entry :: log)) : Genuine log :=
  fun uid sid now reason revoked hmem =>
    h uid sid now reason revoked (List.mem_cons_of_mem _ hmem)

section Rules
variable {ended : List EndedSession} {log : List (Entry Op.Answer)}

theorem owes_nil : Owes [] [] := fun _ => rfl

theorem Owes.quiet {entry : Entry Op.Answer} (h : Owes ended log)
    (hannounced : announcedIn entry = []) (hnotified : notifiedIn entry = []) :
    Owes ended (entry :: log) := by
  intro hgenuine
  rw [List.flatMap_cons, List.flatMap_cons, hannounced, hnotified]
  exact h hgenuine.tail

theorem Owes.call (h : Owes [] log) (uid : String) (c : Call) (reply : Reply) :
    Owes (endedOf uid (c.announced reply)) (⟨.account (.user uid c), some reply⟩ :: log) := by
  intro hgenuine
  rw [List.flatMap_cons, List.flatMap_cons, h hgenuine.tail]
  rfl

theorem Owes.notified (h : Owes ended log) : Owes [] (⟨.notify ended, ()⟩ :: log) := by
  intro hgenuine
  rw [List.flatMap_cons, List.flatMap_cons, h hgenuine.tail]
  rfl

theorem announcedIn_other {c : Call} (hc : announces c = false) (uid : String)
    (answer : Option Reply) : announcedIn ⟨.account (.user uid c), answer⟩ = [] := by
  cases answer with
  | none => rfl
  | some reply => cases c <;> first | rfl | cases hc

/-- A call that announces nothing. -/
theorem Owes.other (h : Owes ended log) (uid : String) {c : Call} (hc : announces c = false)
    (answer : Option Reply) : Owes ended (⟨.account (.user uid c), answer⟩ :: log) :=
  h.quiet (announcedIn_other hc uid answer) rfl

theorem Owes.d1 {statement : Statement} (h : Owes ended log)
    (answer : Except D1Error statement.Answer) :
    Owes ended (⟨.account (.d1 statement), answer⟩ :: log) := h.quiet rfl rfl

/-- The notifier is given what is owed. -/
theorem notify_obeys {α : Type} {f : Unit → Program α}
    {post : List (Entry Op.Answer) → α → Prop} (h : Owes ended log)
    (hf : ∀ log', Owes [] log' → (f ()).Obeys (fun _ _ => True) post log') :
    Obeys (fun _ _ => True) post log (notifyEndedSessions ended >>= f) := by
  unfold notifyEndedSessions
  split
  next hnone =>
    subst hnone
    exact hf log h
  next hsome => exact Obeys.perform trivial fun _ => hf _ h.notified

theorem settled_threw {failed : Prop} {entry : Entry Op.Answer} (hfailed : failed)
    (h : threw entry = true) : Settled failed (entry :: log) :=
  .inr ⟨hfailed, entry, log, rfl, h⟩

theorem Settled.mono {failed failed' : Prop} (h : Settled failed log) (himp : failed → failed') :
    Settled failed' log :=
  h.imp_right fun hthrew => ⟨himp hthrew.1, hthrew.2⟩

theorem Settled.owes {failed : Prop} (h : Settled failed log) (hok : ¬ failed) : Owes [] log :=
  h.resolve_right fun hthrew => hok hthrew.1

theorem forwarded_pure {response : EndingResponse} (h : Owes [] log) :
    Obeys (fun _ _ => True) Forwarded log (pure response : Program EndingResponse) :=
  .inl h

theorem forwarded_failed {response : EndingResponse} {failed : Prop} (h : Settled failed log)
    (hfailed : response.failed = true) :
    Obeys (fun _ _ => True) Forwarded log (pure response : Program EndingResponse) :=
  h.mono fun _ => hfailed

theorem forwarded_threw {response : EndingResponse} {entry : Entry Op.Answer}
    (hfailed : response.failed = true) (h : threw entry = true) :
    Obeys (fun _ _ => True) Forwarded (entry :: log) (pure response : Program EndingResponse) :=
  settled_threw hfailed h

end Rules

/-! ### The account operations -/

section Account
variable {log : List (Entry Op.Answer)}

theorem loadUser_owes (id : String) (h : Owes [] log) :
    (lift (loadUser id)).Obeys (fun _ _ => True) (fun log' _ => Owes [] log') log := by
  unfold loadUser lift
  split
  · exact h
  · refine Obeys.embed_perform trivial fun answer => ?_
    have hread := h.d1 answer
    cases answer with
    | error e => exact Obeys.embed_pure hread
    | ok row =>
      cases row with
      | none => exact Obeys.embed_pure hread
      | some row =>
        dsimp only
        split <;> exact Obeys.embed_pure hread

/-- What a result of `setUserDisabled` leaves to notify. -/
def DisabledLeaves (uid : String) (log : List (Entry Op.Answer)) : SetDisabledResult → Prop
  | .ok _ revoked | .partialFailure _ revoked => Owes (endedOf uid revoked) log
  | .userNotAvailable => Owes [] log
  | .thrown => Settled True log

theorem setUserDisabled_owes (uid : String) (disabled : Bool) (now : ℤ) (h : Owes [] log) :
    (lift (setUserDisabled uid disabled now)).Obeys (fun _ _ => True) (DisabledLeaves uid)
      log := by
  refine Obeys.embed_perform trivial fun answer => ?_
  cases answer with
  | none => exact settled_threw trivial rfl
  | some reply =>
    have hcall := h.call uid (.setDisabled (if disabled then some now else none) now) reply
    cases reply with
    | disabled outcome =>
      cases outcome with
      | ok answer =>
        refine Obeys.embed_perform trivial fun written => ?_
        have hwritten := hcall.d1 written
        cases written with
        | ok _ => exact hwritten
        | error e => exact hwritten
      | fail err => exact hcall
      | thrown err => exact .inl hcall
    | _ => exact .inl hcall

theorem revokedBy_eq (disabledAt : Option ℤ) (now : ℤ) (reply : Reply) :
    Call.announced (.setDisabled disabledAt now) reply = revokedBy reply := by
  cases reply with
  | disabled outcome => cases outcome <;> rfl
  | _ => rfl

/-- The end of a deletion, once the object is disabled. -/
theorem destroy_owes {α : Type} (post : List (Entry Op.Answer) → Option α → Prop) (uid : String)
    {ended : List EndedSession} (a : α) (h : Owes ended log)
    (hfailed : ∀ log', Settled True log' → post log' none)
    (hdone : ∀ log', Owes ended log' → post log' (some a)) :
    Obeys (fun _ _ => True) post log (lift (do
      match ← Account.userCall uid .destroy with
      | none => return none
      | some _ =>
        match ← Account.d1 (.deleteUserRow uid) with
        | .error _ => return none
        | .ok _ => return some a)) := by
  refine Obeys.embed_perform trivial fun destroyed => ?_
  have hdestroyed := h.other uid (c := .destroy) rfl destroyed
  cases destroyed with
  | none => exact hfailed _ (settled_threw trivial rfl)
  | some reply =>
    refine Obeys.embed_perform trivial fun written => ?_
    have hwritten := hdestroyed.d1 written
    cases written with
    | error e => exact hfailed _ (settled_threw trivial rfl)
    | ok _ => exact hdone _ hwritten

/-- A deletion that ends gives what its call of `setDisabled` revoked. -/
def DeletionLeaves (uid : String) (log : List (Entry Op.Answer)) :
    Option (List RevokedSession) → Prop
  | some revoked => Owes (endedOf uid revoked) log
  | none => Settled True log

theorem deleteUser_owes (uid : String) (now : ℤ) (h : Owes [] log) :
    (lift (deleteUser uid now)).Obeys (fun _ _ => True) (DeletionLeaves uid) log := by
  refine Obeys.embed_perform trivial fun marked => ?_
  have hmarked := h.d1 marked
  cases marked with
  | error e => exact .inl hmarked
  | ok _ =>
    refine Obeys.embed_perform trivial fun answer => ?_
    cases answer with
    | none => exact settled_threw trivial rfl
    | some reply =>
      have hcall := hmarked.call uid (.setDisabled (some now) now) reply
      rw [revokedBy_eq] at hcall
      have hrest := destroy_owes (DeletionLeaves uid) uid (revokedBy reply) hcall
        (fun _ hsettled => hsettled) (fun _ howes => howes)
      cases reply with
      | disabled outcome =>
        cases outcome with
        | thrown err => exact .inl hcall
        | _ => exact hrest
      | _ => exact hrest

end Account

/-! ### The handlers -/

section Handlers
variable {log : List (Entry Op.Answer)}

theorem endSession_owes (uid sid : String) (now : ℤ) (reason : String) (h : Owes [] log) :
    (endSession uid sid now reason).Obeys (fun _ _ => True)
      (fun log' result => Settled (result = none) log') log := by
  refine Obeys.perform trivial fun answer => ?_
  cases answer with
  | none => exact settled_threw rfl rfl
  | some reply =>
    have hcall := h.call uid (.revokeSession sid now reason) reply
    cases reply with
    | revokedSession outcome =>
      cases outcome with
      | ok revoked =>
        cases revoked with
        | none => exact .inl hcall
        | some revoked =>
          have hsid : Owes [⟨uid, sid, revoked.clients⟩]
              (⟨.account (.user uid (.revokeSession sid now reason)),
                some (.revokedSession (.ok (some revoked)))⟩ :: log) := by
            intro hgenuine
            have hsame := hgenuine uid sid now reason revoked List.mem_cons_self
            rw [hcall hgenuine, ← hsame]
            rfl
          exact notify_obeys hsid fun log' hlog' => .inl hlog'
      | fail err => exact .inl hcall
      | thrown err => exact .inl hcall
    | _ => exact .inl hcall

theorem deleteOwnSession_forwards (uid sid : String) (now : ℤ) :
    (Me.deleteSessionHandler uid sid now).Obeys (fun _ _ => True) Forwarded [] := by
  refine Obeys.bind ((endSession_owes uid sid now "self" owes_nil).mono fun log result h => ?_)
  cases result with
  | none => exact forwarded_failed h rfl
  | some ended => exact forwarded_pure (h.owes nofun)

theorem deleteOwnSessions_forwards (uid : String) (except : Option String) (now : ℤ) :
    (Me.deleteSessionsHandler uid except now).Obeys (fun _ _ => True) Forwarded [] := by
  refine Obeys.perform trivial fun answer => ?_
  cases answer with
  | none => exact forwarded_threw rfl rfl
  | some reply =>
    have hcall := owes_nil.call uid (.revokeSessions except now "self") reply
    cases reply with
    | revokedSessions outcome =>
      cases outcome with
      | ok revoked => exact notify_obeys hcall fun log' hlog' => forwarded_pure hlog'
      | fail err => exact forwarded_pure hcall
      | thrown err => exact forwarded_pure hcall
    | _ => exact forwarded_pure hcall

/-- A handler that starts with the row of the user it names. -/
theorem loadUser_forwards {id : String} {f : RegistryUser → Program EndingResponse}
    (hf : ∀ row log, Owes [] log → (f row).Obeys (fun _ _ => True) Forwarded log) :
    Obeys (fun _ _ => True) Forwarded [] (do
      match ← lift (loadUser id) with
      | .error response => return .admin response
      | .ok row => f row : Program EndingResponse) := by
  refine Obeys.bind ((loadUser_owes id owes_nil).mono fun log result h => ?_)
  cases result with
  | error response => exact forwarded_pure h
  | ok row => exact hf row log h

theorem deleteSession_forwards (id sid : String) (now : ℤ) :
    (Admin.deleteSessionHandler id sid now).Obeys (fun _ _ => True) Forwarded [] := by
  refine loadUser_forwards fun row log h => ?_
  refine Obeys.perform trivial fun answer => ?_
  cases answer with
  | none => exact forwarded_threw rfl rfl
  | some reply =>
    have hcall := h.call row.id (.revokeSession sid now "admin") reply
    cases reply with
    | revokedSession outcome =>
      cases outcome with
      | ok revoked =>
        cases revoked with
        | none => exact forwarded_pure hcall
        | some revoked => exact notify_obeys hcall fun log' hlog' => forwarded_pure hlog'
      | fail err => exact forwarded_pure hcall
      | thrown err => exact forwarded_pure hcall
    | _ => exact forwarded_pure hcall

theorem deleteSessions_forwards (id : String) (now : ℤ) :
    (Admin.deleteSessionsHandler id now).Obeys (fun _ _ => True) Forwarded [] := by
  refine loadUser_forwards fun row log h => ?_
  refine Obeys.perform trivial fun answer => ?_
  cases answer with
  | none => exact forwarded_threw rfl rfl
  | some reply =>
    have hcall := h.call row.id (.revokeAll now "admin") reply
    cases reply with
    | revokedSessions outcome =>
      cases outcome with
      | ok revoked => exact notify_obeys hcall fun log' hlog' => forwarded_pure hlog'
      | fail err => exact forwarded_pure hcall
      | thrown err => exact forwarded_pure hcall
    | _ => exact forwarded_pure hcall

theorem setDisabled_forwards (id : String) (disabled : Bool) (now : ℤ) :
    (Admin.setDisabledHandler id disabled now).Obeys (fun _ _ => True) Forwarded [] := by
  refine loadUser_forwards fun row log h => ?_
  refine Obeys.perform trivial fun answer => ?_
  have hread := h.other row.id (c := .getProfile) rfl answer
  cases answer with
  | none => exact forwarded_threw rfl rfl
  | some reply =>
    cases reply with
    | profile outcome =>
      cases outcome with
      | ok profile =>
        refine Obeys.bind ((setUserDisabled_owes row.id disabled now hread).mono
          fun log' result hresult => ?_)
        cases result with
        | userNotAvailable => exact forwarded_pure hresult
        | thrown => exact forwarded_failed hresult rfl
        | ok profile revoked =>
          exact notify_obeys hresult fun log' hlog' => forwarded_pure hlog'
        | partialFailure profile revoked =>
          exact notify_obeys hresult fun log' hlog' => forwarded_pure hlog'
      | fail err => exact forwarded_pure hread
      | thrown err => exact forwarded_pure hread
    | _ => exact forwarded_pure hread

theorem deleteUser_forwards (id : String) (now : ℤ) :
    (Admin.deleteUserHandler id now).Obeys (fun _ _ => True) Forwarded [] := by
  refine loadUser_forwards fun row log h => ?_
  refine Obeys.bind ((deleteUser_owes row.id now h).mono fun log' result hresult => ?_)
  cases result with
  | none => exact forwarded_failed hresult rfl
  | some revoked =>
    exact notify_obeys hresult fun log' hlog' => forwarded_pure hlog'

theorem refresh_forwards (uid : String) (input : RotateRefreshInput) :
    (refreshGrant uid input).Obeys (fun _ _ => True) Forwarded [] := by
  refine Obeys.perform trivial fun answer => ?_
  have hcall := owes_nil.other uid (c := .rotateRefreshToken input) rfl answer
  cases answer with
  | none => exact forwarded_pure hcall
  | some reply =>
    cases reply with
    | rotate outcome => cases outcome <;> exact forwarded_pure hcall
    | _ => exact forwarded_pure hcall

theorem recover_forwards (uid : String) (now : ℤ) :
    (recoverAccount uid now).Obeys (fun _ _ => True) Forwarded [] := by
  refine Obeys.perform trivial fun answer => ?_
  have hread := owes_nil.other uid (c := .getProfile) rfl answer
  cases answer with
  | none => exact forwarded_threw rfl rfl
  | some reply =>
    cases reply with
    | profile outcome =>
      cases outcome with
      | ok profile =>
        refine Obeys.perform trivial fun revoking => ?_
        cases revoking with
        | none => exact forwarded_threw rfl rfl
        | some reply =>
          have hcall := hread.call uid (.revokeAll now "recover") reply
          cases reply with
          | revokedSessions outcome =>
            cases outcome with
            | ok revoked => exact notify_obeys hcall fun log' hlog' => forwarded_pure hlog'
            | fail err => exact forwarded_pure hcall
            | thrown err => exact forwarded_pure hcall
          | _ => exact forwarded_pure hcall
      | fail err => exact forwarded_pure hread
      | thrown err => exact forwarded_pure hread
    | _ => exact forwarded_pure hread

/-- The end of a deletion of a maintenance run: the object is destroyed, and then the row. -/
theorem destroy_forwards (uid : String) {ended : List EndedSession}
    {f : Option Reply → Program EndingResponse} {g : Except D1Error Unit → Program EndingResponse}
    (h : Owes ended log) (hnone : f none = pure .unavailable)
    (hsome : ∀ reply, f (some reply) = lift (Account.d1 (.deleteUserRow uid)) >>= g)
    (herror : ∀ e, g (.error e) = pure .unavailable)
    (hok : ∀ log', Owes ended log' → (g (.ok ())).Obeys (fun _ _ => True) Forwarded log') :
    Obeys (fun _ _ => True) Forwarded log (userCall uid .destroy >>= f) := by
  refine Obeys.perform trivial fun destroyed => ?_
  have hdestroyed := h.other uid (c := .destroy) rfl destroyed
  cases destroyed with
  | none =>
    rw [hnone]
    exact forwarded_threw rfl rfl
  | some reply =>
    rw [hsome]
    refine Obeys.perform trivial fun written => ?_
    have hwritten := hdestroyed.d1 written
    cases written with
    | error e =>
      rw [herror]
      exact forwarded_threw rfl rfl
    | ok _ => exact hok _ hwritten

/-- One deletion after another, each notified before the next. -/
theorem deletingUsers_forwards (m : Maintenance) (rows : List RegistryUser) :
    ∀ (checks deleted : ℕ) (log : List (Entry Op.Answer)), Owes [] log →
      (deletingUsers m rows checks deleted).Obeys (fun _ _ => True) Forwarded log := by
  induction rows with
  | nil => exact fun checks deleted log h => forwarded_pure h
  | cons row rest ih =>
    intro checks deleted log h
    unfold deletingUsers
    split
    · exact forwarded_pure h
    · refine Obeys.perform trivial fun answer => ?_
      cases answer with
      | none => exact forwarded_threw rfl rfl
      | some reply =>
        have hcall := h.call row.id (.setDisabled (some m.now) m.now) reply
        rw [revokedBy_eq] at hcall
        cases reply with
        | disabled outcome =>
          cases outcome with
          | thrown err => exact forwarded_pure hcall
          | _ =>
            refine destroy_forwards row.id hcall rfl
              (fun _ => rfl) (fun _ => rfl) fun log' hlog' => ?_
            exact notify_obeys hlog' fun log'' hlog'' => ih (checks + 1) (deleted + 1) log'' hlog''
        | _ =>
          refine destroy_forwards row.id hcall rfl
            (fun _ => rfl) (fun _ => rfl) fun log' hlog' => ?_
          exact notify_obeys hlog' fun log'' hlog'' => ih (checks + 1) (deleted + 1) log'' hlog''

theorem deletingStep_forwards (m : Maintenance) :
    (deletingStep m).Obeys (fun _ _ => True) Forwarded [] := by
  refine Obeys.perform trivial fun listed => ?_
  have hlisted := owes_nil.d1 listed
  cases listed with
  | error e => exact forwarded_pure hlisted
  | ok rows => exact deletingUsers_forwards m rows 0 0 _ hlisted

/-- Every request but an import forwards what it ends. -/
theorem requests_forward (q : EndingRequest) (hq : ∀ id now, q ≠ .importDisabled id now) :
    q.run.Obeys (fun _ _ => True) Forwarded [] := by
  cases q with
  | endSession uid sid now reason =>
    refine Obeys.bind ((endSession_owes uid sid now reason owes_nil).mono fun log result h => ?_)
    cases result with
    | none => exact forwarded_failed h rfl
    | some ended => exact forwarded_pure (h.owes nofun)
  | deleteOwnSession uid sid now => exact deleteOwnSession_forwards uid sid now
  | deleteOwnSessions uid except now => exact deleteOwnSessions_forwards uid except now
  | deleteSession id sid now => exact deleteSession_forwards id sid now
  | deleteSessions id now => exact deleteSessions_forwards id now
  | setDisabled id disabled now => exact setDisabled_forwards id disabled now
  | deleteUser id now => exact deleteUser_forwards id now
  | importDisabled id now => exact absurd rfl (hq id now)
  | refresh uid input => exact refresh_forwards uid input
  | recover uid now => exact recover_forwards uid now
  | maintain m => exact deletingStep_forwards m

end Handlers

/-! ### Whole runs -/

section Runs
variable (sha256 : String → Bytes)

abbrev EndingLabel := Threads.Label EndingRequest Op Fault

/-- A call that found a user's session unrevoked and left it revoked. -/
structure Ending (w w' : World) (uid sid : String) : Prop where
  before : ∃ s ∈ (w.objects uid).tables.sessions.rows, s.sid = sid ∧ s.revokedAt = none
  after : ∃ s ∈ (w'.objects uid).tables.sessions.rows, s.sid = sid ∧ s.revokedAt.isSome

/-- An object has one row of a session. -/
theorem Ending.not_before {w w' : World} {uid sid : String} (h : Ending w w' uid sid) :
    ¬ ∃ s ∈ (w.objects uid).tables.sessions.rows, s.sid = sid ∧ s.revokedAt.isSome := by
  rintro ⟨s', hs', hsid', hrevoked⟩
  obtain ⟨s, hs, hsid, hopen⟩ := h.before
  have hsame : s' = s := RowTable.Table.eq_of_key_eq hs' hs (hsid'.trans hsid.symm)
  rw [hsame, hopen] at hrevoked
  cases hrevoked

theorem Ending.changed {w w' : World} {uid sid : String} (h : Ending w w' uid sid) :
    w'.objects uid ≠ w.objects uid := by
  intro hsame
  have hafter := h.after
  rw [hsame] at hafter
  exact h.not_before hafter

/-- A call that ends a session with no word to the notifier: it threw once it had taken effect, or
it presented a refresh token, bound to the session, that had been used. -/
inductive Silent (w : World) (uid sid : String) : Entry Op.Answer → Prop where
  | threw (call : Call) : Silent w uid sid ⟨.account (.user uid call), none⟩
  | reused (input : RotateRefreshInput) (error : UserDoError) (clients : Option (List String))
      (hfamily : ((w.objects uid).tables.refreshFamilies.find input.familyId).bind (·.sid) =
        some sid) :
      Silent w uid sid ⟨.account (.user uid (.rotateRefreshToken input)),
        some (.rotate (.fail error true clients))⟩

def endedIn (w : World) (uid sid : String) : EndedSession :=
  ⟨uid, sid, (w.objects uid).tables.clientsOf sid⟩

theorem of_endedByReuse {e : CallEvent} {sid : String} (h : endedByReuse e = some sid) :
    ∃ input error clients, e.input = .rotateRefreshToken input ∧
      e.reply = .rotate (.fail error true clients) ∧
      (e.pre.tables.refreshFamilies.find input.familyId).bind (·.sid) = some sid := by
  unfold endedByReuse at h
  split at h
  · next input error clients hinput hreply => exact ⟨input, error, clients, hinput, hreply, h⟩
  · cases h

/-- A call that ends a session and is answered: the reply names the session, or it was a reused
refresh token that ended it. -/
theorem call_ending (w : World) (uid sid : String) (call : Call)
    (h : Ending w (w.setObject uid ((w.objects uid).call sha256 call).1) uid sid) :
    Silent w uid sid ⟨.account (.user uid call), some ((w.objects uid).call sha256 call).2⟩ ∨
      endedIn (w.setObject uid ((w.objects uid).call sha256 call).1) uid sid ∈
        announcedIn ⟨.account (.user uid call), some ((w.objects uid).call sha256 call).2⟩ := by
  have hobject : (w.setObject uid ((w.objects uid).call sha256 call).1).objects uid =
      ((w.objects uid).call sha256 call).1 := Function.update_self ..
  have hstep := call_announced sha256 (w.objects uid) call
  obtain ⟨s, hs, hsid, hrevoked⟩ := h.after
  rw [hobject] at hs
  rcases hstep.move.ends s hs hrevoked with hended | ⟨old, hold, holdsid, holdrevoked⟩
  · rw [hsid] at hended
    rcases hended with hannounced | hreuse
    · obtain ⟨r, hr, hrsid⟩ := List.mem_map.mp hannounced
      have hclients := hstep.announces.clients r hr
      refine .inr (List.mem_map.mpr ⟨r, hr, ?_⟩)
      rw [endedIn, hobject, hclients, hrsid]
    · obtain ⟨input, error, clients, hinput, hreply, hfamily⟩ := of_endedByReuse hreuse
      change call = .rotateRefreshToken input at hinput
      change ((w.objects uid).call sha256 call).2 = .rotate (.fail error true clients) at hreply
      rw [hreply]
      subst hinput
      exact .inl (.reused input error clients hfamily)
  · exact absurd ⟨old, hold, holdsid.trans hsid, holdrevoked⟩ h.not_before

/-- What ends a session is a call of its user's object. -/
theorem exec_ending (w : World) (fault : Fault) (op : Op) {uid sid : String}
    (h : Ending w ((endings sha256).exec w fault op).1 uid sid) :
    Silent w uid sid ⟨op, ((endings sha256).exec w fault op).2⟩ ∨
      endedIn ((endings sha256).exec w fault op).1 uid sid ∈
        announcedIn ⟨op, ((endings sha256).exec w fault op).2⟩ := by
  cases op with
  | notify ended => exact absurd rfl h.changed
  | account op =>
    cases op with
    | d1 statement => cases fault <;> exact absurd rfl h.changed
    | user v call =>
      by_cases hv : v = uid
      · subst hv
        cases fault with
        | before => exact absurd rfl h.changed
        | none => exact call_ending sha256 w v sid call h
        | after => exact .inl (.threw call)
      · have hother := Ne.symm hv
        cases fault with
        | before => exact absurd rfl h.changed
        | none | after => exact absurd (Function.update_of_ne hother _ _) h.changed

/-- What others call announces nothing. -/
theorem announcedIn_outside {op : Op} (hop : (endings sha256).isOutside op = true)
    (answer : op.Answer) : announcedIn ⟨op, answer⟩ = [] := by
  cases op with
  | notify ended => rfl
  | account op =>
    cases op with
    | d1 statement => rfl
    | user uid call => exact announcedIn_other (Bool.not_eq_true' _ ▸ hop) uid answer

/-- `revokeSession` ends the session it was asked to end. -/
theorem revokeSession_sid {o : UserObject} {sid reason : String} {now : ℤ}
    {revoked : RevokedSession} (h : (o.revokeSession sid now reason).2 = .ok (some revoked)) :
    revoked.sid = sid := by
  obtain ⟨-, err, herr⟩ | ⟨user, -, hbody⟩ :=
    guarded_cases (Prod.ext rfl h : o.revokeSession sid now reason =
      ((o.revokeSession sid now reason).1, .ok (some revoked)))
  · cases herr
  · revert hbody
    generalize hrun : (fun t : Tables => _) = body
    intro hbody
    rcases purging_cases o now purgeGraceSeconds Outcome.thrown body with
      ⟨t, ended, ht, heq⟩ | ⟨err, -, heq⟩
    · cases (Prod.mk.inj (heq.symm.trans hbody)).2
      subst hrun
      dsimp only at ht
      split at ht
      · cases ht
      next row hfind =>
        rcases ite_eq_iff.mp ht with ⟨-, ht⟩ | ⟨-, ht⟩
        · cases ht
        · cases ht
          rfl
    · cases (Prod.mk.inj (heq.symm.trans hbody)).2

theorem unrestricted_obeys {α : Type} (p : Program α) (log : List (Entry Op.Answer)) :
    p.Obeys (fun _ _ => True) (fun _ _ => True) log :=
  ((Prog.only_true p).obeys fun _ _ _ => trivial).mono fun _ _ _ => trivial

/-- A request forwards what it ends, unless it is an import. -/
theorem request_forwards (q : EndingRequest) :
    q.run.Obeys (fun _ _ => True)
      (fun log response => (∀ id now, q ≠ .importDisabled id now) → Forwarded log response) [] := by
  by_cases hq : ∀ id now, q ≠ .importDisabled id now
  · exact (requests_forward q hq).mono fun log response h _ => h
  · exact (unrestricted_obeys q.run []).mono fun log response _ hother => absurd hother hq

theorem threads_genuine (w : World) (labels : List EndingLabel) :
    ∀ t ∈ ((endings sha256).after w labels).threads, Genuine t.log := by
  have hfollows : (endings sha256).Follows fun _ _ _ => True := fun q => unrestricted_obeys q.run []
  have hinv := System.shared_invariant hfollows (s := w) (I := fun _ => True)
    (E := fun entry => ∀ uid sid now reason revoked, entry =
      ⟨.account (.user uid (.revokeSession sid now reason)),
        some (.revokedSession (.ok (some revoked)))⟩ → revoked.sid = sid) trivial ?_ labels
  · intro t ht uid sid now reason revoked hmem
    exact hinv.2 t ht _ hmem uid sid now reason revoked rfl
  · intro w' fault op _ _
    refine ⟨trivial, fun uid sid now reason revoked hentry => ?_⟩
    obtain ⟨rfl, hanswer⟩ := Sigma.mk.inj hentry
    have hanswer := eq_of_heq hanswer
    cases fault with
    | none =>
      have hreply : Reply.revokedSession ((w'.objects uid).revokeSession sid now reason).2 =
          .revokedSession (.ok (some revoked)) := Option.some.inj hanswer
      exact revokeSession_sid (Reply.revokedSession.inj hreply)
    | before => cases hanswer
    | after => cases hanswer

/-- A thread that has finished, without a call that threw, has handed to the notifier what its
calls ended. -/
theorem finished_forwards (w : World) (labels : List EndingLabel) :
    ∀ t ∈ ((endings sha256).after w labels).threads, ∀ response,
      t.prog.result = some response → response.failed = false →
      (∀ id now, t.request ≠ .importDisabled id now) →
      t.log.flatMap announcedIn = t.log.flatMap notifiedIn := by
  intro t ht response hresult hok hrequest
  have hobeys := System.thread_obeys_to request_forwards w labels t ht
  rw [Prog.result_eq_some.mp hresult] at hobeys
  have hforwarded : Forwarded t.log response := hobeys hrequest
  exact hforwarded.owes (by simp [hok]) (threads_genuine sha256 w labels t ht)

/-- What a step that ends a session leaves: the ending is silent, or the thread that made the call
has the session in its log, to be notified. -/
theorem step_ending (w : World) (earlier : List EndingLabel) (l : EndingLabel) {uid sid : String}
    (h : Ending ((endings sha256).after w earlier).shared
      ((endings sha256).after w (l :: earlier)).shared uid sid) :
    (∃ eff, ((endings sha256).step ((endings sha256).after w earlier) l).2 = some eff ∧
      Silent ((endings sha256).after w earlier).shared uid sid eff.entry) ∨
    ∃ t ∈ ((endings sha256).after w (l :: earlier)).threads,
      endedIn ((endings sha256).after w (l :: earlier)).shared uid sid ∈
        t.log.flatMap announcedIn := by
  have hstep := (endings sha256).step_steps ((endings sha256).after w earlier) l
  have hnext : (endings sha256).after w (l :: earlier) =
      ((endings sha256).step ((endings sha256).after w earlier) l).1 := Machine.after_cons ..
  rw [hnext] at h ⊢
  generalize (endings sha256).step ((endings sha256).after w earlier) l = stepped at hstep h ⊢
  obtain ⟨c', e⟩ := stepped
  dsimp only at hstep h ⊢
  cases hstep with
  | idle => exact absurd rfl h.changed
  | spawn q => exact absurd rfl h.changed
  | thread i t op next fault hi hp =>
    rcases exec_ending sha256 _ fault op h with hsilent | hended
    · exact .inl ⟨_, rfl, hsilent⟩
    · have hi' := (List.getElem?_eq_some_iff.mp hi).1
      refine .inr ⟨_, List.mem_of_getElem? (List.getElem?_set_self hi'), ?_⟩
      exact List.mem_flatMap.mpr ⟨_, List.mem_cons_self, hended⟩
  | outside op fault hop =>
    rcases exec_ending sha256 _ fault op h with hsilent | hended
    · exact .inl ⟨_, rfl, hsilent⟩
    · rw [announcedIn_outside sha256 hop] at hended
      cases hended

/-- A thread knows of an ended session, and once it is done, with no call that threw, the notifier
has been given it. -/
structure Told (ended : EndedSession) (t : Threads.Thread EndingRequest Op.Answer EndingResponse) :
    Prop where
  known : ended ∈ t.log.flatMap announcedIn
  given : ∀ response, t.prog.result = some response → response.failed = false →
    (∀ id now, t.request ≠ .importDisabled id now) → ended ∈ t.log.flatMap notifiedIn

/-- Whatever ends a session in a run, the session and the clients it was used at are handed to the
notifier by the request that ended it, but for a reused refresh token, an import, and a request
with a call that threw; and what a finished request hands over is what its calls ended. -/
theorem no_session_ends_silently (w : World) (labels : List EndingLabel) :
    (∀ later l earlier, labels = later ++ l :: earlier → ∀ uid sid,
      Ending ((endings sha256).after w earlier).shared
        ((endings sha256).after w (l :: earlier)).shared uid sid →
      (∃ eff, ((endings sha256).step ((endings sha256).after w earlier) l).2 = some eff ∧
        Silent ((endings sha256).after w earlier).shared uid sid eff.entry) ∨
      ∃ t ∈ ((endings sha256).after w labels).threads,
        Told (endedIn ((endings sha256).after w (l :: earlier)).shared uid sid) t) ∧
    ∀ t ∈ ((endings sha256).after w labels).threads, ∀ response,
      t.prog.result = some response → response.failed = false →
      (∀ id now, t.request ≠ .importDisabled id now) →
      t.log.flatMap announcedIn = t.log.flatMap notifiedIn := by
  refine ⟨?_, finished_forwards sha256 w labels⟩
  rintro later l earlier rfl uid sid hending
  rcases step_ending sha256 w earlier l hending with hsilent | ⟨t, ht, hknown⟩
  · exact .inl hsilent
  · obtain ⟨i, hi⟩ := List.mem_iff_getElem?.mp ht
    obtain ⟨t', hi', -, hgrown⟩ := (endings sha256).thread_grows w later (l :: earlier) hi
    have ht' := List.mem_of_getElem? hi'
    have hsub : t.log ⊆ t'.log := by
      rcases hgrown with rfl | ⟨op, next, r, -, hsuffix⟩
      · exact List.Subset.refl _
      · exact List.Subset.trans (List.subset_cons_self _ _) hsuffix.subset
    obtain ⟨entry, hentry, hnamed⟩ := List.mem_flatMap.mp hknown
    have hknown' := List.mem_flatMap.mpr ⟨entry, hsub hentry, hnamed⟩
    refine .inr ⟨t', ht', hknown', fun response hresult hok hrequest => ?_⟩
    rw [← finished_forwards sha256 w _ t' ht' response hresult hok hrequest]
    exact hknown'

end Runs

namespace Sample
open TinyOidc.User.Sample (init login code)

/-- A user signs in, a client is issued a code, and the user ends every session. -/
def endingLabels : List EndingLabel :=
  [.step 0 .none, .step 0 .none, .spawn (.deleteOwnSessions "u1" none 20),
    .outside (.account (.user "u1" (login "s1" [2] 0 (some (code [3]))))) .none,
    .outside (.account (.user "u1" init)) .none]

example : ((endings User.Sample.sha256).after .fresh endingLabels).threads.map
    (fun t => t.log.flatMap notifiedIn) = [[⟨"u1", "s1", ["app"]⟩]] := by decide

end Sample
end TinyOidc.Logout
