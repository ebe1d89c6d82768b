import TinyOidc.Account.Creation
import TinyOidc.Account.Listings

/-! Creations beside runs of maintenance, on a storage that does not fail. The thresholds of
maintenance compare the clock with the `created_at` of a row, which the caller of a creation
chooses, and not with the moment of its claim. -/
namespace TinyOidc.Account
open TinyOidc.User
open TinyOidc.Interaction (UserStatus CreateUserError)
open Threads (Prog Entry Label Thread Config System arrivals)
open Threads.Prog (Obeys)

inductive CreationRequest where
  | create (inputs : List NewUser) (now : ℤ)
  | maintain (m : Maintenance)

inductive CreationAnswer where
  | created (results : Option (List CreateUserResult))
  | maintained (report : Option MaintenanceReport)

def CreationRequest.run : CreationRequest → Program CreationAnswer
  | create inputs now => do return .created (← createUsers inputs now)
  | maintain m => do return .maintained (← runMaintenance m)

/-- A step is labelled with the clock when it is made. -/
def creations (sha256 : String → Bytes) :
    System CreationRequest ℤ World Op.Answer CreationAnswer where
  start := CreationRequest.run
  exec w _ op := w.perform sha256 op
  isOutside _ := false

abbrev CreationThread := Thread CreationRequest Op.Answer CreationAnswer

abbrev CreationConfig := Config CreationRequest World Op.Answer CreationAnswer

abbrev CreationLabel := Label CreationRequest Op ℤ

/-- The clock at a step; a request reads it when it arrives. -/
def reading : CreationLabel → ℤ
  | .spawn (.create _ now) => now
  | .spawn (.maintain m) => m.now
  | .step _ clock | .outside _ clock => clock

/-- The clock does not go back. -/
def InTime (labels : List CreationLabel) : Prop := (labels.map reading).Pairwise (· ≥ ·)

instance (labels : List CreationLabel) : Decidable (InTime labels) :=
  inferInstanceAs (Decidable (List.Pairwise _ _))

def InFlightPermits : CreationRequest → Log → Op → Prop
  | .create _ _, log, op => CreationPermits log op
  | .maintain m, log, op => MaintenancePermits m log op

/-- How a creation ends: what it reports as created, it has created. -/
def Reports : CreationRequest → Log → CreationAnswer → Prop
  | .create inputs _, log, .created (some results) =>
      List.Forall₂ (fun input result => ∀ profile, result = .ok profile → Created log input.id)
        inputs results
  | _, _, _ => True

theorem CreationRequest.run_obeys (q : CreationRequest) :
    Obeys (InFlightPermits q) (Reports q) [] q.run := by
  cases q with
  | create inputs now =>
    refine Obeys.bind ((createUsers_creates inputs now).mono fun log outcome h => ?_)
    cases outcome with
    | none => trivial
    | some results => exact h results rfl
  | maintain m =>
    refine Obeys.bind ((runMaintenance_obeys_listed m).mono fun log report _ => ?_)
    trivial

theorem creations_follow (sha256 : String → Bytes) :
    (creations sha256).Follows InFlightPermits :=
  fun q => q.run_obeys.mono fun _ _ _ => trivial

/-! ### The condition -/

def claimsMade (log : Log) : List Directory.UserClaim :=
  log.flatMap fun
    | ⟨.d1 (.claimUsers claims), .ok _⟩ => claims
    | _ => []

/-- The users that a call has claimed. -/
def claimedIds (log : Log) : List String := (claimsMade log).map (·.id)

def claimClock (sha256 : String → Bytes) (uid : String) (e : (creations sha256).Event) : Option ℤ :=
  match e.reply with
  | some (.thread _ _ entry) => if uid ∈ claimedIds [entry] then some (reading e.input) else none
  | _ => none

/-- When the user was claimed in a run, newest first. -/
def claimClocks (sha256 : String → Bytes) (w : World) (labels : List CreationLabel)
    (uid : String) : List ℤ :=
  ((creations sha256).history w labels).filterMap (claimClock sha256 uid)

/-- The user whose row or object a call of maintenance changes. -/
def changes : Op → Option String
  | .user uid (.init _ _ _) | .user uid (.addIdentity _ _) | .user uid (.setDisabled _ _)
  | .user uid .destroy | .d1 (.setUserStatus uid _ _) | .d1 (.deleteUserRow uid) => some uid
  | _ => none

def removes : Op → Option String
  | .user uid .destroy | .d1 (.deleteUserRow uid) => some uid
  | _ => none

/-- No run of maintenance under way has a listed row of the user left to work through. -/
def unlisted (c : CreationConfig) (uid : String) : Bool :=
  c.threads.all fun t => t.prog.result.isSome || (pending t.log).all (·.id != uid)

/-- The next step, when it claims users, does so at the date of each row or before, and none of
them is still listed; when it activates rows, it does so within the hour of their dates. -/
def timely (c : CreationConfig) : CreationLabel → Bool
  | .step i clock =>
      match c.threads[i]? with
      | some ⟨_, _, .call (.d1 (.claimUsers claims)) _⟩ =>
          !(c.shared.directory.claimUsers claims).toBool ||
            claims.all fun claim => clock ≤ claim.createdAt && unlisted c claim.id
      | some ⟨_, log, .call (.d1 (.activateUsers rows)) _⟩ =>
          (claimsMade log).all fun claim => !(rows.map (·.1)).contains claim.id ||
            clock ≤ claim.createdAt + creatingDeleteAfterSeconds
      | _ => true
  | _ => true

def Timely (sha256 : String → Bytes) (w : World) : List CreationLabel → Prop
  | [] => True
  | l :: labels => timely ((creations sha256).after w labels) l = true ∧ Timely sha256 w labels

instance decidableTimely (sha256 : String → Bytes) (w : World) :
    (labels : List CreationLabel) → Decidable (Timely sha256 w labels)
  | [] => isTrue trivial
  | _ :: labels =>
      have := decidableTimely sha256 w labels
      inferInstanceAs (Decidable (_ ∧ _))

theorem mem_claimsMade {log : Log} {claim : Directory.UserClaim} :
    claim ∈ claimsMade log ↔ Claimed log claim := by
  constructor
  · intro h
    obtain ⟨⟨op, r⟩, hentry, hmem⟩ := List.mem_flatMap.mp h
    split at hmem
    · next claims r' heq =>
      cases heq
      exact ⟨claims, hentry, hmem⟩
    · cases hmem
  · rintro ⟨claims, hentry, hclaim⟩
    exact List.mem_flatMap.mpr ⟨_, hentry, hclaim⟩

theorem mem_claimedIds {log : Log} {uid : String} : uid ∈ claimedIds log ↔ ClaimedId log uid := by
  simp only [claimedIds, List.mem_map, mem_claimsMade, ClaimedId]

section Clocks
variable {sha256 : String → Bytes} {w : World} {labels : List CreationLabel}
  {t : CreationThread} {m : Maintenance} {uid : String}

/-- A thread's request has arrived before. -/
theorem now_of_thread {bound : ℤ} (hbound : ∀ l ∈ labels, reading l ≤ bound)
    (ht : t ∈ ((creations sha256).after w labels).threads) (hrequest : t.request = .maintain m) :
    m.now ≤ bound := by
  have hnow := hbound _ (System.spawn_mem_of_thread (creations sha256) ht)
  rwa [hrequest] at hnow

theorem readings_le {l : CreationLabel} (hclock : InTime (l :: labels)) :
    ∀ l' ∈ labels, reading l' ≤ reading l :=
  fun _ hl => (List.pairwise_cons.mp hclock).1 _ (List.mem_map_of_mem hl)

/-- A claim was made at the clock of a step. -/
theorem claimClocks_le {bound : ℤ} (hbound : ∀ l ∈ labels, reading l ≤ bound) :
    ∀ clock ∈ claimClocks sha256 w labels uid, clock ≤ bound := by
  intro clock hmem
  obtain ⟨e, he, hclock⟩ := List.mem_filterMap.mp hmem
  obtain ⟨later, l, earlier, rfl, rfl⟩ := Machine.exists_of_mem_events _ he
  have hreading : clock = reading l := by
    unfold claimClock at hclock
    split at hclock
    · split at hclock
      · exact (Option.some.inj hclock).symm
      · cases hclock
    · cases hclock
  exact hreading ▸ hbound l (by simp)

theorem claimClocks_idle {l : CreationLabel}
    (hidle : ((creations sha256).step ((creations sha256).after w labels) l).2 = none) :
    claimClocks sha256 w (l :: labels) uid = claimClocks sha256 w labels uid := by
  have hnone : claimClock sha256 uid (Machine.event (creations sha256).step
      ((creations sha256).after w labels) l) = none := by
    rw [claimClock, Machine.event_reply, hidle]
  exact List.filterMap_cons_none hnone

theorem claimClocks_step {l : CreationLabel} {i : ℕ} {entry : Entry Op.Answer}
    (hstep : ((creations sha256).step ((creations sha256).after w labels) l).2 =
      some (.thread i t entry)) :
    claimClocks sha256 w (l :: labels) uid =
      (if uid ∈ claimedIds [entry] then [reading l] else []) ++
      claimClocks sha256 w labels uid := by
  have hclock : claimClock sha256 uid (Machine.event (creations sha256).step
      ((creations sha256).after w labels) l) =
        if uid ∈ claimedIds [entry] then some (reading l) else none := by
    rw [claimClock, Machine.event_reply, hstep, Machine.event_input]
  by_cases huid : uid ∈ claimedIds [entry]
  · rw [if_pos huid] at hclock ⊢
    exact List.filterMap_cons_some hclock
  · rw [if_neg huid] at hclock ⊢
    exact List.filterMap_cons_none hclock

end Clocks

/-! ### What a creation has made -/

/-- The row is there, and the object once it has been initialized; it is active once activated. -/
structure Kept (w : World) (log : Log) (uid : String) : Prop where
  present : w.status uid ≠ none
  initialized : Initialized log uid → w.user uid ≠ none
  active : Activated log uid → w.status uid = some .active

/-- Only a destruction takes the row of an object away. -/
theorem user_of_call (sha256 : String → Bytes) (o : UserObject) {call : Call}
    (hcall : call ≠ .destroy) (huser : o.tables.user ≠ none) :
    (o.call sha256 call).1.tables.user ≠ none := by
  refine (call_changes sha256 o call).preserves (P := fun t => t.user ≠ none) ?_ huser
  intro t t' hchange ht
  cases hchange with
  | aside h => rwa [h.user]
  | writeUser h => simp
  | clear h => exact absurd h hcall
  | createSession h _ _ =>
    obtain ⟨sessions, _, rfl⟩ := insertSession_ok h
    exact ht
  | rotateSession _ _ h => rwa [rotateSession_ok h]
  | advanceFamily _ _ h _ =>
    obtain ⟨tokens, _, rfl⟩ := advanceFamily_ok h
    exact ht
  | touchSession idleTtl _ _ _ =>
    unfold Tables.touchSession
    split <;> exact ht
  | purge _ | revokeSessions _ _ _ | revokeFamilies _ _ _ | dropFamily _ | issueCode _ _ _ _
  | consumeCode _ _ | openFamily _ _ _ _ _ _ _ _ _ => exact ht

theorem user_of_init (sha256 : String → Bytes) (o : UserObject) {p : InitProfile} {now : ℤ}
    {identities : List NewIdentity} {profile : UserProfile}
    (h : (o.call sha256 (.init p now identities)).2 = .profile (.ok profile)) :
    (o.call sha256 (.init p now identities)).1.tables.user ≠ none := by
  rcases user_init sha256 o p now identities with hkept | ⟨-, hwritten⟩
  · rw [hkept]
    intro hnone
    simp only [UserObject.call, answered, UserObject.init] at h
    split at h
    · cases h
    · next hlive =>
      rw [hnone] at h
      dsimp only at h
      split at h
      · cases h
      · next t hinserted =>
        have hsame := (insertIdentities_sameCore hinserted).user
        simp [UserObject.call, answered, UserObject.init, hlive, hnone, hinserted, UserObject.store,
          hsame] at hkept
  · simp [hwritten]

section Steps
variable {sha256 : String → Bytes} {w : World} {op : Op} {uid : String} {log : Log}

theorem user_of_perform (hdestroy : op ≠ .user uid .destroy) (huser : w.user uid ≠ none) :
    (w.perform sha256 op).1.user uid ≠ none := by
  cases op with
  | d1 statement => exact huser
  | user v call =>
    rw [user_perform]
    split
    · next hv =>
      subst hv
      exact user_of_call sha256 (w.objects uid) (fun h => hdestroy (by rw [h])) huser
    · exact huser

/-- A call that does not take the user away keeps what a creation has made; maintenance writes
no other status than `active`. -/
theorem Kept.perform (sha256 : String → Bytes) (h : Kept w log uid)
    (hremoves : removes op ≠ some uid)
    (hactive : ∀ status now, op = .d1 (.setUserStatus uid status now) → status = .active) :
    Kept (w.perform sha256 op).1 log uid := by
  have huser : w.user uid ≠ none → (w.perform sha256 op).1.user uid ≠ none :=
    user_of_perform fun hop => hremoves (by rw [hop]; rfl)
  have hrow := perform_rowStep sha256 w op uid
  have hpresent := h.present
  have hold := h.active
  generalize w.status uid = before at hrow hpresent hold
  have hstatus : (w.perform sha256 op).1.status uid ≠ none ∧
      (Activated log uid → (w.perform sha256 op).1.status uid = some .active) := by
    generalize (w.perform sha256 op).1.status uid = after at hrow
    cases hrow with
    | kept op s => exact ⟨hpresent, hold⟩
    | written status now s =>
      rw [hactive status now rfl]
      simp
    | activated rows s hmem => simp
    | removed s => exact absurd rfl hremoves
    | claimed claims hmem => exact absurd rfl hpresent
  exact ⟨hstatus.1, fun hinit => huser (h.initialized hinit), hstatus.2⟩

/-- What the step of a creation adds to what it has made. -/
theorem Kept.cons (h : Kept w log uid) (hremoves : removes op ≠ some uid)
    (hactive : ∀ status now, op = .d1 (.setUserStatus uid status now) → status = .active) :
    Kept (w.perform sha256 op).1 (⟨op, (w.perform sha256 op).2⟩ :: log) uid := by
  have hkept := h.perform sha256 hremoves hactive
  refine ⟨hkept.present, ?_, ?_⟩
  · rintro ⟨p, now, identities, profile, hmem⟩
    rcases List.mem_cons.mp hmem with heq | hmem
    · obtain ⟨rfl, hreply⟩ := Sigma.mk.inj heq
      have hanswer : ((w.objects uid).call sha256 (.init p now identities)).2 =
          .profile (.ok profile) := (Option.some.inj (eq_of_heq hreply)).symm
      rw [user_perform, if_pos rfl]
      exact user_of_init sha256 (w.objects uid) hanswer
    · exact hkept.initialized ⟨p, now, identities, profile, hmem⟩
  · rintro ⟨rows, hmem, hrow⟩
    rcases List.mem_cons.mp hmem with heq | hmem
    · obtain ⟨rfl, -⟩ := Sigma.mk.inj heq
      have hstatus : (w.perform sha256 (.d1 (.activateUsers rows))).1.status uid =
          if uid ∈ rows.map (·.1) then (w.status uid).map fun _ => .active else w.status uid :=
        Directory.status_activateUsers w.directory rows uid
      rw [hstatus, if_pos hrow]
      obtain ⟨s, hs⟩ := Option.ne_none_iff_exists'.mp h.present
      rw [hs]
      rfl
    · exact hkept.active ⟨rows, hmem, hrow⟩

/-- A claim makes the row. -/
theorem kept_of_claim {claims : List Directory.UserClaim} {r : Except D1Error Unit}
    (hreply : (w.perform sha256 (.d1 (.claimUsers claims))).2 = (.ok () : Except D1Error Unit))
    (hmem : uid ∈ claims.map (·.id)) (hinit : ¬ Initialized log uid)
    (hactivated : ¬ Activated log uid) :
    Kept (w.perform sha256 (.d1 (.claimUsers claims))).1 (⟨.d1 (.claimUsers claims), r⟩ :: log)
      uid := by
  refine ⟨?_, ?_, ?_⟩
  rotate_left
  · rintro ⟨p, now, identities, profile, hentry⟩
    rcases List.mem_cons.mp hentry with heq | hentry
    · cases heq
    · exact absurd ⟨p, now, identities, profile, hentry⟩ hinit
  · rintro ⟨rows, hentry, hrow⟩
    rcases List.mem_cons.mp hentry with heq | hentry
    · cases heq
    · exact absurd ⟨rows, hentry, hrow⟩ hactivated
  cases hwritten : w.directory.claimUsers claims with
  | error e =>
    have hanswer : (w.perform sha256 (.d1 (.claimUsers claims))).2 = .error e := by
      simp only [World.perform, Directory.run, hwritten, Directory.write]
    rw [hanswer] at hreply
    cases hreply
  | ok d' =>
    have hstatus : (w.perform sha256 (.d1 (.claimUsers claims))).1.status uid = d'.status uid := by
      simp only [World.perform, Directory.run, hwritten, Directory.write, World.status]
    rw [hstatus, (Directory.status_claimUsers hwritten uid).1, if_pos hmem]
    simp

end Steps

/-- The last step of a run is none of maintenance that changes a user claimed less than a minute
before. -/
def SparesRecent (sha256 : String → Bytes) (w : World) (labels : List CreationLabel) : Prop :=
  ∀ i clock earlier, labels = .step i clock :: earlier →
    ∀ t m op uid, ((creations sha256).after w earlier).threads[i]? = some t →
      t.request = .maintain m → t.prog.head = some op → changes op = some uid →
      ∀ claim ∈ claimClocks sha256 w earlier uid, claim + creatingRepairAfterSeconds ≤ clock

/-- Every user reported as created has an active row and an initialized object. -/
def ReportedStand (sha256 : String → Bytes) (w : World) (labels : List CreationLabel) : Prop :=
  ∀ t ∈ ((creations sha256).after w labels).threads, ∀ inputs now results,
    t.request = .create inputs now → t.prog.result = some (.created (some results)) →
    List.Forall₂ (fun input result => ∀ profile, result = .ok profile →
      ((creations sha256).after w labels).shared.status input.id = some .active ∧
      ((creations sha256).after w labels).shared.user input.id ≠ none) inputs results

/-! ### The invariant -/

/-- A row of a claimed user is dated no earlier than its claims, and not marked for deletion. -/
def NotBefore (clocks : List ℤ) (row : RegistryUser) : Prop :=
  ∀ clock ∈ clocks, row.status ≠ .deleting ∧ clock ≤ row.createdAt

/-- The claim has been activated, or its row is no hour old. -/
def Open (labels : List CreationLabel) (log : Log) (claim : Directory.UserClaim) : Prop :=
  Activated log claim.id ∨ ∀ l ∈ labels, reading l ≤ claim.createdAt + creatingDeleteAfterSeconds

/-- The row of the claim is there with what the creation has made, and no run of maintenance has
listed it as an old one. -/
structure Stands (c : CreationConfig) (log : Log) (claim : Directory.UserClaim) : Prop where
  kept : Kept c.shared log claim.id
  dated : c.shared.createdAt claim.id = some claim.createdAt
  spared : ∀ t ∈ c.threads, ∀ m, t.request = .maintain m → t.prog.result = none →
    ∀ row ∈ pending t.log, row.id = claim.id → m.now - creatingDeleteAfterSeconds ≤ row.createdAt

structure InFlight (sha256 : String → Bytes) (w : World) (labels : List CreationLabel)
    (c : CreationConfig) : Prop where
  clocked : ∀ t ∈ c.threads, ∀ uid, ClaimedId t.log uid → claimClocks sha256 w labels uid ≠ []
  rows : ∀ uid row, c.shared.directory.getUser uid = some row →
    NotBefore (claimClocks sha256 w labels uid) row
  lists : ∀ t ∈ c.threads, ∀ m, t.request = .maintain m → t.prog.result = none →
    ∀ row ∈ pending t.log, NotBefore (claimClocks sha256 w labels row.id) row ∧
      (row.status = .creating → row.createdAt + creatingRepairAfterSeconds ≤ m.now)
  stands : ∀ t ∈ c.threads, ∀ claim, Claimed t.log claim → Open labels t.log claim →
    Stands c t.log claim

section Calls
variable {sha256 : String → Bytes} {w : World} {labels : List CreationLabel}
  {t : CreationThread} {uid : String} {op : Op} {m : Maintenance} {log : Log} {row : RegistryUser}

theorem Open.earlier {l : CreationLabel} {claim : Directory.UserClaim}
    (h : Open (l :: labels) log claim) : Open labels log claim :=
  h.imp_right fun hbound l' hl' => hbound l' (List.mem_cons_of_mem _ hl')

theorem changes_of_repairs {v : String} (hop : Repairs v op) (h : changes op = some uid) :
    v = uid := by
  unfold Repairs at hop
  split at hop
  · exact hop.symm.trans (Option.some.inj h)
  · exact hop.symm.trans (Option.some.inj h)
  · cases h
  · cases h
  · exact hop.1.symm.trans (Option.some.inj h)
  · exact hop.elim

theorem changes_of_deletes {v : String} (hop : Deletes v op) (h : changes op = some uid) :
    v = uid := by
  unfold Deletes at hop
  split at hop
  · exact hop.symm.trans (Option.some.inj h)
  · exact hop.symm.trans (Option.some.inj h)
  · exact hop.symm.trans (Option.some.inj h)
  · exact hop.elim

/-- Maintenance changes the user of a row it has yet to work through. -/
theorem handled_of_changes (h : MaintenancePermits m log op)
    (hlisted : ∀ entry ∈ log, ListedRows entry) (hchanges : changes op = some uid) :
    ∃ row ∈ pending log, row.id = uid ∧ Handles m row op := by
  rcases h with hlists | hworks
  · unfold changes at hchanges
    split at hchanges <;> first | exact hlists.elim | cases hchanges
  · obtain ⟨row, hrow, hhandles⟩ := hworks hlisted
    refine ⟨row, hrow, ?_, hhandles⟩
    cases hhandles with
    | dropped => exact Option.some.inj hchanges
    | repaired _ hop => exact changes_of_repairs hop hchanges
    | deleted _ hop => exact changes_of_deletes hop hchanges

theorem changes_of_removes (h : removes op = some uid) : changes op = some uid := by
  unfold removes at h
  split at h
  · exact h
  · exact h
  · cases h

/-- A run takes away users marked for deletion, and those whose row it takes for an old one. -/
theorem old_of_removes (h : Handles m row op) (hremoves : removes op = some uid) :
    row.status = .deleting ∨ row.createdAt < m.now - creatingDeleteAfterSeconds := by
  cases h with
  | dropped _ hold => exact .inr hold
  | deleted hstatus _ => exact .inl hstatus
  | repaired _ hop =>
    unfold removes at hremoves
    split at hremoves
    · exact hop.elim
    · exact hop.elim
    · cases hremoves

/-- A step's claims, made by a statement that the directory has admitted. -/
theorem exists_of_claimsMade {s : World} {claim : Directory.UserClaim}
    (h : claim ∈ claimsMade [⟨op, (s.perform sha256 op).2⟩]) :
    ∃ claims d', op = .d1 (.claimUsers claims) ∧ s.directory.claimUsers claims = .ok d' ∧
      claim ∈ claims := by
  obtain ⟨claims, hmem, hclaim⟩ := mem_claimsMade.mp h
  obtain ⟨rfl, hreply⟩ := Sigma.mk.inj (List.mem_singleton.mp hmem)
  have hanswer := eq_of_heq hreply
  cases hwritten : s.directory.claimUsers claims with
  | error e =>
    simp only [World.perform, Directory.run, hwritten, Directory.write] at hanswer
    cases hanswer
  | ok d' => exact ⟨claims, d', rfl, hwritten, hclaim⟩

theorem exists_of_claimedIds {s : World}
    (h : uid ∈ claimedIds [⟨op, (s.perform sha256 op).2⟩]) :
    ∃ claims d', op = .d1 (.claimUsers claims) ∧ s.directory.claimUsers claims = .ok d' ∧
      uid ∈ claims.map (·.id) := by
  obtain ⟨claim, hclaim, rfl⟩ := List.mem_map.mp h
  obtain ⟨claims, d', hop, hok, hmem⟩ := exists_of_claimsMade hclaim
  exact ⟨claims, d', hop, hok, List.mem_map_of_mem hmem⟩

theorem directory_of_claimUsers {s : World} {claims : List Directory.UserClaim} {d' : Directory}
    (h : s.directory.claimUsers claims = .ok d') :
    (s.perform sha256 (.d1 (.claimUsers claims))).1.directory = d' ∧
      (s.perform sha256 (.d1 (.claimUsers claims))).2 = (.ok () : Except D1Error Unit) := by
  simp only [World.perform, Directory.run, h, Directory.write, and_self]

/-- A call adds to the rows to work through what it lists. -/
theorem pending_perform {s : World}
    (hrow : row ∈ pending (⟨op, (s.perform sha256 op).2⟩ :: log)) :
    row ∈ pending log ∨ ∃ status createdBefore limit,
      op = .d1 (.listUsers status createdBefore limit) ∧
        row ∈ s.directory.listUsers status createdBefore limit := by
  rw [pending_cons] at hrow
  unfold leftBy at hrow
  split at hrow
  · next status createdBefore limit rows heq =>
    obtain ⟨rfl, hreply⟩ := Sigma.mk.inj heq
    cases Except.ok.inj (eq_of_heq hreply)
    exact .inr ⟨status, createdBefore, limit, rfl, hrow⟩
  · exact .inl (List.mem_filter.mp hrow).1
  · exact .inl hrow

theorem claimed_cons {entry : Entry Op.Answer} {claim : Directory.UserClaim} :
    Claimed (entry :: log) claim ↔ claim ∈ claimsMade [entry] ∨ Claimed log claim := by
  simp only [← mem_claimsMade, claimsMade, List.flatMap_cons, List.flatMap_nil, List.append_nil,
    List.mem_append]

theorem claimedId_cons {entry : Entry Op.Answer} :
    ClaimedId (entry :: log) uid ↔ uid ∈ claimedIds [entry] ∨ ClaimedId log uid := by
  simp only [← mem_claimedIds, claimedIds, claimsMade, List.flatMap_cons, List.flatMap_nil,
    List.append_nil, List.map_append, List.mem_append]

/-- Nothing is initialized or activated before the claims are made. -/
theorem unmade_of_claiming (hlog : ∀ entry ∈ log, isClaiming entry.1 = true) (uid : String) :
    ¬ Initialized log uid ∧ ¬ Activated log uid := by
  constructor
  · rintro ⟨p, now, identities, profile, hmem⟩
    exact absurd (hlog _ hmem) (by simp [isClaiming])
  · rintro ⟨rows, hmem, -⟩
    exact absurd (hlog _ hmem) (by simp [isClaiming])

theorem lists_of_permits {status : UserStatus} {createdBefore : Option ℤ} {limit : ℕ}
    (h : MaintenancePermits m log (.d1 (.listUsers status createdBefore limit)))
    (hlisted : ∀ entry ∈ log, ListedRows entry) :
    IsListing m (.d1 (.listUsers status createdBefore limit)) := by
  rcases h with hlists | hworks
  · exact hlists
  · obtain ⟨row, -, hhandles⟩ := hworks hlisted
    cases hhandles with
    | repaired _ hop => exact hop.elim
    | deleted _ hop => exact hop.elim

end Calls

/-! ### One step -/

/-- A turn of a thread in a run that meets the condition. -/
structure Turn (sha256 : String → Bytes) (w : World) (labels : List CreationLabel)
    (c : CreationConfig) (i : ℕ) (clock : ℤ) (t : CreationThread) (op : Op) : Prop where
  thread : c.threads[i]? = some t
  running : t.prog.head = some op
  permitted : InFlightPermits t.request t.log op
  listed : ∀ t ∈ c.threads, ∀ entry ∈ t.log, ListedRows entry
  meets : timely c (.step i clock) = true
  arrived : ∀ t ∈ c.threads, .spawn t.request ∈ labels
  bound : ∀ l ∈ labels, reading l ≤ clock
  clocks : ∀ uid, claimClocks sha256 w (.step i clock :: labels) uid =
    (if uid ∈ claimedIds [⟨op, (c.shared.perform sha256 op).2⟩] then [clock] else []) ++
      claimClocks sha256 w labels uid

section Step
variable {sha256 : String → Bytes} {w : World} {labels : List CreationLabel} {c : CreationConfig}
  {i : ℕ} {clock : ℤ} {t t' : CreationThread} {op : Op} {uid : String}
  {claim : Directory.UserClaim} {log : Log}

theorem Turn.mem (h : Turn sha256 w labels c i clock t op) : t ∈ c.threads :=
  List.mem_of_getElem? h.thread

theorem Turn.result (h : Turn sha256 w labels c i clock t op) : t.prog.result = none := by
  have hrunning := h.running
  cases hprog : t.prog with
  | done a =>
    rw [hprog] at hrunning
    cases hrunning
  | call op next => rfl

theorem Turn.writes_active (h : Turn sha256 w labels c i clock t op) {status : UserStatus}
    {now : ℤ} (hop : op = .d1 (.setUserStatus uid status now)) : status = .active := by
  have hperm := h.permitted
  subst hop
  cases hrequest : t.request with
  | create inputs instant =>
    rw [hrequest] at hperm
    exact hperm.elim
  | maintain m =>
    rw [hrequest] at hperm
    obtain ⟨row, -, -, hhandles⟩ :=
      handled_of_changes (m := m) hperm (h.listed t h.mem) rfl
    cases hhandles with
    | repaired _ hop => exact hop.2
    | deleted _ hop => exact hop.elim

/-- What the condition says of the claims of a turn. -/
theorem Turn.claims {claims : List Directory.UserClaim} {d' : Directory}
    (h : Turn sha256 w labels c i clock t (.d1 (.claimUsers claims)))
    (hok : c.shared.directory.claimUsers claims = .ok d') (hclaim : claim ∈ claims) :
    clock ≤ claim.createdAt ∧ unlisted c claim.id = true := by
  obtain ⟨q, log, prog⟩ := t
  have hrunning := h.running
  have htimely := h.meets
  cases prog with
  | done a => cases hrunning
  | call op' next =>
    cases Option.some.inj hrunning
    simp only [timely, h.thread, hok, Except.toBool, Bool.not_true, Bool.false_or] at htimely
    have hall := List.all_eq_true.mp htimely claim hclaim
    rw [Bool.and_eq_true, decide_eq_true_eq] at hall
    exact hall

/-- What the condition says of an activation. -/
theorem Turn.activates {rows : List (String × ℤ)}
    (h : Turn sha256 w labels c i clock t (.d1 (.activateUsers rows)))
    (hclaim : Claimed t.log claim) (hmem : claim.id ∈ rows.map (·.1)) :
    clock ≤ claim.createdAt + creatingDeleteAfterSeconds := by
  obtain ⟨q, log, prog⟩ := t
  have hrunning := h.running
  have htimely := h.meets
  cases prog with
  | done a => cases hrunning
  | call op' next =>
    cases Option.some.inj hrunning
    simp only [timely, h.thread] at htimely
    have hall := List.all_eq_true.mp htimely claim (mem_claimsMade.mpr hclaim)
    have hcontains : (rows.map (·.1)).contains claim.id = true := by
      simpa [List.contains_iff_mem] using hmem
    rw [hcontains, Bool.not_true, Bool.false_or, decide_eq_true_eq] at hall
    exact hall

/-- A claimed user had no row. -/
theorem status_of_claimedIds (huid : uid ∈ claimedIds [⟨op, (c.shared.perform sha256 op).2⟩]) :
    c.shared.status uid = none := by
  obtain ⟨claims, d', -, hok, hmem⟩ := exists_of_claimedIds huid
  exact (Directory.status_claimUsers hok uid).2 hmem

theorem Turn.clocks_of_row (h : Turn sha256 w labels c i clock t op)
    (hstatus : c.shared.status uid ≠ none) : claimClocks sha256 w (.step i clock :: labels) uid =
      claimClocks sha256 w labels uid := by
  rw [h.clocks, if_neg fun huid => hstatus (status_of_claimedIds huid), List.nil_append]

/-- No row of a claimed user is dated before its claims after the turn. -/
theorem InFlight.rows_turn (hinv : InFlight sha256 w labels c)
    (h : Turn sha256 w labels c i clock t op) {row : RegistryUser}
    (hrow : (c.shared.perform sha256 op).1.directory.getUser uid = some row) :
    NotBefore (claimClocks sha256 w (.step i clock :: labels) uid) row := by
  have hstatus : (c.shared.perform sha256 op).1.status uid = some row.status :=
    congrArg (Option.map RegistryUser.status) hrow
  have hdate : (c.shared.perform sha256 op).1.createdAt uid = some row.createdAt :=
    congrArg (Option.map RegistryUser.createdAt) hrow
  have hdates := perform_dateStep sha256 c.shared op uid
  rw [hdate] at hdates
  generalize hbefore : c.shared.createdAt uid = before at hdates
  generalize hafter : row.createdAt = after at hdates
  cases hdates with
  | kept =>
    obtain ⟨old, hold, hsame⟩ := Option.map_eq_some_iff.mp hbefore
    have holdStatus : c.shared.status uid = some old.status :=
      congrArg (Option.map RegistryUser.status) hold
    rw [h.clocks_of_row (by simp [holdStatus])]
    intro claimed hclaimed
    obtain ⟨hundeleted, hle⟩ := hinv.rows uid old hold claimed hclaimed
    refine ⟨?_, by omega⟩
    -- A status written meanwhile is `active`.
    have hsteps := perform_rowStep sha256 c.shared op uid
    rw [hstatus, holdStatus] at hsteps
    generalize old.status = s at hsteps hundeleted
    generalize row.status = s' at hsteps
    cases hsteps with
    | kept => exact hundeleted
    | written status now => rw [h.writes_active rfl]; simp
    | activated => simp
  | claimed claims claim hmem hid =>
    subst hid
    cases hok : c.shared.directory.claimUsers claims with
    | error e =>
      -- A refused batch makes no row.
      have hkept : (c.shared.perform sha256 (.d1 (.claimUsers claims))).1.createdAt claim.id =
          c.shared.createdAt claim.id := by
        simp only [World.perform, Directory.run, hok, Directory.write, World.createdAt]
      rw [hkept, hbefore] at hdate
      cases hdate
    | ok d' =>
      have hcreating := (Directory.status_claimUsers hok claim.id).1
      rw [if_pos (List.mem_map_of_mem hmem)] at hcreating
      have hrowStatus : row.status = .creating := by
        have hsame : (c.shared.perform sha256 (.d1 (.claimUsers claims))).1.status claim.id =
            d'.status claim.id := by
          rw [World.status, (directory_of_claimUsers hok).1]
        rw [hsame, hcreating] at hstatus
        exact (Option.some.inj hstatus).symm
      obtain ⟨hdated, -⟩ := h.claims hok hmem
      intro claimed hclaimed
      refine ⟨by simp [hrowStatus], ?_⟩
      have hle : claimed ≤ clock := by
        rw [h.clocks, List.mem_append] at hclaimed
        rcases hclaimed with hnow | hearlier
        · split at hnow
          · rw [List.mem_singleton.mp hnow]
          · cases hnow
        · exact claimClocks_le h.bound claimed hearlier
      omega

/-- A user who is claimed in the turn is on no list. -/
theorem Turn.clocks_of_pending (h : Turn sha256 w labels c i clock t op) (ht : t' ∈ c.threads)
    (hresult : t'.prog.result = none) {row : RegistryUser} (hrow : row ∈ pending t'.log) :
    claimClocks sha256 w (.step i clock :: labels) row.id =
      claimClocks sha256 w labels row.id := by
  rw [h.clocks, if_neg, List.nil_append]
  intro huid
  obtain ⟨claims, d', rfl, hok, hmem⟩ := exists_of_claimedIds huid
  obtain ⟨claim, hclaim, hid⟩ := List.mem_map.mp hmem
  have hunlisted := List.all_eq_true.mp (h.claims hok hclaim).2 t' ht
  rw [hresult, Option.isSome_none, Bool.false_or, List.all_eq_true] at hunlisted
  have hne := hunlisted row hrow
  simp [hid] at hne

/-- No list names a claimed user with a row from before the claim after the turn. -/
theorem InFlight.lists_turn (hinv : InFlight sha256 w labels c)
    (h : Turn sha256 w labels c i clock t op) {m : Maintenance} (hrequest : t.request = .maintain m)
    {row : RegistryUser}
    (hrow : row ∈ pending (⟨op, (c.shared.perform sha256 op).2⟩ :: t.log)) :
    NotBefore (claimClocks sha256 w (.step i clock :: labels) row.id) row ∧
      (row.status = .creating → row.createdAt + creatingRepairAfterSeconds ≤ m.now) := by
  rcases pending_perform hrow with hold | ⟨status, createdBefore, limit, rfl, hlist⟩
  · rw [h.clocks_of_pending h.mem h.result hold]
    exact hinv.lists t h.mem m hrequest h.result row hold
  · have hget := getUser_of_listUsers hlist
    constructor
    · exact hinv.rows_turn h hget
    · intro hcreating
      obtain ⟨hsame, hbefore⟩ := (listUsers_rows _ _ _ _).2 row hlist
      have hperm := h.permitted
      rw [hrequest] at hperm
      rcases lists_of_permits hperm (h.listed t h.mem) with ⟨-, hinstant⟩ | hdeleting
      · have hle := hbefore _ hinstant
        omega
      · rw [hsame, hdeleting] at hcreating
        cases hcreating

theorem Turn.not_removed (h : Turn sha256 w labels c i clock t op)
    (hinv : InFlight sha256 w labels c) (hstands : Stands c log claim)
    (hclocks : claimClocks sha256 w labels claim.id ≠ []) : removes op ≠ some claim.id := by
  intro hremoves
  have hperm := h.permitted
  cases hrequest : t.request with
  | create inputs now =>
    rw [hrequest] at hperm
    unfold removes at hremoves
    split at hremoves
    · exact hperm
    · exact hperm
    · cases hremoves
  | maintain m =>
    rw [hrequest] at hperm
    obtain ⟨row, hrow, hid, hhandles⟩ :=
      handled_of_changes hperm (h.listed t h.mem) (changes_of_removes hremoves)
    rcases old_of_removes hhandles hremoves with hdeleting | hold
    · obtain ⟨claimed, hclaimed⟩ := List.exists_mem_of_ne_nil _ hclocks
      rw [← hid] at hclaimed
      exact ((hinv.lists t h.mem m hrequest h.result row hrow).1 claimed hclaimed).1 hdeleting
    · have hyoung := hstands.spared t h.mem m hrequest h.result row hrow hid
      omega

theorem Stands.dated_turn (hstands : Stands c log claim)
    (hremoves : removes op ≠ some claim.id) :
    (c.shared.perform sha256 op).1.createdAt claim.id = some claim.createdAt := by
  have hdates := perform_dateStep sha256 c.shared op claim.id
  rw [hstands.dated] at hdates
  generalize claim.createdAt = date at hdates
  generalize (c.shared.perform sha256 op).1.createdAt claim.id = after at hdates
  cases hdates with
  | kept => rfl
  | removed => exact absurd rfl hremoves

/-- What the turn lists of a claim's user is the row of the claim. -/
theorem Stands.spared_turn (hstands : Stands c log claim) (hopen : Open labels log claim)
    (h : Turn sha256 w labels c i clock t op) {m : Maintenance} (hrequest : t.request = .maintain m)
    {row : RegistryUser}
    (hrow : row ∈ pending (⟨op, (c.shared.perform sha256 op).2⟩ :: t.log))
    (hid : row.id = claim.id) : m.now - creatingDeleteAfterSeconds ≤ row.createdAt := by
  rcases pending_perform hrow with hold | ⟨status, createdBefore, limit, rfl, hlist⟩
  · exact hstands.spared t h.mem m hrequest h.result row hold hid
  · have hget := getUser_of_listUsers hlist
    rw [hid] at hget
    have hdate : c.shared.createdAt claim.id = some row.createdAt :=
      congrArg (Option.map RegistryUser.createdAt) hget
    rw [hstands.dated] at hdate
    have hsame := Option.some.inj hdate
    rcases hopen with hactivated | hbound
    · -- An active row is on neither list.
      have hstatus : c.shared.status claim.id = some row.status :=
        congrArg (Option.map RegistryUser.status) hget
      rw [hstands.kept.active hactivated] at hstatus
      have hactive := ((listUsers_rows _ _ _ _).2 row hlist).1
      rw [← Option.some.inj hstatus] at hactive
      have hperm := h.permitted
      rw [hrequest] at hperm
      rcases lists_of_permits hperm (h.listed t h.mem) with ⟨hcreating, -⟩ | hdeleting
      · rw [hcreating] at hactive
        cases hactive
      · rw [hdeleting] at hactive
        cases hactive
    · have hnow := hbound _ (h.arrived t h.mem)
      rw [hrequest] at hnow
      change m.now ≤ _ at hnow
      omega

/-- The claims of a turn come before the other steps of their creation. -/
theorem Turn.unmade {claims : List Directory.UserClaim}
    (h : Turn sha256 w labels c i clock t (.d1 (.claimUsers claims))) (uid : String) :
    ¬ Initialized t.log uid ∧ ¬ Activated t.log uid := by
  have hperm := h.permitted
  cases hrequest : t.request with
  | create inputs now =>
    rw [hrequest] at hperm
    exact unmade_of_claiming hperm uid
  | maintain m =>
    rw [hrequest] at hperm
    rcases hperm with hlists | hworks
    · exact hlists.elim
    · obtain ⟨row, -, hhandles⟩ := hworks (h.listed t h.mem)
      cases hhandles with
      | repaired _ hop => exact hop.elim
      | deleted _ hop => exact hop.elim

/-- A claim that stands after the turn, once what its creation has made does. -/
theorem Stands.turn {log' : Log} (hstands : Stands c log claim) (hopen : Open labels log claim)
    (h : Turn sha256 w labels c i clock t op) (hremoves : removes op ≠ some claim.id)
    (hkept : Kept (c.shared.perform sha256 op).1 log' claim.id) (prog : Program CreationAnswer) :
    Stands ⟨(c.shared.perform sha256 op).1,
      c.threads.set i ⟨t.request, ⟨op, (c.shared.perform sha256 op).2⟩ :: t.log, prog⟩⟩
      log' claim := by
  refine ⟨hkept, hstands.dated_turn hremoves, ?_⟩
  intro t' ht' m hrequest hresult row hrow hid
  rcases Threads.exists_of_mem_set ht' with rfl | ⟨j, -, hj⟩
  · exact hstands.spared_turn hopen h hrequest hrow hid
  · exact hstands.spared t' (List.mem_of_getElem? hj) m hrequest hresult row hrow hid

/-- A claim that the turn has made. -/
theorem Turn.stands_of_claim (h : Turn sha256 w labels c i clock t op)
    (hclaim : claim ∈ claimsMade [⟨op, (c.shared.perform sha256 op).2⟩])
    (prog : Program CreationAnswer) :
    Stands ⟨(c.shared.perform sha256 op).1,
      c.threads.set i ⟨t.request, ⟨op, (c.shared.perform sha256 op).2⟩ :: t.log, prog⟩⟩
      (⟨op, (c.shared.perform sha256 op).2⟩ :: t.log) claim := by
  obtain ⟨claims, d', rfl, hok, hmem⟩ := exists_of_claimsMade hclaim
  obtain ⟨hdirectory, hreply⟩ :
      (c.shared.perform sha256 (.d1 (.claimUsers claims))).1.directory = d' ∧
        (c.shared.perform sha256 (.d1 (.claimUsers claims))).2 = (.ok () : Except D1Error Unit) :=
    directory_of_claimUsers hok
  obtain ⟨hinit, hactivated⟩ := h.unmade claim.id
  refine ⟨kept_of_claim hreply (List.mem_map_of_mem hmem) hinit hactivated, ?_, ?_⟩
  · rw [World.createdAt, hdirectory]
    exact Directory.createdAt_claimUsers hok hmem
  · -- No list under way has the user.
    have hunlisted := List.all_eq_true.mp (h.claims hok hmem).2
    have hnone : ∀ t' ∈ c.threads, t'.prog.result = none → ∀ row ∈ pending t'.log,
        row.id ≠ claim.id := by
      intro t' ht' hresult row hrow
      have hlist := hunlisted t' ht'
      rw [hresult, Option.isSome_none, Bool.false_or, List.all_eq_true] at hlist
      simpa using hlist row hrow
    intro t' ht' m hrequest hresult row hrow hid
    rcases Threads.exists_of_mem_set ht' with rfl | ⟨j, -, hj⟩
    · exact absurd hid (hnone t h.mem h.result row hrow)
    · exact absurd hid (hnone t' (List.mem_of_getElem? hj) hresult row hrow)

/-- An activation in time finds the claim's row no hour old. -/
theorem Turn.open_before (h : Turn sha256 w labels c i clock t op) (hclaim : Claimed t.log claim)
    (hopen : Open (.step i clock :: labels)
      (⟨op, (c.shared.perform sha256 op).2⟩ :: t.log) claim) : Open labels t.log claim := by
  rcases hopen with ⟨rows, hmem, hrow⟩ | hbound
  · rcases List.mem_cons.mp hmem with heq | hmem
    · obtain ⟨rfl, -⟩ := Sigma.mk.inj heq
      have hle := h.activates hclaim hrow
      exact .inr fun l hl => (h.bound l hl).trans hle
    · exact .inl ⟨rows, hmem, hrow⟩
  · exact .inr fun l hl => hbound l (List.mem_cons_of_mem _ hl)

theorem InFlight.turn (hinv : InFlight sha256 w labels c)
    (h : Turn sha256 w labels c i clock t op) (prog : Program CreationAnswer) :
    InFlight sha256 w (.step i clock :: labels) ⟨(c.shared.perform sha256 op).1,
      c.threads.set i ⟨t.request, ⟨op, (c.shared.perform sha256 op).2⟩ :: t.log, prog⟩⟩ where
  clocked := by
    intro t' ht' uid hclaimed
    rw [h.clocks]
    rcases Threads.exists_of_mem_set ht' with rfl | ⟨j, -, hj⟩
    · rcases claimedId_cons.mp hclaimed with hnow | hearlier
      · simp [hnow]
      · exact List.append_ne_nil_of_right_ne_nil _ (hinv.clocked t h.mem uid hearlier)
    · exact List.append_ne_nil_of_right_ne_nil _
        (hinv.clocked t' (List.mem_of_getElem? hj) uid hclaimed)
  rows := fun uid row hrow => hinv.rows_turn h hrow
  lists := by
    intro t' ht' m hrequest hresult row hrow
    rcases Threads.exists_of_mem_set ht' with rfl | ⟨j, -, hj⟩
    · exact hinv.lists_turn h hrequest hrow
    · have hold := List.mem_of_getElem? hj
      rw [h.clocks_of_pending hold hresult hrow]
      exact hinv.lists t' hold m hrequest hresult row hrow
  stands := by
    intro t' ht' claim hclaimed hopen
    rcases Threads.exists_of_mem_set ht' with rfl | ⟨j, -, hj⟩
    · rcases claimed_cons.mp hclaimed with hnow | hearlier
      · exact h.stands_of_claim hnow prog
      · have hbefore := h.open_before hearlier hopen
        have hstands := hinv.stands t h.mem claim hearlier hbefore
        have hremoves := h.not_removed hinv hstands
          (hinv.clocked t h.mem claim.id ⟨claim, hearlier, rfl⟩)
        exact hstands.turn hbefore h hremoves
          (hstands.kept.cons hremoves fun status now => h.writes_active) prog
    · have hold := List.mem_of_getElem? hj
      have hstands := hinv.stands t' hold claim hclaimed hopen.earlier
      have hremoves := h.not_removed hinv hstands
        (hinv.clocked t' hold claim.id ⟨claim, hclaimed, rfl⟩)
      exact hstands.turn hopen.earlier h hremoves
        (hstands.kept.perform sha256 hremoves fun status now => h.writes_active) prog

end Step

section Runs
variable {sha256 : String → Bytes} {w : World} {labels : List CreationLabel}

theorem listed_run (sha256 : String → Bytes) (w : World) (labels : List CreationLabel) :
    ∀ t ∈ ((creations sha256).after w labels).threads, ∀ entry ∈ t.log, ListedRows entry :=
  (System.shared_invariant (creations_follow sha256) (I := fun _ => True) (E := ListedRows) trivial
    (fun s _ op _ _ => ⟨trivial, perform_listedRows sha256 s op⟩) labels).2

theorem InFlight.idle {c : CreationConfig} (h : InFlight sha256 w labels c) {l : CreationLabel}
    (hclocks : ∀ uid, claimClocks sha256 w (l :: labels) uid = claimClocks sha256 w labels uid) :
    InFlight sha256 w (l :: labels) c where
  clocked := fun t ht uid hclaimed => hclocks uid ▸ h.clocked t ht uid hclaimed
  rows := fun uid row hrow => hclocks uid ▸ h.rows uid row hrow
  lists := fun t ht m hrequest hresult row hrow =>
    hclocks row.id ▸ h.lists t ht m hrequest hresult row hrow
  stands := fun t ht claim hclaimed hopen => h.stands t ht claim hclaimed hopen.earlier

/-- A request that arrives has listed and claimed nothing. -/
theorem InFlight.spawn {c : CreationConfig} (h : InFlight sha256 w labels c)
    (q : CreationRequest) : InFlight sha256 w labels ⟨c.shared, c.threads ++ [⟨q, [], q.run⟩]⟩ where
  clocked := by
    intro t ht uid hclaimed
    rcases List.mem_append.mp ht with ht | ht
    · exact h.clocked t ht uid hclaimed
    · cases List.mem_singleton.mp ht
      obtain ⟨claim, ⟨claims, hmem, -⟩, -⟩ := hclaimed
      cases hmem
  rows := h.rows
  lists := by
    intro t ht m hrequest hresult row hrow
    rcases List.mem_append.mp ht with ht | ht
    · exact h.lists t ht m hrequest hresult row hrow
    · cases List.mem_singleton.mp ht
      cases hrow
  stands := by
    intro t ht claim hclaimed hopen
    rcases List.mem_append.mp ht with ht | ht
    · have hstands := h.stands t ht claim hclaimed hopen
      refine ⟨hstands.kept, hstands.dated, ?_⟩
      intro t' ht' m hrequest hresult row hrow hid
      rcases List.mem_append.mp ht' with ht' | ht'
      · exact hstands.spared t' ht' m hrequest hresult row hrow hid
      · cases List.mem_singleton.mp ht'
        cases hrow
    · cases List.mem_singleton.mp ht
      obtain ⟨claims, hmem, -⟩ := hclaimed
      cases hmem

theorem inFlight_run (hclock : InTime labels) (htimely : Timely sha256 w labels) :
    InFlight sha256 w labels ((creations sha256).after w labels) := by
  induction labels with
  | nil =>
    refine ⟨?_, ?_, ?_, ?_⟩
    · intro t ht
      cases ht
    · intro uid row _ clock hmem
      cases hmem
    · intro t ht
      cases ht
    · intro t ht
      cases ht
  | cons l labels ih =>
    have hinv := ih (List.pairwise_cons.mp hclock).2 htimely.2
    cases l with
    | spawn q => exact (hinv.spawn q).idle fun uid => claimClocks_idle rfl
    | outside op clock => exact hinv.idle fun uid => claimClocks_idle rfl
    | step i clock =>
      rcases System.step_turn (creations sha256) ((creations sha256).after w labels) i clock with
        ⟨hstep, -⟩ | ⟨t, op, next, hi, hp, hstep⟩
      · rw [System.after, Machine.after_cons]
        change InFlight sha256 w _ ((creations sha256).step _ _).1
        rw [hstep]
        exact hinv.idle fun uid => claimClocks_idle (congrArg Prod.snd hstep)
      · have ht := List.mem_of_getElem? hi
        have hobeys := System.thread_obeys (creations_follow sha256) w labels t ht
        rw [hp] at hobeys
        have hturn : Turn sha256 w labels ((creations sha256).after w labels) i clock t op :=
          { thread := hi
            running := by rw [hp]; rfl
            permitted := hobeys.1
            listed := listed_run sha256 w labels
            meets := htimely.1
            arrived := fun t ht => System.spawn_mem_of_thread (creations sha256) ht
            bound := readings_le hclock
            clocks := fun uid => claimClocks_step (congrArg Prod.snd hstep) }
        rw [System.after, Machine.after_cons]
        change InFlight sha256 w _ ((creations sha256).step _ _).1
        rw [hstep]
        exact hinv.turn hturn _

/-- Maintenance changes no user that was claimed less than a minute ago, and every user that a
creation has reported as created has an active row and an initialized object, in every run whose
claims are not dated before they are made, name no user that a run of maintenance still has on its
list, and are activated within the hour of their dates. -/
theorem creation_in_flight_kept (sha256 : String → Bytes) (w : World) (labels : List CreationLabel)
    (hclock : InTime labels) (htimely : Timely sha256 w labels) :
    SparesRecent sha256 w labels ∧ ReportedStand sha256 w labels := by
  constructor
  · rintro i clock earlier rfl t m op uid hi hrequest hhead hchanges claim hclaim
    have hinv := inFlight_run (List.pairwise_cons.mp hclock).2 htimely.2
    have ht := List.mem_of_getElem? hi
    have hobeys := System.thread_obeys (creations_follow sha256) w earlier t ht
    have hnow : m.now ≤ clock := now_of_thread (readings_le hclock) ht hrequest
    cases hprog : t.prog with
    | done a =>
      rw [hprog] at hhead
      cases hhead
    | call op' next =>
      rw [hprog] at hhead hobeys
      cases Option.some.inj hhead
      have hperm := hobeys.1
      rw [hrequest] at hperm
      obtain ⟨row, hrow, rfl, hhandles⟩ :=
        handled_of_changes (m := m) hperm (listed_run sha256 w earlier t ht) hchanges
      -- The row is the one of the claim, and old enough to be listed.
      obtain ⟨hdated, hlisted⟩ := hinv.lists t ht m hrequest (by rw [hprog]; rfl) row hrow
      obtain ⟨hundeleted, hle⟩ := hdated claim hclaim
      have hcreating : row.status = .creating := by
        cases hhandles with
        | dropped hstatus | repaired hstatus => exact hstatus
        | deleted hstatus => exact absurd hstatus hundeleted
      have hold := hlisted hcreating
      omega
  · intro t ht inputs now results hrequest hresult
    have hinv := inFlight_run hclock htimely
    have hends := System.thread_obeys_to (S := creations sha256) CreationRequest.run_obeys w
      labels t ht
    rw [Prog.result_eq_some.mp hresult, hrequest] at hends
    refine List.Forall₂.imp (fun input result hcreated profile heq => ?_) hends
    have hdone := hcreated profile heq
    obtain ⟨claim, hclaimed, hid⟩ := hdone.claimed
    rw [← hid] at hdone ⊢
    have hkept := (hinv.stands t ht claim hclaimed (.inl hdone.activated)).kept
    exact ⟨hkept.active hdone.activated, hkept.initialized hdone.initialized⟩

end Runs

/-! ### An import with an old date -/

namespace Sample

/-- A user named by a line of an import, who was created long ago elsewhere. -/
def imported (createdAt : ℤ) : NewUser where
  id := "u1"
  email := none
  emailVerified := false
  displayName := none
  groups := []
  identities := []
  createdAt := some createdAt

def sweep (now : ℤ) : Maintenance := ⟨now, fun _ => true, fun _ => "i1"⟩

def ticks (thread : ℕ) (clocks : List ℤ) : List CreationLabel :=
  (clocks.map fun clock => .step thread clock).reverse

/-- A run of maintenance two minutes after a creation that stands at its activation. -/
def sweptLater : List CreationLabel :=
  ticks 0 [130] ++ ticks 1 [120, 120, 120, 120, 120] ++ .spawn (.maintain (sweep 120)) ::
    ticks 0 [0, 0, 0] ++ [.spawn (.create [imported 0] 0)]

/-- A run of maintenance between the claim and the object of a user dated long ago. -/
def sweptAtOnce : List CreationLabel :=
  ticks 0 [10000, 10000] ++ ticks 1 [10000, 10000] ++ .spawn (.maintain (sweep 10000)) ::
    ticks 0 [10000, 10000] ++ [.spawn (.create [imported 0] 10000)]

end Sample

theorem creation_in_flight_kept_sample :
    SparesRecent (fun _ => []) .fresh Sample.sweptLater ∧
      ReportedStand (fun _ => []) .fresh Sample.sweptLater :=
  creation_in_flight_kept (fun _ => []) .fresh Sample.sweptLater (by decide)
    (by decide)

/-- A user of an import with an old date is dropped in the second of its claim, and is reported as
created without a row. -/
theorem imported_user_dropped :
    ¬ (∀ (sha256 : String → Bytes) (w : World) (labels : List CreationLabel), InTime labels →
        SparesRecent sha256 w labels) ∧
      ¬ ∀ (sha256 : String → Bytes) (w : World) (labels : List CreationLabel), InTime labels →
        ReportedStand sha256 w labels := by
  constructor
  · intro hall
    have hspared := hall (fun _ => []) .fresh (Sample.sweptAtOnce.drop 2) (by decide) 1
      10000 (Sample.sweptAtOnce.drop 3) rfl _ (Sample.sweep 10000) (.d1 (.deleteUserRow "u1")) "u1"
      rfl rfl (by decide) rfl 10000 (by decide)
    exact absurd hspared (by decide)
  · intro hall
    have hstands := hall (fun _ => []) .fresh Sample.sweptAtOnce (by decide) _
      (List.mem_cons_self ..) [Sample.imported 0] 10000
      [.ok (User.profile (UserObject.newUserRow ⟨"u1", none, none, false, none, []⟩ 0))] rfl
      rfl
    have hrow := (List.forall₂_cons.mp hstands).1 _ rfl
    exact absurd hrow.1 (by decide)

end TinyOidc.Account
