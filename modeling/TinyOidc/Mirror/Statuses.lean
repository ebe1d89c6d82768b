import TinyOidc.Mirror.Rebuilding
import TinyOidc.User.Beside

/-! The status that a user's object asks for and the one that the row has, under the admin
operations: only an enabling or a disabling changes either, the object first and then the row. -/
namespace TinyOidc.Mirror
open RowTable TinyOidc.User TinyOidc.Account
open TinyOidc.Interaction (UserStatus)
open Batches (bind_eq_ok)

def Stores.heldStatus (s : Stores) (uid : String) : Option UserStatus :=
  (s.world.user uid).map fun user => statusOf user.disabledAt.isSome

def asked (uid : String) (s : Stores) (fault : Fault) : Op → Option UserStatus
  | .account (.user v (.setDisabled disabledAt _)) =>
      if v = uid ∧ fault ≠ .before ∧ (s.world.objects uid).guard.toBool = true then
        some (statusOf disabledAt.isSome)
      else none
  | _ => none

/-- The status that a call writes to the user's row, when it takes effect. -/
def written (uid : String) (fault : Fault) : Op → Option UserStatus
  | .account (.d1 (.setUserStatus v status _)) =>
      if v = uid ∧ fault ≠ .before then some status else none
  | _ => none

/-- The calls that neither make nor remove a user. -/
def keepsUsers : Account.Op → Bool
  | .user _ (.init _ _ _) | .user _ .destroy => false
  | .d1 (.claimUsers _) | .d1 (.activateUsers _) | .d1 (.deleteUserRow _) => false
  | _ => true

def Op.keepsUsers : Op → Bool
  | .account op => Mirror.keepsUsers op
  | _ => true

/-! ### The object -/

section Object
variable (sha256 : String → Bytes) (o : UserObject)

def heldBy (o : UserObject) : Option UserStatus :=
  o.tables.user.map fun user => statusOf user.disabledAt.isSome

/-- The calls besides `init`, `destroy` and `setDisabled` keep whether the user is disabled. -/
theorem heldBy_call {call : Call} (hinit : ∀ p now identities, call ≠ .init p now identities)
    (hdestroy : call ≠ .destroy) (hset : ∀ disabledAt now, call ≠ .setDisabled disabledAt now) :
    heldBy (o.call sha256 call).1 = heldBy o := by
  refine (call_changes sha256 o call).preserves
    (P := fun t => t.user.map (fun user => statusOf user.disabledAt.isSome) = heldBy o)
    (fun t t' hchange ht => ?_) rfl
  cases hchange with
  | aside h => rw [h.user, ht]
  | writeUser h =>
    unfold UserWritten at h
    rw [Machine.event_input] at h
    cases call with
    | init p now identities => exact absurd rfl (hinit p now identities)
    | setDisabled disabledAt now => exact absurd rfl (hset disabledAt now)
    | setGroups | updateProfile =>
      obtain ⟨old, hold, -, hdisabled⟩ := h
      rw [← ht, hold]
      simp [hdisabled]
    | _ => exact h.elim
  | clear h => exact absurd h hdestroy
  | createSession h _ _ => rw [(Tables.insertSession_beside h).user, ht]
  | rotateSession _ _ h => rw [(Tables.rotateSession_beside h).user, ht]
  | advanceFamily _ _ h _ => rw [(Tables.advanceFamily_beside h).user, ht]
  | touchSession idleTtl _ _ _ => rw [(Tables.touchSession_beside _ _ _ _).user, ht]
  | _ => exact ht

theorem heldBy_setDisabled (disabledAt : Option ℤ) (now : ℤ) :
    heldBy (o.call sha256 (.setDisabled disabledAt now)).1 =
      (heldBy o).map fun old =>
        if o.guard.toBool = true then statusOf disabledAt.isSome else old := by
  simp only [UserObject.call, answered, UserObject.setDisabled, UserObject.guarded]
  cases hguard : o.guard with
  | error e => simp [Except.toBool]
  | ok user =>
    have huser := (guard_ok hguard).2
    cases disabledAt with
    | none => simp [heldBy, huser, Except.toBool, UserObject.store]
    | some since =>
      have hrevoked := (Tables.revokeEach_beside now "disabled"
        { o.tables with user := some { user with disabledAt := some since, updatedAt := now } }
        (Tables.unrevokedSids
          { o.tables with
            user := some { user with disabledAt := some since, updatedAt := now } })).user
      simp only [heldBy, huser, Except.toBool, if_true]
      change Option.map _ (Tables.revokeEach _ _ _ _).1.user = _
      rw [hrevoked]
      rfl

end Object

/-! ### One call -/

section Calls
variable (sha256 : String → Bytes) (system : String → Bool) {s s' : Stores} (uid : String)

theorem heldStatus_of_objects (h : s'.world.objects = s.world.objects) :
    s'.heldStatus uid = s.heldStatus uid := by
  simp only [Stores.heldStatus, World.user, h]

theorem write_objects {write : Write} (h : s.write write = .ok s') :
    s'.world.objects = s.world.objects := by
  cases write with
  | updateUserMirror id mirror now =>
    obtain ⟨d, -, hok⟩ := bind_eq_ok h
    cases hok
    rfl
  | insertMembership groupId userId now =>
    obtain ⟨d, -, hok⟩ := bind_eq_ok h
    cases hok
    rfl
  | replacePasskeyIndex credentialId userId now =>
    obtain rfl := replacePasskeyIndex_ok ⟨credentialId, userId, now⟩ h
    rfl
  | replaceIdentityIndex issuer subject userId now =>
    obtain rfl := replaceIdentityIndex_ok ⟨issuer, subject, userId, now⟩ h
    rfl
  | _ =>
    cases h
    rfl

theorem write_status {write : Write} (h : s.write write = .ok s') :
    s'.directory.status uid = s.directory.status uid := by
  cases write with
  | updateUserMirror id mirror now =>
    obtain ⟨d, hd, hok⟩ := bind_eq_ok h
    cases hok
    exact Directory.status_updateUserMirror hd uid
  | insertMembership groupId userId now =>
    obtain ⟨d, hd, hok⟩ := bind_eq_ok h
    cases hok
    obtain ⟨members, -, rfl⟩ := insertMembership_ok hd
    rfl
  | replacePasskeyIndex credentialId userId now =>
    obtain rfl := replacePasskeyIndex_ok ⟨credentialId, userId, now⟩ h
    rfl
  | replaceIdentityIndex issuer subject userId now =>
    obtain rfl := replaceIdentityIndex_ok ⟨issuer, subject, userId, now⟩ h
    rfl
  | _ =>
    cases h
    rfl

/-- A batch of these writes touches no object and no status. -/
theorem batch_statuses {writes : List Write} (h : s.batch writes = .ok s') :
    s'.heldStatus uid = s.heldStatus uid ∧ s'.directory.status uid = s.directory.status uid := by
  induction writes generalizing s with
  | nil =>
    cases h
    exact ⟨rfl, rfl⟩
  | cons write writes ih =>
    obtain ⟨s₁, hfirst, hrest⟩ := batch_cons h
    obtain ⟨hheld, hstatus⟩ := ih hrest
    exact ⟨hheld.trans (heldStatus_of_objects uid (write_objects hfirst)),
      hstatus.trans (write_status uid hfirst)⟩

theorem map_getD_none {α : Type} (a : Option α) :
    a.map (fun old => (none : Option α).getD old) = a := by
  simp

theorem status_run {d : Directory} {statement : Statement}
    (hkeeps : keepsUsers (.d1 statement) = true)
    (hset : ∀ id status now, statement ≠ .setUserStatus id status now) :
    (d.run statement).1.status uid = d.status uid := by
  have h := run_rowStep d statement uid
  generalize d.status uid = before at h ⊢
  generalize (d.run statement).1.status uid = after at h ⊢
  cases h with
  | kept => rfl
  | written status now s => exact absurd rfl (hset uid status now)
  | activated | removed | claimed => cases hkeeps

theorem updateGroup_users {d d' : Directory} {id : String} {patch : GroupPatch}
    (h : d.updateGroup system id patch = .changed d') : d'.users = d.users := by
  unfold Directory.updateGroup Directory.withGroups at h
  split at h
  · cases h
  · split at h
    · cases h
    · split at h
      · cases h
      · next d₁ hwith =>
        cases h
        split at hwith <;> cases hwith
        rfl

/-- What a call on the objects or the directory does to the two statuses of a user. -/
theorem account_statuses {op : Account.Op} (hop : keepsUsers op = true) :
    (s.perform sha256 system (.account op)).1.heldStatus uid =
        (s.heldStatus uid).map (fun old => (asked uid s .none (.account op)).getD old) ∧
      (s.perform sha256 system (.account op)).1.directory.status uid =
        (s.directory.status uid).map fun old => (written uid .none (.account op)).getD old := by
  cases op with
  | user v call =>
    refine ⟨?_, (map_getD_none _).symm⟩
    change ((s.world.perform sha256 (.user v call)).1.user uid).map _ = _
    rw [user_perform]
    by_cases hv : uid = v
    · subst hv
      rw [if_pos rfl]
      change heldBy ((s.world.objects uid).call sha256 call).1 =
        (heldBy (s.world.objects uid)).map _
      cases call with
      | init | destroy => cases hop
      | setDisabled disabledAt now =>
        rw [heldBy_setDisabled]
        simp only [asked]
        congr 1
        funext old
        by_cases hguard : (s.world.objects uid).guard.toBool = true <;> simp [hguard]
      | _ =>
        exact (heldBy_call sha256 _ (by simp) (by simp) (by simp)).trans (map_getD_none _).symm
    · rw [if_neg hv]
      have hasked : asked uid s .none (.account (.user v call)) = none := by
        cases call with
        | setDisabled disabledAt now => simp [asked, Ne.symm hv]
        | _ => rfl
      rw [hasked]
      exact (map_getD_none _).symm
  | d1 statement =>
    refine ⟨(map_getD_none _).symm, ?_⟩
    change (s.directory.run statement).1.status uid = _
    cases statement with
    | setUserStatus id status now =>
      change (s.directory.setUserStatus id status now).status uid = _
      rw [Directory.status_setUserStatus]
      by_cases hid : uid = id
      · simp [hid, written]
      · simp [hid, Ne.symm hid, written]
    | _ => exact (status_run uid hop (by simp)).trans (map_getD_none _).symm

/-- What a call does to the two statuses of a user, when it takes effect. -/
theorem perform_statuses {op : Op} (hop : op.keepsUsers = true) :
    (s.perform sha256 system op).1.heldStatus uid =
        (s.heldStatus uid).map (fun old => (asked uid s .none op).getD old) ∧
      (s.perform sha256 system op).1.directory.status uid =
        (s.directory.status uid).map fun old => (written uid .none op).getD old := by
  cases op with
  | account op => exact account_statuses sha256 system uid hop
  | batch writes =>
    simp only [asked, written, map_getD_none]
    change (s.ended (s.batch writes)).1.heldStatus uid = _ ∧
      (s.ended (s.batch writes)).1.directory.status uid = _
    cases hbatch : s.batch writes with
    | error e => exact ⟨rfl, rfl⟩
    | ok s₁ => exact batch_statuses uid hbatch
  | updateGroup id patch =>
    simp only [asked, written, map_getD_none]
    change (s.updateGroup system id patch).1.heldStatus uid = _ ∧
      (s.updateGroup system id patch).1.directory.status uid = _
    unfold Stores.updateGroup
    split
    · next d hchanged =>
        exact ⟨rfl, Directory.status_of_users (updateGroup_users system hchanged) uid⟩
    all_goals exact ⟨rfl, rfl⟩
  | deleteGroup id =>
    simp only [asked, written, map_getD_none]
    refine ⟨rfl, Directory.status_of_users (d := s.directory) ?_ uid⟩
    change (s.directory.deleteGroup system id).users = s.directory.users
    unfold Directory.deleteGroup
    split <;> rfl
  | _ => exact ⟨(map_getD_none _).symm, (map_getD_none _).symm⟩

/-- What a call does to the two statuses of a user. -/
theorem exec_statuses {op : Op} (hop : op.keepsUsers = true) (fault : Fault) :
    (s.exec sha256 system fault op).1.heldStatus uid =
        (s.heldStatus uid).map (fun old => (asked uid s fault op).getD old) ∧
      (s.exec sha256 system fault op).1.directory.status uid =
        (s.directory.status uid).map fun old => (written uid fault op).getD old := by
  cases fault with
  | none => exact perform_statuses sha256 system uid hop
  | before =>
    have hasked : asked uid s .before op = none := by
      unfold asked
      split <;> simp
    have hwritten : written uid .before op = none := by
      unfold written
      split <;> simp
    rw [hasked, hwritten]
    exact ⟨(map_getD_none _).symm, (map_getD_none _).symm⟩
  | after =>
    have hasked : asked uid s .after op = asked uid s .none op := by
      unfold asked
      split <;> simp
    have hwritten : written uid .after op = written uid .none op := by
      unfold written
      split <;> simp
    rw [hasked, hwritten]
    exact perform_statuses sha256 system uid hop

end Calls

end TinyOidc.Mirror
