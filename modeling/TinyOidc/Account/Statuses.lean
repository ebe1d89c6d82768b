import TinyOidc.Account.VerifiedEmails

/-! The status of a user's row, and what each call can do to it. -/
namespace TinyOidc.Account
open RowTable TinyOidc.User
open TinyOidc.Interaction (UserStatus)
open Batches (bind_eq_ok)

def Directory.status (d : Directory) (uid : String) : Option UserStatus :=
  (d.getUser uid).map (·.status)

def World.status (w : World) (uid : String) : Option UserStatus := w.directory.status uid

namespace Directory
variable {d d' : Directory}

theorem status_of_users (h : d'.users = d.users) (uid : String) : d'.status uid = d.status uid := by
  simp only [status, getUser, h]

theorem status_setUserStatus (d : Directory) (id : String) (status : UserStatus) (now : ℤ)
    (uid : String) : (d.setUserStatus id status now).status uid =
      if uid = id then (d.status uid).map fun _ => status else d.status uid := by
  have hrow : (d.setUserStatus id status now).getUser uid =
      (d.getUser uid).map fun row => if row.id == id then withStatus status now row else row := by
    simp only [getUser, setUserStatus]
    exact Table.find_updateWhere uid
  rw [Directory.status, Directory.status, hrow]
  cases hfind : d.getUser uid with
  | none => simp
  | some row =>
    obtain ⟨-, rfl⟩ := Table.find_eq_some.mp hfind
    by_cases hid : row.id = id <;> simp [hid, withStatus]

theorem status_activateUsers (d : Directory) (rows : List (String × ℤ)) (uid : String) :
    (d.activateUsers rows).status uid =
      if uid ∈ rows.map (·.1) then (d.status uid).map fun _ => .active else d.status uid := by
  induction rows generalizing d with
  | nil => simp [activateUsers]
  | cons row rows ih =>
    have hstep : d.activateUsers (row :: rows) =
        (d.setUserStatus row.1 .active row.2).activateUsers rows := rfl
    rw [hstep, ih, status_setUserStatus]
    by_cases hrow : uid = row.1 <;> by_cases hrows : uid ∈ rows.map (·.1) <;>
      simp [hrow, hrows, Function.comp_def]

theorem status_deleteUserRow (d : Directory) (id uid : String) :
    (d.deleteUserRow id).status uid = if uid = id then none else d.status uid := by
  have hfind : (d.deleteUserRow id).getUser uid = if uid = id then none else d.getUser uid :=
    Table.find_deleteWhere_key d.users id uid
  rw [status, hfind]
  split <;> rfl

theorem status_updateUserMirror {id : String} {mirror : UserMirror} {now : ℤ}
    (h : d.updateUserMirror id mirror now = .ok d') (uid : String) :
    d'.status uid = d.status uid := by
  have hrow : d'.getUser uid =
      (d.getUser uid).map fun row => if row.id == id then mirrored mirror now row else row := by
    rw [getUser, withUsers_users h]
    exact Table.find_updateWhere uid
  rw [status, status, hrow]
  cases d.getUser uid with
  | none => rfl
  | some row => by_cases hid : row.id = id <;> simp [hid, mirrored]

theorem status_insertUser {u : RegistryUser} (h : d.insertUser u = .ok d') (uid : String) :
    d'.status uid = if uid = u.id then some u.status else d.status uid := by
  unfold insertUser at h
  cases hinsert : d.users.insert u with
  | none =>
    rw [hinsert] at h
    cases h
  | some users =>
    rw [hinsert] at h
    simp only [status, getUser, withUsers_users h, Table.find_insert hinsert]
    split <;> rfl

theorem status_of_insertUser {u : RegistryUser} (h : d.insertUser u = .ok d') :
    d.status u.id = none := by
  unfold insertUser at h
  cases hinsert : d.users.insert u with
  | none =>
    rw [hinsert] at h
    cases h
  | some users =>
    have habsent : d.users.find u.id = none :=
      Table.find_eq_none.mpr (Table.key_notMem_of_insert hinsert)
    simp [status, getUser, habsent]

theorem status_claimUser {c : UserClaim} (h : d.claimUser c = .ok d') (uid : String) :
    d'.status uid = (if uid = c.id then some .creating else d.status uid) ∧
      d.status c.id = none := by
  obtain ⟨d₁, hinsert, h⟩ := bind_eq_ok h
  obtain ⟨d₂, hmembers, h⟩ := bind_eq_ok h
  have husers : d'.users = d₁.users :=
    (insertIdentities_users h).trans (insertMemberships_users hmembers)
  exact ⟨(status_of_users husers uid).trans (status_insertUser hinsert uid),
    status_of_insertUser hinsert⟩

/-- The rows of a batch of claims are new. -/
theorem status_claimUsers {claims : List UserClaim} (h : d.claimUsers claims = .ok d')
    (uid : String) :
    d'.status uid = (if uid ∈ claims.map (·.id) then some .creating else d.status uid) ∧
      (uid ∈ claims.map (·.id) → d.status uid = none) := by
  induction claims generalizing d with
  | nil =>
    cases h
    simp
  | cons c claims ih =>
    rw [claimUsers, List.foldlM_cons] at h
    obtain ⟨d₁, hc, h⟩ := bind_eq_ok h
    obtain ⟨hfirst, hnone⟩ := status_claimUser hc uid
    obtain ⟨hlater, habsent⟩ := ih h
    rw [hlater, hfirst]
    by_cases hid : uid = c.id
    · subst hid
      simpa using hnone
    · rw [if_neg hid] at hfirst
      rw [hfirst] at habsent
      simpa [hid] using habsent

end Directory

/-- Everything a call can do to the row of a user. -/
inductive RowStep (uid : String) : Op → Option UserStatus → Option UserStatus → Prop
  | kept (op : Op) (s : Option UserStatus) : RowStep uid op s s
  | written (status : UserStatus) (now : ℤ) (s : UserStatus) :
      RowStep uid (.d1 (.setUserStatus uid status now)) (some s) (some status)
  | activated (rows : List (String × ℤ)) (s : UserStatus) (hmem : uid ∈ rows.map (·.1)) :
      RowStep uid (.d1 (.activateUsers rows)) (some s) (some .active)
  | removed (s : Option UserStatus) : RowStep uid (.d1 (.deleteUserRow uid)) s none
  | claimed (claims : List Directory.UserClaim) (hmem : uid ∈ claims.map (·.id)) :
      RowStep uid (.d1 (.claimUsers claims)) none (some .creating)

/-- A write that is refused changes nothing. -/
theorem status_write {d : Directory} {written : Except D1Error Directory} {uid : String} {op : Op}
    (h : ∀ d', written = .ok d' → RowStep uid op (d.status uid) (d'.status uid)) :
    RowStep uid op (d.status uid) ((d.write written).1.status uid) := by
  cases written with
  | error e => exact .kept _ _
  | ok d' => exact h d' rfl

theorem insertMembershipOrIgnore_users {d d' : Directory} {groupId userId : String} {now : ℤ}
    (h : d.insertMembershipOrIgnore groupId userId now = .ok d') : d'.users = d.users := by
  unfold Directory.insertMembershipOrIgnore at h
  split at h
  · cases h
    rfl
  · exact insertMembership_users h

theorem run_rowStep (d : Directory) (statement : Statement) (uid : String) :
    RowStep uid (.d1 statement) (d.status uid) ((d.run statement).1.status uid) := by
  cases statement with
  | groupIdsByName | memberUserIds _ _ | findVerifiedUser _ | getUser _ | listUsers _ _ _
  | groupNamesOfUser _ | identitiesOfUser _ | deleteMembership _ _ => exact .kept _ _
  | insertMembership groupId userId now =>
    refine status_write fun d' hok => ?_
    rw [Directory.status_of_users (insertMembershipOrIgnore_users hok)]
    exact .kept _ _
  | updateUserMirror id mirror now =>
    refine status_write fun d' hok => ?_
    rw [Directory.status_updateUserMirror hok]
    exact .kept _ _
  | claimUsers claims =>
    refine status_write fun d' hok => ?_
    obtain ⟨hstatus, habsent⟩ := Directory.status_claimUsers hok uid
    by_cases hmem : uid ∈ claims.map (·.id)
    · rw [hstatus, if_pos hmem, habsent hmem]
      exact .claimed claims hmem
    · rw [hstatus, if_neg hmem]
      exact .kept _ _
  | activateUsers rows =>
    change RowStep uid _ _ ((d.activateUsers rows).status uid)
    rw [Directory.status_activateUsers]
    by_cases hmem : uid ∈ rows.map (·.1)
    · rw [if_pos hmem]
      cases d.status uid with
      | none => exact .kept _ _
      | some s => exact .activated rows s hmem
    · rw [if_neg hmem]
      exact .kept _ _
  | setUserStatus id status now =>
    change RowStep uid _ _ ((d.setUserStatus id status now).status uid)
    rw [Directory.status_setUserStatus]
    by_cases hid : uid = id
    · subst hid
      rw [if_pos rfl]
      cases d.status uid with
      | none => exact .kept _ _
      | some s => exact .written status now s
    · rw [if_neg hid]
      exact .kept _ _
  | deleteUserRow id =>
    change RowStep uid _ _ ((d.deleteUserRow id).status uid)
    rw [Directory.status_deleteUserRow]
    by_cases hid : uid = id
    · subst hid
      rw [if_pos rfl]
      exact .removed _
    · rw [if_neg hid]
      exact .kept _ _

theorem perform_rowStep (sha256 : String → Bytes) (w : World) (op : Op) (uid : String) :
    RowStep uid op (w.status uid) ((w.perform sha256 op).1.status uid) := by
  cases op with
  | user v call => exact .kept _ _
  | d1 statement => exact run_rowStep w.directory statement uid

/-! ### The date of a row -/

def Directory.createdAt (d : Directory) (uid : String) : Option ℤ :=
  (d.getUser uid).map (·.createdAt)

def World.createdAt (w : World) (uid : String) : Option ℤ := w.directory.createdAt uid

namespace Directory
variable {d d' : Directory}

theorem createdAt_of_users (h : d'.users = d.users) (uid : String) :
    d'.createdAt uid = d.createdAt uid := by
  simp only [createdAt, getUser, h]

/-- An update that leaves the dates alone. -/
theorem createdAt_of_update {p : RegistryUser → Bool} {f : RegistryUser → RegistryUser}
    (hid : ∀ row, (f row).id = row.id) (hf : ∀ row, (f row).createdAt = row.createdAt)
    (h : d'.users = d.users.updateWhere p f hid) (uid : String) :
    d'.createdAt uid = d.createdAt uid := by
  simp only [createdAt, getUser, h, Table.find_updateWhere, Option.map_map]
  congr 1
  funext row
  by_cases hp : p row = true <;> simp [hp, hf]

theorem createdAt_setUserStatus (d : Directory) (id : String) (status : UserStatus) (now : ℤ)
    (uid : String) : (d.setUserStatus id status now).createdAt uid = d.createdAt uid :=
  createdAt_of_update (f := withStatus status now) (fun _ => rfl) (fun _ => rfl) rfl uid

theorem createdAt_activateUsers (d : Directory) (rows : List (String × ℤ)) (uid : String) :
    (d.activateUsers rows).createdAt uid = d.createdAt uid := by
  induction rows generalizing d with
  | nil => rfl
  | cons row rows ih =>
    exact (ih (d.setUserStatus row.1 .active row.2)).trans
      (createdAt_setUserStatus d row.1 .active row.2 uid)

theorem createdAt_deleteUserRow (d : Directory) (id uid : String) :
    (d.deleteUserRow id).createdAt uid = if uid = id then none else d.createdAt uid := by
  have hfind : (d.deleteUserRow id).getUser uid = if uid = id then none else d.getUser uid :=
    Table.find_deleteWhere_key d.users id uid
  rw [createdAt, hfind]
  split <;> rfl

theorem createdAt_claimUser {c : UserClaim} (h : d.claimUser c = .ok d') (uid : String) :
    d'.createdAt uid = if uid = c.id then some c.createdAt else d.createdAt uid := by
  obtain ⟨d₁, hinsert, h⟩ := bind_eq_ok h
  obtain ⟨d₂, hmembers, h⟩ := bind_eq_ok h
  have husers : d'.users = d₁.users :=
    (insertIdentities_users h).trans (insertMemberships_users hmembers)
  rw [createdAt_of_users husers]
  unfold insertUser at hinsert
  cases hrow : d.users.insert c.row with
  | none =>
    rw [hrow] at hinsert
    cases hinsert
  | some users =>
    rw [hrow] at hinsert
    have hid : c.row.id = c.id := rfl
    simp only [createdAt, getUser, withUsers_users hinsert, Table.find_insert hrow, hid]
    split <;> rfl

theorem createdAt_claimUsers_of_notMem {claims : List UserClaim} (h : d.claimUsers claims = .ok d')
    {uid : String} (huid : uid ∉ claims.map (·.id)) : d'.createdAt uid = d.createdAt uid := by
  induction claims generalizing d with
  | nil =>
    cases h
    rfl
  | cons c claims ih =>
    rw [claimUsers, List.foldlM_cons] at h
    obtain ⟨d₁, hc, h⟩ := bind_eq_ok h
    rw [List.map_cons, List.mem_cons, not_or] at huid
    rw [ih h huid.2, createdAt_claimUser hc, if_neg huid.1]

/-- A batch of claims dates the rows it makes. -/
theorem createdAt_claimUsers {claims : List UserClaim} (h : d.claimUsers claims = .ok d')
    {c : UserClaim} (hc : c ∈ claims) : d'.createdAt c.id = some c.createdAt := by
  induction claims generalizing d with
  | nil => cases hc
  | cons c₁ claims ih =>
    rw [claimUsers, List.foldlM_cons] at h
    obtain ⟨d₁, hfirst, h⟩ := bind_eq_ok h
    have hlater : d₁.claimUsers claims = .ok d' := h
    rcases List.mem_cons.mp hc with rfl | hc
    · -- No later claim of the batch names the user again: its row would be there already.
      have hstatus := (status_claimUser hfirst c.id).1
      rw [if_pos rfl] at hstatus
      have hnot : c.id ∉ claims.map (·.id) := by
        intro hmem
        rw [(status_claimUsers hlater c.id).2 hmem] at hstatus
        cases hstatus
      rw [createdAt_claimUsers_of_notMem hlater hnot, createdAt_claimUser hfirst, if_pos rfl]
    · exact ih h hc

end Directory

/-- Everything a call can do to the date of a user's row. -/
inductive DateStep (uid : String) : Op → Option ℤ → Option ℤ → Prop
  | kept (op : Op) (date : Option ℤ) : DateStep uid op date date
  | removed (date : Option ℤ) : DateStep uid (.d1 (.deleteUserRow uid)) date none
  | claimed (claims : List Directory.UserClaim) (c : Directory.UserClaim) (hmem : c ∈ claims)
      (hid : c.id = uid) : DateStep uid (.d1 (.claimUsers claims)) none (some c.createdAt)

theorem dateStep_write {d : Directory} {written : Except D1Error Directory} {uid : String} {op : Op}
    (h : ∀ d', written = .ok d' → DateStep uid op (d.createdAt uid) (d'.createdAt uid)) :
    DateStep uid op (d.createdAt uid) ((d.write written).1.createdAt uid) := by
  cases written with
  | error e => exact .kept _ _
  | ok d' => exact h d' rfl

theorem createdAt_eq_none {d : Directory} {uid : String} (h : d.status uid = none) :
    d.createdAt uid = none := by
  unfold Directory.status at h
  unfold Directory.createdAt
  rw [Option.map_eq_none_iff] at h ⊢
  exact h

theorem run_dateStep (d : Directory) (statement : Statement) (uid : String) :
    DateStep uid (.d1 statement) (d.createdAt uid) ((d.run statement).1.createdAt uid) := by
  cases statement with
  | groupIdsByName | memberUserIds _ _ | findVerifiedUser _ | getUser _ | listUsers _ _ _
  | groupNamesOfUser _ | identitiesOfUser _ | deleteMembership _ _ => exact .kept _ _
  | insertMembership groupId userId now =>
    refine dateStep_write fun d' hok => ?_
    rw [Directory.createdAt_of_users (insertMembershipOrIgnore_users hok)]
    exact .kept _ _
  | updateUserMirror id mirror now =>
    refine dateStep_write fun d' hok => ?_
    rw [Directory.createdAt_of_update (f := Directory.mirrored mirror now) (fun _ => rfl)
      (fun _ => rfl) (withUsers_users hok)]
    exact .kept _ _
  | claimUsers claims =>
    refine dateStep_write fun d' hok => ?_
    by_cases hmem : uid ∈ claims.map (·.id)
    · obtain ⟨c, hc, rfl⟩ := List.mem_map.mp hmem
      rw [createdAt_eq_none ((Directory.status_claimUsers hok c.id).2 hmem),
        Directory.createdAt_claimUsers hok hc]
      exact .claimed claims c hc rfl
    · rw [Directory.createdAt_claimUsers_of_notMem hok hmem]
      exact .kept _ _
  | activateUsers rows =>
    change DateStep uid _ _ ((d.activateUsers rows).createdAt uid)
    rw [Directory.createdAt_activateUsers]
    exact .kept _ _
  | setUserStatus id status now =>
    change DateStep uid _ _ ((d.setUserStatus id status now).createdAt uid)
    rw [Directory.createdAt_setUserStatus]
    exact .kept _ _
  | deleteUserRow id =>
    change DateStep uid _ _ ((d.deleteUserRow id).createdAt uid)
    rw [Directory.createdAt_deleteUserRow]
    by_cases hid : uid = id
    · subst hid
      rw [if_pos rfl]
      exact .removed _
    · rw [if_neg hid]
      exact .kept _ _

theorem perform_dateStep (sha256 : String → Bytes) (w : World) (op : Op) (uid : String) :
    DateStep uid op (w.createdAt uid) ((w.perform sha256 op).1.createdAt uid) := by
  cases op with
  | user v call => exact .kept _ _
  | d1 statement => exact run_dateStep w.directory statement uid

theorem exec_rowStep (sha256 : String → Bytes) (w : World) (fault : Fault) (op : Op)
    (uid : String) : RowStep uid op (w.status uid) ((w.exec sha256 fault op).1.status uid) := by
  cases fault with
  | none | after => exact perform_rowStep sha256 w op uid
  | before => exact .kept _ _

end TinyOidc.Account
