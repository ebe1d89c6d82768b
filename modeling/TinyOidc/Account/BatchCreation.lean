import TinyOidc.Account.Statuses
import TinyOidc.Lib.Batches
import TinyOidc.Lib.Lists
import Mathlib.Data.List.Find

/-! Users created together and one by one (`src/users/create.ts`), when nothing else runs and no
call fails but for uniqueness: the batch of claims, the objects in any order, the batch of
activations. -/
namespace TinyOidc.Account
open RowTable TinyOidc.User TinyOidc.Util Batches
open TinyOidc.Interaction (CreateUserError)
open Threads (Prog)
open Lists (exists_of_mem_mapM lookup_map_self)

/-! ### The two ways -/

def createUser (input : NewUser) (now : ℤ) : Program (Option CreateUserResult) := do
  return (← createUsers [input] now).bind (·.head?)

/-- One `createUser` call after the other. -/
def createInTurn (now : ℤ) : List NewUser → Program (List (Option CreateUserResult))
  | [] => return []
  | input :: rest => do
    let first ← createUser input now
    let others ← createInTurn now rest
    return first :: others

/-- Step 2 in the order in which the lanes come to initialize the objects. -/
def initializeIn : List Prepared → Program (List (Prepared × CreateUserResult))
  | [] => return []
  | p :: rest => do
    let result ← initializeObject p 2
    let others ← initializeIn rest
    return (p, result) :: others

def resultOf (answers : List (Prepared × CreateUserResult)) :
    Except CreateUserError Prepared → CreateUserResult
  | .error e => .error e
  | .ok p => (answers.lookup p).getD (.error .temporarilyUnavailable)

/-- `createUsers` with the objects in the given order. -/
def createUsersIn (order : List Prepared → List Prepared) (inputs : List NewUser) (now : ℤ) :
    Program (Option (List CreateUserResult)) := do
  match ← d1 .groupIdsByName with
  | .error _ => return none
  | .ok groupIds =>
    match ← claimAll (inputs.map (prepare groupIds now)) with
    | none => return none
    | some claimed =>
      let answers ← initializeIn (order (preparedOf claimed))
      let results := claimed.map (resultOf answers)
      if (activations claimed results).isEmpty then return some results
      match ← d1 (.activateUsers (activations claimed results)) with
      | .error _ => return none
      | .ok _ => return some results

/-! ### Claims -/

namespace Directory
variable {d d' : Directory}

def claimPrepared (d : Directory) (p : Prepared) : Except CreateUserError Directory :=
  (d.claimUser p.claim).mapError fun e => (uniquenessFailure e).getD .temporarilyUnavailable

theorem isSome_find_setUserStatus (d : Directory) (id : String) (t : ℤ) (uid : String) :
    ((d.setUserStatus id .active t).users.find uid).isSome = (d.users.find uid).isSome := by
  have hrow : (d.setUserStatus id .active t).users.find uid = (d.users.find uid).map
      fun row => if row.id == id then withStatus .active t row else row := by
    simp only [setUserStatus]
    exact Table.find_updateWhere uid
  rw [hrow, Option.isSome_map]

/-- Making a row visible that is there commutes with the statements of a claim. -/
theorem insertUser_setUserStatus {id : String} (t : ℤ) (u : RegistryUser)
    (hid : (d.status id).isSome = true) :
    (d.setUserStatus id .active t).insertUser u =
      (d.insertUser u).map (·.setUserStatus id .active t) := by
  have hspared : (∀ row ∈ d.users.rows, row.id ≠ u.id) → (u.id == id) = false := by
    intro hnew
    rw [beq_eq_false_iff_ne]
    intro hsame
    have habsent : d.users.find id = none := Table.find_eq_none.mpr (hsame ▸ hnew)
    simp [status, getUser, habsent] at hid
  have hinsert : (d.setUserStatus id .active t).users.insert u = (d.users.insert u).map
      (·.updateWhere (·.id == id) (withStatus .active t) fun _ => rfl) :=
    Table.insert_updateWhere hspared
  rw [insertUser, insertUser, hinsert]
  cases d.users.insert u with
  | none => rfl
  | some users =>
    have hemails : (users.updateWhere (·.id == id) (withStatus .active t)
        fun _ => rfl).rows.filterMap RegistryUser.verifiedEmail =
          users.rows.filterMap RegistryUser.verifiedEmail := by
      simp only [Table.updateWhere, List.filterMap_map]
      refine List.filterMap_congr fun row _ => ?_
      by_cases hrow : row.id = id
      · simp [hrow, withStatus, RegistryUser.verifiedEmail]
      · simp [hrow]
    by_cases hnodup : (users.rows.filterMap RegistryUser.verifiedEmail).Nodup
    · have hnodup' := hemails ▸ hnodup
      simp only [Option.map_some, withUsers, dif_pos hnodup, dif_pos hnodup']
      rfl
    · have hdup' := hemails ▸ hnodup
      simp only [Option.map_some, withUsers, dif_neg hnodup, dif_neg hdup']
      rfl

theorem insertMembership_setUserStatus (d : Directory) (id : String) (t : ℤ)
    (groupId userId : String) (now : ℤ) :
    (d.setUserStatus id .active t).insertMembership groupId userId now =
      (d.insertMembership groupId userId now).map (·.setUserStatus id .active t) := by
  have hreferenced : (d.setUserStatus id .active t).referenced groupId userId =
      d.referenced groupId userId := by
    rw [referenced, referenced, isSome_find_setUserStatus]
    rfl
  have hmembers : (d.setUserStatus id .active t).members = d.members := rfl
  simp only [insertMembership, hreferenced, hmembers]
  split
  · rfl
  · split
    · rfl
    · rfl

theorem insertIdentity_setUserStatus (d : Directory) (id : String) (t : ℤ)
    (issuer subject userId : String) (now : ℤ) :
    (d.setUserStatus id .active t).insertIdentity issuer subject userId now =
      (d.insertIdentity issuer subject userId now).map (·.setUserStatus id .active t) := by
  have hidentities : (d.setUserStatus id .active t).identities = d.identities := rfl
  simp only [insertIdentity, hidentities, isSome_find_setUserStatus]
  split
  · rfl
  · split
    · rfl
    · rfl

def insertMemberships (c : UserClaim) (d : Directory) : Except D1Error Directory :=
  c.groupIds.foldlM (fun d groupId => d.insertMembership groupId c.id c.createdAt) d

def insertIdentities (c : UserClaim) (d : Directory) : Except D1Error Directory :=
  c.identities.foldlM (fun d pair => d.insertIdentity pair.1 pair.2 c.id c.createdAt) d

theorem claimUser_eq (d : Directory) (c : UserClaim) :
    d.claimUser c = d.insertUser c.row >>= insertMemberships c >>= insertIdentities c := by
  rw [claimUser, bind_assoc]
  rfl

/-- A claim commutes with making another row visible. -/
theorem claimUser_setUserStatus {id : String} (t : ℤ) (c : UserClaim)
    (hid : (d.status id).isSome = true) :
    (d.setUserStatus id .active t).claimUser c =
      (d.claimUser c).map (·.setUserStatus id .active t) := by
  have hmembers : ∀ d : Directory, insertMemberships c (d.setUserStatus id .active t) =
      (insertMemberships c d).map (·.setUserStatus id .active t) := fun d =>
    foldlM_commute (fun _ => True) (fun d : Directory => d.setUserStatus id .active t)
      (fun _ _ _ _ _ => trivial)
      (fun d groupId _ => insertMembership_setUserStatus d id t groupId c.id c.createdAt) _ trivial
  have hpairs : ∀ d : Directory, insertIdentities c (d.setUserStatus id .active t) =
      (insertIdentities c d).map (·.setUserStatus id .active t) := fun d =>
    foldlM_commute (fun _ => True) (fun d : Directory => d.setUserStatus id .active t)
      (fun _ _ _ _ _ => trivial)
      (fun d pair _ => insertIdentity_setUserStatus d id t pair.1 pair.2 c.id c.createdAt) _ trivial
  rw [claimUser_eq, claimUser_eq, insertUser_setUserStatus t c.row hid]
  cases d.insertUser c.row with
  | error e => rfl
  | ok d₁ =>
    change (insertMemberships c (d₁.setUserStatus id .active t) >>= _) =
      (insertMemberships c d₁ >>= _).map _
    rw [hmembers]
    cases insertMemberships c d₁ with
    | error e => rfl
    | ok d₂ => exact hpairs d₂

/-! ### Refusals -/

theorem insertUser_groups {u : RegistryUser} (h : d.insertUser u = .ok d') :
    d'.groups = d.groups := by
  unfold insertUser withUsers at h
  split at h
  · cases h
  · split at h
    · cases h
      rfl
    · cases h

theorem insertMembership_groups {groupId userId : String} {now : ℤ}
    (h : d.insertMembership groupId userId now = .ok d') : d'.groups = d.groups := by
  unfold insertMembership at h
  split at h
  · cases h
  · split at h
    · cases h
      rfl
    · cases h

theorem insertIdentity_groups {issuer subject userId : String} {now : ℤ}
    (h : d.insertIdentity issuer subject userId now = .ok d') : d'.groups = d.groups := by
  unfold insertIdentity at h
  split at h
  · cases h
  · split at h
    · cases h
      rfl
    · cases h

theorem insertMemberships_groups {c : UserClaim} (h : insertMemberships c d = .ok d') :
    d'.groups = d.groups :=
  foldlM_rule (R := fun d d' : Directory => d'.groups = d.groups) (fun _ => rfl)
    (fun h h' => h'.trans h) (fun _ _ _ => insertMembership_groups) h

theorem claimUser_groups {c : UserClaim} (h : d.claimUser c = .ok d') : d'.groups = d.groups := by
  rw [claimUser_eq] at h
  obtain ⟨d₂, h, hpairs⟩ := bind_eq_ok h
  obtain ⟨d₁, huser, hmembers⟩ := bind_eq_ok h
  have hlast : d'.groups = d₂.groups :=
    foldlM_rule (R := fun d d' : Directory => d'.groups = d.groups) (fun _ => rfl)
      (fun h h' => h'.trans h) (fun _ _ _ => insertIdentity_groups) hpairs
  rw [hlast, insertMemberships_groups hmembers, insertUser_groups huser]

def Knows (d : Directory) (groupIds : List String) : Prop :=
  ∀ groupId ∈ groupIds, (d.groups.find groupId).isSome = true

theorem Knows.congr {groupIds : List String} (h : d.Knows groupIds)
    (hgroups : d'.groups = d.groups) :
    d'.Knows groupIds := by
  intro groupId hmem
  rw [hgroups]
  exact h groupId hmem

theorem insertUser_error {u : RegistryUser} {e : D1Error} (h : d.insertUser u = .error e) :
    e ≠ .failed := by
  unfold insertUser withUsers at h
  split at h
  · cases h
    exact nofun
  · split at h
    · cases h
    · cases h
      exact nofun

theorem insertMembership_error {groupId userId : String} {now : ℤ} {e : D1Error}
    (hreferenced : d.referenced groupId userId = true)
    (h : d.insertMembership groupId userId now = .error e) : e ≠ .failed := by
  unfold insertMembership at h
  split at h
  · cases h
    exact nofun
  · rw [if_pos hreferenced] at h
    cases h

theorem insertIdentity_error {issuer subject userId : String} {now : ℤ} {e : D1Error}
    (huser : (d.users.find userId).isSome = true)
    (h : d.insertIdentity issuer subject userId now = .error e) : e ≠ .failed := by
  unfold insertIdentity at h
  split at h
  · cases h
    exact nofun
  · rw [if_pos huser] at h
    cases h

/-- A claim with known groups is refused for uniqueness only. -/
theorem claimUser_error {c : UserClaim} {e : D1Error} (hknown : d.Knows c.groupIds)
    (h : d.claimUser c = .error e) : e ≠ .failed := by
  rw [claimUser_eq] at h
  cases huser : d.insertUser c.row with
  | error e' =>
    rw [huser] at h
    cases h
    exact insertUser_error huser
  | ok d₁ =>
    rw [huser] at h
    have hrow : (d₁.users.find c.id).isSome = true := by
      have hstatus : d₁.status c.id = some .creating := by
        rw [status_insertUser huser c.id]
        exact if_pos rfl
      obtain ⟨row, hrow, -⟩ := Option.map_eq_some_iff.mp hstatus
      exact Option.isSome_iff_exists.mpr ⟨row, hrow⟩
    cases hmembers : insertMemberships c d₁ with
    | error e' =>
      have he : e = e' := by simpa [bind, Except.bind, hmembers] using h.symm
      rw [he]
      refine foldlM_error (fun d : Directory => d.Knows c.groupIds ∧
        (d.users.find c.id).isSome = true) (· ≠ .failed) ?_ ?_
          ⟨hknown.congr (insertUser_groups huser), hrow⟩ hmembers
      · intro d groupId d' ⟨hknown, hrow⟩ hwrite
        exact ⟨hknown.congr (insertMembership_groups hwrite), insertMembership_users hwrite ▸ hrow⟩
      · intro d groupId hmem e ⟨hknown, hrow⟩ hwrite
        exact insertMembership_error (by rw [referenced, hknown groupId hmem, hrow]; rfl) hwrite
    | ok d₂ =>
      have hpairs : insertIdentities c d₂ = .error e := by
        simpa [bind, Except.bind, hmembers] using h
      have hrow₂ : (d₂.users.find c.id).isSome = true := insertMemberships_users hmembers ▸ hrow
      refine foldlM_error (fun d : Directory => (d.users.find c.id).isSome = true) (· ≠ .failed)
        ?_ ?_ hrow₂ hpairs
      · intro d pair d' hrow hwrite
        exact insertIdentity_users hwrite ▸ hrow
      · intro d pair _ e hrow hwrite
        exact insertIdentity_error hrow hwrite

/-- A claim of a user makes the row, which was not there. -/
theorem claimPrepared_eq_ok {p : Prepared} :
    d.claimPrepared p = .ok d' ↔ d.claimUser p.claim = .ok d' := by
  rw [claimPrepared]
  cases d.claimUser p.claim with
  | error e => simp [Except.mapError]
  | ok d₁ => simp [Except.mapError]

theorem claimPrepared_setUserStatus {id : String} (t : ℤ) (p : Prepared)
    (hid : (d.status id).isSome = true) :
    (d.setUserStatus id .active t).claimPrepared p =
      (d.claimPrepared p).map (·.setUserStatus id .active t) := by
  rw [claimPrepared, claimPrepared, claimUser_setUserStatus t p.claim hid]
  cases d.claimUser p.claim with
  | error e => rfl
  | ok d₁ => rfl

theorem status_claimPrepared {p : Prepared} (h : d.claimPrepared p = .ok d') (uid : String) :
    d'.status uid = (if uid = p.input.id then some .creating else d.status uid) ∧
      d.status p.input.id = none :=
  status_claimUser (claimPrepared_eq_ok.mp h) uid

end Directory

theorem exists_uniquenessFailure {e : D1Error} (h : e ≠ .failed) :
    ∃ failure, uniquenessFailure e = some failure := by
  cases e with
  | failed => exact absurd rfl h
  | unique table =>
    cases table with
    | identityIndex => exact ⟨_, rfl⟩
    | users => exact ⟨_, rfl⟩
    | groupMembers => exact ⟨_, rfl⟩

/-! ### Runs of the steps -/

section Runs
variable (sha256 : String → Bytes)

/-- The steps of a program, none of which fails. -/
abbrev Quiet {α : Type} (p : Program α) (w : World) : World × α :=
  p.run (fun w op => w.perform sha256 op) w

theorem quiet_claims_ok {w : World} {claims : List Directory.UserClaim} {d : Directory}
    (h : w.directory.claimUsers claims = .ok d) :
    Quiet sha256 (d1 (.claimUsers claims)) w = ({ w with directory := d }, .ok ()) := by
  have hrun : w.directory.run (.claimUsers claims) = (d, .ok ()) := by
    simp only [Directory.run, h, Directory.write]
  show ({ w with directory := (w.directory.run (.claimUsers claims)).1 },
    (w.directory.run (.claimUsers claims)).2) = _
  rw [hrun]

theorem quiet_claims_error {w : World} {claims : List Directory.UserClaim} {e : D1Error}
    (h : w.directory.claimUsers claims = .error e) :
    Quiet sha256 (d1 (.claimUsers claims)) w = (w, .error e) := by
  have hrun : w.directory.run (.claimUsers claims) = (w.directory, .error e) := by
    simp only [Directory.run, h, Directory.write]
  show ({ w with directory := (w.directory.run (.claimUsers claims)).1 },
    (w.directory.run (.claimUsers claims)).2) = _
  rw [hrun]

theorem Directory.claimUsers_one (d : Directory) (c : UserClaim) :
    d.claimUsers [c] = d.claimUser c := by
  rw [claimUsers, List.foldlM_cons]
  cases d.claimUser c with
  | error e => rfl
  | ok d' => rfl

/-- The claims one at a time. -/
theorem claimEach_quiet (entries : List (Except CreateUserError Prepared)) (w : World)
    (hknown : ∀ p ∈ openOf entries, w.directory.Knows p.groupIds) :
    Quiet sha256 (claimEach entries) w =
      ({ w with directory := (attemptAll Directory.claimPrepared w.directory entries).1 },
        some (attemptAll Directory.claimPrepared w.directory entries).2) := by
  induction entries generalizing w with
  | nil => rfl
  | cons entry rest ih =>
    cases entry with
    | error e =>
      have hrest := ih w hknown
      simp only [Quiet] at hrest
      simp only [Quiet, claimEach, Prog.run_bind, hrest, Prog.run_pure, attemptAll, attempt,
        Option.map_some]
    | ok p =>
      have hp := hknown p List.mem_cons_self
      have hlater : ∀ q ∈ openOf rest, w.directory.Knows q.groupIds :=
        fun q hq => hknown q (List.mem_cons_of_mem _ hq)
      cases hclaim : w.directory.claimUser p.claim with
      | ok d =>
        have hrun := quiet_claims_ok sha256 ((w.directory.claimUsers_one p.claim).trans hclaim)
        have hrest := ih { w with directory := d }
          fun q hq => (hlater q hq).congr (Directory.claimUser_groups hclaim)
        simp only [Quiet] at hrun hrest
        simp only [Quiet, claimEach, Prog.run_bind, hrun, hrest, Prog.run_pure, attemptAll,
          attempt_of_ok (Directory.claimPrepared_eq_ok.mpr hclaim), Option.map_some]
      | error e =>
        have hrun := quiet_claims_error sha256 ((w.directory.claimUsers_one p.claim).trans hclaim)
        have hrest := ih w hlater
        obtain ⟨failure, hfailure⟩ :=
          exists_uniquenessFailure (Directory.claimUser_error hp hclaim)
        have hrefused : w.directory.claimPrepared p = .error failure := by
          rw [Directory.claimPrepared, hclaim, Except.mapError, hfailure]
          rfl
        simp only [Quiet] at hrun hrest
        simp only [Quiet, claimEach, Prog.run_bind, hrun, hfailure, hrest, Prog.run_pure,
          attemptAll,
          attempt_of_error hrefused, Option.map_some]

/-- The claims, all at once or one at a time. -/
theorem claimAll_quiet (entries : List (Except CreateUserError Prepared)) (w : World)
    (hknown : ∀ p ∈ openOf entries, w.directory.Knows p.groupIds) :
    Quiet sha256 (claimAll entries) w =
      ({ w with directory := (attemptAll Directory.claimPrepared w.directory entries).1 },
        some (attemptAll Directory.claimPrepared w.directory entries).2) := by
  by_cases hempty : (preparedOf entries).isEmpty = true
  · have hnil : openOf entries = [] := List.isEmpty_iff.mp hempty
    have hadmitted : attemptAll Directory.claimPrepared w.directory entries =
        (w.directory, entries) := attemptAll_of_batch (by rw [hnil]; rfl)
    simp only [Quiet, claimAll, hempty, if_true, hadmitted]
    rfl
  · have hfold : w.directory.claimUsers ((preparedOf entries).map (·.claim)) =
        (preparedOf entries).foldlM (fun d p => d.claimUser p.claim) w.directory := by
      rw [Directory.claimUsers, List.foldlM_map]
    cases hclaims : w.directory.claimUsers ((preparedOf entries).map (·.claim)) with
    | ok d =>
      have hrun := quiet_claims_ok sha256 hclaims
      have hbatch : (openOf entries).foldlM Directory.claimPrepared w.directory = .ok d := by
        have hclaimed := hfold.symm.trans hclaims
        have hmapped := foldlM_mapError (fun (d : Directory) (p : Prepared) => d.claimUser p.claim)
          (fun e => (uniquenessFailure e).getD .temporarilyUnavailable) (preparedOf entries)
          w.directory
        rw [hclaimed] at hmapped
        exact hmapped
      simp only [Quiet] at hrun
      simp only [Quiet, claimAll, hempty, Bool.false_eq_true, if_false, Prog.run_bind, hrun,
        Prog.run_pure, attemptAll_of_batch hbatch]
    | error e =>
      have hrun := quiet_claims_error sha256 hclaims
      have hfailed : e ≠ .failed := by
        refine foldlM_error (fun d : Directory => ∀ p ∈ openOf entries, d.Knows p.groupIds)
          (· ≠ .failed) ?_ ?_ hknown (hfold.symm.trans hclaims)
        · intro d p d' hknown hclaim q hq
          exact (hknown q hq).congr (Directory.claimUser_groups hclaim)
        · intro d p hp e hknown hclaim
          exact Directory.claimUser_error (hknown p hp) hclaim
      have hunique : (uniquenessFailure e).isNone = false := by
        obtain ⟨failure, hfailure⟩ := exists_uniquenessFailure hfailed
        rw [hfailure]
        rfl
      have hrest := claimEach_quiet sha256 entries w hknown
      simp only [Quiet] at hrun hrest
      simp only [Quiet, claimAll, hempty, Bool.false_eq_true, if_false, Prog.run_bind, hrun,
        hunique, hrest]

/-! ### Objects -/

def initialized (o : UserObject) (p : Prepared) : UserObject × CreateUserResult :=
  match o.init p.profile p.instant p.input.identities with
  | (o', .ok profile) => (o', .ok profile)
  | (o', _) => (o', .error .temporarilyUnavailable)

theorem init_thrown {o o' : UserObject} {p : InitProfile} {now : ℤ}
    {identities : List NewIdentity} {e : SqlError}
    (h : o.init p now identities = (o', .thrown e)) : o' = o := by
  unfold UserObject.init at h
  split at h
  · cases h
  · split at h
    · split at h
      · cases h
      · cases h
    · split at h
      · cases h
        rfl
      · cases h

theorem World.setObject_self (w : World) (uid : String) : w.setObject uid (w.objects uid) = w := by
  simp only [World.setObject, Function.update_eq_self]

/-- An initialization that throws changes nothing, so its repetition throws too. -/
theorem initializeObject_quiet (p : Prepared) (w : World) :
    Quiet sha256 (initializeObject p 2) w =
      (w.setObject p.input.id (initialized (w.objects p.input.id) p).1,
        (initialized (w.objects p.input.id) p).2) := by
  cases hinit : (w.objects p.input.id).init p.profile p.instant p.input.identities with
  | mk o' outcome =>
    have hperform : w.perform sha256 (.user p.input.id
        (.init p.profile p.instant p.input.identities)) =
          (w.setObject p.input.id o', some (.profile outcome)) := by
      simp only [World.perform, UserObject.call, answered, hinit]
    cases outcome with
    | ok profile =>
      simp only [Quiet, initializeObject, userCall, Prog.run_bind, Prog.run_perform, hperform,
        Prog.run_pure, initialized, hinit]
    | fail e =>
      simp only [Quiet, initializeObject, userCall, Prog.run_bind, Prog.run_perform, hperform,
        Prog.run_pure, initialized, hinit]
    | thrown e =>
      have hsame := init_thrown hinit
      subst hsame
      rw [World.setObject_self] at hperform
      simp only [Quiet, initializeObject, userCall, Prog.run_bind, Prog.run_perform, hperform,
        Prog.run_pure, initialized, hinit, World.setObject_self]

def objectsAfter (ps : List Prepared) (objects : String → UserObject) (uid : String) : UserObject :=
  match ps.find? (·.input.id == uid) with
  | some p => (initialized (objects uid) p).1
  | none => objects uid

theorem objectsAfter_cons (p : Prepared) (rest : List Prepared) (objects : String → UserObject)
    (hnew : ∀ q ∈ rest, q.input.id ≠ p.input.id) :
    objectsAfter (p :: rest) objects = objectsAfter rest
      (Function.update objects p.input.id (initialized (objects p.input.id) p).1) := by
  funext uid
  by_cases hid : p.input.id = uid
  · subst hid
    have hnone : rest.find? (·.input.id == p.input.id) = none :=
      List.find?_eq_none.mpr fun q hq => by simpa using hnew q hq
    simp [objectsAfter, hnone]
  · have hupdate : Function.update objects p.input.id (initialized (objects p.input.id) p).1 uid =
        objects uid := Function.update_of_ne (Ne.symm hid) _ _
    simp only [objectsAfter, List.find?_cons, beq_eq_false_iff_ne.mpr hid, hupdate]

/-- The order of the initializations does not matter. -/
theorem objectsAfter_perm {ps qs : List Prepared} (hperm : ps.Perm qs)
    (hids : (ps.map (·.input.id)).Nodup) (objects : String → UserObject) :
    objectsAfter ps objects = objectsAfter qs objects := by
  funext uid
  have hfind : ps.find? (·.input.id == uid) = qs.find? (·.input.id == uid) := by
    refine List.find?_eq_find?_of_perm hperm fun p hp q hq => ?_
    have hsame : p.input.id = q.input.id :=
      (beq_iff_eq.mp hp.2).trans (beq_iff_eq.mp hq.2).symm
    exact List.inj_on_of_nodup_map hids hp.1 hq.1 hsame
  rw [objectsAfter, objectsAfter, hfind]

theorem initializeIn_quiet (ps : List Prepared) (w : World)
    (hids : (ps.map (·.input.id)).Nodup) :
    Quiet sha256 (initializeIn ps) w =
      ({ w with objects := objectsAfter ps w.objects },
        ps.map fun p => (p, (initialized (w.objects p.input.id) p).2)) := by
  induction ps generalizing w with
  | nil => rfl
  | cons p rest ih =>
    obtain ⟨hnew, hrest⟩ := List.nodup_cons.mp hids
    have hne : ∀ q ∈ rest, q.input.id ≠ p.input.id :=
      fun q hq heq => hnew (List.mem_map.mpr ⟨q, hq, heq⟩)
    have hfirst := initializeObject_quiet sha256 p w
    have hothers := ih (w.setObject p.input.id (initialized (w.objects p.input.id) p).1) hrest
    have hsame : (rest.map fun q => (q, (initialized ((w.setObject p.input.id
        (initialized (w.objects p.input.id) p).1).objects q.input.id) q).2)) =
          rest.map fun q => (q, (initialized (w.objects q.input.id) q).2) := by
      refine List.map_congr_left fun q hq => ?_
      have hkept : (w.setObject p.input.id (initialized (w.objects p.input.id) p).1).objects
          q.input.id = w.objects q.input.id := Function.update_of_ne (hne q hq) _ _
      rw [hkept]
    simp only [Quiet] at hfirst hothers
    simp only [Quiet, initializeIn, Prog.run_bind, hfirst, hothers, Prog.run_pure, hsame,
      objectsAfter_cons p rest w.objects hne, List.map_cons]
    rfl

/-- The result at the position of an entry that was claimed with these objects. -/
def resultIn (objects : String → UserObject) : Except CreateUserError Prepared → CreateUserResult
  | .error e => .error e
  | .ok p => (initialized (objects p.input.id) p).2

theorem resultIn_update (objects : String → UserObject) {uid : String} (o : UserObject)
    {entries : List (Except CreateUserError Prepared)}
    (hnew : ∀ q ∈ openOf entries, q.input.id ≠ uid) :
    entries.map (resultIn (Function.update objects uid o)) = entries.map (resultIn objects) := by
  refine List.map_congr_left fun entry hentry => ?_
  cases entry with
  | error e => rfl
  | ok q =>
    have hne := hnew q (List.mem_filterMap.mpr ⟨_, hentry, rfl⟩)
    simp only [resultIn, Function.update_of_ne hne]

/-- The objects in turn. -/
theorem initializeEach_quiet (entries : List (Except CreateUserError Prepared)) (w : World)
    (hids : ((openOf entries).map (·.input.id)).Nodup) :
    Quiet sha256 (initializeEach entries) w =
      ({ w with objects := objectsAfter (openOf entries) w.objects },
        entries.map (resultIn w.objects)) := by
  induction entries generalizing w with
  | nil => rfl
  | cons entry rest ih =>
    cases entry with
    | error e =>
      have hrest := ih w hids
      simp only [Quiet] at hrest
      simp only [Quiet, initializeEach, Prog.run_bind, hrest, Prog.run_pure, List.map_cons,
        openOf_cons_error, resultIn]
    | ok p =>
      obtain ⟨hnew, hrest⟩ := List.nodup_cons.mp hids
      have hne : ∀ q ∈ openOf rest, q.input.id ≠ p.input.id :=
        fun q hq heq => hnew (List.mem_map.mpr ⟨q, hq, heq⟩)
      have hfirst := initializeObject_quiet sha256 p w
      have hothers := ih (w.setObject p.input.id (initialized (w.objects p.input.id) p).1) hrest
      have hsame := resultIn_update w.objects
        (initialized (w.objects p.input.id) p).1 hne
      simp only [Quiet, World.setObject, hsame] at hfirst hothers
      simp only [Quiet, initializeEach, Prog.run_bind, hfirst, hothers, Prog.run_pure,
        openOf_cons_ok, objectsAfter_cons p (openOf rest) w.objects hne, List.map_cons, resultIn]

/-! ### The whole creation -/

def created (w : World) (entries : List (Except CreateUserError Prepared)) :
    World × List CreateUserResult :=
  let claimed := attemptAll Directory.claimPrepared w.directory entries
  let results := claimed.2.map (resultIn w.objects)
  ({ directory := claimed.1.activateUsers (activations claimed.2 results)
     objects := objectsAfter (openOf claimed.2) w.objects }, results)

/-- The claimed users are new, and none is claimed twice. -/
theorem claimed_new (d : Directory) (entries : List (Except CreateUserError Prepared)) :
    (∀ p ∈ openOf (attemptAll Directory.claimPrepared d entries).2, d.status p.input.id = none) ∧
    ((openOf (attemptAll Directory.claimPrepared d entries).2).map (·.input.id)).Nodup := by
  induction entries generalizing d with
  | nil => exact ⟨by simp [attemptAll, openOf], by simp [attemptAll, openOf]⟩
  | cons entry rest ih =>
    cases entry with
    | error e => exact ih d
    | ok p =>
      cases hclaim : d.claimPrepared p with
      | error e =>
        simp only [attemptAll, attempt_of_error hclaim, openOf_cons_error]
        exact ih d
      | ok d' =>
        simp only [attemptAll, attempt_of_ok hclaim, openOf_cons_ok]
        obtain ⟨hnew, hnodup⟩ := ih d'
        have hstatus := Directory.status_claimPrepared hclaim
        have hlater : ∀ q ∈ openOf (attemptAll Directory.claimPrepared d' rest).2,
            q.input.id ≠ p.input.id ∧ d.status q.input.id = none := by
          intro q hq
          have hq' := hnew q hq
          rw [(hstatus q.input.id).1] at hq'
          by_cases hid : q.input.id = p.input.id
          · rw [if_pos hid] at hq'
            cases hq'
          · rw [if_neg hid] at hq'
            exact ⟨hid, hq'⟩
        constructor
        · intro q hq
          rcases List.mem_cons.mp hq with rfl | hq
          · exact (hstatus q.input.id).2
          · exact (hlater q hq).2
        · rw [List.map_cons, List.nodup_cons]
          refine ⟨fun hmem => ?_, hnodup⟩
          obtain ⟨q, hq, hid⟩ := List.mem_map.mp hmem
          exact (hlater q hq).1 hid

theorem created_nil (w : World) : created w [] = (w, []) := rfl

/-- An entry that is refused changes nothing for the others. -/
theorem created_cons_refused {w : World} {entry : Except CreateUserError Prepared}
    {e : CreateUserError} (rest : List (Except CreateUserError Prepared))
    (h : attempt Directory.claimPrepared w.directory entry = (w.directory, .error e)) :
    created w (entry :: rest) = ((created w rest).1, .error e :: (created w rest).2) := by
  simp only [created, attemptAll, h, List.map_cons, resultIn, openOf_cons_error]
  rfl

/-- The world after one user was claimed, initialized and made visible. -/
def createdOne (w : World) (p : Prepared) (d : Directory) : World where
  directory := d.activateUsers
    (activations [.ok p] [(initialized (w.objects p.input.id) p).2])
  objects := Function.update w.objects p.input.id (initialized (w.objects p.input.id) p).1

/-- A user who is claimed may be finished before the others are claimed, or after. -/
theorem created_cons_claimed {w : World} {p : Prepared} {d : Directory}
    (rest : List (Except CreateUserError Prepared)) (h : w.directory.claimPrepared p = .ok d) :
    created w (.ok p :: rest) = ((created (createdOne w p d) rest).1,
      (initialized (w.objects p.input.id) p).2 :: (created (createdOne w p d) rest).2) := by
  have hthere : (d.status p.input.id).isSome = true := by
    rw [(Directory.status_claimPrepared h p.input.id).1, if_pos rfl]
    rfl
  have hne : ∀ q ∈ openOf (attemptAll Directory.claimPrepared d rest).2,
      q.input.id ≠ p.input.id := by
    intro q hq hid
    have hnew := (claimed_new d rest).1 q hq
    rw [hid] at hnew
    simp [hnew] at hthere
  have hlater : attemptAll Directory.claimPrepared (createdOne w p d).directory rest =
      ((attemptAll Directory.claimPrepared d rest).1.activateUsers
        (activations [.ok p] [(initialized (w.objects p.input.id) p).2]),
          (attemptAll Directory.claimPrepared d rest).2) := by
    rw [createdOne]
    cases (initialized (w.objects p.input.id) p).2 with
    | error e => rfl
    | ok profile =>
      refine attemptAll_commute (fun d : Directory => (d.status p.input.id).isSome = true)
        (fun d : Directory => d.setUserStatus p.input.id .active p.instant) ?_ ?_ rest hthere
      · intro d q d' hthere hclaim
        rw [(Directory.status_claimPrepared hclaim p.input.id).1]
        split
        · rfl
        · exact hthere
      · intro d q hthere
        exact Directory.claimPrepared_setUserStatus p.instant q hthere
  have hresults := resultIn_update w.objects
    (initialized (w.objects p.input.id) p).1 hne
  have hactivations : ∀ results : List CreateUserResult,
      activations (.ok p :: (attemptAll Directory.claimPrepared d rest).2)
        ((initialized (w.objects p.input.id) p).2 :: results) =
      activations [.ok p] [(initialized (w.objects p.input.id) p).2] ++
        activations (attemptAll Directory.claimPrepared d rest).2 results := by
    intro results
    cases (initialized (w.objects p.input.id) p).2 with
    | error e => rfl
    | ok profile => rfl
  simp only [created, hlater]
  simp only [attemptAll, attempt_of_ok h, createdOne, List.map_cons, resultIn, openOf_cons_ok,
    objectsAfter_cons p _ w.objects hne, hresults, hactivations, Directory.activateUsers,
    List.foldl_append]

/-- The groups of a prepared user have been looked up in the directory. -/
theorem knows_of_prepare {d : Directory} {inputs : List NewUser} {now : ℤ} {p : Prepared}
    (hp : p ∈ openOf (inputs.map (prepare d.groupIdsByName now))) : d.Knows p.groupIds := by
  obtain ⟨entry, hentry, hopen⟩ := List.mem_filterMap.mp hp
  obtain ⟨input, -, rfl⟩ := List.mem_map.mp hentry
  have hprepared : prepare d.groupIdsByName now input = .ok p := by
    cases hcase : prepare d.groupIdsByName now input with
    | error e => simp [hcase, Except.toOption] at hopen
    | ok q => simpa [hcase, Except.toOption] using hopen
  intro groupId hgroupId
  simp only [prepare] at hprepared
  split at hprepared
  · cases hprepared
  · split at hprepared
    · cases hprepared
    · next ids hids =>
      cases hprepared
      obtain ⟨name, -, hlookup⟩ := exists_of_mem_mapM hids hgroupId
      obtain ⟨before, after, hsplit, -⟩ := List.lookup_eq_some_iff.mp hlookup
      have hmem : (name, groupId) ∈ d.groupIdsByName := by
        rw [hsplit]
        exact List.mem_append_right _ List.mem_cons_self
      obtain ⟨group, hgroup, hpair⟩ := List.mem_map.mp hmem
      cases hpair
      exact Option.isSome_iff_exists.mpr ⟨group, Table.find_eq_some.mpr ⟨hgroup, rfl⟩⟩

theorem createUsers_quiet (w : World) (inputs : List NewUser) (now : ℤ) :
    Quiet sha256 (createUsers inputs now) w =
      ((created w (inputs.map (prepare w.directory.groupIdsByName now))).1,
        some (created w (inputs.map (prepare w.directory.groupIdsByName now))).2) := by
  have hgroups : Quiet sha256 (d1 .groupIdsByName) w = (w, .ok w.directory.groupIdsByName) := rfl
  have hclaims := claimAll_quiet sha256 (inputs.map (prepare w.directory.groupIdsByName now)) w
    fun p hp => knows_of_prepare hp
  have hids := (claimed_new w.directory
    (inputs.map (prepare w.directory.groupIdsByName now))).2
  have hobjects := initializeEach_quiet sha256
    (attemptAll Directory.claimPrepared w.directory
      (inputs.map (prepare w.directory.groupIdsByName now))).2
    { w with directory := (attemptAll Directory.claimPrepared w.directory
      (inputs.map (prepare w.directory.groupIdsByName now))).1 } hids
  simp only [Quiet] at hgroups hclaims hobjects
  simp only [Quiet, createUsers, Prog.run_bind, hgroups, hclaims, created]
  rw [hobjects]
  -- No row to make visible is no batch, which would change nothing.
  generalize activations _ _ = rows
  cases rows with
  | nil => rfl
  | cons row rows => rfl

/-- The lanes may come to the objects in any order. -/
theorem createUsersIn_quiet {order : List Prepared → List Prepared}
    (horder : ∀ ps, (order ps).Perm ps) (w : World) (inputs : List NewUser) (now : ℤ) :
    Quiet sha256 (createUsersIn order inputs now) w =
      ((created w (inputs.map (prepare w.directory.groupIdsByName now))).1,
        some (created w (inputs.map (prepare w.directory.groupIdsByName now))).2) := by
  have hgroups : Quiet sha256 (d1 .groupIdsByName) w = (w, .ok w.directory.groupIdsByName) := rfl
  have hclaims := claimAll_quiet sha256 (inputs.map (prepare w.directory.groupIdsByName now)) w
    fun p hp => knows_of_prepare hp
  have hids := (claimed_new w.directory
    (inputs.map (prepare w.directory.groupIdsByName now))).2
  simp only [Quiet] at hgroups hclaims
  simp only [Quiet, createUsersIn, Prog.run_bind, hgroups, hclaims, created]
  generalize attemptAll Directory.claimPrepared w.directory
    (inputs.map (prepare w.directory.groupIdsByName now)) = claimed at hids ⊢
  have hperm := horder (openOf claimed.2)
  have hobjects := initializeIn_quiet sha256 (order (openOf claimed.2))
    { w with directory := claimed.1 } ((hperm.map (·.input.id)).nodup_iff.mpr hids)
  rw [objectsAfter_perm hperm ((hperm.map (·.input.id)).nodup_iff.mpr hids)] at hobjects
  have hresults : claimed.2.map (resultOf ((order (openOf claimed.2)).map fun p =>
      (p, (initialized (w.objects p.input.id) p).2))) = claimed.2.map (resultIn w.objects) := by
    refine List.map_congr_left fun entry hentry => ?_
    cases entry with
    | error e => rfl
    | ok p =>
      have hmem : p ∈ order (openOf claimed.2) :=
        hperm.mem_iff.mpr (List.mem_filterMap.mpr ⟨_, hentry, rfl⟩)
      rw [resultOf, lookup_map_self hmem]
      rfl
  simp only [Quiet] at hobjects
  rw [show preparedOf claimed.2 = openOf claimed.2 from rfl, hobjects, hresults]
  generalize activations _ _ = rows
  cases rows with
  | nil => rfl
  | cons row rows => rfl

theorem groups_createdOne {w : World} {p : Prepared} {d : Directory}
    (h : w.directory.claimPrepared p = .ok d) :
    (createdOne w p d).directory.groups = w.directory.groups := by
  have hclaim := Directory.claimUser_groups (Directory.claimPrepared_eq_ok.mp h)
  rw [createdOne]
  cases (initialized (w.objects p.input.id) p).2 with
  | error e => exact hclaim
  | ok profile => exact hclaim

theorem createInTurn_quiet (w : World) (inputs : List NewUser) (now : ℤ) :
    Quiet sha256 (createInTurn now inputs) w =
      ((created w (inputs.map (prepare w.directory.groupIdsByName now))).1,
        (created w (inputs.map (prepare w.directory.groupIdsByName now))).2.map some) := by
  induction inputs generalizing w with
  | nil => rfl
  | cons input rest ih =>
    have hone := createUsers_quiet sha256 w [input] now
    rw [List.map_singleton] at hone
    simp only [Quiet] at hone ih
    simp only [Quiet, createInTurn, createUser, Prog.run_bind, hone, Prog.run_pure, List.map_cons]
    rcases @attempt_cases _ _ _ Directory.claimPrepared w.directory
      (prepare w.directory.groupIdsByName now input) with ⟨e, hrefused⟩ | ⟨p, d, hp, hclaim⟩
    · simp only [created_cons_refused _ hrefused, created_nil, ih w]
      rfl
    · have hgroups : (createdOne w p d).directory.groupIdsByName = w.directory.groupIdsByName := by
        rw [Directory.groupIdsByName, Directory.groupIdsByName, groups_createdOne hclaim]
      have hrest := ih (createdOne w p d)
      rw [hgroups] at hrest
      simp only [hp, created_cons_claimed _ hclaim, created_nil, hrest]
      rfl

/-- Users created together get the results, and leave the world, that they would one by one, in
whatever order their objects are initialized. -/
theorem createUsers_eq_inTurn (w : World) (inputs : List NewUser) (now : ℤ) :
    (Quiet sha256 (createUsers inputs now) w).1 = (Quiet sha256 (createInTurn now inputs) w).1 ∧
    (Quiet sha256 (createUsers inputs now) w).2.map (·.map some) =
      some (Quiet sha256 (createInTurn now inputs) w).2 ∧
    ∀ order : List Prepared → List Prepared, (∀ ps, (order ps).Perm ps) →
      Quiet sha256 (createUsersIn order inputs now) w =
        Quiet sha256 (createUsers inputs now) w := by
  rw [createUsers_quiet, createInTurn_quiet]
  exact ⟨rfl, rfl, fun order horder => createUsersIn_quiet sha256 horder w inputs now⟩

end Runs

end TinyOidc.Account
