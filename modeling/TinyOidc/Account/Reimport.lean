import TinyOidc.Account.ImportComparison
import Mathlib.Data.List.DropRight

/-! A line imported twice. The row of the first import is compared equal by the second; the groups
are those of the object, which the first import initialized unless it already was. -/
namespace TinyOidc.Account
open RowTable TinyOidc.User TinyOidc.Util Batches
open TinyOidc.Interaction (CreateUserError)
open Threads (Prog)

/-! ### The comparison form of an email -/

/-- What starts a text without leading spaces starts without one. -/
theorem dropWhile_of_prefix {p : Char → Bool} {d m : List Char} (hd : d.dropWhile p = d)
    (hm : m <+: d) : m.dropWhile p = m := by
  obtain ⟨rest, rfl⟩ := hm
  cases m with
  | nil => rfl
  | cons c m =>
    rw [List.cons_append, List.dropWhile_eq_self_iff] at hd
    have hc := hd (by simp)
    rw [List.dropWhile_cons_of_neg (by simpa using hc)]

theorem trim_trim (text : String) : trim (trim text) = trim text := by
  have hleft := dropWhile_of_prefix (List.dropWhile_idempotent isSpace text.toList)
    (List.rdropWhile_prefix isSpace (text.toList.dropWhile isSpace))
  have hright := List.rdropWhile_idempotent isSpace (text.toList.dropWhile isSpace)
  simp only [trim, String.toList_ofList, hleft, hright]

theorem normalizeEmail_trim (email : String) :
    normalizeEmail (trim email) = normalizeEmail email := by
  rw [normalizeEmail, trim_trim, normalizeEmail]

/-! ### One line on its own -/

def importable (knownGroups : List (String × String)) (line : ImportLine) : Bool :=
  !(line.email.join.any (!isValidEmail ·)) &&
    ((uniqueTexts (line.groups.getD [])).find? fun name =>
      (knownGroups.lookup name).isNone).isNone

/-- A line that no user of the directory answers for is to be created. -/
def checkedAs (creatable : Creatable) : Option ImportResult → Checked
  | some result => .done result
  | none => .create creatable

section Lines
variable (schema : ImportLineSchema) (uuids : UuidV7) (knownGroups : List (String × String))
  (draw number : ℕ) {raw : String} {line : ImportLine}

theorem checkLine_importable (hparse : schema.parse raw = .ok line)
    (h : importable knownGroups line = true) :
    checkLine schema uuids knownGroups draw number raw = (do
      return checkedAs ⟨number, line, newUserOf uuids draw line⟩
        (← compareLine number line line.email.join)) := by
  simp only [importable, Bool.and_eq_true, Bool.not_eq_true', Option.isNone_iff_eq_none] at h
  simp only [checkLine, hparse, h.1, h.2, Bool.false_eq_true, if_false]
  refine congrArg (compareLine number line line.email.join >>= ·) (funext fun result => ?_)
  cases result <;> rfl

theorem checkLine_refused (hparse : schema.parse raw = .ok line)
    (h : importable knownGroups line = false) : ∃ e,
    checkLine schema uuids knownGroups draw number raw =
      pure (.done ⟨number, .error, none, some e⟩) := by
  unfold checkLine
  rw [hparse]
  by_cases hemail : (line.email.join.any fun email => !isValidEmail email) = true
  · exact ⟨.emailInvalid, by simp only [hemail, if_true]⟩
  · cases hgroup : (uniqueTexts (line.groups.getD [])).find? fun name =>
        (knownGroups.lookup name).isNone with
    | some name => exact ⟨.groupUnknown name, by simp only [if_neg hemail, hgroup]⟩
    | none =>
      have hall : importable knownGroups line = true := by
        simp [importable, Bool.eq_false_iff.mpr hemail, hgroup]
      rw [h] at hall
      cases hall

end Lines

section Body
variable (hash : String → Bytes) {w : World} {schema : ImportLineSchema} {uuids : UuidV7}
  {draw : ℕ} {body raw : String}

def answerOne (results : List ImportResult) : ImportResponse :=
  .lines (results.find? (·.line == 1)).toList

def afterCheck (w : World) (now : ℤ) : Checked → World × ImportResponse
  | .done result => (w, answerOne [result])
  | .create creatable =>
    ((Quiet hash (importGroup now [creatable]) w).1,
      answerOne (Quiet hash (importGroup now [creatable]) w).2)

/-- A body of one line is answered by the check of the line, or by its creation. -/
theorem import_one_quiet (now : ℤ) (hbody : rawLines body = [raw]) (hblank : trim raw ≠ "")
    {checked : Checked} (hchecked : Quiet hash
      (checkLine schema uuids w.directory.groupIdsByName (draw + drawsOfLine) 1 raw) w =
        (w, checked)) :
    Quiet hash (importUsersHandler schema uuids draw body now) w =
      afterCheck hash w now checked := by
  have hgroups : w.perform hash (.d1 .groupIdsByName) = (w, .ok w.directory.groupIdsByName) := rfl
  simp only [Quiet] at hchecked
  unfold importUsersHandler
  rw [hbody, if_neg (by simpa using hblank), if_neg (by simp [importMaxLines])]
  simp only [Quiet, d1, Prog.run_bind, Prog.run_perform, hgroups, checkLines, Nat.mul_one, hchecked,
    Prog.run_pure]
  cases checked with
  | done result => rfl
  | create creatable =>
    have hchunks : Chunks.chunks importClaimBatch [creatable] = [[creatable]] := rfl
    simp only [List.filterMap_cons, List.filterMap_nil, creatableOf, doneOf, hchunks, importGroups,
      Prog.run_bind, Prog.run_pure, List.nil_append, List.append_nil]
    rfl

structure CreatedAs (w : World) (now : ℤ) (creatable : Creatable) (p : Prepared) (d : Directory) :
    Prop where
  prepared : prepare w.directory.groupIdsByName now creatable.user = .ok p
  claimed : w.directory.claimPrepared p = .ok d
  initialized : ∃ profile, (initialized (w.objects p.input.id) p).2 = .ok profile

theorem importGroup_failed {creatable : Creatable} {failure : CreateUserError}
    (h : (created w [prepare w.directory.groupIdsByName now creatable.user]).2 = [.error failure]) :
    (Quiet hash (importGroup now [creatable]) w).2 =
      [⟨creatable.line, statusOfFailure failure, none, some (.creation failure)⟩] := by
  have hmade := createUsers_quiet hash w [creatable.user] now
  simp only [List.map_singleton, h, Quiet] at hmade
  simp only [Quiet, importGroup, List.map_singleton, Prog.run_bind, hmade, List.zip_cons_cons,
    List.zip_nil_right, reportEach, Prog.run_pure]

/-- A line reported as created was claimed, initialized and made visible, then disabled if it says
so. -/
theorem importGroup_created {creatable : Creatable} {result : ImportResult}
    (hresult : result ∈ (Quiet hash (importGroup now [creatable]) w).2)
    (hcreated : result.status = .created) : ∃ p d, CreatedAs w now creatable p d ∧
      Quiet hash (importGroup now [creatable]) w =
        ((Quiet hash (createdLine now creatable) (createdOne w p d)).1,
          [(Quiet hash (createdLine now creatable) (createdOne w p d)).2]) := by
  have hfailed : ∀ failure,
      (created w [prepare w.directory.groupIdsByName now creatable.user]).2 ≠ [.error failure] := by
    intro failure h
    rw [importGroup_failed hash h, List.mem_singleton] at hresult
    rw [hresult] at hcreated
    cases failure <;> cases hcreated
  rcases @attempt_cases _ _ _ Directory.claimPrepared w.directory
    (prepare w.directory.groupIdsByName now creatable.user) with ⟨e, hrefused⟩ | ⟨p, d, hp, hclaim⟩
  · exact absurd (by rw [created_cons_refused [] hrefused, created_nil]) (hfailed e)
  · have hone : created w [prepare w.directory.groupIdsByName now creatable.user] =
        (createdOne w p d, [(initialized (w.objects p.input.id) p).2]) := by
      rw [hp, created_cons_claimed [] hclaim, created_nil]
    cases hinit : (initialized (w.objects p.input.id) p).2 with
    | error e => exact absurd (by rw [hone, hinit]) (hfailed e)
    | ok profile =>
      refine ⟨p, d, ⟨hp, hclaim, profile, hinit⟩, ?_⟩
      have hmade := createUsers_quiet hash w [creatable.user] now
      simp only [List.map_singleton, hone, hinit, Quiet] at hmade
      simp only [Quiet, importGroup, List.map_singleton, Prog.run_bind, hmade, List.zip_cons_cons,
        List.zip_nil_right, reportEach, Prog.run_pure]

end Body

/-! ### What a creation leaves -/

theorem Directory.getUser_claimUser {d d' : Directory} {c : Directory.UserClaim}
    (h : d.claimUser c = .ok d') : d'.getUser c.id = some c.row := by
  obtain ⟨d₁, hinsert, h⟩ := bind_eq_ok h
  obtain ⟨d₂, hmembers, h⟩ := bind_eq_ok h
  have husers : d'.users = d₁.users :=
    (insertIdentities_users h).trans (insertMemberships_users hmembers)
  unfold Directory.insertUser at hinsert
  cases hrow : d.users.insert c.row with
  | none =>
    rw [hrow] at hinsert
    cases hinsert
  | some users =>
    rw [hrow] at hinsert
    rw [Directory.getUser, husers, withUsers_users hinsert, Table.find_insert hrow]
    exact if_pos rfl

theorem Directory.getUser_setUserStatus (d : Directory) (id : String)
    (status : Interaction.UserStatus) (now : ℤ) :
    (d.setUserStatus id status now).getUser id =
      (d.getUser id).map (Directory.withStatus status now) := by
  have hrow : (d.setUserStatus id status now).getUser id = (d.getUser id).map
      fun row => if row.id == id then Directory.withStatus status now row else row := by
    simp only [Directory.getUser, Directory.setUserStatus]
    exact Table.find_updateWhere id
  rw [hrow]
  cases hfind : d.getUser id with
  | none => rfl
  | some row =>
    have hid : row.id = id := (Table.find_eq_some.mp hfind).2
    simp [hid]

/-- The groups an object has once it is initialized: its own, when it already was. -/
def groupsOnce (held : Option UserRow) (groups : List String) : List String :=
  match held with
  | some user => user.groups
  | none => sortTexts groups

theorem guard_initialized {o : UserObject} {p : Prepared} {profile : UserProfile}
    (h : (initialized o p).2 = .ok profile) : ∃ user,
    (initialized o p).1.guard = .ok user ∧
      user.groups = groupsOnce o.tables.user p.input.groups := by
  unfold initialized UserObject.init at h ⊢
  by_cases hdestroyed : o.destroyed = true
  · rw [if_pos hdestroyed] at h
    cases h
  · rw [if_neg hdestroyed] at h ⊢
    cases huser : o.tables.user with
    | some existing =>
      simp only [huser] at h ⊢
      by_cases hid : existing.id = p.profile.id
      · rw [if_pos hid]
        exact ⟨existing, by simp [UserObject.guard, hdestroyed, huser], rfl⟩
      · rw [if_neg hid] at h
        cases h
    | none =>
      simp only [huser] at h ⊢
      cases ht : UserObject.insertIdentities p.instant
          { o.tables with user := some (UserObject.newUserRow p.profile p.instant) }
          p.input.identities with
      | error e =>
        rw [ht] at h
        cases h
      | ok t =>
        have hrow := (insertIdentities_sameCore ht).user
        refine ⟨UserObject.newUserRow p.profile p.instant, ?_, ?_⟩
        · simp [UserObject.guard, UserObject.store, hdestroyed, hrow]
        · simp [UserObject.newUserRow, Prepared.profile, groupsOnce]

theorem revokeEach_user (now : ℤ) (reason : String) (sids : List String) (t : Tables) :
    (t.revokeEach now reason sids).1.user = t.user := by
  induction sids generalizing t with
  | nil => rfl
  | cons sid sids ih => exact ih _

/-- A disable leaves the groups. -/
theorem guard_setDisabled {o : UserObject} {user : UserRow} (h : o.guard = .ok user)
    (disabledAt : Option ℤ) (now : ℤ) : ∃ row profile revoked,
    (o.setDisabled disabledAt now).2 = .ok (profile, revoked) ∧
      (o.setDisabled disabledAt now).1.guard = .ok row ∧ row.groups = user.groups := by
  obtain ⟨hdestroyed, -⟩ := guard_ok h
  refine ⟨{ user with disabledAt := disabledAt, updatedAt := now }, ?_⟩
  unfold UserObject.setDisabled UserObject.guarded
  rw [h]
  cases disabledAt with
  | none => exact ⟨_, _, rfl, by simp [UserObject.guard, UserObject.store, hdestroyed], rfl⟩
  | some instant =>
    refine ⟨_, _, rfl, ?_, rfl⟩
    simp [UserObject.guard, UserObject.store, hdestroyed, Tables.revokeFamiliesWhere,
      revokeEach_user]

/-! ### The world after the first import -/

/-- The row that a line has when it was imported. -/
structure RowOf (line : ImportLine) (row : RegistryUser) : Prop where
  emailNorm : row.emailNorm = line.email.join.map normalizeEmail
  emailVerified : row.emailVerified = line.emailVerified.getD false
  displayName : row.displayName = line.displayName.join
  status : row.status = statusOf (line.disabled == some true)

theorem RowOf.sameAsExisting {line : ImportLine} {row : RegistryUser} (h : RowOf line row)
    (held : List String) :
    sameAsExisting line row held (row.status == .disabled) = true ↔
      ∀ names, line.groups = some names → sortTexts (uniqueTexts names) = sortTexts held := by
  have hemail : line.email.all (fun email => decide (email.map normalizeEmail = row.emailNorm)) =
      true := by
    rw [h.emailNorm]
    cases line.email <;> simp
  have hverified : line.emailVerified.all (· == row.emailVerified) = true := by
    rw [h.emailVerified]
    cases line.emailVerified <;> simp
  have hname : line.displayName.all (· == row.displayName) = true := by
    rw [h.displayName]
    cases line.displayName <;> simp
  have hdisabled : line.disabled.all (· == (row.status == .disabled)) = true := by
    rw [h.status]
    rcases line.disabled with _ | (_ | _) <;> rfl
  rw [TinyOidc.Account.sameAsExisting, hemail, hverified, hname, hdisabled]
  cases line.groups <;> simp

structure Imported (w w' : World) (line : ImportLine) (id : String) : Prop where
  row : ∃ row, w'.directory.getUser id = some row ∧ RowOf line row
  held : w'.heldGroups id = groupsOnce (w.user id) (uniqueTexts (line.groups.getD []))
  groups : w'.directory.groups = w.directory.groups

section Import
variable (hash : String → Bytes) {w : World} {uuids : UuidV7} {draw number : ℕ} {line : ImportLine}
  {id : String} {now : ℤ} {p : Prepared} {d : Directory}

theorem prepare_fields {groupIds : List (String × String)} {input : NewUser}
    (h : prepare groupIds now input = .ok p) : p.input = input ∧
      p.emailNorm = (input.email.map trim).map normalizeEmail := by
  unfold prepare at h
  dsimp only at h
  split at h
  · cases h
  · split at h
    · cases h
    · cases h
      exact ⟨rfl, rfl⟩

/-- The row of a created user, before the disable. -/
theorem getUser_createdOne (hid : line.id = some id)
    (h : CreatedAs w now ⟨number, line, newUserOf uuids draw line⟩ p d) : ∃ row,
    (createdOne w p d).directory.getUser id = some row ∧
      row.emailNorm = line.email.join.map normalizeEmail ∧
      row.emailVerified = line.emailVerified.getD false ∧
      row.displayName = line.displayName.join ∧ row.status = .active := by
  obtain ⟨hinput, hemail⟩ := prepare_fields h.prepared
  obtain ⟨profile, hinit⟩ := h.initialized
  have hpid : p.input.id = id := by simp [hinput, newUserOf, hid]
  have hrow : d.getUser p.input.id = some p.claim.row :=
    Directory.getUser_claimUser (Directory.claimPrepared_eq_ok.mp h.claimed)
  have hcreated : (createdOne w p d).directory = d.setUserStatus p.input.id .active p.instant := by
    rw [createdOne, hinit]
    rfl
  refine ⟨Directory.withStatus .active p.instant p.claim.row, ?_, ?_, ?_, ?_, rfl⟩
  · rw [hcreated, ← hpid, Directory.getUser_setUserStatus, hrow]
    rfl
  · change p.emailNorm = _
    rw [hemail]
    simp only [newUserOf, Option.map_map, Function.comp_def, normalizeEmail_trim]
  · change p.input.emailVerified = _
    rw [hinput]
    rfl
  · change p.input.displayName = _
    rw [hinput]
    rfl

/-- What follows a creation reports it, and only disables. -/
theorem createdLine_quiet (now : ℤ) (creatable : Creatable) {user : UserRow}
    (h : (w.objects creatable.user.id).guard = .ok user) :
    (Quiet hash (createdLine now creatable) w).2 =
        ⟨creatable.line, .created, some creatable.user.id, none⟩ ∧
      (Quiet hash (createdLine now creatable) w).1.directory.getUser creatable.user.id =
        (w.directory.getUser creatable.user.id).map (fun row =>
          if creatable.input.disabled = some true then Directory.withStatus .disabled now row
          else row) ∧
      (Quiet hash (createdLine now creatable) w).1.heldGroups creatable.user.id = user.groups ∧
      (Quiet hash (createdLine now creatable) w).1.directory.groups = w.directory.groups := by
  have hheld : w.heldGroups creatable.user.id = user.groups := by
    simp only [World.heldGroups, h]
  unfold createdLine
  by_cases hdisabled : creatable.input.disabled = some true
  · obtain ⟨row, profile, revoked, hanswer, hguard, hgroups⟩ := guard_setDisabled h (some now) now
    have hcall : w.perform hash (.user creatable.user.id
        (.setDisabled (if true = true then some now else none) now)) =
        (w.setObject creatable.user.id ((w.objects creatable.user.id).setDisabled (some now) now).1,
          some (.disabled (.ok (profile, revoked)))) := by
      rw [← hanswer]
      rfl
    have hrow : ∀ w' : World, w'.perform hash
        (.d1 (.setUserStatus creatable.user.id (statusOf true) now)) =
          (⟨w'.directory.setUserStatus creatable.user.id .disabled now, w'.objects⟩, .ok ()) :=
      fun w' => rfl
    simp only [Quiet, hdisabled, if_true, setUserDisabled, userCall, d1, Prog.run_bind,
      Prog.run_perform, hcall, hrow, Prog.run_pure]
    refine ⟨trivial, Directory.getUser_setUserStatus _ _ _ _, ?_, rfl⟩
    simp only [World.heldGroups, World.setObject, Function.update_self, hguard, hgroups]
  · simp only [Quiet, hdisabled, if_false, Prog.run_pure]
    exact ⟨trivial, by simp, hheld, trivial⟩

theorem imported_of_created (hid : line.id = some id)
    (h : CreatedAs w now ⟨number, line, newUserOf uuids draw line⟩ p d) :
    Imported w (Quiet hash (createdLine now ⟨number, line, newUserOf uuids draw line⟩)
      (createdOne w p d)).1 line id := by
  obtain ⟨profile, hinit⟩ := h.initialized
  have huser : (newUserOf uuids draw line).id = id := by simp [newUserOf, hid]
  have hinput : p.input = newUserOf uuids draw line := (prepare_fields h.prepared).1
  have hpid : p.input.id = id := by rw [hinput, huser]
  obtain ⟨user, hguard, hgroups⟩ := guard_initialized hinit
  have hobject : ((createdOne w p d).objects (newUserOf uuids draw line).id).guard = .ok user := by
    simp only [createdOne, huser, ← hpid, Function.update_self]
    exact hguard
  obtain ⟨-, hrow, hheld, hnames⟩ := createdLine_quiet hash now
    ⟨number, line, newUserOf uuids draw line⟩ hobject
  simp only [huser] at hrow hheld
  obtain ⟨row, hstored, hemail, hverified, hname, hactive⟩ := getUser_createdOne hid h
  constructor
  · rw [hstored, Option.map_some] at hrow
    refine ⟨_, hrow, ?_⟩
    by_cases hdisabled : line.disabled = some true
    · rw [if_pos hdisabled]
      exact ⟨hemail, hverified, hname, by simp [hdisabled, statusOf, Directory.withStatus]⟩
    · rw [if_neg hdisabled]
      exact ⟨hemail, hverified, hname, by simp [hdisabled, statusOf, hactive]⟩
  · rw [hheld, hgroups, hpid, hinput]
    rfl
  · rw [hnames, groups_createdOne h.claimed]

end Import

/-! ### The line again -/

section Again
variable (hash : String → Bytes) {w : World} (schema : ImportLineSchema) (uuids : UuidV7)
  (draw : ℕ) {body raw : String} (now : ℤ) {line : ImportLine} {id : String}

/-- A line with an id is compared with the visible user of that id, or created. -/
theorem checkLine_quiet_of_id (knownGroups : List (String × String)) (number : ℕ)
    (hparse : schema.parse raw = .ok line) (hid : line.id = some id)
    (h : importable knownGroups line = true) :
    Quiet hash (checkLine schema uuids knownGroups draw number raw) w =
      (w, checkedAs ⟨number, line, newUserOf uuids draw line⟩
        (((w.directory.getUser id).filter (·.status ≠ .creating)).map
          (comparison w number line · id))) := by
  have hcompare := compareLine_quiet hash w number hid line.email.join
  simp only [Quiet] at hcompare
  rw [checkLine_importable schema uuids knownGroups draw number hparse h]
  simp only [Quiet, Prog.run_bind, hcompare, Prog.run_pure]

/-- The line of a body that is reported as created has left its user. -/
theorem imported_of_import (hbody : rawLines body = [raw]) (hparse : schema.parse raw = .ok line)
    (hid : line.id = some id) {result : ImportResult}
    (hanswer : (Quiet hash (importUsersHandler schema uuids draw body now) w).2 = .lines [result])
    (hcreated : result.status = .created) :
    trim raw ≠ "" ∧ importable w.directory.groupIdsByName line = true ∧
      Imported w (Quiet hash (importUsersHandler schema uuids draw body now) w).1 line id := by
  have hblank : trim raw ≠ "" := by
    intro hblank
    unfold importUsersHandler at hanswer
    rw [hbody, if_pos (by simp [hblank])] at hanswer
    cases hanswer
  cases himportable : importable w.directory.groupIdsByName line with
  | false =>
    obtain ⟨e, hrefused⟩ := checkLine_refused schema uuids w.directory.groupIdsByName
      (draw + drawsOfLine) 1 hparse himportable
    rw [import_one_quiet hash now hbody hblank (by rw [hrefused]; rfl)] at hanswer
    cases hanswer
    cases hcreated
  | true =>
    have hchecked := checkLine_quiet_of_id hash schema uuids (draw + drawsOfLine) (w := w)
      w.directory.groupIdsByName 1 hparse hid himportable
    have hone := import_one_quiet hash now hbody hblank hchecked
    cases hrow : (w.directory.getUser id).filter (·.status ≠ .creating) with
    | some existing =>
      simp only [hrow, Option.map_some, checkedAs, afterCheck] at hone
      rw [hone] at hanswer
      have hline : (comparison w 1 line existing id).line = 1 := by
        unfold comparison
        split <;> rfl
      simp only [answerOne, List.find?_cons, hline, beq_self_eq_true, Option.toList_some,
        ImportResponse.lines.injEq, List.cons.injEq, and_true] at hanswer
      rw [← hanswer, comparison] at hcreated
      split at hcreated <;> cases hcreated
    | none =>
      simp only [hrow, Option.map_none, checkedAs, afterCheck] at hone
      rw [hone] at hanswer ⊢
      have hmem : result ∈ (Quiet hash (importGroup now
          [⟨1, line, newUserOf uuids (draw + drawsOfLine) line⟩]) w).2 := by
        have hlist : result ∈ ((Quiet hash (importGroup now
            [⟨1, line, newUserOf uuids (draw + drawsOfLine) line⟩]) w).2.find?
              (·.line == 1)).toList := by
          rw [ImportResponse.lines.inj hanswer]
          exact List.mem_singleton_self result
        exact List.mem_of_find?_eq_some (Option.mem_toList.mp hlist)
      obtain ⟨p, d, hmade, hgroup⟩ := importGroup_created hash hmem hcreated
      rw [hgroup]
      exact ⟨hblank, rfl, imported_of_created hash hid hmade⟩

/-- The object of the id holds no groups but those of the line. -/
def HoldsGroupsOf (w : World) (line : ImportLine) (id : String) : Prop :=
  ∀ user names, w.user id = some user → line.groups = some names →
    sortTexts (uniqueTexts names) = sortTexts user.groups

theorem Imported.same {w w' : World} (h : Imported w w' line id) {row : RegistryUser}
    (hrow : RowOf line row) :
    sameAsExisting line row (w'.heldGroups id) (row.status == .disabled) = true ↔
      HoldsGroupsOf w line id := by
  rw [hrow.sameAsExisting, h.held]
  constructor
  · intro hsame user names huser hnames
    simpa [groupsOnce, huser] using hsame names hnames
  · intro hholds names hnames
    cases huser : w.user id with
    | none => simp [groupsOnce, hnames]
    | some user => exact hholds user names huser hnames

/-- A line that was created is answered `unchanged` by the next import, which changes nothing, when
the object of its id held no user before, or one with the groups that the line names; and only
then. -/
theorem reimport_unchanged_iff (schema : ImportLineSchema) (uuids : UuidV7) (hash : String → Bytes)
    (w : World) (draw draw' : ℕ) (body raw : String) (now now' : ℤ) (line : ImportLine)
    (id : String) (result : ImportResult) (hbody : rawLines body = [raw])
    (hparse : schema.parse raw = .ok line) (hid : line.id = some id)
    (hanswer : (Quiet hash (importUsersHandler schema uuids draw body now) w).2 = .lines [result])
    (hcreated : result.status = .created) :
    Quiet hash (importUsersHandler schema uuids draw' body now')
        (Quiet hash (importUsersHandler schema uuids draw body now) w).1 =
      ((Quiet hash (importUsersHandler schema uuids draw body now) w).1,
        .lines [⟨1, .unchanged, some id, none⟩]) ↔ HoldsGroupsOf w line id := by
  obtain ⟨hblank, himportable, himported⟩ :=
    imported_of_import hash schema uuids draw now hbody hparse hid hanswer hcreated
  generalize (Quiet hash (importUsersHandler schema uuids draw body now) w).1 = w' at himported ⊢
  obtain ⟨row, hstored, hrow⟩ := himported.row
  have hvisible : (w'.directory.getUser id).filter (·.status ≠ .creating) = some row := by
    have hstatus : row.status ≠ .creating := by
      rw [hrow.status, statusOf]
      split <;> simp
    simp [hstored, hstatus]
  have hgroups : w'.directory.groupIdsByName = w.directory.groupIdsByName := by
    rw [Directory.groupIdsByName, himported.groups, Directory.groupIdsByName]
  have hchecked := checkLine_quiet_of_id hash schema uuids (draw' + drawsOfLine) (w := w')
    w'.directory.groupIdsByName 1 hparse hid (by rw [hgroups]; exact himportable)
  rw [hvisible, Option.map_some, checkedAs] at hchecked
  rw [import_one_quiet hash now' hbody hblank hchecked, ← himported.same hrow, afterCheck]
  by_cases hsame : sameAsExisting line row (w'.heldGroups id) (row.status == .disabled) = true
  · simp [comparison, hsame, answerOne]
  · simp [comparison, hsame, answerOne]

end Again

/-! ### An object without a row -/

namespace Sample

/-- The row of a creation that stopped short was dropped; its object is still there. -/
def leftover : World :=
  ⟨.empty, fun _ => (UserObject.fresh.init ⟨storedId, none, none, false, none, ["staff"]⟩ 0 []).1⟩

def createdAnswer : ImportResult := ⟨1, .created, some storedId, none⟩

def firstImport (w : World) : World × ImportResponse :=
  Quiet (fun _ => []) (importUsersHandler groupsSchema idsInTurn 0 groupsLine 7) w

def secondImport (w : World) : World × ImportResponse :=
  Quiet (fun _ => []) (importUsersHandler groupsSchema idsInTurn 0 groupsLine 8) w

theorem leftover_created : (firstImport leftover).2 = .lines [createdAnswer] := by rfl

theorem leftover_conflict : (secondImport (firstImport leftover).1).2 =
    .lines [⟨1, .conflict, some storedId, some .idExistsWithOtherData⟩] := by rfl

theorem groupsLine_parsed :
    groupsSchema.parse groupsLine =
      .ok ⟨some storedId, none, none, none, some [], none, none, none⟩ :=
  rfl

end Sample

theorem reimport_unchanged_iff_sample :
    Sample.secondImport (Sample.firstImport Sample.leftover).1 =
      ((Sample.firstImport Sample.leftover).1,
        .lines [⟨1, .unchanged, some Sample.storedId, none⟩]) ↔
      HoldsGroupsOf Sample.leftover
        ⟨some Sample.storedId, none, none, none, some [], none, none, none⟩ Sample.storedId :=
  reimport_unchanged_iff Sample.groupsSchema Sample.idsInTurn (fun _ => []) Sample.leftover 0 0
    Sample.groupsLine Sample.groupsLine 7 8 _ Sample.storedId Sample.createdAnswer rfl
    Sample.groupsLine_parsed rfl Sample.leftover_created rfl

/-- The line without groups is created, and its user keeps the groups of the object. -/
theorem reimport_conflicts :
    ¬ ∀ (schema : ImportLineSchema) (uuids : UuidV7) (hash : String → Bytes) (w : World)
      (draw draw' : ℕ) (body raw : String) (now now' : ℤ) (line : ImportLine) (id : String)
      (result : ImportResult), rawLines body = [raw] → schema.parse raw = .ok line →
      line.id = some id →
      (Quiet hash (importUsersHandler schema uuids draw body now) w).2 = .lines [result] →
      result.status = .created →
      Quiet hash (importUsersHandler schema uuids draw' body now')
          (Quiet hash (importUsersHandler schema uuids draw body now) w).1 =
        ((Quiet hash (importUsersHandler schema uuids draw body now) w).1,
          .lines [⟨1, .unchanged, some id, none⟩]) := by
  intro hall
  have hsecond := hall Sample.groupsSchema Sample.idsInTurn (fun _ => []) Sample.leftover 0 0
    Sample.groupsLine Sample.groupsLine 7 8 _ Sample.storedId Sample.createdAnswer rfl
    Sample.groupsLine_parsed rfl Sample.leftover_created rfl
  cases Sample.leftover_conflict.symm.trans (congrArg Prod.snd hsecond)

end TinyOidc.Account
