import Mathlib
import TinyOidc.Account.GroupAdmin
import TinyOidc.Account.Memberships

/-! Which group names the members of a group list after it was renamed or deleted, when some of
their objects could not be read or written. -/
namespace TinyOidc.Account
open RowTable TinyOidc.User TinyOidc.Util
open Threads (Prog)

def World.groupsOf (w : World) (uid : String) : Option (List String) :=
  match (w.objects uid).guard with
  | .ok row => some row.groups
  | .error _ => none

/-- Neither does the read of the member throw, nor the write before it took effect. -/
def MemberFaults.Reaches (f : MemberFaults) (uid : String) : Prop :=
  f.read uid = .none ∧ f.write uid ≠ .before

instance (f : MemberFaults) (uid : String) : Decidable (f.Reaches uid) :=
  inferInstanceAs (Decidable (_ ∧ _))

theorem World.groupsOf_congr {w w' : World} {uid : String}
    (h : w'.objects uid = w.objects uid) : w'.groupsOf uid = w.groupsOf uid := by
  rw [World.groupsOf, World.groupsOf, h]

/-! ### Propagation -/

structure Propagated (f : MemberFaults) (r : Rewrite) (uids : List String) (w w' : World) : Prop
    where
  directory : w'.directory = w.directory
  aside : ∀ v, v ∉ uids → w'.objects v = w.objects v
  absent : ∀ v, w.groupsOf v = none → w'.groupsOf v = none
  missed : ∀ v, ¬ f.Reaches v → w'.groupsOf v = w.groupsOf v
  reached : ∀ v, v ∈ uids → f.Reaches v → ∀ groups, w.groupsOf v = some groups →
    ∃ groups', w'.groupsOf v = some groups' ∧ ∀ name, name ∈ groups' ↔ r.change.Lists groups name

theorem Propagated.refl (f : MemberFaults) (r : Rewrite) (w : World) : Propagated f r [] w w where
  directory := rfl
  aside _ _ := rfl
  absent _ h := h
  missed _ _ := rfl
  reached _ h := by cases h

theorem Propagated.cons {f : MemberFaults} {r : Rewrite} {uid : String} {rest : List String}
    {w w₁ w₂ : World} (hnodup : (uid :: rest).Nodup) (h : Propagated f r [uid] w w₁)
    (hrest : Propagated f r rest w₁ w₂) : Propagated f r (uid :: rest) w w₂ where
  directory := hrest.directory.trans h.directory
  aside v hv := by
    have hne : v ∉ [uid] := fun heq => hv (List.mem_singleton.mp heq ▸ List.mem_cons_self)
    rw [hrest.aside v (fun hmem => hv (List.mem_cons_of_mem _ hmem)), h.aside v hne]
  absent v hv := hrest.absent v (h.absent v hv)
  missed v hv := (hrest.missed v hv).trans (h.missed v hv)
  reached v hv hreaches groups hgroups := by
    have hnot := (List.nodup_cons.mp hnodup).1
    rcases List.mem_cons.mp hv with rfl | hv
    · obtain ⟨groups', hgroups', hlists⟩ := h.reached v List.mem_cons_self hreaches groups hgroups
      exact ⟨groups', by rw [World.groupsOf_congr (hrest.aside v hnot), hgroups'], hlists⟩
    · have hne : v ∉ [uid] := by
        intro heq
        rw [List.mem_singleton.mp heq] at hv
        exact hnot hv
      refine hrest.reached v hv hreaches groups ?_
      rw [World.groupsOf_congr (h.aside v hne), hgroups]

/-- Who is not a member, or not reached, keeps the list. -/
theorem Propagated.kept {f : MemberFaults} {r : Rewrite} {uids : List String} {w w' : World}
    (h : Propagated f r uids w w') {uid : String} (hmissed : ¬ (uid ∈ uids ∧ f.Reaches uid)) :
    w'.groupsOf uid = w.groupsOf uid := by
  by_cases hreaches : f.Reaches uid
  · exact World.groupsOf_congr (h.aside uid fun hmember => hmissed ⟨hmember, hreaches⟩)
  · exact h.missed uid hreaches

/-- A member that is not written keeps its list, which is right if no change was due. -/
theorem Propagated.unchanged {f : MemberFaults} {r : Rewrite} {uid : String} {w : World}
    (h : f.Reaches uid → ∀ groups, w.groupsOf uid = some groups → r.change.next groups = none) :
    Propagated f r [uid] w w where
  directory := rfl
  aside _ _ := rfl
  absent _ h := h
  missed _ _ := rfl
  reached v hv hreaches groups hgroups := by
    rw [List.mem_singleton.mp hv] at hreaches hgroups ⊢
    have hnext := h hreaches groups hgroups
    refine ⟨groups, hgroups, fun name => ?_⟩
    rw [← GroupChange.mem_apply, GroupChange.apply_of_next_none hnext]

/-- A member that is written. -/
theorem Propagated.written {f : MemberFaults} {r : Rewrite} {uid : String} {w : World}
    {row : UserRow} {next : List String} {now : ℤ} (hguard : (w.objects uid).guard = .ok row)
    (hreaches : f.Reaches uid) (hnext : r.change.next row.groups = some next) :
    Propagated f r [uid] w (w.setObject uid ((w.objects uid).setUser
      { row with groups := sortTexts (uniqueTexts next), updatedAt := now })) where
  directory := rfl
  aside v hv := Function.update_of_ne (by simpa using hv) _ _
  absent v hv := by
    by_cases hid : v = uid
    · subst hid
      simp [World.groupsOf, hguard] at hv
    · rw [World.groupsOf_congr (Function.update_of_ne hid _ _), hv]
  missed v hv := by
    have hid : v ≠ uid := fun hid => hv (hid ▸ hreaches)
    exact World.groupsOf_congr (Function.update_of_ne hid _ _)
  reached v hv _ groups hgroups := by
    have hid := List.mem_singleton.mp hv
    subst hid
    have hrow : row.groups = groups := by simpa [World.groupsOf, hguard] using hgroups
    refine ⟨sortTexts (uniqueTexts next), ?_, fun name => ?_⟩
    · simp [World.groupsOf, World.setObject, guard_setUser hguard]
    · rw [mem_sortTexts, mem_uniqueTexts, ← GroupChange.mem_apply, ← hrow,
        GroupChange.apply_of_next_some hnext]

section Walk
variable (sha256 : String → Bytes) (f : MemberFaults) (r : Rewrite) (now : ℤ)

def walk (w : World) (op : Op) : World × op.Answer := w.exec sha256 (f.of op) op

/-- The read of a profile: nothing changes, and it tells the list unless it throws. -/
theorem walk_getProfile (w : World) (uid : String) :
    (walk sha256 f w (.user uid .getProfile)).1 = w ∧
    (f.read uid ≠ .none → (walk sha256 f w (.user uid .getProfile)).2 = none) ∧
    (f.read uid = .none → ∀ row, (w.objects uid).guard = .ok row →
      (walk sha256 f w (.user uid .getProfile)).2 = some (.profile (.ok (profile row)))) ∧
    (∀ e, (w.objects uid).guard = .error e → ∀ p,
      (walk sha256 f w (.user uid .getProfile)).2 ≠ some (.profile (.ok p))) := by
  have hsame : (w.objects uid).call sha256 .getProfile =
      (w.objects uid, .profile ((w.objects uid).getProfile).2) := by
    simp only [UserObject.call, answered, UserObject.getProfile, UserObject.guarded]
    split
    · rfl
    · rfl
  have hperform : w.perform sha256 (.user uid .getProfile) =
      (w, some (.profile ((w.objects uid).getProfile).2)) := by
    simp only [World.perform, hsame, World.setObject, Function.update_eq_self]
  simp only [walk, MemberFaults.of]
  cases hread : f.read uid with
  | before => exact ⟨rfl, fun _ => rfl, by simp, by simp [World.exec, thrown]⟩
  | after => exact ⟨congrArg Prod.fst hperform, fun _ => rfl, by simp, by simp [World.exec, thrown]⟩
  | none =>
    refine ⟨congrArg Prod.fst hperform, fun h => absurd rfl h, fun _ row hguard => ?_,
      fun e hguard p => ?_⟩
    · simp [World.exec, hperform, UserObject.getProfile, UserObject.guarded, hguard]
    · simp [World.exec, hperform, UserObject.getProfile, UserObject.guarded, hguard]

theorem walk_setGroups {w : World} {uid : String} {row : UserRow}
    (hguard : (w.objects uid).guard = .ok row) (next : List String) :
    (walk sha256 f w (.user uid (.setGroups next now))).1 =
      if f.write uid = .before then w
      else w.setObject uid ((w.objects uid).setUser
        { row with groups := sortTexts (uniqueTexts next), updatedAt := now }) := by
  have hcall := setGroups_of_guard sha256 hguard next now
  simp only [walk, MemberFaults.of]
  cases hwrite : f.write uid with
  | before => rfl
  | after => simp [World.exec, World.perform, hcall]
  | none => simp [World.exec, World.perform, hcall]

theorem propagateTo_propagated (w : World) (uid : String) :
    Propagated f r [uid] w ((propagateTo uid r.apply now).run (walk sha256 f) w).1 := by
  obtain ⟨hworld, hthrows, htells, hfails⟩ := walk_getProfile sha256 f w uid
  -- A member that was not read with a profile is not reached, or has no list.
  have hunread : (∀ p, (walk sha256 f w (.user uid .getProfile)).2 ≠ some (.profile (.ok p))) →
      Propagated f r [uid] w w := by
    intro hno
    refine .unchanged fun hreaches groups hgroups => ?_
    cases hguard : (w.objects uid).guard with
    | ok row => exact absurd (htells hreaches.1 row hguard) (hno _)
    | error e => simp [World.groupsOf, hguard] at hgroups
  simp only [propagateTo, Prog.run_bind, userCall, Prog.run_perform, hworld]
  split
  · next hnone => exact hunread fun p hp => by simp [hnone] at hp
  · next current hcurrent =>
    have hread : f.read uid = .none := by
      by_contra hthrew
      simp [hthrows hthrew] at hcurrent
    cases hguard : (w.objects uid).guard with
    | error e => exact absurd hcurrent (hfails e hguard current)
    | ok row =>
      have hgroups : current.groups = row.groups := by
        have hprofile := (htells hread row hguard).symm.trans hcurrent
        cases hprofile
        rfl
      rw [rewriting_apply, hgroups]
      cases hnext : r.change.next row.groups with
      | none =>
        refine .unchanged fun _ groups hheld => ?_
        have hrow : row.groups = groups := by simpa [World.groupsOf, hguard] using hheld
        rw [← hrow, hnext]
      | some next =>
        have hstep : Propagated f r [uid] w
            (walk sha256 f w (.user uid (.setGroups next now))).1 := by
          rw [walk_setGroups sha256 f now hguard next]
          by_cases hbefore : f.write uid = .before
          · rw [if_pos hbefore]
            exact .unchanged fun hreaches => absurd hbefore hreaches.2
          · rw [if_neg hbefore]
            exact .written hguard ⟨hread, hbefore⟩ hnext
        simp only [Prog.run_bind, Prog.run_perform]
        split
        · exact hstep
        · exact hstep
  · next other hno hother =>
    refine hunread fun p hp => hno p ?_
    simpa using hother.symm.trans hp

theorem propagateEach_propagated (w : World) (uids : List String) (hnodup : uids.Nodup) :
    Propagated f r uids w ((propagateEach r.apply now uids).run (walk sha256 f) w).1 := by
  induction uids generalizing w with
  | nil => exact .refl f r w
  | cons uid rest ih =>
    have hfirst := propagateTo_propagated sha256 f r now w uid
    have hrest := ih ((propagateTo uid r.apply now).run (walk sha256 f) w).1
      (List.nodup_cons.mp hnodup).2
    have hrun : ((propagateEach r.apply now (uid :: rest)).run (walk sha256 f) w).1 =
        ((propagateEach r.apply now rest).run (walk sha256 f)
          ((propagateTo uid r.apply now).run (walk sha256 f) w).1).1 := by
      simp [propagateEach]
    rw [hrun]
    exact .cons hnodup hfirst hrest

end Walk

theorem Directory.nodup_memberUserIds (d : Directory) (groupId : String) (limit : ℕ) :
    (d.memberUserIds groupId limit).Nodup := by
  have hrows : ((d.members.rows.filter (·.groupId == groupId)).map (·.userId)).Nodup := by
    have hkeys := d.members.nodup.sublist
      ((List.filter_sublist (p := fun m => m.groupId == groupId)).map MemberRow.key)
    rw [show ((d.members.rows.filter (·.groupId == groupId)).map MemberRow.key) =
      ((d.members.rows.filter (·.groupId == groupId)).map (·.userId)).map (groupId, ·) by
        rw [List.map_map]
        refine List.map_congr_left fun m hm => ?_
        have hgroup : m.groupId = groupId := by simpa using (List.mem_filter.mp hm).2
        simp [MemberRow.key, hgroup]] at hkeys
    exact hkeys.of_map _
  have hsorted := ((List.perm_insertionSort memberLe _).map (·.userId)).nodup_iff.mpr hrows
  exact hsorted.sublist ((List.take_sublist _ _).map _)

/-- A propagation refuses a large group, and walks the others. -/
theorem propagated_cases (sha256 : String → Bytes) (f : MemberFaults) (w : World)
    (groupId : String) (r : Rewrite) (now : ℤ) :
    let uids := w.directory.memberUserIds groupId (propagationLimit + 1)
    (propagationLimit < uids.length →
      propagated sha256 f w groupId r now = (w, .groupTooLarge)) ∧
    (¬ propagationLimit < uids.length → ∃ w' failed,
      propagated sha256 f w groupId r now = (w', .ok uids.length failed) ∧
      Propagated f r uids w w') := by
  intro uids
  have hrun : propagated sha256 f w groupId r now =
      ((do
        if propagationLimit < uids.length then return .groupTooLarge
        let failed ← propagateEach r.apply now uids
        return .ok uids.length (sortTexts failed) : Program PropagationResult).run
          (walk sha256 f) w) := rfl
  rw [hrun]
  constructor
  · intro hlarge
    rw [if_pos hlarge]
    rfl
  · intro hsmall
    rw [if_neg hsmall]
    have hnodup : uids.Nodup := w.directory.nodup_memberUserIds groupId _
    exact ⟨_, _, by simp only [Prog.run_bind, Prog.run_pure]; rfl,
      propagateEach_propagated sha256 f r now w uids hnodup⟩

/-! ### Requests -/

def World.carried (w : World) : List String := w.directory.groups.rows.map (·.name.text)

/-- What a request writes into the lists of a group's members, when it is not refused for its
name. -/
def GroupRequest.rewrite (w : World) (group : GroupRow) : GroupRequest → Option Rewrite
  | .delete _ _ => some (.drop group.name)
  | .patch _ body _ => ((body.bind (·.name)).filter fun name =>
      name != group.name && (w.directory.getGroupByName name).isNone).map (.rename group.name)

/-- The group that a request is about to rename or delete, with what its members' lists become. -/
def GroupRequest.target (system : String → Bool) (w : World) (q : GroupRequest) :
    Option (GroupRow × Rewrite) :=
  ((w.directory.getGroupById q.id).filter fun group => !system group.id &&
    (w.directory.memberUserIds group.id (propagationLimit + 1)).length ≤ propagationLimit).bind
      fun group => (q.rewrite w group).map (group, ·)

theorem Directory.updateGroup_same {d : Directory} (system : String → Bool) {id : String}
    {patch : GroupPatch} {group : GroupRow} (hgroup : d.getGroupById id = some group)
    (hname : patch.name.filter (· != group.name) = none) :
    d.updateGroup system id patch = .changed d := by
  have hsame : patch.name.getD group.name = group.name := by
    cases hpatch : patch.name with
    | none => rfl
    | some name => simpa [hpatch] using hname
  have hany : patch.name.any (· != group.name) = false := by
    cases hpatch : patch.name with
    | none => rfl
    | some name => simpa [hpatch] using hname
  have hrows : d.groups.updateWhere (·.id == id) ({ · with name := group.name }) (fun _ => rfl) =
      d.groups := by
    refine Table.updateWhere_self fun row hrow hid => ?_
    have hfound := Table.find_eq_some.mpr ⟨hrow, beq_iff_eq.mp hid⟩
    rw [Option.some.inj (hfound.symm.trans hgroup)]
  simp only [updateGroup, hgroup, hany, Bool.false_and, Bool.false_eq_true, if_false, hsame, hrows,
    withGroups, d.groupNames, dif_pos]

/-- A request that renames and deletes nothing leaves the world as it is. -/
theorem GroupRequest.handle_of_target_none (sha256 : String → Bytes) {system : String → Bool}
    {w : World} {q : GroupRequest} (h : q.target system w = none) (f : GroupFaults) :
    (q.handle sha256 system f w).1 = w := by
  cases hgroup : w.directory.getGroupById q.id with
  | none =>
    cases q with
    | patch id body now =>
      change w.directory.getGroupById id = none at hgroup
      simp only [handle, patchGroupHandler, hgroup]
    | delete id now =>
      change w.directory.getGroupById id = none at hgroup
      simp only [handle, deleteGroupHandler, hgroup]
  | some group =>
    have hid : group.id = q.id := (Table.find_eq_some.mp hgroup).2
    have hrefused : system q.id = false → propagationLimit <
        (w.directory.memberUserIds group.id (propagationLimit + 1)).length ∨
          q.rewrite w group = none := by
      intro hsystem
      by_contra hopen
      obtain ⟨hsmall, hrewrite⟩ := not_or.mp hopen
      obtain ⟨r, hr⟩ := Option.ne_none_iff_exists'.mp hrewrite
      rw [← hid] at hsystem
      simp [target, hgroup, hsystem, Nat.not_lt.mp hsmall, hr] at h
    cases q with
    | patch id body now =>
      change w.directory.getGroupById id = some group at hgroup
      simp only [handle, patchGroupHandler, hgroup]
      cases body with
      | none => rfl
      | some patch =>
        dsimp only
        split
        · rfl
        · cases hname : patch.name.filter (· != group.name) with
          | none =>
            have hsame := w.directory.updateGroup_same system hgroup hname
            have hunchanged : groupChanged system w id patch = w := by
              rw [groupChanged, hsame]
            simp only [hunchanged, groupUpdated, hgroup]
          | some name =>
            cases hsystem : system id with
            | true => rfl
            | false =>
              simp only [Bool.false_eq_true, if_false, renameHandler]
              cases htaken : (w.directory.getGroupByName name).isSome with
              | true => rfl
              | false =>
                have hrename : (patch.name.filter fun name =>
                    name != group.name && (w.directory.getGroupByName name).isNone) =
                      some name := by
                  obtain ⟨hpatch, hne⟩ := Option.filter_eq_some_iff.mp hname
                  refine Option.filter_eq_some_iff.mpr ⟨hpatch, ?_⟩
                  rw [hne, Bool.true_and, ← Option.not_isSome, htaken]
                  rfl
                rcases hrefused hsystem with hlarge | hno
                · rw [(propagated_cases sha256 f.walk w group.id (.rename group.name name)
                    now).1 hlarge]
                  rfl
                · simp [rewrite, hrename] at hno
    | delete id now =>
      change w.directory.getGroupById id = some group at hgroup
      simp only [handle, deleteGroupHandler, hgroup]
      cases hsystem : system id with
      | true => rfl
      | false =>
        rcases hrefused hsystem with hlarge | hno
        · rw [(propagated_cases sha256 f.walk w group.id (.drop group.name) now).1 hlarge]
          rfl
        · cases hno

theorem Directory.getGroupByName_eq_none {d : Directory} {name : GroupName} :
    (d.getGroupByName name).isNone = true ↔ ∀ row ∈ d.groups.rows, row.name ≠ name := by
  simp [getGroupByName, List.find?_eq_none]

/-- What a request is about to do, when it renames or deletes. -/
theorem GroupRequest.target_eq_some {system : String → Bool} {w : World} {q : GroupRequest}
    {g : GroupRow} {r : Rewrite} (h : q.target system w = some (g, r)) :
    w.directory.getGroupById q.id = some g ∧ g.id = q.id ∧ system q.id = false ∧
    ¬ propagationLimit < (w.directory.memberUserIds g.id (propagationLimit + 1)).length ∧
    q.rewrite w g = some r := by
  obtain ⟨g', hg', hpair⟩ := Option.bind_eq_some_iff.mp h
  obtain ⟨r', hr', heq⟩ := Option.map_eq_some_iff.mp hpair
  cases heq
  obtain ⟨hgroup, hopen⟩ := Option.filter_eq_some_iff.mp hg'
  have hid : g.id = q.id := (Table.find_eq_some.mp hgroup).2
  simp only [Bool.and_eq_true, Bool.not_eq_true', decide_eq_true_eq] at hopen
  exact ⟨hgroup, hid, hid ▸ hopen.1, Nat.not_lt.mpr hopen.2, hr'⟩

/-- A rename that is not refused for its name changes the name of one row. -/
theorem Directory.updateGroup_renamed {d : Directory} {system : String → Bool} {group : GroupRow}
    {patch : GroupPatch} {name : GroupName} (hgroup : d.getGroupById group.id = some group)
    (hsystem : system group.id = false) (hname : patch.name = some name)
    (hfree : ∀ row ∈ d.groups.rows, row.name ≠ name) :
    ∃ d', d.updateGroup system group.id patch = .changed d' ∧ d'.groups = d.groups.updateWhere
      (·.id == group.id) ({ · with name := name }) fun _ => rfl := by
  have hnodup : ((d.groups.updateWhere (·.id == group.id) ({ · with name := name })
      fun _ => rfl).rows.map GroupRow.name).Nodup := by
    rw [← List.filterMap_eq_map]
    refine Table.nodup_filterMap_update ?_ ?_ ?_
    · have hids := List.pairwise_map.mp d.groups.nodup
      refine hids.imp fun {a b} hne ha => ?_
      simp only [beq_iff_eq, beq_eq_false_iff_ne] at ha ⊢
      exact fun hb => hne (ha.trans hb.symm)
    · rw [List.filterMap_eq_map]
      exact d.groupNames
    · intro a _ _ b hb _ x hx hbx
      have hrenamed : x = name := by simpa using hx.symm
      exact hfree b hb (by simpa [hrenamed] using hbx)
  have hchanged : d.withGroups (d.groups.updateWhere (·.id == group.id)
      ({ · with name := name }) fun _ => rfl) = some { d with
        groups := d.groups.updateWhere (·.id == group.id) ({ · with name := name }) fun _ => rfl
        groupNames := hnodup } := dif_pos hnodup
  refine ⟨{ d with
    groups := d.groups.updateWhere (·.id == group.id) ({ · with name := name }) fun _ => rfl
    groupNames := hnodup }, ?_, rfl⟩
  simp only [updateGroup, hgroup, hsystem, Bool.and_false, Bool.false_eq_true, if_false, hname,
    Option.getD_some, hchanged]

theorem GroupName.ext_text {a b : GroupName} (h : a.text = b.text) : a = b := by
  cases a
  cases b
  simpa using h

/-- The row of a group is the one with its id, and the one with its name. -/
theorem Directory.id_eq_iff {d : Directory} {g row : GroupRow} (hg : g ∈ d.groups.rows)
    (hrow : row ∈ d.groups.rows) : row.id = g.id ↔ row.name.text = g.name.text := by
  constructor
  · intro hid
    rw [Table.eq_of_key_eq hrow hg hid]
  · intro hname
    have hsame : row = g :=
      List.inj_on_of_nodup_map d.groupNames hrow hg (GroupName.ext_text hname)
    rw [hsame]

/-- The names after one row was renamed. -/
theorem Directory.mem_names_renamed {d : Directory} {g : GroupRow} (hg : g ∈ d.groups.rows)
    (new : GroupName) (name : String) :
    name ∈ (d.groups.updateWhere (·.id == g.id) ({ · with name := new }) fun _ => rfl).rows.map
      (·.name.text) ↔
    (GroupChange.rename g.name.text new.text).Lists (d.groups.rows.map (·.name.text)) name := by
  rw [← GroupChange.mem_apply, show (GroupChange.rename g.name.text new.text).apply
    (d.groups.rows.map (·.name.text)) = _ from GroupChange.apply_rename _ _ _, Table.updateWhere,
    GroupChange.renamed, List.map_map, List.map_map]
  rw [List.map_congr_left fun row hrow => ?_]
  by_cases hid : row.id = g.id
  · simp [hid, (d.id_eq_iff hg hrow).mp hid]
  · simp [hid, mt (d.id_eq_iff hg hrow).mpr hid]

/-- The names after one row was deleted. -/
theorem Directory.mem_names_dropped {d : Directory} {g : GroupRow} (hg : g ∈ d.groups.rows)
    (name : String) :
    name ∈ (d.groups.deleteWhere (·.id == g.id)).rows.map (·.name.text) ↔
    (GroupChange.remove g.name.text).Lists (d.groups.rows.map (·.name.text)) name := by
  simp only [List.mem_map, Table.mem_deleteWhere, beq_eq_false_iff_ne, GroupChange.Lists]
  constructor
  · rintro ⟨row, ⟨hrow, hid⟩, hname⟩
    have hne : row.name.text ≠ g.name.text := mt (d.id_eq_iff hg hrow).mpr hid
    exact ⟨hname ▸ hne, row, hrow, hname⟩
  · rintro ⟨hne, row, hrow, hname⟩
    have hid : row.id ≠ g.id := fun hid => hne (hname ▸ (d.id_eq_iff hg hrow).mp hid)
    exact ⟨row, ⟨hrow, hid⟩, hname⟩

/-- A deletion that is not refused. -/
theorem deleteGroupHandler_done {sha256 : String → Bytes} {system : String → Bool}
    {f : GroupFaults} {w w' : World} {id : String} {now : ℤ} {g : GroupRow} {members : ℕ}
    {failed : List String} (hgroup : w.directory.getGroupById id = some g)
    (hsystem : system id = false)
    (hrun : propagated sha256 f.walk w g.id (.drop g.name) now = (w', .ok members failed)) :
    (deleteGroupHandler sha256 system f w id now).1 =
      { w' with directory := w'.directory.deleteGroup system g.id } := by
  simp only [deleteGroupHandler, hgroup, hsystem, Bool.false_eq_true, if_false, hrun]

/-- A rename that is not refused. -/
theorem patchGroupHandler_done {sha256 : String → Bytes} {system : String → Bool}
    {f : GroupFaults} {w w' : World} {id : String} {now : ℤ} {g : GroupRow} {patch : GroupPatch}
    {name : GroupName} {members : ℕ} {failed : List String}
    (hgroup : w.directory.getGroupById id = some g) (hid : g.id = id)
    (hsystem : system id = false) (hname : patch.name = some name) (hne : name ≠ g.name)
    (hfree : ∀ row ∈ w.directory.groups.rows, row.name ≠ name)
    (hkept : w'.directory = w.directory)
    (hrun : propagated sha256 f.walk w g.id (.rename g.name name) now =
      (w', .ok members failed)) :
    ∃ d', (patchGroupHandler sha256 system f w id (some patch) now).1 =
        { w' with directory := d' } ∧
      d'.groups = w.directory.groups.updateWhere (·.id == g.id) ({ · with name := name })
        fun _ => rfl := by
  subst hid
  obtain ⟨d', hupdate, hgroups⟩ :=
    Directory.updateGroup_renamed hgroup hsystem hname hfree
  have hrenaming : patch.name.filter (· != g.name) = some name := by simp [hname, hne]
  have hempty : (patch.name.isNone && patch.description.isNone) = false := by simp [hname]
  have htaken : (w.directory.getGroupByName name).isSome = false := by
    rw [Option.isSome_eq_false_iff]
    exact Directory.getGroupByName_eq_none.mpr hfree
  refine ⟨d', ?_, hgroups⟩
  have hchanged : groupChanged system w' g.id patch = { w' with directory := d' } := by
    simp only [groupChanged, hkept, hupdate]
  simp only [patchGroupHandler, hgroup, hempty, Bool.false_eq_true, if_false, hrenaming, hsystem,
    renameHandler, htaken, hrun, hkept, hupdate, hchanged, groupUpdated]
  split
  · rfl
  · rfl

/-- What a request that renames or deletes does to the lists, to the names, and to a retry. -/
theorem GroupRequest.handle_of_target (sha256 : String → Bytes) {system : String → Bool}
    {w : World} {q : GroupRequest} {g : GroupRow} {r : Rewrite}
    (h : q.target system w = some (g, r)) (f : GroupFaults) :
    ∃ w', Propagated f.walk r (w.directory.memberUserIds g.id (propagationLimit + 1)) w w' ∧
      (q.handle sha256 system f w).1.objects = w'.objects ∧
      (∀ name, name ∈ (q.handle sha256 system f w).1.carried ↔ r.change.Lists w.carried name) ∧
      q.target system (q.handle sha256 system f w).1 = none := by
  obtain ⟨hgroup, hid, hsystem, hsmall, hrewrite⟩ := target_eq_some h
  have hg : g ∈ w.directory.groups.rows := (Table.find_eq_some.mp hgroup).1
  obtain ⟨w', failed, hrun, hpropagated⟩ :=
    (propagated_cases sha256 f.walk w g.id r q.now).2 hsmall
  refine ⟨w', hpropagated, ?_⟩
  cases q with
  | delete id now =>
    cases hrewrite
    have hdone := deleteGroupHandler_done hgroup hsystem hrun
    change (deleteGroupHandler sha256 system f w id now).1 = _ at hdone
    have hgroups : (w'.directory.deleteGroup system g.id).groups =
        w.directory.groups.deleteWhere (·.id == g.id) := by
      rw [Directory.deleteGroup, hid, if_neg (by simp [hsystem]), hpropagated.directory]
    simp only [handle]
    rw [hdone]
    refine ⟨rfl, fun name => ?_, ?_⟩
    · rw [World.carried, hgroups]
      exact Directory.mem_names_dropped hg name
    · have hgone : (w'.directory.deleteGroup system g.id).getGroupById id = none := by
        rw [Directory.getGroupById, hgroups, Table.find_deleteWhere_key, hid]
        exact if_pos rfl
      simp only [target, GroupRequest.id, hgone]
      rfl
  | patch id body now =>
    obtain ⟨name, hpassed, rfl⟩ := Option.map_eq_some_iff.mp hrewrite
    obtain ⟨hname, hadmitted⟩ := Option.filter_eq_some_iff.mp hpassed
    obtain ⟨patch, rfl, hname⟩ := Option.bind_eq_some_iff.mp hname
    rw [Bool.and_eq_true, bne_iff_ne, Directory.getGroupByName_eq_none] at hadmitted
    obtain ⟨d', hdone, hgroups⟩ := patchGroupHandler_done hgroup hid hsystem hname hadmitted.1
      hadmitted.2 hpropagated.directory hrun
    simp only [handle]
    change (patchGroupHandler sha256 system f w id (some patch) now).1 = _ at hdone
    rw [hdone]
    refine ⟨rfl, fun text => ?_, ?_⟩
    · rw [World.carried, hgroups]
      exact Directory.mem_names_renamed hg name text
    · have hnow : d'.getGroupById id = some { g with name := name } := by
        rw [Directory.getGroupById, hgroups, Table.find_updateWhere id,
          show w.directory.groups.find id = some g from hgroup]
        simp
      simp only [target, GroupRequest.id, hnow, rewrite]
      simp [hname]

theorem GroupRequest.sent_of_target_none (sha256 : String → Bytes) {system : String → Bool}
    {w : World} {q : GroupRequest} (h : q.target system w = none) (faults : List GroupFaults) :
    q.sent sha256 system faults w = w := by
  induction faults with
  | nil => rfl
  | cons f faults ih =>
    have hsame := handle_of_target_none sha256 h f
    rw [sent, List.foldl_cons, hsame]
    exact ih

/-- The group's name is the one that a rename or a deletion takes away. -/
theorem GroupRequest.lists_rewrite {w : World} {q : GroupRequest} {g : GroupRow} {r : Rewrite}
    (h : q.rewrite w g = some r) (names : List String) :
    ¬ r.change.Lists names g.name.text ∧
    ∀ name ∈ names, name ≠ g.name.text → r.change.Lists names name := by
  cases q with
  | delete id now =>
    cases h
    exact ⟨fun hlists => hlists.1 rfl, fun name hname hne => ⟨hne, hname⟩⟩
  | patch id body now =>
    obtain ⟨new, hpassed, rfl⟩ := Option.map_eq_some_iff.mp h
    have hnew := (Option.filter_eq_some_iff.mp hpassed).2
    simp only [Bool.and_eq_true, bne_iff_ne] at hnew
    constructor
    · intro hlists
      rcases hlists with ⟨-, hne⟩ | ⟨heq, -⟩
      · exact hne rfl
      · exact hnew.1 (GroupName.ext_text heq.symm)
    · exact fun name hname hne => .inl ⟨hname, hne⟩

theorem Rewrite.lists_mono (r : Rewrite) {groups names : List String}
    (h : ∀ name ∈ groups, name ∈ names) {name : String} (hlists : r.change.Lists groups name) :
    r.change.Lists names name := by
  cases r with
  | drop dropped => exact ⟨hlists.1, h name hlists.2⟩
  | rename old new =>
    rcases hlists with ⟨hname, hne⟩ | ⟨hnew, hold⟩
    · exact .inl ⟨h name hname, hne⟩
    · exact .inr ⟨hnew, h old.text hold⟩

/-- A row is inserted under a name that no row has. -/
theorem Directory.name_ne_of_insertGroup {d d' : Directory} {row : GroupRow}
    (h : d.insertGroup row = some d') : ∀ was ∈ d.groups.rows, was.name ≠ row.name := by
  intro was hwas hname
  obtain ⟨groups, hinsert, hwrite⟩ := Option.bind_eq_some_iff.mp h
  have hnodup : (groups.rows.map GroupRow.name).Nodup := by
    by_contra hdup
    simp [withGroups, hdup] at hwrite
  have hold := (Table.mem_insert hinsert).mpr (.inl hwas)
  have hnew := (Table.mem_insert hinsert).mpr (.inr (Eq.refl row))
  have hsame : was = row := List.inj_on_of_nodup_map hnodup hold hnew hname
  exact Table.key_notMem_of_insert hinsert was hwas (congrArg GroupRow.id hsame)

/-! ### The names that users list -/

/-- Some group carries each name that these users' objects list. -/
def World.NamesReal (users : Set String) (w : World) : Prop :=
  ∀ uid ∈ users, ∀ groups, w.groupsOf uid = some groups → ∀ name ∈ groups, name ∈ w.carried

/-- A group just created has none of these users listed. -/
def World.NewGroupsEmpty (users : Set String) (w : World) : Prop :=
  ∀ row w', createGroup w row = some w' →
    ∀ uid ∈ users, ∀ groups, w'.groupsOf uid = some groups → row.name.text ∉ groups

theorem World.NamesReal.newGroupsEmpty {users : Set String} {w : World} (h : w.NamesReal users) :
    w.NewGroupsEmpty users := by
  intro row w' hcreated uid huid groups hgroups hlisted
  obtain ⟨d', hinsert, rfl⟩ := Option.map_eq_some_iff.mp hcreated
  obtain ⟨was, hwas, hname⟩ := List.mem_map.mp (h uid huid groups hgroups _ hlisted)
  exact Directory.name_ne_of_insertGroup hinsert was hwas (GroupName.ext_text hname)

/-- Users keep listing real names, whatever the retries do, exactly when a first request that takes
a name away reaches each of them that lists it. -/
theorem GroupRequest.namesReal_sent_iff (sha256 : String → Bytes) (system : String → Bool)
    (q : GroupRequest) (f : GroupFaults) (retries : List GroupFaults) {w : World}
    {users : Set String} (hreal : w.NamesReal users) :
    let after := q.sent sha256 system (f :: retries) w
    (after.NamesReal users ∧ after.NewGroupsEmpty users) ↔
      ∀ g r, q.target system w = some (g, r) → ∀ uid ∈ users, ∀ groups,
        w.groupsOf uid = some groups → g.name.text ∈ groups →
          w.directory.mirrors g.id uid = true ∧ f.walk.Reaches uid := by
  intro after
  cases htarget : q.target system w with
  | none =>
    have hsame : after = w := sent_of_target_none sha256 htarget (f :: retries)
    rw [hsame]
    constructor
    · intro _ g r h
      cases h
    · intro _
      exact ⟨hreal, hreal.newGroupsEmpty⟩
  | some target =>
    obtain ⟨g, r⟩ := target
    obtain ⟨w', hpropagated, hobjects, hcarried, hretried⟩ :=
      handle_of_target sha256 htarget f
    obtain ⟨-, -, -, hsmall, hrewrite⟩ := target_eq_some htarget
    have hafter : after = (q.handle sha256 system f w).1 :=
      sent_of_target_none sha256 hretried retries
    have hgroups : ∀ uid, after.groupsOf uid = w'.groupsOf uid := by
      intro uid
      rw [hafter]
      exact World.groupsOf_congr (congrFun hobjects uid)
    rw [← hafter] at hcarried
    have hmembers : ∀ uid, uid ∈ w.directory.memberUserIds g.id (propagationLimit + 1) ↔
        w.directory.mirrors g.id uid = true := fun _ => mem_memberUserIds (Nat.not_lt.mp hsmall)
    constructor
    · intro ⟨hnames, _⟩ g' r' heq uid huid groups hheld hold
      cases heq
      by_contra hmissed
      have hkept : after.groupsOf uid = some groups := by
        rw [hgroups, ← hheld]
        exact hpropagated.kept fun hreached => hmissed ⟨(hmembers uid).mp hreached.1, hreached.2⟩
      have hstill := (hcarried g.name.text).mp (hnames uid huid groups hkept _ hold)
      exact (lists_rewrite hrewrite w.carried).1 hstill
    · intro hreached
      have hnames : after.NamesReal users := by
        intro uid huid groups' hgroups' name hname
        rw [hgroups] at hgroups'
        rw [hcarried]
        cases hheld : w.groupsOf uid with
        | none =>
          rw [hpropagated.absent uid hheld] at hgroups'
          cases hgroups'
        | some groups =>
          have hin : ∀ name ∈ groups, name ∈ w.carried := hreal uid huid groups hheld
          by_cases hwritten : w.directory.mirrors g.id uid = true ∧ f.walk.Reaches uid
          · obtain ⟨written, hw', hlists⟩ :=
              hpropagated.reached uid ((hmembers uid).mpr hwritten.1) hwritten.2 groups hheld
            rw [hw'] at hgroups'
            cases hgroups'
            exact r.lists_mono hin ((hlists name).mp hname)
          · rw [hpropagated.kept fun h => hwritten ⟨(hmembers uid).mp h.1, h.2⟩, hheld] at hgroups'
            cases hgroups'
            have hne : name ≠ g.name.text := by
              intro hold
              exact hwritten (hreached g r rfl uid huid _ hheld (hold ▸ hname))
            exact (lists_rewrite hrewrite w.carried).2 name (hin name hname) hne
      exact ⟨hnames, hnames.newGroupsEmpty⟩

/-! ### A member that a rename missed -/

namespace Sample

theorem d_admitted : isGroupName "d" = true := by decide

/-- The group `c`, which `u1` is in, gets the name `d`. -/
def patchC : GroupRequest := .patch "g3" (some ⟨some ⟨"d", d_admitted⟩, none⟩) 5

def allAnswer : GroupFaults := ⟨⟨fun _ => .none, fun _ => .none⟩, ⟨fun _ => .none, fun _ => .none⟩⟩

/-- The members' objects could not be read. -/
def noneRead : GroupFaults := ⟨⟨fun _ => .before, fun _ => .none⟩, allAnswer.undo⟩

def newC : GroupRow := ⟨"g4", groupC.name⟩

theorem world_namesReal : world.NamesReal {uid | world.directory.mirrors "g3" uid = true} := by
  intro uid huid groups hgroups name hname
  obtain ⟨m, hm, hkey⟩ := mirrors_iff.mp huid
  have hm : m = ⟨"g3", "u1", 0⟩ := List.mem_singleton.mp hm
  subst hm
  cases hkey
  have hlist : world.groupsOf "u1" = some ["c"] := by decide
  rw [hlist] at hgroups
  cases hgroups
  have hcarried : ∀ name ∈ ["c"], name ∈ world.carried := by decide
  exact hcarried name hname

end Sample

theorem GroupRequest.namesReal_sent_iff_sample :
    ((Sample.patchC.sent (fun _ => []) (fun _ => false) [Sample.allAnswer, Sample.allAnswer]
      Sample.world).NamesReal {uid | Sample.world.directory.mirrors "g3" uid = true} ∧
      (Sample.patchC.sent (fun _ => []) (fun _ => false) [Sample.allAnswer, Sample.allAnswer]
        Sample.world).NewGroupsEmpty {uid | Sample.world.directory.mirrors "g3" uid = true}) ∧
    Sample.patchC.target (fun _ => false) Sample.world ≠ none := by
  refine ⟨(GroupRequest.namesReal_sent_iff (fun _ => []) (fun _ => false) Sample.patchC
    Sample.allAnswer [Sample.allAnswer] Sample.world_namesReal).mpr ?_, by decide⟩
  intro g r htarget uid huid groups _ _
  obtain ⟨-, hid, -⟩ := GroupRequest.target_eq_some htarget
  have hwrites : Sample.allAnswer.walk.write uid ≠ .before := by
    show Fault.none ≠ .before
    decide
  rw [hid]
  exact ⟨huid, rfl, hwrites⟩

/-- The retry finds the new name in place, and no member to write. -/
theorem member_lists_new_group :
    ¬ ∀ (sha256 : String → Bytes) (system : String → Bool) (q : GroupRequest) (f : GroupFaults)
      (retries : ℕ) (w : World), w.NamesReal {uid | w.directory.mirrors q.id uid = true} →
      (q.sent sha256 system (f :: List.replicate retries Sample.allAnswer) w).NamesReal
        {uid | w.directory.mirrors q.id uid = true} ∧
      (q.sent sha256 system (f :: List.replicate retries Sample.allAnswer) w).NewGroupsEmpty
        {uid | w.directory.mirrors q.id uid = true} := by
  intro hall
  obtain ⟨-, hempty⟩ := hall (fun _ => []) (fun _ => false) Sample.patchC Sample.noneRead 1
    Sample.world Sample.world_namesReal
  obtain ⟨w', hcreated, hlist⟩ : ∃ w', createGroup (Sample.patchC.sent (fun _ => [])
      (fun _ => false) (Sample.noneRead :: List.replicate 1 Sample.allAnswer) Sample.world)
        Sample.newC = some w' ∧ w'.groupsOf "u1" = some ["c"] := by
    refine ⟨_, rfl, ?_⟩
    decide
  exact hempty Sample.newC w' hcreated "u1" (by decide) ["c"] hlist (by decide)

end TinyOidc.Account
