import TinyOidc.Account.MembershipCalls
import TinyOidc.User.Changes

/-! No lost membership update: when concurrent changes of memberships each write the list they
have read, a user's object ends with every change made. -/
namespace TinyOidc.Account
open RowTable TinyOidc.User TinyOidc.Util
open Threads (Prog Entry Label Thread Config System)

/-! ### Runs -/

abbrev MembershipThread := Thread MembershipRequest Op.Answer MembershipAnswer

abbrev MembershipConfig := Config MembershipRequest World Op.Answer MembershipAnswer

abbrev MembershipLabel := Label MembershipRequest Op Unit

def Directory.mirrors (d : Directory) (groupId uid : String) : Bool :=
  (d.members.find (groupId, uid)).isSome

def World.Holds (w : World) (uid : String) (groups : List String) : Prop :=
  ∃ row, (w.objects uid).guard = .ok row ∧ row.groups = groups

/-- The calls that reach a user: a propagation reaches those that the mirror lists. -/
def MembershipRequest.reaches (d : Directory) (uid : String) : MembershipRequest → Bool
  | add v _ _ | remove v _ _ => v == uid
  | propagate groupId _ _ => d.mirrors groupId uid

theorem MembershipRequest.about_of_reaches {d : Directory} {uid : String} {q : MembershipRequest}
    (h : q.reaches d uid = true) : q.about uid = true := by
  cases q with
  | propagate groupId rewrite now => rfl
  | _ => exact h

/-- When the next step writes the user's list, the object still holds the list that the call has
read. -/
def writesCurrent (sha256 : String → Bytes) (uid : String) (c : MembershipConfig)
    (l : MembershipLabel) : Bool :=
  match ((memberships sha256).step c l).2 with
  | some (.thread _ t ⟨.user v (.setGroups _ _), _⟩) =>
      v != uid || lastRead uid t.log == (c.shared.user uid).map (·.groups)
  | _ => true

def WritesCurrent (sha256 : String → Bytes) (w : World) (uid : String) :
    List MembershipLabel → Prop
  | [] => True
  | l :: labels => writesCurrent sha256 uid ((memberships sha256).after w labels) l = true ∧
      WritesCurrent sha256 w uid labels

instance decidableWritesCurrent (sha256 : String → Bytes) (w : World) (uid : String) :
    (labels : List MembershipLabel) → Decidable (WritesCurrent sha256 w uid labels)
  | [] => isTrue trivial
  | _ :: labels =>
      have := decidableWritesCurrent sha256 w uid labels
      inferInstanceAs (Decidable (_ ∧ _))

/-- Every call has returned `ok`. -/
def AllOk (c : MembershipConfig) : Prop :=
  ∀ t ∈ c.threads, t.prog.result.any MembershipAnswer.isOk = true

instance (c : MembershipConfig) : Decidable (AllOk c) :=
  inferInstanceAs (Decidable (∀ t ∈ c.threads, _))

/-- The calls about the user are about pairwise different groups. -/
def PairwiseApart (uid : String) (requests : List MembershipRequest) : Prop :=
  requests.Pairwise fun q q' => q.about uid = true → q'.about uid = true → q.Apart q'

instance (uid : String) (requests : List MembershipRequest) :
    Decidable (PairwiseApart uid requests) := inferInstanceAs (Decidable (requests.Pairwise _))

/-- The list a user should hold: the one from before with the changes of the calls that are done
with the user. -/
def ListsDone (uid : String) (before groups : List String) (threads : List MembershipThread) :
    Prop :=
  (∀ t ∈ threads, settled t.request.change uid t.log = true →
    ∀ name ∈ t.request.change.names, name ∈ groups ↔ name ∈ t.request.change.apply before) ∧
  ∀ name, (∀ t ∈ threads, settled t.request.change uid t.log = true →
    name ∉ t.request.change.names) → (name ∈ groups ↔ name ∈ before)

/-- What holds of a user while the calls go on. -/
structure MembershipInv (w : World) (uid : String) (before : List String)
    (c : MembershipConfig) : Prop where
  list : ∃ groups, c.shared.Holds uid groups ∧ ListsDone uid before groups c.threads
  mirror : ∀ groupId, (∀ t ∈ c.threads, t.request.about uid = true →
      t.request.groupId = groupId → ∃ rewrite now, t.request = .propagate groupId rewrite now) →
    c.shared.directory.mirrors groupId uid = w.directory.mirrors groupId uid
  answered : ∀ t ∈ c.threads, ∀ entry ∈ t.log, failedOn uid entry = false
  reached : ∀ t ∈ c.threads, settled t.request.change uid t.log = true →
    t.request.reaches w.directory uid = true
  walked : ∀ t ∈ c.threads, ∀ groupId members, Walks t.log groupId members →
    (uid ∈ members ↔ w.directory.mirrors groupId uid = true)

section Steps
variable {w : World} {uid : String} {before : List String} {c : MembershipConfig} {i : ℕ}
  {t t' : MembershipThread} {w' : World} {groups groups' : List String}

theorem mem_set_of_other {threads : List MembershipThread} {j : ℕ} {t₁ : MembershipThread}
    (hj : threads[j]? = some t₁) (hne : i ≠ j) : t₁ ∈ threads.set i t' :=
  List.mem_of_getElem? (by rw [List.getElem?_set_ne hne, hj])

/-- A step that neither ends the thread's work on the user nor changes the list. -/
theorem ListsDone.same (h : ListsDone uid before groups c.threads)
    (hi : c.threads[i]? = some t) (hrequest : t'.request = t.request)
    (hsettled : settled t.request.change uid t'.log = settled t.request.change uid t.log) :
    ListsDone uid before groups (c.threads.set i t') := by
  constructor
  · intro t₁ ht₁ hdone
    rcases Threads.exists_of_mem_set ht₁ with rfl | ⟨j, -, hj⟩
    · rw [hrequest, hsettled] at hdone
      rw [hrequest]
      exact h.1 t (List.mem_of_getElem? hi) hdone
    · exact h.1 t₁ (List.mem_of_getElem? hj) hdone
  · intro name hname
    refine h.2 name fun t₁ ht₁ hdone => ?_
    obtain ⟨j, hj⟩ := List.mem_iff_getElem?.mp ht₁
    by_cases hji : i = j
    · subst hji
      cases hi.symm.trans hj
      have hlt := (List.getElem?_eq_some_iff.mp hi).1
      have hmem : t' ∈ c.threads.set i t' := List.mem_of_getElem? (List.getElem?_set_self hlt)
      have hnot := hname t' hmem (by rw [hrequest, hsettled]; exact hdone)
      rwa [hrequest] at hnot
    · exact hname t₁ (mem_set_of_other hj hji) hdone

/-- A step that ends the thread's work on the user, with its change made. -/
theorem ListsDone.settle (h : ListsDone uid before groups c.threads)
    (hi : c.threads[i]? = some t) (hrequest : t'.request = t.request)
    (hopen : settled t.request.change uid t.log = false)
    (hdone : settled t.request.change uid t'.log = true)
    (hapart : ∀ j t₁, j ≠ i → c.threads[j]? = some t₁ →
      settled t₁.request.change uid t₁.log = true → t.request.Apart t₁.request)
    (hgroups : ∀ name, name ∈ groups' ↔ name ∈ t.request.change.apply groups) :
    ListsDone uid before groups' (c.threads.set i t') := by
  have hbefore : ∀ name ∈ t.request.change.names, name ∈ groups ↔ name ∈ before := by
    intro name hname
    refine h.2 name fun t₁ ht₁ hdone₁ => ?_
    obtain ⟨j, hj⟩ := List.mem_iff_getElem?.mp ht₁
    by_cases hji : j = i
    · subst hji
      cases hi.symm.trans hj
      exact absurd hdone₁ (by simp [hopen])
    · exact (hapart j t₁ hji hj hdone₁).2 name hname
  constructor
  · intro t₁ ht₁ hdone₁ name hname
    rw [hgroups]
    rcases Threads.exists_of_mem_set ht₁ with rfl | ⟨j, hji, hj⟩
    · rw [hrequest] at hname ⊢
      exact GroupChange.mem_apply_congr hbefore hname
    · have hother : name ∉ t.request.change.names :=
        fun hmem => (hapart j t₁ hji hj hdone₁).2 name hmem hname
      rw [GroupChange.mem_apply_of_notMem_names hother]
      exact h.1 t₁ (List.mem_of_getElem? hj) hdone₁ name hname
  · intro name hname
    have hlt := (List.getElem?_eq_some_iff.mp hi).1
    have hmem : t' ∈ c.threads.set i t' := List.mem_of_getElem? (List.getElem?_set_self hlt)
    have hown : name ∉ t.request.change.names := by
      have hnot := hname t' hmem (by rw [hrequest]; exact hdone)
      rwa [hrequest] at hnot
    rw [hgroups, GroupChange.mem_apply_of_notMem_names hown]
    refine h.2 name fun t₁ ht₁ hdone₁ => ?_
    obtain ⟨j, hj⟩ := List.mem_iff_getElem?.mp ht₁
    by_cases hji : i = j
    · subst hji
      cases hi.symm.trans hj
      exact absurd hdone₁ (by simp [hopen])
    · exact hname t₁ (mem_set_of_other hj hji) hdone₁

/-! What the steps do to one user. -/

theorem settles_other {c : GroupChange} {v : String} {call : Call} {r : Option Reply}
    (h : v ≠ uid) : settles c uid ⟨.user v call, r⟩ = false := by
  have hne : (v == uid) = false := by simpa using h
  unfold settles
  split
  · next heq =>
    cases heq
    simp [hne]
  · next heq =>
    cases heq
    exact hne
  · rfl

theorem failedOn_other {v : String} {call : Call} {r : Option Reply} (h : v ≠ uid) :
    failedOn uid ⟨.user v call, r⟩ = false := by
  unfold failedOn
  split
  · rfl
  · next heq =>
    cases heq
    simpa using h
  · rfl

theorem MembershipInv.of_step {entry : Entry Op.Answer} {prog : Program MembershipAnswer}
    (h : MembershipInv w uid before c) (hi : c.threads[i]? = some t)
    (hlist : ∃ groups, w'.Holds uid groups ∧
      ListsDone uid before groups (c.threads.set i ⟨t.request, entry :: t.log, prog⟩))
    (hmirror : ∀ groupId, (t.request.about uid = true → t.request.groupId = groupId →
        ∃ rewrite now, t.request = .propagate groupId rewrite now) →
      w'.directory.mirrors groupId uid = c.shared.directory.mirrors groupId uid)
    (hanswered : failedOn uid entry = false)
    (hreached : settles t.request.change uid entry = true →
      t.request.reaches w.directory uid = true)
    (hwalked : ∀ groupId members,
      entry = ⟨.d1 (.memberUserIds groupId (propagationLimit + 1)), .ok members⟩ →
      members.length ≤ propagationLimit →
      (uid ∈ members ↔ w.directory.mirrors groupId uid = true)) :
    MembershipInv w uid before ⟨w', c.threads.set i ⟨t.request, entry :: t.log, prog⟩⟩ := by
  have hold : t ∈ c.threads := List.mem_of_getElem? hi
  have hcases : ∀ t₁ ∈ c.threads.set i ⟨t.request, entry :: t.log, prog⟩,
      t₁ = ⟨t.request, entry :: t.log, prog⟩ ∨ t₁ ∈ c.threads := by
    intro t₁ ht₁
    rcases Threads.exists_of_mem_set ht₁ with heq | ⟨j, -, hj⟩
    · exact .inl heq
    · exact .inr (List.mem_of_getElem? hj)
  refine ⟨hlist, ?_, ?_, ?_, ?_⟩
  · intro groupId hpropagates
    have hlt := (List.getElem?_eq_some_iff.mp hi).1
    have hown := hpropagates ⟨t.request, entry :: t.log, prog⟩
      (List.mem_of_getElem? (List.getElem?_set_self hlt))
    rw [hmirror groupId hown]
    refine h.mirror groupId fun t₁ ht₁ => ?_
    obtain ⟨j, hj⟩ := List.mem_iff_getElem?.mp ht₁
    by_cases hji : i = j
    · subst hji
      cases hi.symm.trans hj
      exact hown
    · exact hpropagates t₁ (mem_set_of_other hj hji)
  · intro t₁ ht₁ entry' hentry'
    rcases hcases t₁ ht₁ with rfl | ht₁
    · rcases List.mem_cons.mp hentry' with rfl | hentry'
      · exact hanswered
      · exact h.answered t hold entry' hentry'
    · exact h.answered t₁ ht₁ entry' hentry'
  · intro t₁ ht₁ hdone
    rcases hcases t₁ ht₁ with rfl | ht₁
    · rw [settled_cons, Bool.or_eq_true] at hdone
      rcases hdone with hnew | hdone
      · exact hreached hnew
      · exact h.reached t hold hdone
    · exact h.reached t₁ ht₁ hdone
  · rintro t₁ ht₁ groupId members ⟨hread, hlimit⟩
    rcases hcases t₁ ht₁ with rfl | ht₁
    · rcases List.mem_cons.mp hread with hread | hread
      · exact hwalked groupId members hread.symm hlimit
      · exact h.walked t hold groupId members ⟨hread, hlimit⟩
    · exact h.walked t₁ ht₁ groupId members ⟨hread, hlimit⟩

theorem mirrors_iff {d : Directory} {groupId : String} :
    d.mirrors groupId uid = true ↔ ∃ m ∈ d.members.rows, m.key = (groupId, uid) := by
  rw [Directory.mirrors, Option.isSome_iff_exists]
  exact exists_congr fun m => Table.find_eq_some

theorem mirrors_insertMembership {d : Directory} {groupId v groupId' : String} {now : ℤ}
    (h : (groupId, v) ≠ (groupId', uid)) :
    (d.write (d.insertMembershipOrIgnore groupId v now)).1.mirrors groupId' uid =
      d.mirrors groupId' uid := by
  unfold Directory.insertMembershipOrIgnore Directory.insertMembership
  cases hins : d.members.insert ⟨groupId, v, now⟩ with
  | none => rfl
  | some members =>
    by_cases href : d.referenced groupId v = true
    · simp only [href, if_true, Directory.write]
      rw [Bool.eq_iff_iff, mirrors_iff, mirrors_iff]
      constructor
      · rintro ⟨m, hm, hkey⟩
        rcases (Table.mem_insert hins).mp hm with hm | rfl
        · exact ⟨m, hm, hkey⟩
        · exact absurd hkey h
      · rintro ⟨m, hm, hkey⟩
        exact ⟨m, (Table.mem_insert hins).mpr (.inl hm), hkey⟩
    · simp [href, Directory.write]

theorem mirrors_deleteMembership {d : Directory} {groupId v groupId' : String}
    (h : (groupId, v) ≠ (groupId', uid)) :
    (d.deleteMembership groupId v).mirrors groupId' uid = d.mirrors groupId' uid := by
  rw [Bool.eq_iff_iff, mirrors_iff, mirrors_iff]
  constructor
  · rintro ⟨m, hm, hkey⟩
    exact ⟨m, Table.deleteWhere_subset hm, hkey⟩
  · rintro ⟨m, hm, hkey⟩
    refine ⟨m, Table.mem_deleteWhere.mpr ⟨hm, ?_⟩, hkey⟩
    by_contra hdeleted
    simp only [Bool.not_eq_false, Bool.and_eq_true, beq_iff_eq] at hdeleted
    exact h (by rw [← hkey, MemberRow.key, hdeleted.1, hdeleted.2])

/-- A list of members that the limit has not cut is the mirror's. -/
theorem mem_memberUserIds {d : Directory} {groupId : String}
    (h : (d.memberUserIds groupId (propagationLimit + 1)).length ≤ propagationLimit) :
    uid ∈ d.memberUserIds groupId (propagationLimit + 1) ↔ d.mirrors groupId uid = true := by
  simp only [Directory.memberUserIds, List.length_map, List.length_take] at h
  have hall : ∀ rows : List MemberRow, min (propagationLimit + 1) rows.length ≤ propagationLimit →
      rows.take (propagationLimit + 1) = rows :=
    fun rows hrows => List.take_of_length_le (by omega)
  rw [Directory.memberUserIds, hall _ h, mirrors_iff]
  simp only [List.mem_map, List.mem_insertionSort, List.mem_filter, beq_iff_eq]
  constructor
  · rintro ⟨m, ⟨hm, hgroup⟩, huser⟩
    exact ⟨m, hm, by rw [MemberRow.key, hgroup, huser]⟩
  · rintro ⟨m, hm, hkey⟩
    have hparts : m.groupId = groupId ∧ m.userId = uid := Prod.mk.inj hkey
    exact ⟨m, ⟨hm, hparts.1⟩, hparts.2⟩

theorem getProfile_of_guard {sha256 : String → Bytes} {o : UserObject} {row : UserRow}
    (h : o.guard = .ok row) :
    o.call sha256 .getProfile = (o, .profile (.ok (profile row))) := by
  simp [UserObject.call, answered, UserObject.getProfile, UserObject.guarded, h]

theorem setGroups_of_guard (sha256 : String → Bytes) {o : UserObject} {row : UserRow}
    (h : o.guard = .ok row) (written : List String) (now : ℤ) :
    let row' := { row with groups := sortTexts (uniqueTexts written), updatedAt := now }
    o.call sha256 (.setGroups written now) = (o.setUser row', .profile (.ok (profile row'))) := by
  simp [UserObject.call, answered, UserObject.setGroups, UserObject.guarded, h]

theorem guard_setUser {o : UserObject} {row row' : UserRow} (h : o.guard = .ok row) :
    (o.setUser row').guard = .ok row' := by
  simp [UserObject.setUser, UserObject.store, UserObject.guard, (guard_ok h).1]

theorem user_of_holds (h : w.Holds uid groups) : (w.user uid).map (·.groups) = some groups := by
  obtain ⟨row, hguard, rfl⟩ := h
  simp [World.user, (guard_ok hguard).2]

theorem MembershipInv.reaches (h : MembershipInv w uid before c) (ht : t ∈ c.threads)
    (hworks : WorksOn t.request t.log uid) : t.request.reaches w.directory uid = true := by
  cases hq : t.request with
  | propagate groupId rewrite now =>
    rw [hq] at hworks
    obtain ⟨members, hwalks, hmem⟩ := hworks
    exact (h.walked t ht groupId members hwalks).mp hmem
  | add v group now =>
    rw [hq] at hworks
    simp [MembershipRequest.reaches, show uid = v from hworks]
  | remove v group now =>
    rw [hq] at hworks
    simp [MembershipRequest.reaches, show uid = v from hworks]

theorem MembershipInv.getProfile {sha256 : String → Bytes} {prog : Program MembershipAnswer}
    {row : UserRow} (h : MembershipInv w uid before c) (hi : c.threads[i]? = some t)
    (hworks : WorksOn t.request t.log uid) (hguard : (c.shared.objects uid).guard = .ok row)
    (hlist : ListsDone uid before row.groups c.threads)
    (hdone : ∀ j t₁, j ≠ i → c.threads[j]? = some t₁ → t.request.about uid = true →
      settled t₁.request.change uid t₁.log = true → t.request.Apart t₁.request) :
    MembershipInv w uid before ⟨(c.shared.perform sha256 (.user uid .getProfile)).1,
      c.threads.set i ⟨t.request, ⟨.user uid .getProfile,
        (c.shared.perform sha256 (.user uid .getProfile)).2⟩ :: t.log, prog⟩⟩ := by
  have hperform : c.shared.perform sha256 (.user uid .getProfile) =
      (c.shared, some (.profile (.ok (profile row)))) := by
    simp [World.perform, World.setObject, getProfile_of_guard hguard]
  have hreached := h.reaches (List.mem_of_getElem? hi) hworks
  have habout := MembershipRequest.about_of_reaches hreached
  rw [hperform]
  refine h.of_step hi ⟨row.groups, ⟨row, hguard, rfl⟩, ?_⟩ (fun _ _ => rfl) rfl
    (fun _ => hreached) (fun _ _ heq => by cases heq)
  cases hopen : settled t.request.change uid t.log with
  | true => exact hlist.same hi rfl (by simp [hopen])
  | false =>
    cases hnext : t.request.change.next row.groups with
    | some written =>
      refine hlist.same hi rfl ?_
      simp [hopen, settles, hnext, profile]
    | none =>
      refine hlist.settle hi rfl hopen ?_ (fun j t₁ hji hj => hdone j t₁ hji hj habout) ?_
      · simp [settles, hnext, profile]
      · simp [GroupChange.apply_of_next_none hnext]

theorem MembershipInv.setGroups {sha256 : String → Bytes} {prog : Program MembershipAnswer}
    {row : UserRow} {written : List String} {now : ℤ} (h : MembershipInv w uid before c)
    (hi : c.threads[i]? = some t)
    (hperm : MembershipPermits t.request t.log (.user uid (.setGroups written now)))
    (hguard : (c.shared.objects uid).guard = .ok row)
    (hlist : ListsDone uid before row.groups c.threads)
    (hdone : ∀ j t₁, j ≠ i → c.threads[j]? = some t₁ → t.request.about uid = true →
      settled t₁.request.change uid t₁.log = true → t.request.Apart t₁.request)
    (hcurrent : lastRead uid t.log = (c.shared.user uid).map (·.groups)) :
    MembershipInv w uid before ⟨(c.shared.perform sha256 (.user uid (.setGroups written now))).1,
      c.threads.set i ⟨t.request, ⟨.user uid (.setGroups written now),
        (c.shared.perform sha256 (.user uid (.setGroups written now))).2⟩ :: t.log, prog⟩⟩ := by
  obtain ⟨hworks, read, hread, hnext⟩ := hperm
  have hreached := h.reaches (List.mem_of_getElem? hi) hworks
  have habout := MembershipRequest.about_of_reaches hreached
  -- The list read is the list held, so the list written is the change of the list held.
  have hheld : some read = some row.groups := by
    rw [← hread, hcurrent]
    exact user_of_holds ⟨row, hguard, rfl⟩
  cases hheld
  have hopen : settled t.request.change uid t.log = false := by
    by_contra hsettled
    have hmade := hlist.1 t (List.mem_of_getElem? hi) (by simpa using hsettled)
    rw [GroupChange.next_of_applied hmade] at hnext
    cases hnext
  have hperform := setGroups_of_guard sha256 hguard written now
  generalize hrow' : { row with groups := sortTexts (uniqueTexts written), updatedAt := now } =
    row' at hperform
  have hgroups' : row'.groups = sortTexts (uniqueTexts written) := by rw [← hrow']
  simp only at hperform
  have hholds' : (c.shared.setObject uid ((c.shared.objects uid).setUser row')).Holds uid
      row'.groups := ⟨row', by simpa [World.setObject] using guard_setUser hguard, rfl⟩
  simp only [World.perform, hperform]
  refine h.of_step hi ⟨row'.groups, hholds', ?_⟩ (fun _ _ => rfl) rfl (fun _ => hreached)
    (fun _ _ heq => by cases heq)
  refine hlist.settle hi rfl hopen (by simp [settles])
    (fun j t₁ hji hj => hdone j t₁ hji hj habout) ?_
  intro name
  rw [hgroups', GroupChange.apply_of_next_some hnext, mem_sortTexts, mem_uniqueTexts]

/-- What one call of a thread keeps. -/
theorem membershipInv_thread {sha256 : String → Bytes} {op : Op} {prog : Program MembershipAnswer}
    (h : MembershipInv w uid before c) (hi : c.threads[i]? = some t)
    (hperm : MembershipPermits t.request t.log op)
    (hcurrent : ∀ written now, op = .user uid (.setGroups written now) →
      lastRead uid t.log = (c.shared.user uid).map (·.groups))
    (hapart : ∀ j t₁, j ≠ i → c.threads[j]? = some t₁ → t.request.about uid = true →
      t₁.request.about uid = true → t.request.Apart t₁.request) :
    MembershipInv w uid before ⟨(c.shared.perform sha256 op).1,
      c.threads.set i ⟨t.request, ⟨op, (c.shared.perform sha256 op).2⟩ :: t.log, prog⟩⟩ := by
  obtain ⟨groups, hholds, hlist⟩ := h.list
  have hdone : ∀ j t₁, j ≠ i → c.threads[j]? = some t₁ → t.request.about uid = true →
      settled t₁.request.change uid t₁.log = true → t.request.Apart t₁.request :=
    fun j t₁ hji hj habout hsettled =>
      hapart j t₁ hji hj habout
        (MembershipRequest.about_of_reaches (h.reached t₁ (List.mem_of_getElem? hj) hsettled))
  cases op with
  | user v call =>
    by_cases hv : v = uid
    · subst hv
      obtain ⟨row, hguard, rfl⟩ := hholds
      cases call with
      | getProfile => exact h.getProfile hi hperm hguard hlist hdone
      | setGroups written now =>
        exact h.setGroups hi hperm hguard hlist hdone (hcurrent written now rfl)
      | _ => exact hperm.elim
    · have hother : (c.shared.perform sha256 (.user v call)).1.Holds uid groups := by
        obtain ⟨row, hguard, hgroups⟩ := hholds
        exact ⟨row, by simpa [World.perform, World.setObject, Function.update_of_ne (Ne.symm hv)]
          using hguard,
          hgroups⟩
      refine h.of_step hi ⟨groups, hother, hlist.same hi rfl ?_⟩ (fun _ _ => rfl)
        (failedOn_other hv) ?_ (fun _ _ heq => by cases heq)
      · rw [settled_cons, settles_other hv, Bool.false_or]
      · rw [settles_other hv]
        exact nofun
  | d1 statement =>
    have hobjects : (c.shared.perform sha256 (.d1 statement)).1.Holds uid groups := hholds
    refine h.of_step hi ⟨groups, hobjects, hlist.same hi rfl rfl⟩ ?_ rfl nofun ?_
    · intro groupId hown
      cases statement with
      | memberUserIds g limit => rfl
      | insertMembership g v now =>
        obtain ⟨group, now', hq, rfl⟩ := hperm
        refine mirrors_insertMembership fun heq => ?_
        cases heq
        obtain ⟨rewrite, now'', hq'⟩ := hown (by simp [hq, MembershipRequest.about])
          (by rw [hq]; rfl)
        rw [hq] at hq'
        cases hq'
      | deleteMembership g v =>
        obtain ⟨group, now', hq, rfl⟩ := hperm
        refine mirrors_deleteMembership fun heq => ?_
        cases heq
        obtain ⟨rewrite, now'', hq'⟩ := hown (by simp [hq, MembershipRequest.about])
          (by rw [hq]; rfl)
        rw [hq] at hq'
        cases hq'
      | _ => exact hperm.elim
    · intro groupId members heq hlimit
      cases heq
      obtain ⟨⟨rewrite, now, hq⟩, -⟩ := hperm
      rw [mem_memberUserIds hlimit, h.mirror groupId]
      -- No other call about the user is about this group.
      intro t₁ ht₁ habout hgroup
      obtain ⟨j, hj⟩ := List.mem_iff_getElem?.mp ht₁
      by_cases hji : j = i
      · subst hji
        cases hi.symm.trans hj
        exact ⟨rewrite, now, hq⟩
      · have hne := (hapart j t₁ hji hj (by rw [hq]; rfl) habout).1
        exact absurd hgroup.symm (by simpa [hq, MembershipRequest.groupId] using hne)

theorem MembershipInv.spawn {sha256 : String → Bytes} (h : MembershipInv w uid before c)
    (q : MembershipRequest) : MembershipInv w uid before
      ⟨c.shared, c.threads ++ [⟨q, [], (memberships sha256).start q⟩]⟩ := by
  obtain ⟨groups, hholds, hlist⟩ := h.list
  have hcases : ∀ t₁ ∈ c.threads ++ [(⟨q, [], (memberships sha256).start q⟩ : MembershipThread)],
      t₁ ∈ c.threads ∨ t₁.log = [] := by
    intro t₁ ht₁
    rcases List.mem_append.mp ht₁ with ht₁ | ht₁
    · exact .inl ht₁
    · cases List.mem_singleton.mp ht₁
      exact .inr rfl
  have hsettled : ∀ {t₁ : MembershipThread}, t₁.log = [] →
      settled t₁.request.change uid t₁.log ≠ true := fun hlog => by simp [hlog, settled]
  refine ⟨⟨groups, hholds, ?_, ?_⟩, ?_, ?_, ?_, ?_⟩
  · intro t₁ ht₁ hdone
    rcases hcases t₁ ht₁ with ht₁ | hlog
    · exact hlist.1 t₁ ht₁ hdone
    · exact absurd hdone (hsettled hlog)
  · intro name hname
    exact hlist.2 name fun t₁ ht₁ => hname t₁ (List.mem_append_left _ ht₁)
  · intro groupId hpropagates
    exact h.mirror groupId fun t₁ ht₁ => hpropagates t₁ (List.mem_append_left _ ht₁)
  · intro t₁ ht₁ entry hentry
    rcases hcases t₁ ht₁ with ht₁ | hlog
    · exact h.answered t₁ ht₁ entry hentry
    · simp [hlog] at hentry
  · intro t₁ ht₁ hdone
    rcases hcases t₁ ht₁ with ht₁ | hlog
    · exact h.reached t₁ ht₁ hdone
    · exact absurd hdone (hsettled hlog)
  · rintro t₁ ht₁ groupId members hwalks
    rcases hcases t₁ ht₁ with ht₁ | hlog
    · exact h.walked t₁ ht₁ groupId members hwalks
    · simp [Walks, hlog] at hwalks

end Steps

theorem membershipInv_run {sha256 : String → Bytes} {w : World} {uid : String}
    {before : List String} {labels : List MembershipLabel} (hholds : w.Holds uid before)
    (hapart : PairwiseApart uid (Threads.arrivals labels))
    (hcurrent : WritesCurrent sha256 w uid labels) :
    MembershipInv w uid before ((memberships sha256).after w labels) := by
  refine System.run_invariant (memberships_follow sha256)
    (C := fun labels => PairwiseApart uid (Threads.arrivals labels) ∧
      WritesCurrent sha256 w uid labels)
    (J := fun c _ => MembershipInv w uid before c) ?_ ?_ ?_ ?_ ?_ labels ⟨hapart, hcurrent⟩
  · rintro l labels ⟨hapart, -, hcurrent⟩
    have hsub : Threads.arrivals labels <:+ Threads.arrivals (l :: labels) :=
      (List.suffix_cons l labels).filterMap _
    exact ⟨List.Pairwise.sublist hsub.sublist hapart, hcurrent⟩
  · exact ⟨⟨before, hholds, by simp, by simp⟩, by simp, by simp, by simp, by simp⟩
  · intro labels q hinv
    exact hinv.spawn q
  · rintro labels i t op answer prog ⟨hpairs, hstep, -⟩ heffect hinv hi - hperm
    refine membershipInv_thread hinv hi hperm ?_ ?_
    · rintro written now rfl
      rw [writesCurrent, heffect] at hstep
      simpa using hstep
    · intro j t₁ hji hj habout habout₁
      have hsub : Threads.arrivals labels <:+ Threads.arrivals (.step i answer :: labels) :=
        (List.suffix_cons _ labels).filterMap _
      have hpair := (memberships sha256).pairwise_requests
        (R := fun q q' : MembershipRequest => q.about uid = true → q'.about uid = true → q.Apart q')
        (fun _ _ h h₁ h₂ => (h h₂ h₁).symm) (List.Pairwise.sublist hsub.sublist hpairs) hi hj
        (Ne.symm hji)
      exact hpair habout habout₁
  · intro labels op answer hinv hop
    cases hop

/-! ### No update is lost -/

/-- A user's list after the calls: each group added, none of those removed, the rewrites of the
groups the mirror listed, and every other group as before. -/
structure MembershipsAsAsked (d : Directory) (uid : String) (requests : List MembershipRequest)
    (before now : List String) : Prop where
  added : ∀ group moment, .add uid group moment ∈ requests → group.name.text ∈ now
  removed : ∀ group moment, .remove uid group moment ∈ requests → group.name.text ∉ now
  rewritten : ∀ groupId rewrite moment, .propagate groupId rewrite moment ∈ requests →
    d.mirrors groupId uid = true →
    ∀ name ∈ rewrite.change.names, name ∈ now ↔ name ∈ rewrite.apply before
  kept : ∀ name, (∀ q ∈ requests, q.reaches d uid = true → name ∉ q.change.names) →
    (name ∈ now ↔ name ∈ before)

theorem Rewrite.mem_apply {r : Rewrite} {groups : List String} {name : String} :
    name ∈ r.apply groups ↔ name ∈ r.change.apply groups := by
  rw [GroupChange.mem_apply]
  cases r with
  | rename old new => exact GroupChange.mem_renamed
  | drop dropped => simp [Rewrite.apply, Rewrite.change, GroupChange.Lists, and_comm]

/-- A call that has returned `ok` is done with every user it reaches. -/
theorem settled_of_ok {sha256 : String → Bytes} {w : World} {uid : String} {before : List String}
    {labels : List MembershipLabel}
    (hinv : MembershipInv w uid before ((memberships sha256).after w labels))
    (hok : AllOk ((memberships sha256).after w labels)) :
    ∀ t ∈ ((memberships sha256).after w labels).threads,
      t.request.reaches w.directory uid = true → settled t.request.change uid t.log = true := by
  intro t ht hreaches
  have hends := System.thread_obeys_to (S := memberships sha256) run_obeys w labels t ht
  have hanswer := hok t ht
  cases hdone : t.prog with
  | call op next =>
    rw [hdone] at hanswer
    cases hanswer
  | done answer =>
  rw [hdone] at hends hanswer
  have hend := hends hanswer
  cases hq : t.request with
  | add v group now =>
    rw [hq] at hend hreaches
    have hv : v = uid := by simpa [MembershipRequest.reaches] using hreaches
    exact hv ▸ hend
  | remove v group now =>
    rw [hq] at hend hreaches
    have hv : v = uid := by simpa [MembershipRequest.reaches] using hreaches
    exact hv ▸ hend
  | propagate groupId rewrite now =>
    rw [hq] at hend hreaches
    obtain ⟨members, hwalks, hall⟩ := hend
    have hmember : uid ∈ members := (hinv.walked t ht groupId members hwalks).mpr hreaches
    rcases hall uid hmember with hsettled | ⟨entry, hentry, hfailed⟩
    · exact hsettled
    · rw [hinv.answered t ht entry hentry] at hfailed
      cases hfailed

/-- Calls about pairwise different groups that each write the list they have read lose no update:
once all have returned `ok`, the user's list is as asked. -/
theorem memberships_as_asked_of_current (sha256 : String → Bytes) (w : World) (uid : String)
    (before : List String) (labels : List MembershipLabel) (hholds : w.Holds uid before)
    (hapart : PairwiseApart uid (Threads.arrivals labels))
    (hok : AllOk ((memberships sha256).after w labels))
    (hcurrent : WritesCurrent sha256 w uid labels) :
    ∃ now, ((memberships sha256).after w labels).shared.Holds uid now ∧
      MembershipsAsAsked w.directory uid (Threads.arrivals labels) before now := by
  have hinv := membershipInv_run hholds hapart hcurrent
  have hsettled := settled_of_ok hinv hok
  obtain ⟨now, hnow, hdone, hkept⟩ := hinv.list
  have hthread : ∀ q ∈ Threads.arrivals labels,
      ∃ t ∈ ((memberships sha256).after w labels).threads, t.request = q := by
    intro q hq
    have hmem : q ∈ ((memberships sha256).after w labels).threads.map (·.request) := by
      rw [System.requests_after]
      exact List.mem_reverse.mpr hq
    exact List.mem_map.mp hmem
  have hnames : ∀ q ∈ Threads.arrivals labels, q.reaches w.directory uid = true →
      ∀ name ∈ q.change.names, name ∈ now ↔ name ∈ q.change.apply before := by
    intro q hq hreaches name hname
    obtain ⟨t, ht, rfl⟩ := hthread q hq
    exact hdone t ht (hsettled t ht hreaches) name hname
  refine ⟨now, hnow, ?_, ?_, ?_, ?_⟩
  · intro group moment hq
    rw [hnames _ hq (by simp [MembershipRequest.reaches]) _ (by simp [MembershipRequest.change,
      GroupChange.names]), GroupChange.mem_apply]
    exact .inl rfl
  · intro group moment hq
    rw [hnames _ hq (by simp [MembershipRequest.reaches]) _ (by simp [MembershipRequest.change,
      GroupChange.names]), GroupChange.mem_apply]
    exact fun h => h.1 rfl
  · intro groupId rewrite moment hq hmirrored name hname
    rw [hnames _ hq hmirrored name hname]
    exact Rewrite.mem_apply.symm
  · intro name hname
    refine hkept name fun t ht hdone => ?_
    have hq : t.request ∈ Threads.arrivals labels := by
      have hmem := List.mem_map_of_mem (f := fun t : MembershipThread => t.request) ht
      rw [System.requests_after] at hmem
      exact List.mem_reverse.mp hmem
    exact hname t.request hq (hinv.reached t ht hdone)

/-! ### Two additions that overlap -/

namespace Sample

def groupA : GroupRow := ⟨"g1", ⟨"a", by decide⟩⟩

def groupB : GroupRow := ⟨"g2", ⟨"b", by decide⟩⟩

def groupC : GroupRow := ⟨"g3", ⟨"c", by decide⟩⟩

/-- One active user, in the group `c`. -/
def world : World where
  directory :=
    { Directory.empty with
      users := ⟨[⟨"u1", none, none, false, none, .active, 0, 0⟩], by decide⟩
      groups := ⟨[groupA, groupB, groupC], by decide⟩
      members := ⟨[⟨"g3", "u1", 0⟩], by decide⟩
      verifiedEmails := by decide
      groupNames := by decide }
  objects := Function.update (fun _ => UserObject.fresh) "u1"
    (UserObject.fresh.init ⟨"u1", none, none, false, none, ["c"]⟩ 0 []).1

def toA : MembershipRequest := .add "u1" groupA 5

def toB : MembershipRequest := .add "u1" groupB 5

/-- The group `c` gets the name `d`. -/
def renameC : MembershipRequest := .propagate "g3" (.rename groupC.name ⟨"d", by decide⟩) 5

def runs (thread : ℕ) : List MembershipLabel := List.replicate 3 (.step thread ())

/-- Two additions and a rename, one after another. -/
def inTurn : List MembershipLabel :=
  runs 2 ++ runs 1 ++ runs 0 ++ [.spawn renameC, .spawn toB, .spawn toA]

/-- Two additions that both read before either writes. -/
def overlapping : List MembershipLabel :=
  [.step 1 (), .step 1 (), .step 0 (), .step 0 (), .step 1 (), .step 0 (), .spawn toB, .spawn toA]

end Sample

theorem memberships_as_asked_sample :
    ∃ now, ((memberships fun _ => []).after Sample.world Sample.inTurn).shared.Holds "u1" now ∧
      MembershipsAsAsked Sample.world.directory "u1" (Threads.arrivals Sample.inTurn) ["c"] now :=
  memberships_as_asked_of_current (fun _ => []) Sample.world "u1" ["c"] Sample.inTurn
    ⟨_, rfl, rfl⟩ (by decide) (by decide) (by decide)

/-- The second addition writes the list it has read before the first one's write. -/
theorem membership_lost_by_overlap :
    ¬ ∀ (sha256 : String → Bytes) (w : World) (uid : String) (before : List String)
      (labels : List MembershipLabel), w.Holds uid before →
      PairwiseApart uid (Threads.arrivals labels) → AllOk ((memberships sha256).after w labels) →
      ∃ now, ((memberships sha256).after w labels).shared.Holds uid now ∧
        MembershipsAsAsked w.directory uid (Threads.arrivals labels) before now := by
  intro hall
  obtain ⟨now, hnow, hasked⟩ := hall (fun _ => []) Sample.world "u1" ["c"] Sample.overlapping
    ⟨_, rfl, rfl⟩ (by decide) (by decide)
  have hlist : (((memberships fun _ => []).after Sample.world Sample.overlapping).shared.user
      "u1").map (·.groups) = some ["b", "c"] := by decide
  have hnow' : now = ["b", "c"] := Option.some.inj ((user_of_holds hnow).symm.trans hlist)
  have hadded := hasked.added Sample.groupA 5 (by decide)
  rw [hnow'] at hadded
  exact absurd hadded (by decide)

end TinyOidc.Account
