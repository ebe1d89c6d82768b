import TinyOidc.Account.BatchCreation
import TinyOidc.Account.Statuses
import TinyOidc.Mirror.Reindex

/-! What a reindex that succeeds leaves: whatever the rows of the user were, the mirror, the two
indexes and the memberships are as the object has them. The status is as it was. -/
namespace TinyOidc.Mirror
open RowTable TinyOidc.User TinyOidc.Account
open RowTable.Table (Owns)
open TinyOidc.Interaction (UserStatus)
open TinyOidc.Registration (CredentialRow)
open Batches (bind_eq_ok)
open Threads (Prog)

/-! ### Agreement -/

/-- The rows of a user are as the object has them, but for the status and for the group names left
out. -/
structure Mirrors (s : Stores) (uid : String) (unknown : List String) (user : UserRow)
    (row : RegistryUser) : Prop where
  email : row.email = user.email
  emailNorm : row.emailNorm = user.emailNorm
  emailVerified : row.emailVerified = user.emailVerified
  displayName : row.displayName = user.displayName
  passkeys : ∀ credentialId, s.lookupCredential credentialId = some uid ↔
    ∃ p ∈ (s.world.objects uid).tables.passkeys.rows, p.credentialId = credentialId
  identities : ∀ issuer subject,
    (s.directory.identities.find (issuer, subject)).map (·.userId) = some uid ↔
      ∃ i ∈ (s.world.objects uid).tables.identities.rows, i.issuer = issuer ∧ i.subject = subject
  members : ∀ groupId, (s.directory.members.find (groupId, uid)).isSome = true →
    ∃ g, s.directory.getGroupById groupId = some g ∧ g.name.text ∈ user.groups
  groups : ∀ name ∈ user.groups, name ∉ unknown →
    ∃ g ∈ s.directory.groups.rows, g.name.text = name ∧
      (s.directory.members.find (g.id, uid)).isSome = true
  unknown : ∀ name ∈ unknown, name ∈ user.groups ∧
    ∀ g ∈ s.directory.groups.rows, g.name.text ≠ name

/-- The rows of a user agree with the object, the status too. -/
def Stores.Agrees (s : Stores) (uid : String) (unknown : List String) : Prop :=
  ∃ user row, s.world.user uid = some user ∧ s.directory.getUser uid = some row ∧
    row.status = statusOf user.disabledAt.isSome ∧ Mirrors s uid unknown user row

/-! ### The batch -/

section Batch
variable {s s' : Stores} {uid : String} {now : ℤ}

theorem batch_cons {write : Write} {writes : List Write}
    (h : s.batch (write :: writes) = .ok s') :
    ∃ s₁, s.write write = .ok s₁ ∧ s₁.batch writes = .ok s' := by
  rw [Stores.batch, List.foldlM_cons] at h
  exact bind_eq_ok h

theorem batch_append {writes later : List Write} (h : s.batch (writes ++ later) = .ok s') :
    ∃ s₁, s.batch writes = .ok s₁ ∧ s₁.batch later = .ok s' := by
  rw [Stores.batch, List.foldlM_append] at h
  exact bind_eq_ok h

theorem write_updateUserMirror {mirror : Directory.UserMirror}
    (h : s.write (.updateUserMirror uid mirror now) = .ok s') : ∃ d,
    s' = s.withDirectory d ∧ d.groups = s.directory.groups ∧
      d.getUser uid = (s.directory.getUser uid).map (Directory.mirrored mirror now) ∧
      d.status uid = s.directory.status uid := by
  obtain ⟨d, hupdate, hok⟩ := bind_eq_ok h
  cases hok
  have hrow : d.getUser uid = (s.directory.getUser uid).map fun row =>
      if row.id == uid then Directory.mirrored mirror now row else row := by
    rw [Directory.getUser, withUsers_users hupdate]
    exact Table.find_updateWhere uid
  refine ⟨d, rfl, ?_, ?_, Directory.status_updateUserMirror hupdate uid⟩
  · unfold Directory.updateUserMirror Directory.withUsers at hupdate
    split at hupdate
    · cases hupdate
      rfl
    · cases hupdate
  · rw [hrow]
    cases hfind : s.directory.getUser uid with
    | none => rfl
    | some row =>
      have hid : row.id = uid := (Table.find_eq_some.mp hfind).2
      simp [hid]

theorem replacePasskeyIndex_ok (row : CredentialRow) (h : s.replacePasskeyIndex row = .ok s') :
    s' = { s with credentials := s.credentials.upsert row } := by
  unfold Stores.replacePasskeyIndex at h
  split at h <;> cases h
  rfl

theorem replaceIdentityIndex_ok (row : IdentityIndexRow)
    (h : s.replaceIdentityIndex row = .ok s') : s' = s.withDirectory
      { s.directory with identities := s.directory.identities.upsert row } := by
  unfold Stores.replaceIdentityIndex at h
  split at h <;> cases h
  rfl

theorem batch_replacePasskeys {credentialIds : List String}
    (h : s.batch (credentialIds.map (.replacePasskeyIndex · uid now)) = .ok s') :
    s' = { s with
      credentials := s.credentials.upsertAll (credentialIds.map (⟨·, uid, now⟩)) } := by
  induction credentialIds generalizing s with
  | nil =>
    cases h
    rfl
  | cons credentialId credentialIds ih =>
    obtain ⟨s₁, hfirst, hrest⟩ := batch_cons h
    obtain rfl := replacePasskeyIndex_ok ⟨credentialId, uid, now⟩ hfirst
    rw [ih hrest]
    rfl

theorem batch_replacePasskeyIndex {credentialIds : List String}
    (h : s.batch (replacePasskeyIndexStatements uid credentialIds now) = .ok s') :
    s' = { s with
      credentials := (s.credentials.deleteWhere (·.userId == uid)).upsertAll
        (credentialIds.map (⟨·, uid, now⟩)) } := by
  obtain ⟨s₁, hfirst, hrest⟩ := batch_cons h
  cases hfirst
  rw [batch_replacePasskeys hrest]

theorem batch_replaceIdentities {pairs : List (String × String)}
    (h : s.batch (pairs.map fun pair => .replaceIdentityIndex pair.1 pair.2 uid now) = .ok s') :
    s' = s.withDirectory { s.directory with
      identities := s.directory.identities.upsertAll
        (pairs.map fun pair => ⟨pair.1, pair.2, uid, now⟩) } := by
  induction pairs generalizing s with
  | nil =>
    cases h
    rfl
  | cons pair pairs ih =>
    obtain ⟨s₁, hfirst, hrest⟩ := batch_cons h
    obtain rfl := replaceIdentityIndex_ok ⟨pair.1, pair.2, uid, now⟩ hfirst
    rw [ih hrest]
    rfl

theorem batch_replaceIdentityIndex {pairs : List (String × String)}
    (h : s.batch (replaceIdentityIndexStatements uid pairs now) = .ok s') :
    s' = s.withDirectory { s.directory with
      identities := (s.directory.identities.deleteWhere (·.userId == uid)).upsertAll
        (pairs.map fun pair => ⟨pair.1, pair.2, uid, now⟩) } := by
  obtain ⟨s₁, hfirst, hrest⟩ := batch_cons h
  cases hfirst
  rw [batch_replaceIdentities hrest]
  rfl

theorem insertMembership_ok {d d' : Directory} {groupId : String}
    (h : d.insertMembership groupId uid now = .ok d') : ∃ members,
    d.members.insert ⟨groupId, uid, now⟩ = some members ∧ d' = { d with members := members } := by
  unfold Directory.insertMembership at h
  split at h
  · cases h
  · next members hinsert =>
    split at h <;> cases h
    exact ⟨members, hinsert, rfl⟩

theorem batch_insertMemberships {groupIds : List String}
    (h : s.batch (groupIds.map (.insertMembership · uid now)) = .ok s') : ∃ members,
    s' = s.withDirectory { s.directory with members := members } ∧
      ∀ key, Owns (·.userId == uid) members key ↔
        key ∈ groupIds.map (·, uid) ∨ Owns (·.userId == uid) s.directory.members key := by
  induction groupIds generalizing s with
  | nil =>
    cases h
    exact ⟨s'.directory.members, rfl, by simp⟩
  | cons groupId groupIds ih =>
    obtain ⟨s₁, hfirst, hrest⟩ := batch_cons h
    obtain ⟨members, rfl, howns⟩ := ih hrest
    obtain ⟨d, hinsert, hok⟩ := bind_eq_ok hfirst
    cases hok
    obtain ⟨inserted, hinserted, rfl⟩ := insertMembership_ok hinsert
    refine ⟨members, rfl, fun key => ?_⟩
    have hone : Owns (·.userId == uid) inserted key ↔
        key = (groupId, uid) ∨ Owns (·.userId == uid) s.directory.members key :=
      Table.owns_insert (by simp) hinserted
    have hkey := howns key
    change _ ↔ _ ∨ Owns _ inserted key at hkey
    rw [hkey, hone]
    simp only [List.map_cons, List.mem_cons]
    tauto

theorem batch_replaceMemberships {groupIds : List String}
    (h : s.batch (replaceMembershipStatements uid groupIds now) = .ok s') : ∃ members,
    s' = s.withDirectory { s.directory with members := members } ∧
      ∀ key, Owns (·.userId == uid) members key ↔ key ∈ groupIds.map (·, uid) := by
  obtain ⟨s₁, hfirst, hrest⟩ := batch_cons h
  cases hfirst
  obtain ⟨members, rfl, howns⟩ := batch_insertMemberships hrest
  exact ⟨members, rfl, fun key => (howns key).trans (or_iff_left Table.not_owns_deleteWhere)⟩

structure Rebuilt (s s' : Stores) (uid : String) (held : Held) (known : List String) : Prop where
  objects : s'.world.objects = s.world.objects
  groups : s'.directory.groups = s.directory.groups
  status : s'.directory.status uid = s.directory.status uid
  row : ∃ now, s'.directory.getUser uid = (s.directory.getUser uid).map (Directory.mirrored
    ⟨held.profile.email, held.profile.emailNorm, held.profile.emailVerified,
      held.profile.displayName⟩ now)
  passkeys : ∀ credentialId, Owns (·.userId == uid) s'.credentials credentialId ↔
    credentialId ∈ held.passkeys.map (·.credentialId)
  identities : ∀ pair, Owns (·.userId == uid) s'.directory.identities pair ↔
    pair ∈ held.identities.map fun i => (i.issuer, i.subject)
  members : ∀ key, Owns (·.userId == uid) s'.directory.members key ↔ key ∈ known.map (·, uid)

theorem rebuilt_of_batch {held : Held} {groupIds : List (String × String)}
    (h : s.batch (held.statements groupIds uid now) = .ok s') :
    Rebuilt s s' uid held (held.known groupIds) := by
  obtain ⟨s₁, hmirror, h⟩ := batch_cons h
  obtain ⟨s₂, hpasskeys, h⟩ := batch_append h
  obtain ⟨s₃, hidentities, hmembers⟩ := batch_append h
  obtain ⟨d, rfl, hgroups, hrow, hstatus⟩ := write_updateUserMirror hmirror
  obtain rfl := batch_replacePasskeyIndex hpasskeys
  obtain rfl := batch_replaceIdentityIndex hidentities
  obtain ⟨members, rfl, howns⟩ := batch_replaceMemberships hmembers
  refine ⟨rfl, hgroups, hstatus, ⟨now, hrow⟩, fun credentialId => ?_, fun pair => ?_, howns⟩
  · refine (Table.owns_rewritten ?_).trans ?_
    · simp
    · simp [List.map_map, Function.comp_def]
  · refine (Table.owns_rewritten ?_).trans ?_
    · simp
    · simp [List.map_map, Function.comp_def, IdentityIndexRow.pair]

end Batch

/-! ### The reindex -/

/-- A reindex on its own, whose calls may each fail. -/
def reindexed (sha256 : String → Bytes) (system : String → Bool) (faults : Op → Fault)
    (uid : String) (now : ℤ) (s : Stores) : Stores × ReindexResult :=
  (reindexUser uid now).run (fun s op => s.exec sha256 system (faults op) op) s

/-- The reads are of one object, and complete. -/
structure ReadFrom (o : UserObject) (user : UserRow) (held : Held) : Prop where
  guard : o.guard = .ok user
  profile : held.profile = User.profile user
  passkeys : ∀ p, p ∈ held.passkeys ↔ p ∈ o.tables.passkeys.rows
  identities : ∀ i, i ∈ held.identities ↔ i ∈ o.tables.identities.rows

section Run
variable (sha256 : String → Bytes) (system : String → Bool) {s s' : Stores} {uid : String}
  {now : ℤ}

theorem exec_read {call : Call}
    (h : ((s.world.objects uid).call sha256 call).1 = s.world.objects uid) (fault : Fault) :
    s.exec sha256 system fault (.account (.user uid call)) =
      (s, if fault = .none then some ((s.world.objects uid).call sha256 call).2 else none) := by
  have hperform : s.perform sha256 system (.account (.user uid call)) =
      (s, some ((s.world.objects uid).call sha256 call).2) := by
    simp only [Stores.perform, World.perform, h, World.setObject_self, Stores.cascade]
  cases fault <;> simp [Stores.exec, hperform, thrown, Account.thrown]

theorem profileOf_read {o : UserObject} {p : UserProfile}
    (h : profileOf (o.call sha256 .getProfile).2 = some p) :
    ∃ user, o.guard = .ok user ∧ p = User.profile user := by
  simp only [UserObject.call, answered, UserObject.getProfile, UserObject.guarded] at h
  cases hguard : o.guard with
  | error e =>
    rw [hguard] at h
    cases h
  | ok user =>
    rw [hguard] at h
    exact ⟨user, rfl, (Option.some.inj h).symm⟩

theorem passkeysOf_read {o : UserObject} {listed : List PasskeyRow}
    (h : passkeysOf (o.call sha256 .listPasskeys).2 = some listed) (p : PasskeyRow) :
    p ∈ listed ↔ p ∈ o.tables.passkeys.rows := by
  simp only [UserObject.call, answered, UserObject.listPasskeys, UserObject.guarded] at h
  cases hguard : o.guard with
  | error e =>
    rw [hguard] at h
    cases h
  | ok user =>
    rw [hguard] at h
    cases h
    exact List.mem_insertionSort _

theorem identitiesOf_read {o : UserObject} {listed : List IdentityRow}
    (h : identitiesOf (o.call sha256 .listIdentities).2 = some listed) (i : IdentityRow) :
    i ∈ listed ↔ i ∈ o.tables.identities.rows := by
  simp only [UserObject.call, answered, UserObject.listIdentities, UserObject.guarded] at h
  cases hguard : o.guard with
  | error e =>
    rw [hguard] at h
    cases h
  | ok user =>
    rw [hguard] at h
    cases h
    exact List.mem_insertionSort _

theorem listPasskeys_object (o : UserObject) : (o.call sha256 .listPasskeys).1 = o := by
  simp only [UserObject.call, answered, UserObject.listPasskeys, UserObject.guarded]
  split <;> rfl

theorem listIdentities_object (o : UserObject) : (o.call sha256 .listIdentities).1 = o := by
  simp only [UserObject.call, answered, UserObject.listIdentities, UserObject.guarded]
  split <;> rfl

/-- The reads leave the stores as they are. -/
theorem readObject_run (faults : Op → Fault) :
    ((readObject uid).run (fun s op => s.exec sha256 system (faults op) op) s).1 = s ∧
      ∀ held, ((readObject uid).run (fun s op => s.exec sha256 system (faults op) op) s).2 =
          some (some held) →
        ∃ user, ReadFrom (s.world.objects uid) user held := by
  simp only [readObject, userCall, Prog.run_bind, Prog.run_perform,
    exec_read sha256 system (getProfile_object sha256 _),
    exec_read sha256 system (listPasskeys_object sha256 _),
    exec_read sha256 system (listIdentities_object sha256 _)]
  by_cases hprofile : faults (.account (.user uid .getProfile)) = .none
  · by_cases hpasskeys : faults (.account (.user uid .listPasskeys)) = .none
    · by_cases hidentities : faults (.account (.user uid .listIdentities)) = .none
      · simp only [hprofile, hpasskeys, hidentities, if_true]
        refine ⟨rfl, fun held hheld => ?_⟩
        obtain ⟨p, hp, hheld⟩ := Option.bind_eq_some_iff.mp (Option.some.inj hheld)
        obtain ⟨passkeys, hpasskeys, hheld⟩ := Option.bind_eq_some_iff.mp hheld
        obtain ⟨identities, hidentities, hheld⟩ := Option.bind_eq_some_iff.mp hheld
        cases hheld
        obtain ⟨user, hguard, hprofile⟩ := profileOf_read sha256 hp
        exact ⟨user, hguard, hprofile, passkeysOf_read sha256 hpasskeys,
          identitiesOf_read sha256 hidentities⟩
      · simp [hprofile, hpasskeys, hidentities]
    · simp [hprofile, hpasskeys]
  · simp [hprofile]

theorem exec_groupIdsByName (fault : Fault) :
    s.exec sha256 system fault (.account (.d1 .groupIdsByName)) =
      (s, if fault = .none then .ok s.directory.groupIdsByName else .error .failed) := by
  cases fault <;> rfl

/-- A batch that answers is applied. -/
theorem batch_of_exec {writes : List Write} {fault : Fault}
    (h : s.exec sha256 system fault (.batch writes) = (s', .ok ())) :
    s.batch writes = .ok s' := by
  cases fault with
  | none =>
    change s.ended (s.batch writes) = (s', .ok ()) at h
    cases hbatch : s.batch writes with
    | error e =>
      rw [hbatch] at h
      cases h
    | ok s₁ =>
      rw [hbatch] at h
      cases h
      rfl
  | before | after => cases h

/-- A reindex that succeeds has read the object and rebuilt the rows. -/
theorem reindexed_ok {faults : Op → Fault} {report : ReindexReport}
    (h : reindexed sha256 system faults uid now s = (s', .ok report)) : ∃ user held,
    ReadFrom (s.world.objects uid) user held ∧
      report = held.report s.directory.groupIdsByName ∧
      Rebuilt s s' uid held (held.known s.directory.groupIdsByName) := by
  obtain ⟨hsame, hread⟩ := @readObject_run sha256 system s uid faults
  unfold reindexed reindexUser at h
  rw [Prog.run_bind, hsame] at h
  cases hresult : ((readObject uid).run (fun s op => s.exec sha256 system (faults op) op) s).2 with
  | none =>
    rw [hresult] at h
    cases h
  | some result =>
    cases result with
    | none =>
      rw [hresult] at h
      cases h
    | some held =>
      obtain ⟨user, hheld⟩ := hread held hresult
      refine ⟨user, held, hheld, ?_⟩
      rw [hresult] at h
      simp only [d1, batch, Prog.run_bind, Prog.run_perform, exec_groupIdsByName] at h
      by_cases hnames : faults (.account (.d1 .groupIdsByName)) = .none
      · simp only [hnames, if_true, Prog.run_bind, Prog.run_perform] at h
        generalize hexec : s.exec sha256 system (faults (.batch (held.statements
          s.directory.groupIdsByName uid now))) (.batch (held.statements
          s.directory.groupIdsByName uid now)) = executed at h
        obtain ⟨s₁, answer⟩ := executed
        cases answer with
        | error e => cases h
        | ok done =>
          cases h
          exact ⟨rfl, rebuilt_of_batch (batch_of_exec sha256 system hexec)⟩
      · rw [if_neg hnames] at h
        cases h

end Run

/-! ### What it leaves -/

section Left
variable {s s' : Stores} {uid : String} {user : UserRow} {held : Held}

theorem owns_iff_lookup {ρ κ : Type} {key : ρ → κ} [DecidableEq κ] {t : Table ρ key}
    (userId : ρ → String) (k : κ) :
    Owns (userId · == uid) t k ↔ (t.find k).map userId = some uid := by
  unfold Owns
  cases t.find k <;> simp

/-- The members' rows of the user are those whose key is its own. -/
theorem owns_member {d : Directory} (groupId : String) :
    Owns (·.userId == uid) d.members (groupId, uid) ↔
      (d.members.find (groupId, uid)).isSome = true := by
  unfold Owns
  cases hfind : d.members.find (groupId, uid) with
  | none => simp
  | some m =>
    have hkey : m.key = (groupId, uid) := (Table.find_eq_some.mp hfind).2
    have huser : m.userId = uid := congrArg Prod.snd hkey
    simp [huser]

theorem mem_known {d : Directory} {groupId : String}
    (h : groupId ∈ held.known d.groupIdsByName) :
    ∃ g ∈ d.groups.rows, g.id = groupId ∧ g.name.text ∈ held.profile.groups := by
  obtain ⟨name, hname, hlookup⟩ := List.mem_filterMap.mp h
  obtain ⟨before, after, hsplit, -⟩ := List.lookup_eq_some_iff.mp hlookup
  have hmem : (name, groupId) ∈ d.groupIdsByName := hsplit ▸ by simp
  obtain ⟨g, hg, hpair⟩ := List.mem_map.mp hmem
  cases hpair
  exact ⟨g, hg, rfl, hname⟩

theorem mem_unknown {d : Directory} {name : String} :
    name ∈ held.unknown d.groupIdsByName ↔
      name ∈ held.profile.groups ∧ ∀ g ∈ d.groups.rows, g.name.text ≠ name := by
  simp only [Held.unknown, List.mem_filter, Option.isNone_iff_eq_none, List.lookup_eq_none_iff,
    Directory.groupIdsByName, List.forall_mem_map, bne_iff_ne, ne_comm]

/-- A name that is not left out is the name of a group whose id the batch writes. -/
theorem known_of_not_unknown {d : Directory} {name : String} (hname : name ∈ held.profile.groups)
    (h : name ∉ held.unknown d.groupIdsByName) :
    ∃ g ∈ d.groups.rows, g.name.text = name ∧ g.id ∈ held.known d.groupIdsByName := by
  cases hlookup : d.groupIdsByName.lookup name with
  | none =>
    refine absurd (List.mem_filter.mpr ⟨hname, ?_⟩) h
    rw [hlookup]
    rfl
  | some groupId =>
    obtain ⟨before, after, hsplit, -⟩ := List.lookup_eq_some_iff.mp hlookup
    have hmem : (name, groupId) ∈ d.groupIdsByName := hsplit ▸ by simp
    obtain ⟨g, hg, hpair⟩ := List.mem_map.mp hmem
    cases hpair
    exact ⟨g, hg, rfl, List.mem_filterMap.mpr ⟨g.name.text, hname, hlookup⟩⟩

theorem mirrors_of_rebuilt (hread : ReadFrom (s.world.objects uid) user held)
    (h : Rebuilt s s' uid held (held.known s.directory.groupIdsByName)) {row : RegistryUser}
    (hrow : s'.directory.getUser uid = some row) :
    Mirrors s' uid (held.unknown s.directory.groupIdsByName) user row := by
  have hgroups : held.profile.groups = user.groups := by rw [hread.profile]; rfl
  obtain ⟨now, hmirrored⟩ := h.row
  obtain ⟨old, -, hold⟩ := Option.map_eq_some_iff.mp (hmirrored.symm.trans hrow)
  have hprofile := hread.profile
  subst hold
  refine ⟨?_, ?_, ?_, ?_, fun credentialId => ?_, fun issuer subject => ?_,
    fun groupId hmember => ?_,
    fun name hname hknown => ?_, fun name hunknown => ?_⟩
  · exact congrArg UserProfile.email hprofile
  · exact congrArg UserProfile.emailNorm hprofile
  · exact congrArg UserProfile.emailVerified hprofile
  · exact congrArg UserProfile.displayName hprofile
  · rw [Stores.lookupCredential, ← owns_iff_lookup, h.passkeys, h.objects]
    simp [hread.passkeys]
  · rw [← owns_iff_lookup, h.identities, h.objects]
    simp [hread.identities]
  · have hknown : groupId ∈ held.known s.directory.groupIdsByName := by
      simpa using (h.members _).mp ((owns_member groupId).mpr hmember)
    obtain ⟨g, hg, rfl, hname⟩ := mem_known hknown
    refine ⟨g, ?_, hgroups ▸ hname⟩
    rw [Directory.getGroupById, h.groups]
    exact Table.find_eq_some.mpr ⟨hg, rfl⟩
  · obtain ⟨g, hg, htext, hid⟩ := known_of_not_unknown (hgroups ▸ hname) hknown
    refine ⟨g, h.groups ▸ hg, htext, (owns_member g.id).mp ((h.members _).mpr ?_)⟩
    exact List.mem_map.mpr ⟨g.id, hid, rfl⟩
  · rw [mem_unknown, hgroups] at hunknown
    rw [h.groups]
    exact hunknown

end Left

end TinyOidc.Mirror
