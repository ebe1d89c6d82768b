import TinyOidc.Account.VerifiedEmails
import TinyOidc.Identity.Protocol

/-! What the calls and statements of linking do to the identities of an object and to the index. -/
namespace TinyOidc.Identity
open RowTable TinyOidc.Interaction TinyOidc.User
open TinyOidc.Account (Directory RegistryUser)

/-! ### Objects -/

def identityKeys (o : UserObject) : List (String × Pair) :=
  o.tables.identities.rows.map fun r => (r.id, rowPair r)

/-- A call that keeps the pairs, the user's row but for other attributes, and the lifecycle. -/
structure SparesPairs (o o' : UserObject) : Prop where
  user : o'.tables.user = o.tables.user
  keys : identityKeys o' = identityKeys o
  destroyed : o'.destroyed = o.destroyed

theorem SparesPairs.refl (o : UserObject) : SparesPairs o o := ⟨rfl, rfl, rfl⟩

theorem sparesPairs_guarded {α : Type} {o : UserObject} {fail : UserDoError → α}
    {body : UserRow → UserObject × α} (h : ∀ user, SparesPairs o (body user).1) :
    SparesPairs o (o.guarded fail body).1 := by
  unfold UserObject.guarded
  split
  · exact .refl o
  · exact h _

theorem identityKeys_touch (t : Table IdentityRow IdentityRow.id) (p : IdentityRow → Bool)
    (f : IdentityRow → IdentityRow) (hf : ∀ r, (f r).id = r.id)
    (hpair : ∀ r, rowPair (f r) = rowPair r) :
    (t.updateWhere p f hf).rows.map (fun r => (r.id, rowPair r)) =
      t.rows.map fun r => (r.id, rowPair r) := by
  simp only [Table.updateWhere, List.map_map]
  refine List.map_congr_left fun r _ => ?_
  simp only [Function.comp]
  split
  · rw [hf, hpair]
  · rfl

theorem sparesPairs_call (sha256 : String → Bytes) (o : UserObject) {call : Call}
    (h : sparesPairs call = true) : SparesPairs o (o.call sha256 call).1 := by
  cases call with
  | getProfile =>
    show SparesPairs o o.getProfile.1
    exact sparesPairs_guarded fun _ => .refl o
  | listGrants clients =>
    show SparesPairs o (o.listGrants clients).1
    exact sparesPairs_guarded fun _ => ⟨rfl, rfl, rfl⟩
  | verifyAssertion credentialId now =>
    show SparesPairs o (o.verifyAssertion credentialId now).1
    refine sparesPairs_guarded fun user => ?_
    split
    · exact .refl o
    · exact ⟨rfl, rfl, rfl⟩
  | resumeAssertion call verified =>
    unfold UserObject.call UserObject.resumeAssertion UserObject.commitAssertion answered
    dsimp only
    repeat' split
    all_goals exact ⟨rfl, rfl, rfl⟩
  | listIdentities =>
    show SparesPairs o o.listIdentities.1
    exact sparesPairs_guarded fun _ => .refl o
  | touchIdentity issuer subject claims now =>
    show SparesPairs o (o.touchIdentity issuer subject claims now).1
    refine sparesPairs_guarded fun _ => ⟨rfl, ?_, rfl⟩
    exact identityKeys_touch o.tables.identities _
      (fun r => { r with
        email := claims.email, emailVerified := some claims.emailVerified
        name := claims.name, lastLoginAt := some now }) (fun _ => rfl) fun _ => rfl
  | _ => cases h

theorem insertIdentity_keys {t t' : Tables} {identity : NewIdentity} {now : ℤ}
    (h : UserObject.insertIdentity t identity now = .ok t') :
    t'.user = t.user ∧ t'.identities.rows.map (fun r => (r.id, rowPair r)) =
      t.identities.rows.map (fun r => (r.id, rowPair r)) ++
        [(identity.id, identityPair identity)] := by
  unfold UserObject.insertIdentity at h
  split at h
  · cases h
  · split at h
    · cases h
    · next identities hinsert =>
      cases h
      refine ⟨rfl, ?_⟩
      unfold Table.insert at hinsert
      split at hinsert
      · cases hinsert
      · cases hinsert
        simp [UserObject.identityRow, rowPair, identityPair]

/-- The first call of an object that has neither a user nor an identity. -/
theorem init_blank (sha256 : String → Bytes) {o : UserObject} (hdestroyed : o.destroyed = false)
    (huser : o.tables.user = none) (hkeys : identityKeys o = []) (p : InitProfile) (now : ℤ)
    (identity : NewIdentity) :
    ∃ profile, (o.call sha256 (.init p now [identity])).2 = .profile (.ok profile) ∧
      (o.call sha256 (.init p now [identity])).1.tables.user ≠ none ∧
      (o.call sha256 (.init p now [identity])).1.destroyed = false ∧
      identityKeys (o.call sha256 (.init p now [identity])).1 =
        [(identity.id, identityPair identity)] := by
  have hrows : o.tables.identities.rows = [] := by simpa [identityKeys] using hkeys
  obtain ⟨identities, hinsert⟩ : ∃ u, o.tables.identities.insert
      (UserObject.identityRow identity now) = some u :=
    Table.insert_isSome_of_key_notMem (by simp [hrows])
  have hone : UserObject.insertIdentity
      { o.tables with user := some (UserObject.newUserRow p now) } identity now =
        .ok { o.tables with
          user := some (UserObject.newUserRow p now)
          identities := identities } := by
    simp [UserObject.insertIdentity, hrows, hinsert]
  have hcall : o.call sha256 (.init p now [identity]) =
      (o.store { o.tables with
          user := some (UserObject.newUserRow p now)
          identities := identities },
        .profile (.ok (profile (UserObject.newUserRow p now)))) := by
    simp [UserObject.call, UserObject.init, answered, hdestroyed, huser, hone,
      UserObject.insertIdentities]
  rw [hcall]
  refine ⟨_, rfl, by simp [UserObject.store], hdestroyed, ?_⟩
  have hkeys' := (insertIdentity_keys hone).2
  simpa [identityKeys, hrows, UserObject.store] using hkeys'

theorem addIdentity_cases (sha256 : String → Bytes) (o : UserObject) (identity : NewIdentity)
    (now : ℤ) :
    (∃ e, o.call sha256 (.addIdentity identity now) = (o, .identity (.fail e))) ∨
    ∃ row, (o.call sha256 (.addIdentity identity now)).2 = .identity (.ok row) ∧
      (o.call sha256 (.addIdentity identity now)).1.tables.user = o.tables.user ∧
      (o.call sha256 (.addIdentity identity now)).1.destroyed = o.destroyed ∧
      identityKeys (o.call sha256 (.addIdentity identity now)).1 =
        identityKeys o ++ [(identity.id, identityPair identity)] := by
  simp only [UserObject.call, answered, UserObject.addIdentity, UserObject.guarded]
  split
  · exact .inl ⟨_, rfl⟩
  · split
    · exact .inl ⟨_, rfl⟩
    · next hnew =>
      have hfresh : ∀ r ∈ o.tables.identities.rows,
          ¬(r.issuer = identity.issuer ∧ r.subject = identity.subject) ∧ r.id ≠ identity.id := by
        simpa using hnew
      obtain ⟨identities, hinsert⟩ : ∃ u, o.tables.identities.insert
          (UserObject.identityRow identity now) = some u :=
        Table.insert_isSome_of_key_notMem fun r hr => (hfresh r hr).2
      have hone : UserObject.insertIdentity o.tables identity now =
          .ok { o.tables with identities := identities } := by
        have hpair : ∀ r ∈ o.tables.identities.rows, r.issuer = identity.issuer →
            r.subject ≠ identity.subject := fun r hr hi hs => (hfresh r hr).1 ⟨hi, hs⟩
        simp [UserObject.insertIdentity, hinsert]
        exact hpair
      right
      rw [hone]
      exact ⟨_, rfl, rfl, rfl, (insertIdentity_keys hone).2⟩

theorem removeIdentity_cases (sha256 : String → Bytes) (o : UserObject) (id : String)
    (actor : RemovalActor) :
    ((o.call sha256 (.removeIdentity id actor)).2 ≠ .flag (.ok true) ∧
      SparesPairs o (o.call sha256 (.removeIdentity id actor)).1) ∨
    (o.call sha256 (.removeIdentity id actor)).2 = .flag (.ok true) ∧
      (o.call sha256 (.removeIdentity id actor)).1.tables.user = o.tables.user ∧
      (o.call sha256 (.removeIdentity id actor)).1.destroyed = o.destroyed ∧
      identityKeys (o.call sha256 (.removeIdentity id actor)).1 =
        (identityKeys o).filter fun key => !(key.1 == id) := by
  simp only [UserObject.call, answered, UserObject.removeIdentity, UserObject.guarded]
  split
  · exact .inl ⟨by simp, .refl o⟩
  · split
    · exact .inl ⟨by simp, .refl o⟩
    · cases hfind : o.tables.identities.find id with
      | none =>
        have hrows : (o.tables.identities.deleteWhere (·.id == id)).rows =
            o.tables.identities.rows := by
          refine List.filter_eq_self.mpr fun r hr => ?_
          simpa using Table.find_eq_none.mp hfind r hr
        refine .inl ⟨by simp, rfl, ?_, rfl⟩
        simp [identityKeys, UserObject.store, hrows]
      | some row =>
        refine .inr ⟨rfl, rfl, rfl, ?_⟩
        simp only [identityKeys, UserObject.store, Table.deleteWhere, List.filter_map]
        rfl

theorem listIdentities_keys (sha256 : String → Bytes) {o : UserObject} {rows : List IdentityRow}
    (h : (o.call sha256 .listIdentities).2 = .identities (.ok rows)) :
    ∀ r ∈ rows, (r.id, rowPair r) ∈ identityKeys o := by
  simp only [UserObject.call, answered, UserObject.listIdentities, UserObject.guarded] at h
  split at h
  · cases h
  · cases h
    intro r hr
    exact List.mem_map_of_mem ((List.mem_insertionSort _).mp hr)

/-- An id names one pair. -/
theorem pair_unique {o : UserObject} {id : String} {pair pair' : Pair}
    (h : (id, pair) ∈ identityKeys o) (h' : (id, pair') ∈ identityKeys o) : pair' = pair := by
  obtain ⟨r, hr, heq⟩ := List.mem_map.mp h
  obtain ⟨s, hs, heq'⟩ := List.mem_map.mp h'
  obtain ⟨rfl, rfl⟩ := Prod.mk.inj heq
  obtain ⟨hid, rfl⟩ := Prod.mk.inj heq'
  rw [Table.eq_of_key_eq hs hr hid]

/-! ### The index -/

def ownerOf (d : Directory) (pair : Pair) : Option String :=
  (d.identities.find pair).map (·.userId)

def Registered (d : Directory) (uid : String) : Prop := d.users.find uid ≠ none

theorem insertIdentity_ok {d d' : Directory} {issuer subject uid : String} {now : ℤ}
    (h : d.insertIdentity issuer subject uid now = .ok d') :
    ownerOf d (issuer, subject) = none ∧ d'.users = d.users ∧
      ∀ pair, ownerOf d' pair = if pair = (issuer, subject) then some uid else ownerOf d pair := by
  refine ⟨?_, Account.insertIdentity_users h, ?_⟩
  · unfold Directory.insertIdentity at h
    split at h
    · cases h
    · next identities hinsert =>
      have hnone : d.identities.find (issuer, subject) = none :=
        Table.find_eq_none.mpr fun r hr => Table.key_notMem_of_insert hinsert r hr
      simp [ownerOf, hnone]
  · intro pair
    unfold Directory.insertIdentity at h
    split at h
    · cases h
    · next identities hinsert =>
      split at h
      · cases h
        simp only [ownerOf, Table.find_insert hinsert]
        by_cases hpair : pair = (issuer, subject)
        · simp [hpair, Account.IdentityIndexRow.pair]
        · simp [hpair, Account.IdentityIndexRow.pair]
      · cases h

theorem ownerOf_release (d : Directory) (issuer subject : String) (pair : Pair) :
    ownerOf (d.releaseIdentity issuer subject) pair =
      if pair = (issuer, subject) then none else ownerOf d pair := by
  have hrow : ∀ r : Account.IdentityIndexRow,
      (r.issuer == issuer && r.subject == subject) = true ↔ r.pair = (issuer, subject) := by
    intro r
    simp [Account.IdentityIndexRow.pair]
  by_cases hpair : pair = (issuer, subject)
  · rw [if_pos hpair]
    have hnone : (d.releaseIdentity issuer subject).identities.find pair = none := by
      refine Table.find_eq_none.mpr fun r hr heq => ?_
      obtain ⟨-, hkept⟩ := Table.mem_deleteWhere.mp hr
      rw [(hrow r).mpr (heq.trans hpair)] at hkept
      cases hkept
    simp [ownerOf, hnone]
  · rw [if_neg hpair]
    have hsame : (d.releaseIdentity issuer subject).identities.find pair =
      d.identities.find pair := by
      cases hfind : d.identities.find pair with
      | some r =>
        obtain ⟨hr, hkey⟩ := Table.find_eq_some.mp hfind
        refine Table.find_eq_some.mpr ⟨Table.mem_deleteWhere.mpr ⟨hr, ?_⟩, hkey⟩
        exact Bool.eq_false_iff.mpr fun htrue => hpair (hkey.symm.trans ((hrow r).mp htrue))
      | none =>
        exact Table.find_eq_none.mpr fun r hr =>
          Table.find_eq_none.mp hfind r (Table.deleteWhere_subset hr)
    simp [ownerOf, hsame]

/-! Creations. -/

theorem withUsers_identities {d d' : Directory} {users : Table RegistryUser RegistryUser.id}
    (h : d.withUsers users = .ok d') : d'.identities = d.identities := by
  unfold Directory.withUsers at h
  split at h
  · cases h
    rfl
  · cases h

theorem insertUser_registers {d d' : Directory} {u : RegistryUser} (h : d.insertUser u = .ok d') :
    ¬ Registered d u.id ∧ d'.identities = d.identities ∧
      ∀ uid, d'.users.find uid = if uid = u.id then some u else d.users.find uid := by
  unfold Directory.insertUser at h
  split at h
  · cases h
  · next users hinsert =>
    refine ⟨?_, withUsers_identities h, fun uid => ?_⟩
    · exact not_not_intro (Table.find_eq_none.mpr fun r hr =>
        Table.key_notMem_of_insert hinsert r hr)
    · rw [Account.withUsers_users h]
      exact Table.find_insert hinsert uid

theorem insertMembership_identities {d d' : Directory} {groupId uid : String} {now : ℤ}
    (h : d.insertMembership groupId uid now = .ok d') : d'.identities = d.identities := by
  unfold Directory.insertMembership at h
  split at h
  · cases h
  · split at h
    · cases h
      rfl
    · cases h

structure ClaimedUser (d d' : Directory) (uid : String) (pair : Pair) : Prop where
  unregistered : ¬ Registered d uid
  registered : Registered d' uid
  others : ∀ v, Registered d v → Registered d' v
  free : ownerOf d pair = none
  owner : ∀ p, ownerOf d' p = if p = pair then some uid else ownerOf d p

theorem claimUser_ok {d d' : Directory} {user : NewUser} {identity : NewIdentity} {now : ℤ}
    (hidentities : user.identities = [identity]) (h : claimUser d user now = .ok d') :
    ClaimedUser d d' user.id (identityPair identity) := by
  unfold claimUser at h
  split at h
  · cases h
  · next p hp =>
    have hclaim : p.claim.id = user.id ∧ p.claim.identities = [identityPair identity] := by
      unfold Account.prepare at hp
      dsimp only at hp
      split at hp
      · cases hp
      · split at hp
        · cases hp
        · cases hp
          simp [Account.Prepared.claim, newUserInput, hidentities, identityPair]
    split at h
    · next d₀ hclaims =>
      cases h
      rw [Directory.claimUsers, List.foldlM_cons] at hclaims
      obtain ⟨d₃, hone, hnil⟩ := Batches.bind_eq_ok hclaims
      cases hnil
      obtain ⟨d₁, h₁, hone⟩ := Batches.bind_eq_ok hone
      obtain ⟨d₂, h₂, hone⟩ := Batches.bind_eq_ok hone
      rw [hclaim.2, List.foldlM_cons] at hone
      obtain ⟨d₃, h₃, hnil⟩ := Batches.bind_eq_ok hone
      cases hnil
      obtain ⟨hunregistered, hidentities₁, hfind⟩ := insertUser_registers h₁
      have hidentities₂ : d₂.identities = d₁.identities :=
        Batches.foldlM_rule (R := fun d d' : Directory => d'.identities = d.identities)
          (fun _ => rfl) (fun h h' => h'.trans h) (fun _ _ _ => insertMembership_identities) h₂
      have husers : d'.users = d₁.users :=
        (Account.insertIdentity_users h₃).trans (Account.insertMemberships_users h₂)
      have howner : ∀ pair, ownerOf d₂ pair = ownerOf d pair := by
        intro pair
        simp [ownerOf, hidentities₂, hidentities₁]
      obtain ⟨hfree, -, hset⟩ := insertIdentity_ok h₃
      have hid : p.claim.row.id = user.id := hclaim.1
      rw [hid] at hunregistered hfind
      refine ⟨hunregistered, ?_, ?_, ?_, ?_⟩
      · simp [Registered, husers, hfind]
      · intro v hv
        unfold Registered
        rw [husers, hfind]
        split
        · simp
        · exact hv
      · rw [← howner]
        exact hfree
      · intro pair
        rw [hset, howner, hclaim.1]
    · cases h

/-! The questions that leave the pairs alone. -/

theorem registered_setUserStatus {d : Directory} {id uid : String} {status : UserStatus} {now : ℤ}
    (h : Registered d uid) : Registered (d.setUserStatus id status now) uid := by
  obtain ⟨r, hr⟩ := Option.ne_none_iff_exists'.mp h
  obtain ⟨hmem, rfl⟩ := Table.find_eq_some.mp hr
  have hstays := Table.mem_updateWhere_of_mem (p := (·.id == id))
    (f := Directory.withStatus status now) (fun _ => rfl) hmem
  have hkey : (if r.id == id then Directory.withStatus status now r else r).id = r.id := by
    split <;> rfl
  have hfind := Table.find_eq_some.mpr ⟨hstays, hkey⟩
  exact Option.ne_none_iff_exists'.mpr ⟨_, hfind⟩

theorem respond_aside (d : Directory) (oracle : Oracle) {question : Question}
    (h : Aside (.ask question)) :
    (∀ pair, ownerOf (respond d oracle question).1 pair = ownerOf d pair) ∧
      ∀ uid, Registered d uid → Registered (respond d oracle question).1 uid := by
  cases question with
  | insertIdentity issuer subject uid now => exact h.elim
  | releaseIdentity issuer subject => exact h.elim
  | claimUser user now => exact h.elim
  | activateUser uid =>
    unfold respond activateUser
    dsimp only
    split
    · exact ⟨fun _ => rfl, fun _ hv => hv⟩
    · exact ⟨fun _ => rfl, fun _ hv => registered_setUserStatus hv⟩
  | _ => exact ⟨fun _ => rfl, fun _ hv => hv⟩

end TinyOidc.Identity
