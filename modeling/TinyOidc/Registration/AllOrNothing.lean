import TinyOidc.Interaction.Runs
import TinyOidc.Registration.Deployment

/-! When a registration of a passkey is all or nothing: the claim of the credential is repeated
once after a throw, and a claim that was applied before it threw is found taken by the second. -/
namespace TinyOidc.Registration
open RowTable TinyOidc.Interaction TinyOidc.User
open Threads (Prog Delivery)

/-! ### The object -/

def Holds (o : UserObject) (credentialId : String) : Prop :=
  ∃ row ∈ o.tables.passkeys.rows, row.credentialId = credentialId

/-- What an object takes a passkey for. -/
structure Admits (o : UserObject) (p : NewPasskey) (maxPerUser : ℕ) : Prop where
  guard : ∃ user, o.guard = .ok user
  room : o.tables.passkeys.rows.length < maxPerUser
  new : ∀ row ∈ o.tables.passkeys.rows, row.credentialId ≠ p.credentialId ∧ row.id ≠ p.id

structure Added (o o' : UserObject) (p : NewPasskey) (now : ℤ) : Prop where
  rows : ∀ row, row ∈ o'.tables.passkeys.rows ↔
    row ∈ o.tables.passkeys.rows ∨ row = UserObject.passkeyRow p now
  guard : o'.guard = o.guard

section Object
variable {o : UserObject} {p : NewPasskey} {maxPerUser : ℕ}

theorem Admits.not_holds (h : Admits o p maxPerUser) : ¬ Holds o p.credentialId := by
  rintro ⟨row, hrow, hcredential⟩
  exact (h.new row hrow).1 hcredential

theorem addPasskey_of_admits (now : ℤ) (h : Admits o p maxPerUser) : ∃ o',
    o.addPasskey p now maxPerUser = (o', .ok (UserObject.passkeyRow p now)) ∧
      Added o o' p now := by
  obtain ⟨⟨user, hguard⟩, hroom, hnew⟩ := h
  have hdup : (o.tables.passkeys.rows.any fun r =>
      r.credentialId == p.credentialId || r.id == p.id) = false := by
    simpa using hnew
  obtain ⟨passkeys, hinsert⟩ := Table.insert_isSome_of_key_notMem (t := o.tables.passkeys)
    (r := UserObject.passkeyRow p now) fun row hrow => (hnew row hrow).2
  refine ⟨o.store { o.tables with passkeys := passkeys }, ?_, ?_, ?_⟩
  · simp only [UserObject.addPasskey, UserObject.guarded, hguard, if_neg (Nat.not_le.mpr hroom),
      hdup, Bool.false_eq_true, if_false, hinsert]
  · exact fun row => Table.mem_insert hinsert
  · rfl

theorem addPasskey_of_not_admits (now : ℤ) (h : ¬ Admits o p maxPerUser) : ∃ e,
    o.addPasskey p now maxPerUser = (o, .fail e) := by
  unfold UserObject.addPasskey UserObject.guarded
  cases hguard : o.guard with
  | error e => exact ⟨e, rfl⟩
  | ok user =>
    dsimp only
    by_cases hroom : maxPerUser ≤ o.tables.passkeys.rows.length
    · exact ⟨_, if_pos hroom⟩
    · rw [if_neg hroom]
      by_cases hdup : (o.tables.passkeys.rows.any fun r =>
          r.credentialId == p.credentialId || r.id == p.id) = true
      · exact ⟨_, if_pos hdup⟩
      · refine absurd ⟨⟨user, hguard⟩, by omega, ?_⟩ h
        simpa using hdup

/-- The removal of the passkey just added takes its credential along. -/
theorem removePasskey_added {o' : UserObject} (h : Admits o p maxPerUser)
    (hadded : Added o o' p now) :
    ¬ Holds (o'.removePasskey p.id .admin).1 p.credentialId := by
  obtain ⟨user, hguard⟩ := h.guard
  simp only [UserObject.removePasskey, UserObject.guarded, hadded.guard, hguard]
  rintro ⟨row, hrow, hcredential⟩
  obtain ⟨hmem, hkept⟩ := Table.mem_deleteWhere.mp hrow
  rcases (hadded.rows row).mp hmem with hold | rfl
  · exact (h.new row hold).1 hcredential
  · simp [UserObject.passkeyRow] at hkept

end Object

/-! ### The claims -/

/-- One of the two claims was applied, and threw. -/
def lostClaim : List Delivery → Bool
  | .throws applied :: rest => applied || rest.headD .answers == .throws true
  | _ => false

/-- How the claims of a free credential end, and whether one was lost. -/
inductive ClaimEnds (s : Deployment) (row : CredentialRow) :
    Deployment → CredentialClaim → Bool → Prop where
  | claimed (credentials : Table CredentialRow CredentialRow.credentialId)
      (h : s.credentials.insert row = some credentials) :
      ClaimEnds s row { s with credentials := credentials } .claimed false
  | unapplied : ClaimEnds s row s .failed false
  | lost (credentials : Table CredentialRow CredentialRow.credentialId)
      (h : s.credentials.insert row = some credentials) (outcome : CredentialClaim)
      (houtcome : outcome ≠ .claimed) :
      ClaimEnds s row { s with credentials := credentials } outcome true

section Claims
variable (sha256 : String → Bytes) (oracle : Oracle) {s : Deployment} {credentialId : String}

theorem claimCredential_ends (uid : String) (now : ℤ) (deliveries : List Delivery)
    (hfree : s.credentials.find credentialId = none) : ∃ s' rest outcome,
    (claimCredential credentialId uid now).run (Faulty.exec sha256 oracle) (s, deliveries) =
        ((s', rest), outcome) ∧
      ClaimEnds s ⟨credentialId, uid, now⟩ s' outcome
        ((s.directory.getUser uid).isSome && lostClaim deliveries) := by
  obtain ⟨credentials, hinsert⟩ := Table.insert_isSome_of_key_notMem
    (r := (⟨credentialId, uid, now⟩ : CredentialRow)) (Table.find_eq_none.mp hfree)
  have htaken : ({ s with credentials := credentials } : Deployment).claimCredential
      credentialId uid now = ({ s with credentials := credentials }, .taken) := by
    have hmem : ⟨credentialId, uid, now⟩ ∈ credentials.rows :=
      (Table.mem_insert hinsert).mpr (.inr rfl)
    have hfound : credentials.insert ⟨credentialId, uid, now⟩ = none :=
      dif_pos (List.mem_map_of_mem hmem)
    simp only [Deployment.claimCredential, hfound]
  have hclaim : ∀ s ds, Faulty.exec sha256 oracle (s, ds)
      (.ask (.claimCredential credentialId uid now)) =
        let ended := (ds.headD .answers).deliver s (s.claimCredential credentialId uid now)
        ((ended.1, ds.tail), ended.2.getD .failed) := fun s ds => rfl
  simp only [claimCredential, ask, Prog.run_bind, Prog.run_perform, hclaim]
  cases hrow : (s.directory.getUser uid).isSome with
  | false =>
    have hthrows : s.claimCredential credentialId uid now = (s, .failed) := by
      simp only [Deployment.claimCredential, hinsert, hrow, Bool.false_eq_true, if_false]
    have hends : ∀ d : Delivery, (d.deliver s (s, CredentialClaim.failed)).1 = s ∧
        (d.deliver s (s, CredentialClaim.failed)).2.getD .failed = .failed := by
      intro d
      cases d <;> simp [Delivery.deliver]
    simp only [hthrows, (hends _).1, (hends _).2, Prog.run_perform, hclaim]
    exact ⟨s, _, _, rfl, .unapplied⟩
  | true =>
    have happlied : s.claimCredential credentialId uid now =
        ({ s with credentials := credentials }, .claimed) := by
      simp only [Deployment.claimCredential, hinsert, hrow, if_true]
    rcases deliveries with _ | ⟨_ | _ | _, rest⟩
    · exact ⟨_, _, _, by simp only [happlied]; rfl, .claimed credentials hinsert⟩
    · exact ⟨_, _, _, by simp only [happlied]; rfl, .claimed credentials hinsert⟩
    · -- Nothing was applied, so the second claim is like a first one.
      simp only [List.headD_cons, Delivery.deliver, Bool.false_eq_true, if_false, Option.getD_none,
        Prog.run_perform, hclaim, happlied, List.tail_cons]
      rcases rest with _ | ⟨_ | _ | _, rest⟩
      · exact ⟨_, _, _, rfl, .claimed credentials hinsert⟩
      · exact ⟨_, _, _, rfl, .claimed credentials hinsert⟩
      · exact ⟨_, _, _, rfl, .unapplied⟩
      · exact ⟨_, _, _, rfl, .lost credentials hinsert .failed (by simp)⟩
    · simp only [happlied, List.headD_cons, Delivery.deliver, if_true, Option.getD_none,
        Prog.run_perform, hclaim, htaken, List.tail_cons]
      rcases rest.headD .answers with _ | _ | _
      · exact ⟨_, _, _, rfl, .lost credentials hinsert .taken (by simp)⟩
      · exact ⟨_, _, _, rfl, .lost credentials hinsert .failed (by simp)⟩
      · exact ⟨_, _, _, rfl, .lost credentials hinsert .failed (by simp)⟩

end Claims

/-! ### The registration -/

/-- What a registration owes: the passkey and its index row, or neither where the credential was
not indexed before. -/
def AllOrNothing (s s' : Deployment) (uid credentialId : String) :
    Except RegisterPasskeyError PasskeyRow → Prop
  | .ok passkey => passkey ∈ (s'.user uid).tables.passkeys.rows ∧
      passkey.credentialId = credentialId ∧
      ∃ row, s'.credentials.find credentialId = some row ∧ row.userId = uid
  | .error _ => s.credentials.find credentialId = none →
      ¬ Holds (s'.user uid) credentialId ∧ s'.credentials.find credentialId = none

section Runs
variable (sha256 : String → Bytes) (oracle : Oracle) {s : Deployment} (uid : String)
  (p : NewPasskey) (now : ℤ) (maxPerUser : ℕ) (deliveries : List Delivery)

theorem exec_lookup (s : Deployment) (credentialId : String) :
    Faulty.exec sha256 oracle (s, deliveries) (.ask (.lookupCredential credentialId)) =
      ((s, deliveries), (s.credentials.find credentialId).map (·.userId)) := rfl

theorem exec_user (s : Deployment) (call : Call) :
    Faulty.exec sha256 oracle (s, deliveries) (.user uid call) =
      ((s.setUser uid ((s.user uid).call sha256 call).1, deliveries),
        ((s.user uid).call sha256 call).2) := rfl

def registration (s : Deployment) : Faulty × Except RegisterPasskeyError PasskeyRow :=
  (registerPasskey uid p now maxPerUser).run (Faulty.exec sha256 oracle) (s, deliveries)

theorem registration_of_indexed {row : CredentialRow}
    (h : s.credentials.find p.credentialId = some row) :
    registration sha256 oracle uid p now maxPerUser deliveries s =
      ((s, deliveries), .error .passkeyExists) := by
  simp only [registration, registerPasskey, ask, Prog.run_bind, Prog.run_perform, exec_lookup, h,
    Option.map_some, Option.isSome_some, if_true, Prog.run_pure]

theorem registration_of_refused (hfree : s.credentials.find p.credentialId = none)
    (h : ¬ Admits (s.user uid) p maxPerUser) : ∃ e,
    registration sha256 oracle uid p now maxPerUser deliveries s = ((s, deliveries), .error e) := by
  obtain ⟨e, hadd⟩ := addPasskey_of_not_admits now h
  have hcall : (s.user uid).call sha256 (.addPasskey p now maxPerUser) =
      (s.user uid, .passkey (.fail e)) := by
    rw [UserObject.call, hadd]
    rfl
  simp only [registration, registerPasskey, ask, userCall, Prog.run_bind, Prog.run_perform,
    exec_lookup, hfree, Option.map_none, Option.isSome_none, Bool.false_eq_true, if_false,
      exec_user,
    hcall, Deployment.setUser_user]
  cases e <;> exact ⟨_, rfl⟩

theorem registration_of_admitted (hfree : s.credentials.find p.credentialId = none)
    (h : Admits (s.user uid) p maxPerUser) : ∃ o' s' rest outcome,
    Added (s.user uid) o' p now ∧
      ClaimEnds (s.setUser uid o') ⟨p.credentialId, uid, now⟩ s' outcome
        ((s.directory.getUser uid).isSome && lostClaim deliveries) ∧
      registration sha256 oracle uid p now maxPerUser deliveries s =
        if outcome = .claimed then ((s', rest), .ok (UserObject.passkeyRow p now))
        else ((s'.setUser uid ((s'.user uid).removePasskey p.id .admin).1, rest),
          .error (if outcome = .taken then .passkeyExists else .temporarilyUnavailable)) := by
  obtain ⟨o', hadd, hadded⟩ := addPasskey_of_admits now h
  obtain ⟨s', rest, outcome, hclaims, hends⟩ := claimCredential_ends sha256 oracle
    (s := s.setUser uid o') uid now deliveries hfree
  refine ⟨o', s', rest, outcome, hadded, hends, ?_⟩
  have hcall : (s.user uid).call sha256 (.addPasskey p now maxPerUser) =
      (o', .passkey (.ok (UserObject.passkeyRow p now))) := by
    rw [UserObject.call, hadd]
    rfl
  simp only [registration, registerPasskey, ask, userCall, Prog.run_bind, Prog.run_perform,
    exec_lookup, hfree, Option.map_none, Option.isSome_none, Bool.false_eq_true, if_false,
      exec_user,
    hcall, hclaims]
  cases outcome <;> rfl

end Runs

theorem find_of_insert {s : Deployment} {row : CredentialRow}
    {credentials : Table CredentialRow CredentialRow.credentialId}
    (h : s.credentials.insert row = some credentials) :
    credentials.find row.credentialId = some row := by
  rw [Table.find_insert h, if_pos rfl]

/-- A registration is all or nothing for a credential that is indexed, or that the object does not
hold, and, where the object takes the passkey of a user with a row, when no claim that was applied
throws; and only then. -/
theorem registration_allOrNothing_iff (sha256 : String → Bytes) (oracle : Oracle) (s : Deployment)
    (uid : String) (p : NewPasskey) (now : ℤ) (maxPerUser : ℕ) (deliveries : List Delivery) :
    AllOrNothing s (registration sha256 oracle uid p now maxPerUser deliveries s).1.1 uid
        p.credentialId (registration sha256 oracle uid p now maxPerUser deliveries s).2 ↔
      (s.credentials.find p.credentialId).isSome = true ∨
        ¬ Holds (s.user uid) p.credentialId ∧ (Admits (s.user uid) p maxPerUser →
          s.directory.getUser uid = none ∨ lostClaim deliveries = false) := by
  cases hfree : s.credentials.find p.credentialId with
  | some row =>
    rw [registration_of_indexed sha256 oracle uid p now maxPerUser deliveries hfree]
    simp [AllOrNothing, hfree]
  | none =>
    by_cases hadmits : Admits (s.user uid) p maxPerUser
    · obtain ⟨o', s', rest, outcome, hadded, hends, hrun⟩ :=
        registration_of_admitted sha256 oracle uid p now maxPerUser deliveries hfree hadmits
      have hgone := removePasskey_added hadmits hadded
      rw [hrun]
      generalize hlost : ((s.directory.getUser uid).isSome && lostClaim deliveries) = lost at hends
      have hcondition : lost = false ↔ (s.directory.getUser uid = none ∨
          lostClaim deliveries = false) := by
        rw [← hlost]
        cases s.directory.getUser uid <;> simp
      rw [← hcondition]
      cases hends with
      | claimed credentials hinsert =>
        have hobject : ({ s.setUser uid o' with credentials := credentials } :
          Deployment).user uid =
            o' := s.user_setUser uid o'
        have hheld : UserObject.passkeyRow p now ∈ o'.tables.passkeys.rows :=
          (hadded.rows _).mpr (.inr rfl)
        rw [if_pos rfl]
        constructor
        · exact fun _ => .inr ⟨hadmits.not_holds, fun _ => rfl⟩
        · intro _
          exact ⟨by rw [hobject]; exact hheld, rfl, _, find_of_insert hinsert, rfl⟩
      | unapplied => simpa [AllOrNothing, hadmits.not_holds, hadmits, hfree] using hgone
      | lost credentials hinsert outcome houtcome =>
        simp [AllOrNothing, hadmits, hfree, houtcome, find_of_insert hinsert]
    · obtain ⟨e, hrun⟩ :=
        registration_of_refused sha256 oracle uid p now maxPerUser deliveries hfree hadmits
      rw [hrun]
      simp [AllOrNothing, hfree, hadmits]

/-! ### A claim that is applied and throws -/

namespace Sample

def passkey : NewPasskey := ⟨"k1", "c1", [], -7, 0, [], none, false, false, none, .me⟩

def member : Deployment where
  objects :=
    ⟨fun _ => .fresh, fun _ => (UserObject.fresh.init ⟨"u1", none, none, false, none, []⟩ 0 []).1⟩
  directory := { Account.Directory.empty with
    users := ⟨[⟨"u1", none, none, false, none, .active, 0, 1⟩], by simp⟩
    verifiedEmails := by decide }
  credentials := .empty
  invitations := .empty

def oracle : Oracle := Interaction.Sample.oracle Interaction.Sample.ix

/-- The first claim is applied and throws. -/
def lost : Faulty × Except RegisterPasskeyError PasskeyRow :=
  registration (fun _ => []) oracle "u1" passkey 0 10 [.throws true] member

theorem lost_answer : lost.2 = .error .passkeyExists := rfl

theorem lost_index : lost.1.1.credentials.find "c1" = some ⟨"c1", "u1", 0⟩ := rfl

end Sample

/-- The registration is refused, and the index names the user for a passkey that is gone. -/
theorem registration_leaves_credential :
    ¬ ∀ (sha256 : String → Bytes) (oracle : Oracle) (s : Deployment) (uid : String) (p : NewPasskey)
      (now : ℤ) (maxPerUser : ℕ) (deliveries : List Delivery),
      AllOrNothing s (registration sha256 oracle uid p now maxPerUser deliveries s).1.1 uid
        p.credentialId (registration sha256 oracle uid p now maxPerUser deliveries s).2 := by
  intro hall
  have howed : AllOrNothing Sample.member Sample.lost.1.1 "u1" "c1" Sample.lost.2 :=
    hall (fun _ => []) Sample.oracle Sample.member "u1" Sample.passkey 0 10 [.throws true]
  rw [Sample.lost_answer] at howed
  have hindex := (howed rfl).2
  rw [Sample.lost_index] at hindex
  cases hindex

end TinyOidc.Registration
