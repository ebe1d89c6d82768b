import TinyOidc.Interaction.Runs
import TinyOidc.User.Changes

/-! The passkeys and identities a user can sign in with, under the registrations and the user's
own removals. The last one is refused in one call of the object; a registration whose index claim
fails takes its passkey back without that check. -/
namespace TinyOidc.Me
open RowTable TinyOidc.User
open TinyOidc.Interaction (Handler Op Oracle World ask userCall)
open Threads (Config Label Prog System)

/-! ### The handlers -/

inductive UnregisterOwnResult where
  | removed | missing | lastLoginMethod | unavailable
  deriving DecidableEq, Repr

/-- The user's own removal, refused when the passkey is the last way to sign in. -/
def unregisterOwnPasskey (uid id credentialId : String) : Handler UnregisterOwnResult := do
  match ← userCall uid (.removePasskey id .self) with
  | .flag (.ok true) =>
    let _ ← ask (.releaseCredential credentialId)
    return .removed
  | .flag (.ok false) => return .missing
  | .flag (.fail .lastLoginMethod) => return .lastLoginMethod
  | _ => return .unavailable

inductive MeResponse where
  | noContent
  | error (status : ℕ) (error description : String)
  | registered (result : Except Interaction.RegisterPasskeyError PasskeyRow)
  deriving DecidableEq

def unavailable : MeResponse := .error 503 "temporarily_unavailable" "storage unavailable"

def deletePasskeyHandler (uid id : String) : Handler MeResponse := do
  match ← userCall uid .listPasskeys with
  | .passkeys (.ok listed) =>
    match listed.find? (fun p => p.id == id) with
    | none => return .error 404 "not_found" "no such passkey"
    | some passkey =>
      match ← unregisterOwnPasskey uid passkey.id passkey.credentialId with
      | .removed => return .noContent
      | .lastLoginMethod =>
        return .error 409 "last_login_method" "the last passkey stays unless an identity is linked"
      | .missing => return .error 404 "not_found" "no such passkey"
      | .unavailable => return unavailable
  | _ => return unavailable

def deleteIdentityHandler (uid id : String) : Handler MeResponse := do
  match ← userCall uid .listIdentities with
  | .identities (.ok listed) =>
    match listed.find? (fun i => i.id == id) with
    | none => return .error 404 "not_found" "no such identity"
    | some identity =>
      match ← userCall uid (.removeIdentity id .self) with
      | .flag (.ok true) =>
        let _ ← ask (.releaseIdentity identity.issuer identity.subject)
        return .noContent
      | .flag (.ok false) => return .error 404 "not_found" "no such identity"
      | .flag (.fail .lastLoginMethod) =>
        return .error 409 "last_login_method"
          "the last identity stays unless a passkey is registered"
      | _ => return unavailable
  | _ => return unavailable

inductive MethodRequest where
  | register (uid : String) (passkey : NewPasskey) (now : ℤ) (maxPerUser : ℕ)
  | deletePasskey (uid id : String)
  | deleteIdentity (uid id : String)
  deriving DecidableEq

def MethodRequest.handler : MethodRequest → Handler MeResponse
  | .register uid passkey now maxPerUser => do
    return .registered (← Interaction.registerPasskey uid passkey now maxPerUser)
  | .deletePasskey uid id => deletePasskeyHandler uid id
  | .deleteIdentity uid id => deleteIdentityHandler uid id

def loginMethods (sha256 : String → Bytes) :
    System MethodRequest Oracle World Op.Answer MeResponse where
  start := MethodRequest.handler
  exec := World.exec sha256
  isOutside _ := false

abbrev MethodStep := Label MethodRequest Op Oracle

/-! ### What they call -/

/-- The calls of these requests: a removal is the user's own, or takes back a registration. -/
def Calls : Op → Prop
  | .interaction _ _ => False
  | .user _ call =>
    match call with
    | .addPasskey _ _ _ | .removePasskey _ _ | .removeIdentity _ .self | .listPasskeys
    | .listIdentities => True
    | _ => False
  | .ask _ => True

theorem claimCredential_calls (credentialId uid : String) (now : ℤ) :
    (Interaction.claimCredential credentialId uid now).Only Calls := by
  unfold Interaction.claimCredential
  refine .perform trivial fun outcome => ?_
  split
  · exact ⟨trivial, fun _ => trivial⟩
  · trivial

theorem registerPasskey_calls (uid : String) (passkey : NewPasskey) (now : ℤ) (maxPerUser : ℕ) :
    (Interaction.registerPasskey uid passkey now maxPerUser).Only Calls := by
  unfold Interaction.registerPasskey
  refine .perform trivial fun known => ?_
  split
  · trivial
  refine .perform trivial fun r => ?_
  split
  · refine Prog.Only.bind (claimCredential_calls _ _ _) fun outcome => ?_
    split
    · trivial
    · exact .perform trivial fun _ => trivial
  all_goals trivial

theorem unregisterOwnPasskey_calls (uid id credentialId : String) :
    (unregisterOwnPasskey uid id credentialId).Only Calls := by
  unfold unregisterOwnPasskey
  refine .perform trivial fun r => ?_
  split
  · exact .perform trivial fun _ => trivial
  all_goals trivial

theorem deletePasskeyHandler_calls (uid id : String) :
    (deletePasskeyHandler uid id).Only Calls := by
  unfold deletePasskeyHandler
  refine .perform trivial fun r => ?_
  split
  · split
    · trivial
    · refine Prog.Only.bind (unregisterOwnPasskey_calls uid _ _) fun result => ?_
      cases result <;> trivial
  · trivial

theorem deleteIdentityHandler_calls (uid id : String) :
    (deleteIdentityHandler uid id).Only Calls := by
  unfold deleteIdentityHandler
  refine .perform trivial fun r => ?_
  split
  · split
    · trivial
    · refine .perform trivial fun r => ?_
      split
      · exact .perform trivial fun _ => trivial
      all_goals trivial
  · trivial

theorem handler_calls (request : MethodRequest) : request.handler.Only Calls := by
  cases request with
  | register uid passkey now maxPerUser =>
    exact (registerPasskey_calls uid passkey now maxPerUser).bind fun result => trivial
  | deletePasskey uid id => exact deletePasskeyHandler_calls uid id
  | deleteIdentity uid id => exact deleteIdentityHandler_calls uid id

theorem loginMethods_follow (sha256 : String → Bytes) :
    (loginMethods sha256).Follows (fun _ _ op => Calls op) :=
  fun request => ((handler_calls request).obeys fun _ _ h => h).mono fun _ _ _ => trivial

/-! ### Counting the methods -/

/-- How many ways to sign in an object holds. -/
def methodCount (o : UserObject) : ℕ :=
  o.tables.passkeys.rows.length + o.tables.identities.rows.length

/-- Removing this passkey takes the last one: the call is let in, and nothing else is left. -/
def removesLast (o : UserObject) (id : String) : Bool :=
  o.guard.isOk && UserObject.isLastLoginMethod o.tables (o.tables.passkeys.find id).isSome

theorem removePasskey_keeps {o : UserObject} {id : String} {actor : RemovalActor}
    (hpos : 0 < methodCount o) (hlast : actor = .admin → removesLast o id = false) :
    0 < methodCount (o.removePasskey id actor).1 := by
  unfold UserObject.removePasskey UserObject.guarded
  cases hguard : o.guard with
  | error e => exact hpos
  | ok user =>
    dsimp only
    split
    · exact hpos
    · next hchecked =>
      have hdeleted := Table.length_deleteWhere_key o.tables.passkeys id
      unfold methodCount at hpos ⊢
      simp only [UserObject.store]
      cases hpresent : (o.tables.passkeys.find id).isSome with
      | false =>
        simp only [hpresent, Bool.false_eq_true, if_false] at hdeleted
        omega
      | true =>
        simp only [hpresent, if_true] at hdeleted
        have hmore : o.tables.passkeys.rows.length + o.tables.identities.rows.length ≠ 1 := by
          intro hone
          have hislast : UserObject.isLastLoginMethod o.tables true = true := by
            simp [UserObject.isLastLoginMethod, hone]
          cases actor with
          | self => exact hchecked ⟨rfl, by rw [hpresent]; exact hislast⟩
          | admin =>
            have hsafe := hlast rfl
            simp [removesLast, hguard, Except.isOk, Except.toBool, hpresent, hislast] at hsafe
        omega

/-- The unchecked removal of the last passkey leaves the user with nothing to sign in with. -/
theorem removePasskey_last {o : UserObject} {id : String} (h : removesLast o id = true) :
    methodCount (o.removePasskey id .admin).1 = 0 := by
  unfold removesLast UserObject.isLastLoginMethod at h
  unfold UserObject.removePasskey UserObject.guarded
  cases hguard : o.guard with
  | error e => simp [hguard, Except.isOk, Except.toBool] at h
  | ok user =>
    simp only [hguard, Bool.and_eq_true, beq_iff_eq] at h
    obtain ⟨-, hpresent, hone⟩ := h
    have hdeleted := Table.length_deleteWhere_key o.tables.passkeys id
    simp only [hpresent, if_true] at hdeleted
    unfold methodCount
    simp only [reduceCtorEq, false_and, if_false, UserObject.store]
    omega

theorem removeIdentity_keeps {o : UserObject} {id : String} (hpos : 0 < methodCount o) :
    0 < methodCount (o.removeIdentity id .self).1 := by
  unfold UserObject.removeIdentity UserObject.guarded
  cases o.guard with
  | error e => exact hpos
  | ok user =>
    dsimp only
    split
    · exact hpos
    · next hchecked =>
      have hdeleted := Table.length_deleteWhere_key o.tables.identities id
      unfold methodCount at hpos ⊢
      simp only [UserObject.store]
      cases hpresent : (o.tables.identities.find id).isSome with
      | false =>
        simp only [hpresent, Bool.false_eq_true, if_false] at hdeleted
        omega
      | true =>
        simp only [hpresent, if_true] at hdeleted
        have hmore : o.tables.passkeys.rows.length + o.tables.identities.rows.length ≠ 1 := by
          intro hone
          refine hchecked ⟨rfl, ?_⟩
          simp [UserObject.isLastLoginMethod, hpresent, hone]
        omega

theorem addPasskey_keeps (o : UserObject) (p : NewPasskey) (now : ℤ) (maxPerUser : ℕ) :
    methodCount o ≤ methodCount (o.addPasskey p now maxPerUser).1 := by
  unfold UserObject.addPasskey UserObject.guarded
  cases o.guard with
  | error e => exact le_refl _
  | ok user =>
    dsimp only
    split_ifs
    · exact le_refl _
    · exact le_refl _
    split
    · exact le_refl _
    · next passkeys hinsert =>
      have hlength := Table.length_insert hinsert
      simp only [methodCount, UserObject.store]
      omega

theorem guarded_same {α : Type} {o : UserObject} {fail : UserDoError → α}
    {body : UserRow → UserObject × α} (h : ∀ user, (body user).1 = o) :
    (o.guarded fail body).1 = o := by
  unfold UserObject.guarded
  split
  · rfl
  · exact h _

/-- A call of these requests keeps a method, unless it takes back the last one. -/
theorem exec_keeps {sha256 : String → Bytes} {w : World} {answer : Oracle} {op : Op} {uid : String}
    (hop : Calls op) (hpos : 0 < methodCount (w.users uid))
    (hsafe : ∀ id, op = .user uid (.removePasskey id .admin) →
      removesLast (w.users uid) id = false) :
    0 < methodCount ((w.exec sha256 answer op).1.users uid) := by
  cases op with
  | interaction id call => exact hop.elim
  | ask question => exact hpos
  | user v call =>
    simp only [World.exec]
    by_cases hv : uid = v
    · subst hv
      rw [Function.update_self]
      cases call with
      | addPasskey p now maxPerUser => exact hpos.trans_le (addPasskey_keeps _ p now maxPerUser)
      | removePasskey id actor =>
        exact removePasskey_keeps hpos fun hactor => hsafe id (by rw [hactor])
      | removeIdentity id actor =>
        cases actor with
        | self => exact removeIdentity_keeps hpos
        | admin => exact hop.elim
      | listPasskeys =>
        have hsame : ((w.users uid).listPasskeys).1 = w.users uid := guarded_same fun _ => rfl
        simpa [UserObject.call, answered, hsame] using hpos
      | listIdentities =>
        have hsame : ((w.users uid).listIdentities).1 = w.users uid := guarded_same fun _ => rfl
        simpa [UserObject.call, answered, hsame] using hpos
      | _ => exact hop.elim
    · rw [Function.update_of_ne hv]
      exact hpos

/-! ### Runs -/

def KeepsMethod (sha256 : String → Bytes) (uid : String) (s : World) (labels : List MethodStep) :
    Prop :=
  ∀ earlier, earlier <:+ labels →
    0 < methodCount (((loginMethods sha256).after s earlier).shared.users uid)

/-- No registration of the run takes its passkey back when that is the user's last method. -/
def SafeRollbacks (sha256 : String → Bytes) (uid : String) (s : World) (labels : List MethodStep) :
    Prop :=
  ∀ e ∈ (loginMethods sha256).history s labels, ∀ i t id r,
    e.reply = some (.thread i t ⟨.user uid (.removePasskey id .admin), r⟩) →
      removesLast (e.pre.shared.users uid) id = false

section Runs
variable {sha256 : String → Bytes} {uid : String} {s : World}

/-- One step of a run. -/
theorem step_keeps {l : MethodStep} {labels : List MethodStep}
    (hpos : 0 < methodCount (((loginMethods sha256).after s labels).shared.users uid))
    (hsafe : SafeRollbacks sha256 uid s (l :: labels)) :
    0 < methodCount (((loginMethods sha256).after s (l :: labels)).shared.users uid) := by
  have hevent := hsafe _ List.mem_cons_self
  simp only [Machine.event_reply, Machine.event_pre] at hevent
  have hthreads := System.thread_obeys (loginMethods_follow sha256) s labels
  have hstep := (loginMethods sha256).step_steps ((loginMethods sha256).after s labels) l
  rw [System.after, Machine.after_cons]
  generalize ((loginMethods sha256).step ((loginMethods sha256).after s labels) l) = stepped
    at hevent hstep
  obtain ⟨c', e⟩ := stepped
  cases hstep with
  | idle => exact hpos
  | spawn q => exact hpos
  | thread i t op next answer hi hp =>
    have ht := hthreads t (List.mem_of_getElem? hi)
    rw [hp] at ht
    refine exec_keeps ht.1 hpos fun id hop => ?_
    subst hop
    exact hevent i t id _ rfl
  | outside op answer hop => cases hop

/-- A step that takes back the last method leaves none. -/
theorem step_takes_last {l : MethodStep} {c : Config MethodRequest World Op.Answer MeResponse}
    {i : ℕ} {t : Threads.Thread MethodRequest Op.Answer MeResponse} {id : String} {r : Reply}
    (hstep : ((loginMethods sha256).step c l).2 =
      some (.thread i t ⟨.user uid (.removePasskey id .admin), r⟩))
    (hlast : removesLast (c.shared.users uid) id = true) :
    methodCount (((loginMethods sha256).step c l).1.shared.users uid) = 0 := by
  have hsteps := (loginMethods sha256).step_steps c l
  generalize (loginMethods sha256).step c l = stepped at hstep hsteps
  obtain ⟨c', e⟩ := stepped
  cases hsteps with
  | idle => cases hstep
  | spawn q => cases hstep
  | thread j t' op next answer hi hp =>
    simp only [Option.some.injEq, Threads.Effect.thread.injEq, Sigma.mk.injEq] at hstep
    obtain ⟨-, -, rfl, -⟩ := hstep
    have hexec : (((loginMethods sha256).exec c.shared answer
        (.user uid (.removePasskey id .admin))).1.users uid) =
          ((c.shared.users uid).removePasskey id .admin).1 := Function.update_self _ _ _
    rw [hexec]
    exact removePasskey_last hlast
  | outside op answer hop => cases hop

end Runs

/-- A user with a passkey or identity keeps one along a run exactly when no registration of it
takes its passkey back as the last one. -/
theorem keepsMethod_iff_safeRollbacks (sha256 : String → Bytes) (uid : String) (s : World)
    (labels : List MethodStep) (hstart : 0 < methodCount (s.users uid)) :
    KeepsMethod sha256 uid s labels ↔ SafeRollbacks sha256 uid s labels := by
  constructor
  · intro hkeeps
    induction labels with
    | nil =>
      intro e he
      cases he
    | cons l labels ih =>
      intro e he i t id r hreply
      rcases List.mem_cons.mp he with rfl | he
      · by_contra hlast
        have hnone : methodCount (((loginMethods sha256).step _ l).1.shared.users uid) = 0 :=
          step_takes_last hreply (by simpa using hlast)
        have hpos := hkeeps (l :: labels) (List.suffix_refl _)
        rw [System.after, Machine.after_cons, hnone] at hpos
        omega
      · exact ih (fun earlier h => hkeeps earlier (h.trans (List.suffix_cons _ _))) e he i t id r
          hreply
  · intro hsafe
    have htail : ∀ {l : MethodStep} {labels}, SafeRollbacks sha256 uid s (l :: labels) →
        SafeRollbacks sha256 uid s labels :=
      fun h e he => h e (List.mem_cons_of_mem _ he)
    induction labels with
    | nil =>
      intro earlier h
      rw [List.suffix_nil.mp h]
      exact hstart
    | cons l labels ih =>
      intro earlier h
      rcases List.suffix_cons_iff.mp h with rfl | h
      · exact step_keeps (ih (htail hsafe) labels (List.suffix_refl _)) hsafe
      · exact ih (htail hsafe) earlier h

namespace Sample

/-- The index gives the credential to someone else. -/
def taken : Oracle
  | .claimCredential _ _ _ => .taken
  | question => Interaction.Sample.oracle Interaction.Sample.ix question

def passkey (id : String) : NewPasskey :=
  ⟨id, id, [], -7, 0, [], none, false, false, none, .me⟩

/-- One user with the passkey `p1`. -/
def start : World :=
  { World.fresh with
    users := fun _ => after (fun _ => []) [.addPasskey (passkey "p1") 0 20, User.Sample.init] }

/-- While `p2` is being registered the user removes `p1`; then the index refuses `p2`. -/
def lockedOut : List MethodStep :=
  [.step 0 taken, .step 0 taken, .step 1 taken, .step 1 taken, .step 1 taken,
    .spawn (.deletePasskey "u1" "p1"), .step 0 taken, .step 0 taken,
    .spawn (.register "u1" (passkey "p2") 0 20)]

/-- The user removes `p1` after the registration of `p2` was taken back. -/
def refused : List MethodStep :=
  [.step 1 taken, .step 1 taken, .step 1 taken, .spawn (.deletePasskey "u1" "p1"),
    .step 0 taken, .step 0 taken, .step 0 taken, .step 0 taken,
    .spawn (.register "u1" (passkey "p2") 0 20)]

end Sample

theorem keepsMethod_iff_safeRollbacks_sample :
    KeepsMethod (fun _ => []) "u1" Sample.start Sample.refused ↔
      SafeRollbacks (fun _ => []) "u1" Sample.start Sample.refused :=
  keepsMethod_iff_safeRollbacks (fun _ => []) "u1" Sample.start Sample.refused (by decide)

/-- The only passkey left is the one that is taken back. -/
theorem keepsMethod_lockedOut :
    0 < methodCount (Sample.start.users "u1") ∧
      ¬ KeepsMethod (fun _ => []) "u1" Sample.start Sample.lockedOut := by
  refine ⟨by decide, fun h => ?_⟩
  have hpos := h Sample.lockedOut (List.suffix_refl _)
  revert hpos
  decide

end TinyOidc.Me
