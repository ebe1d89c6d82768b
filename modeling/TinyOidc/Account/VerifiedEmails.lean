import TinyOidc.Account.MembershipCalls
import TinyOidc.Account.Profiles
import TinyOidc.Lib.Batches
import TinyOidc.User.Changes

/-! A verified email belongs to one account: when no mirror write is refused or overtaken, the
objects agree with the registry, whose partial unique index keeps verified emails apart. -/
namespace TinyOidc.Account
open RowTable TinyOidc.User TinyOidc.Util
open TinyOidc.Interaction (CreateUserError)
open Threads (Prog Entry Label Thread Config System)
open Threads.Prog (Obeys)
open Batches (foldlM_rule bind_eq_ok)

/-! ### The calls -/

inductive ProfileRequest where
  | update (uid : String) (update : ProfileUpdate) (now : ℤ)
  | create (inputs : List NewUser) (now : ℤ)
  deriving DecidableEq

inductive ProfileAnswer where
  | update (result : UpdateProfileResult)
  | create (result : Option (List CreateUserResult))

def ProfileRequest.run : ProfileRequest → Program ProfileAnswer
  | update uid change now => do return .update (← updateUserProfile uid change now)
  | create inputs now => do return .create (← createUsers inputs now)

def profiles (sha256 : String → Bytes) :
    System ProfileRequest Fault World Op.Answer ProfileAnswer where
  start := ProfileRequest.run
  exec := World.exec sha256
  isOutside _ := false

abbrev ProfileThread := Thread ProfileRequest Op.Answer ProfileAnswer

abbrev ProfileConfig := Config ProfileRequest World Op.Answer ProfileAnswer

abbrev ProfileLabel := Label ProfileRequest Op Fault

def verifiedOf (row : UserRow) : Option String := row.emailNorm.filter fun _ => row.emailVerified

def World.verifiedEmail (w : World) (uid : String) : Option String := (w.user uid).bind verifiedOf

def Directory.UserMirror.verifiedEmail (m : Directory.UserMirror) : Option String :=
  m.emailNorm.filter fun _ => m.emailVerified

def Directory.UserClaim.verifiedEmail (c : Directory.UserClaim) : Option String :=
  c.emailNorm.filter fun _ => c.emailVerified

/-! ### What a call does -/

/-- A call that has written the object and not its mirror yet: the user and the verified email. -/
def unmirrored : Log → Option (String × Option String)
  | ⟨.user uid (.updateProfile patch _), some (.profile (.ok _))⟩ :: _ =>
      some (uid, patchVerified patch)
  | _ => none

def Claimed (log : Log) (c : Directory.UserClaim) : Prop :=
  ∃ claims, (⟨.d1 (.claimUsers claims), .ok ()⟩ : Entry Op.Answer) ∈ log ∧ c ∈ claims

def ProfilePermits (_q : ProfileRequest) (log : Log) : Op → Prop
  | .user _ .getProfile => unmirrored log = none
  | .user _ (.updateProfile patch _) =>
      unmirrored log = none ∧ patch.email.isSome = true ∧ patch.emailVerified.isSome = true
  | .user uid (.init p _ _) => unmirrored log = none ∧ ∃ c, Claimed log c ∧ c.id = uid ∧
      c.verifiedEmail = p.emailNorm.filter fun _ => p.emailVerified
  | .user _ _ => False
  | .d1 (.updateUserMirror uid mirror _) => unmirrored log = some (uid, mirror.verifiedEmail)
  | .d1 (.insertMembership _ _ _) | .d1 (.deleteMembership _ _) | .d1 (.setUserStatus _ _ _)
  | .d1 (.deleteUserRow _) => False
  | .d1 _ => unmirrored log = none

section Protocol
variable {q : ProfileRequest} {log : Log} {α : Type} {post : Log → α → Prop}

theorem calls_user {uid : String} {call : Call} {f : Option Reply → Program α}
    (hop : ProfilePermits q log (.user uid call))
    (h : ∀ r, Obeys (ProfilePermits q) post (⟨.user uid call, r⟩ :: log) (f r)) :
    Obeys (ProfilePermits q) post log (userCall uid call >>= f) := ⟨hop, h⟩

theorem calls_d1 {statement : Statement} {f : Except D1Error statement.Answer → Program α}
    (hop : ProfilePermits q log (.d1 statement))
    (h : ∀ r, Obeys (ProfilePermits q) post (⟨.d1 statement, r⟩ :: log) (f r)) :
    Obeys (ProfilePermits q) post log (d1 statement >>= f) := ⟨hop, h⟩

theorem unmirrored_of_no_profile {uid : String} {call : Call} {r : Option Reply} {log : Log}
    (h : ∀ p, r ≠ some (.profile (.ok p))) : unmirrored (⟨.user uid call, r⟩ :: log) = none := by
  unfold unmirrored
  split
  · next heq =>
    cases heq
    exact absurd rfl (h _)
  · rfl

theorem writeProfile_obeys {uid : String} {patch : ProfilePatch} {now : ℤ}
    (hlog : unmirrored log = none) (hemail : patch.email.isSome = true)
    (hverified : patch.emailVerified.isSome = true) :
    Obeys (ProfilePermits q) (fun log' _ => unmirrored log' = none) log
      (writeProfile uid patch now) := by
  refine calls_user ⟨hlog, hemail, hverified⟩ fun r => ?_
  split
  · exact unmirrored_of_no_profile (by simp)
  · next updated =>
    refine calls_d1 rfl fun r => ?_
    cases r <;> rfl
  · next hno => exact unmirrored_of_no_profile fun p h => hno p (Option.some.inj h)

theorem updateUserProfile_obeys (uid : String) (update : ProfileUpdate) (now : ℤ) :
    Obeys (ProfilePermits q) (fun log' _ => unmirrored log' = none) []
      (updateUserProfile uid update now) := by
  refine calls_user rfl fun r => ?_
  split
  · rfl
  · next current =>
    dsimp only
    split
    · rfl
    · split
      · exact writeProfile_obeys rfl rfl rfl
      · refine calls_d1 rfl fun r => ?_
        split
        · rfl
        · split
          · rfl
          · exact writeProfile_obeys rfl rfl rfl
  · rfl

/-- What a creation keeps while it runs: nothing unmirrored, and the claims made. -/
def Creating (log log' : Log) : Prop := unmirrored log' = none ∧ log <:+ log'

theorem Claimed.suffix {log' : Log} {c : Directory.UserClaim} (h : Claimed log c)
    (hsuffix : log <:+ log') : Claimed log' c := by
  obtain ⟨claims, hmem, hc⟩ := h
  exact ⟨claims, hsuffix.subset hmem, hc⟩

theorem initializeObject_obeys {p : Prepared} (attempts : ℕ) (hlog : unmirrored log = none)
    (hclaimed : Claimed log p.claim) :
    Obeys (ProfilePermits q) (fun log' _ => Creating log log') log
      (initializeObject p attempts) := by
  induction attempts generalizing log with
  | zero => exact ⟨hlog, List.suffix_refl _⟩
  | succ attempts ih =>
    refine calls_user ⟨hlog, p.claim, hclaimed, rfl, rfl⟩ fun r => ?_
    have hnext : unmirrored (⟨.user p.input.id (.init p.profile p.instant p.input.identities),
        r⟩ :: log) = none := rfl
    split
    · exact ⟨hnext, List.suffix_cons _ _⟩
    · exact ⟨hnext, List.suffix_cons _ _⟩
    · refine (ih hnext (hclaimed.suffix (List.suffix_cons _ _))).mono ?_
      exact fun log' _ h => ⟨h.1, (List.suffix_cons _ _).trans h.2⟩

theorem initializeEach_obeys (entries : List (Except CreateUserError Prepared))
    (hlog : unmirrored log = none) (hclaimed : ∀ p, .ok p ∈ entries → Claimed log p.claim) :
    Obeys (ProfilePermits q) (fun log' _ => Creating log log') log (initializeEach entries) := by
  induction entries generalizing log with
  | nil => exact ⟨hlog, List.suffix_refl _⟩
  | cons entry rest ih =>
    have hrest : ∀ p, .ok p ∈ rest → Claimed log p.claim :=
      fun p hp => hclaimed p (List.mem_cons_of_mem _ hp)
    cases entry with
    | error e => exact Obeys.bind ((ih hlog hrest).mono fun log' _ h => h)
    | ok p =>
      refine Obeys.bind ((initializeObject_obeys 2 hlog (hclaimed p List.mem_cons_self)).mono ?_)
      rintro log₁ result ⟨hlog₁, hsuffix₁⟩
      refine Obeys.bind ((ih hlog₁ fun p hp => (hrest p hp).suffix hsuffix₁).mono ?_)
      exact fun log₂ _ h => ⟨h.1, hsuffix₁.trans h.2⟩

/-- Every entry that a claim step leaves has been claimed. -/
def ClaimsKept (log log' : Log) (claimed : Option (List (Except CreateUserError Prepared))) :
    Prop :=
  Creating log log' ∧ ∀ entries, claimed = some entries → ∀ p, .ok p ∈ entries →
    Claimed log' p.claim

theorem claimEach_obeys (entries : List (Except CreateUserError Prepared))
    (hlog : unmirrored log = none) :
    Obeys (ProfilePermits q) (fun log' claimed => ClaimsKept log log' claimed) log
      (claimEach entries) := by
  induction entries generalizing log with
  | nil => exact ⟨⟨hlog, List.suffix_refl _⟩, by rintro _ ⟨⟩; simp⟩
  | cons entry rest ih =>
    -- A failed line claims nothing; the lines after it go on from the longer log.
    have hfailed : ∀ (log₁ : Log) (failure : CreateUserError), Creating log log₁ →
        Obeys (ProfilePermits q) (fun log' claimed => ClaimsKept log log' claimed) log₁
          (do return (← claimEach rest).map (.error failure :: ·)) := by
      intro log₁ failure hcreating
      refine Obeys.bind ((ih hcreating.1).mono ?_)
      rintro log₂ claimed ⟨hcreating₂, hclaims⟩
      refine ⟨⟨hcreating₂.1, hcreating.2.trans hcreating₂.2⟩, ?_⟩
      rintro entries hentries p hp
      obtain ⟨kept, rfl, rfl⟩ := Option.map_eq_some_iff.mp hentries
      exact hclaims kept rfl p (by simpa using hp)
    cases entry with
    | error e => exact hfailed log e ⟨hlog, List.suffix_refl _⟩
    | ok p =>
      refine calls_d1 hlog fun r => ?_
      cases r with
      | error e =>
        dsimp only
        split
        · exact ⟨⟨rfl, List.suffix_cons _ _⟩, nofun⟩
        · next failure _ => exact hfailed _ failure ⟨rfl, List.suffix_cons _ _⟩
      | ok _ =>
        refine Obeys.bind ((ih rfl).mono ?_)
        rintro log₂ claimed ⟨hcreating₂, hclaims⟩
        refine ⟨⟨hcreating₂.1, (List.suffix_cons _ _).trans hcreating₂.2⟩, ?_⟩
        rintro entries hentries p' hp'
        obtain ⟨kept, rfl, rfl⟩ := Option.map_eq_some_iff.mp hentries
        rcases List.mem_cons.mp hp' with heq | hp'
        · cases heq
          exact ⟨[p.claim], hcreating₂.2.subset List.mem_cons_self, by simp⟩
        · exact hclaims kept rfl p' hp'

theorem mem_preparedOf {entries : List (Except CreateUserError Prepared)} {p : Prepared} :
    p ∈ preparedOf entries ↔ .ok p ∈ entries := by
  simp only [preparedOf, List.mem_filterMap]
  constructor
  · rintro ⟨entry, hentry, hp⟩
    cases entry with
    | error e => cases hp
    | ok p' =>
      cases hp
      exact hentry
  · exact fun hp => ⟨.ok p, hp, rfl⟩

theorem claimAll_obeys (entries : List (Except CreateUserError Prepared))
    (hlog : unmirrored log = none) :
    Obeys (ProfilePermits q) (fun log' claimed => ClaimsKept log log' claimed) log
      (claimAll entries) := by
  unfold claimAll
  split
  · next hnone =>
    refine ⟨⟨hlog, List.suffix_refl _⟩, ?_⟩
    rintro _ ⟨⟩ p hp
    rw [← mem_preparedOf, List.isEmpty_iff.mp hnone] at hp
    cases hp
  · refine calls_d1 hlog fun r => ?_
    cases r with
    | error e =>
      dsimp only
      split
      · exact ⟨⟨rfl, List.suffix_cons _ _⟩, nofun⟩
      · refine (claimEach_obeys entries rfl).mono ?_
        exact fun log' claimed h => ⟨⟨h.1.1, (List.suffix_cons _ _).trans h.1.2⟩, h.2⟩
    | ok _ =>
      refine ⟨⟨rfl, List.suffix_cons _ _⟩, ?_⟩
      rintro _ ⟨⟩ p hp
      exact ⟨_, List.mem_cons_self, List.mem_map_of_mem (mem_preparedOf.mpr hp)⟩

theorem createUsers_obeys (inputs : List NewUser) (now : ℤ) :
    Obeys (ProfilePermits q) (fun log' _ => unmirrored log' = none) []
      (createUsers inputs now) := by
  refine calls_d1 rfl fun r => ?_
  cases r with
  | error e => rfl
  | ok groupIds =>
    refine Obeys.bind ((claimAll_obeys _ rfl).mono ?_)
    rintro log₁ claimed ⟨⟨hlog₁, -⟩, hclaims⟩
    cases claimed with
    | none => exact hlog₁
    | some entries =>
      refine Obeys.bind ((initializeEach_obeys entries hlog₁ (hclaims entries rfl)).mono ?_)
      rintro log₂ results ⟨hlog₂, -⟩
      split
      · exact hlog₂
      · refine calls_d1 hlog₂ fun r => ?_
        cases r <;> rfl

theorem ProfileRequest.run_obeys (q : ProfileRequest) :
    Obeys (ProfilePermits q) (fun log _ => unmirrored log = none) [] q.run := by
  cases q with
  | update uid change now => exact Obeys.bind ((updateUserProfile_obeys uid change now).mono
      fun _ _ h => h)
  | create inputs now => exact Obeys.bind ((createUsers_obeys inputs now).mono fun _ _ h => h)

theorem profiles_follow (sha256 : String → Bytes) : (profiles sha256).Follows ProfilePermits :=
  fun q => q.run_obeys.mono fun _ _ _ => trivial

end Protocol

/-! ### The condition -/

def Directory.unheldByOthers (d : Directory) (uid : String) (email : Option String) : Bool :=
  email.all fun e => d.users.rows.all fun r => r.id == uid || r.verifiedEmail != some e

/-- A call other than thread `i` has written the email to the user's object and has still to mirror
it. -/
def mirroredLater (c : ProfileConfig) (i : ℕ) (uid : String) (email : Option String) : Bool :=
  (c.threads.eraseIdx i).any fun t => unmirrored t.log == some (uid, email)

/-- When the next step writes a mirror row while the object holds a verified email that no other
call has still to mirror, the write takes effect if it writes this email, and does not otherwise.
When it writes a verified email to an object, it does not throw after it took effect. -/
def mirrorsInOrder (c : ProfileConfig) : ProfileLabel → Bool
  | .step i fault =>
      match c.threads[i]? with
      | none => true
      | some t =>
        match t.prog.head with
        | some (.user _ (.updateProfile patch _)) =>
            fault != .after || patchVerified patch == none
        | some (.d1 (.updateUserMirror uid mirror _)) =>
            let held := c.shared.verifiedEmail uid
            let effective := fault != .before &&
              c.shared.directory.unheldByOthers uid mirror.verifiedEmail
            held == none || mirroredLater c i uid held ||
              effective == (held == mirror.verifiedEmail)
        | _ => true
  | _ => true

def MirrorsInOrder (sha256 : String → Bytes) (w : World) : List ProfileLabel → Prop
  | [] => True
  | l :: labels => mirrorsInOrder ((profiles sha256).after w labels) l = true ∧
      MirrorsInOrder sha256 w labels

instance decidableMirrorsInOrder (sha256 : String → Bytes) (w : World) :
    (labels : List ProfileLabel) → Decidable (MirrorsInOrder sha256 w labels)
  | [] => isTrue trivial
  | _ :: labels =>
      have := decidableMirrorsInOrder sha256 w labels
      inferInstanceAs (Decidable (_ ∧ _))

/-- Every object has its row, with the same verified email. -/
def Synced (w : World) : Prop :=
  ∀ uid row, w.user uid = some row →
    ∃ r ∈ w.directory.users.rows, r.id = uid ∧ r.verifiedEmail = verifiedOf row

/-! ### What the statements do to the registry -/

def Directory.HasRow (d : Directory) (uid : String) (email : Option String) : Prop :=
  ∃ r ∈ d.users.rows, r.id = uid ∧ r.verifiedEmail = email

/-- A write that keeps the rows, as far as id and verified email go. -/
def KeepsRows (d d' : Directory) : Prop := ∀ uid email, d.HasRow uid email → d'.HasRow uid email

theorem KeepsRows.refl (d : Directory) : KeepsRows d d := fun _ _ h => h

theorem KeepsRows.trans {d d' d'' : Directory} (h : KeepsRows d d') (h' : KeepsRows d' d'') :
    KeepsRows d d'' := fun uid email hrow => h' uid email (h uid email hrow)

theorem withUsers_users {d d' : Directory} {users : Table RegistryUser RegistryUser.id}
    (h : d.withUsers users = .ok d') : d'.users = users := by
  unfold Directory.withUsers at h
  split at h
  · cases h
    rfl
  · cases h

theorem insertUser_ok {d d' : Directory} {u : RegistryUser} (h : d.insertUser u = .ok d') :
    KeepsRows d d' ∧ u ∈ d'.users.rows := by
  unfold Directory.insertUser at h
  cases hins : d.users.insert u with
  | none =>
    rw [hins] at h
    cases h
  | some users =>
    rw [hins] at h
    have husers := withUsers_users h
    constructor
    · rintro uid email ⟨r, hr, hid⟩
      exact ⟨r, by rw [husers, Table.mem_insert hins]; exact .inl hr, hid⟩
    · rw [husers, Table.mem_insert hins]
      exact .inr rfl

theorem insertMembership_users {d d' : Directory} {groupId uid : String} {now : ℤ}
    (h : d.insertMembership groupId uid now = .ok d') : d'.users = d.users := by
  unfold Directory.insertMembership at h
  split at h
  · cases h
  · split at h
    · cases h
      rfl
    · cases h

theorem insertIdentity_users {d d' : Directory} {issuer subject uid : String} {now : ℤ}
    (h : d.insertIdentity issuer subject uid now = .ok d') : d'.users = d.users := by
  unfold Directory.insertIdentity at h
  split at h
  · cases h
  · split at h
    · cases h
      rfl
    · cases h

theorem insertMemberships_users {d d' : Directory} {groupIds : List String} {uid : String}
    {now : ℤ}
    (h : groupIds.foldlM (fun (d : Directory) groupId => d.insertMembership groupId uid now) d =
      .ok d') : d'.users = d.users :=
  foldlM_rule (R := fun d d' : Directory => d'.users = d.users) (fun _ => rfl)
    (fun h h' => h'.trans h) (fun _ _ _ => insertMembership_users) h

theorem insertIdentities_users {d d' : Directory} {pairs : List (String × String)} {uid : String}
    {now : ℤ}
    (h : pairs.foldlM (fun (d : Directory) pair => d.insertIdentity pair.1 pair.2 uid now) d =
      .ok d') : d'.users = d.users :=
  foldlM_rule (R := fun d d' : Directory => d'.users = d.users) (fun _ => rfl)
    (fun h h' => h'.trans h) (fun _ _ _ => insertIdentity_users) h

theorem claimUser_ok {d d' : Directory} {c : Directory.UserClaim} (h : d.claimUser c = .ok d') :
    KeepsRows d d' ∧ d'.HasRow c.id c.verifiedEmail := by
  obtain ⟨d₁, h₁, h⟩ := bind_eq_ok h
  obtain ⟨d₂, h₂, h⟩ := bind_eq_ok h
  obtain ⟨hkeeps, hmem⟩ := insertUser_ok h₁
  have husers : d'.users = d₁.users :=
    (insertIdentities_users h).trans (insertMemberships_users h₂)
  constructor
  · rintro uid email hrow
    obtain ⟨r, hr, hid⟩ := hkeeps uid email hrow
    exact ⟨r, by rw [husers]; exact hr, hid⟩
  · exact ⟨c.row, by rw [husers]; exact hmem, rfl, rfl⟩

theorem claimUsers_ok {d d' : Directory} {claims : List Directory.UserClaim}
    (h : d.claimUsers claims = .ok d') :
    KeepsRows d d' ∧ ∀ c ∈ claims, d'.HasRow c.id c.verifiedEmail := by
  induction claims generalizing d with
  | nil =>
    cases h
    exact ⟨.refl _, by simp⟩
  | cons c claims ih =>
    rw [Directory.claimUsers, List.foldlM_cons] at h
    obtain ⟨d₁, hc, h⟩ := bind_eq_ok h
    obtain ⟨hkeeps₁, hrow⟩ := claimUser_ok hc
    obtain ⟨hkeeps, hrows⟩ := ih h
    refine ⟨hkeeps₁.trans hkeeps, ?_⟩
    intro c' hc'
    rcases List.mem_cons.mp hc' with rfl | hc'
    · exact hkeeps _ _ hrow
    · exact hrows c' hc'

theorem setUserStatus_keeps (d : Directory) (id : String) (status : Interaction.UserStatus)
    (now : ℤ) : KeepsRows d (d.setUserStatus id status now) := by
  rintro uid email ⟨r, hr, hid, hemail⟩
  have hmem := Table.mem_updateWhere_of_mem (p := (·.id == id))
    (f := Directory.withStatus status now) (fun _ => rfl) hr
  refine ⟨_, hmem, ?_, ?_⟩
  · split <;> exact hid
  · split <;> exact hemail

theorem activateUsers_keeps (d : Directory) (rows : List (String × ℤ)) :
    KeepsRows d (d.activateUsers rows) := by
  induction rows generalizing d with
  | nil => exact .refl d
  | cons row rows ih =>
    exact (setUserStatus_keeps d row.1 .active row.2).trans (ih _)

/-- A mirror write that no other row stands against is accepted, and changes one row. -/
theorem updateUserMirror_ok {d : Directory} {uid : String} {mirror : Directory.UserMirror}
    (now : ℤ) (h : d.unheldByOthers uid mirror.verifiedEmail = true) :
    ∃ d', d.updateUserMirror uid mirror now = .ok d' ∧
      (∀ v email, v ≠ uid → d.HasRow v email → d'.HasRow v email) ∧
      ((∃ email, d.HasRow uid email) → d'.HasRow uid mirror.verifiedEmail) := by
  have hnodup : ((d.users.updateWhere (·.id == uid) (Directory.mirrored mirror now)
      fun _ => rfl).rows.filterMap RegistryUser.verifiedEmail).Nodup := by
    refine Table.nodup_filterMap_update ?_ d.verifiedEmails ?_
    · have hids := List.pairwise_map.mp d.users.nodup
      refine hids.imp fun {a b} hne ha => ?_
      simp only [beq_iff_eq, beq_eq_false_iff_ne] at ha ⊢
      exact fun hb => hne (ha.trans hb.symm)
    · intro a _ _ b hb hother email hemail hbemail
      have hfree := List.all_eq_true.mp (Option.all_eq_true _ _ |>.mp h email hemail) b hb
      simp only [hother, Bool.false_or, bne_iff_ne, ne_eq] at hfree
      exact hfree hbemail
  have hmem : ∀ r ∈ d.users.rows, (if r.id == uid then Directory.mirrored mirror now r else r) ∈
      (d.users.updateWhere (·.id == uid) (Directory.mirrored mirror now) fun _ => rfl).rows :=
    fun r hr => Table.mem_updateWhere_of_mem (f := Directory.mirrored mirror now) (fun _ => rfl) hr
  refine ⟨_, dif_pos hnodup, ?_, ?_⟩
  · rintro v email hne ⟨r, hr, rfl, hemail⟩
    refine ⟨r, ?_, rfl, hemail⟩
    simpa [hne] using hmem r hr
  · rintro ⟨email, r, hr, rfl, -⟩
    exact ⟨Directory.mirrored mirror now r, by simpa using hmem r hr, rfl, rfl⟩

/-- A mirror write of an email that another row holds is refused. -/
theorem updateUserMirror_refused {d : Directory} {uid : String} {mirror : Directory.UserMirror}
    (now : ℤ) (h : d.unheldByOthers uid mirror.verifiedEmail = false)
    (hrow : ∃ email, d.HasRow uid email) :
    d.updateUserMirror uid mirror now = .error (.unique .users) := by
  obtain ⟨_, own, hown, rfl, -⟩ := hrow
  refine dif_neg fun hnodup => ?_
  have hmem : ∀ r ∈ d.users.rows,
      (if r.id == own.id then Directory.mirrored mirror now r else r) ∈
        (d.users.updateWhere (·.id == own.id) (Directory.mirrored mirror now) fun _ => rfl).rows :=
    fun r hr => Table.mem_updateWhere_of_mem (f := Directory.mirrored mirror now) (fun _ => rfl) hr
  unfold Directory.unheldByOthers at h
  cases hemail : mirror.verifiedEmail with
  | none => simp [hemail] at h
  | some e =>
    simp only [hemail, Option.all_some, List.all_eq_false, Bool.or_eq_true, beq_iff_eq,
      bne_iff_ne, ne_eq, not_or, not_not] at h
    obtain ⟨other, hother, hid, hholds⟩ := h
    have hwritten := hmem own hown
    have hstays := hmem other hother
    simp only [beq_self_eq_true, if_true] at hwritten
    simp only [beq_eq_false_iff_ne.mpr hid, Bool.false_eq_true, if_false] at hstays
    have heq := Table.eq_of_nodup_filterMap hnodup hstays hwritten hholds hemail
    exact hid ((congrArg RegistryUser.id heq).trans rfl)

/-! ### Runs -/

/-- Every object has its row; the row has the object's verified email, if there is one, or a call
that wrote the object has still to mirror it. A claimed user without an object has the row it
claimed, and what is to be mirrored is in an object. -/
structure ProfileInv (c : ProfileConfig) : Prop where
  rowed : ∀ uid row, c.shared.user uid = some row → ∃ email, c.shared.directory.HasRow uid email
  mirrored : ∀ uid row, c.shared.user uid = some row → verifiedOf row ≠ none →
    c.shared.directory.HasRow uid (verifiedOf row) ∨
      ∃ t ∈ c.threads, unmirrored t.log = some (uid, verifiedOf row)
  claimed : ∀ t ∈ c.threads, ∀ claim, Claimed t.log claim → c.shared.user claim.id = none →
    c.shared.directory.HasRow claim.id claim.verifiedEmail
  initialized : ∀ t ∈ c.threads, ∀ uid email, unmirrored t.log = some (uid, email) →
    c.shared.user uid ≠ none

section Steps
variable {c : ProfileConfig} {i : ℕ} {t : ProfileThread} {w' : World} {entry : Entry Op.Answer}
  {prog : Program ProfileAnswer}

theorem mem_set_cases {t₁ : ProfileThread}
    (h : t₁ ∈ c.threads.set i ⟨t.request, entry :: t.log, prog⟩) :
    t₁ = ⟨t.request, entry :: t.log, prog⟩ ∨ t₁ ∈ c.threads := by
  rcases Threads.exists_of_mem_set h with heq | ⟨j, -, hj⟩
  · exact .inl heq
  · exact .inr (List.mem_of_getElem? hj)

/-- A step of a call with nothing unmirrored that changes no object, and no row but for its
status, or adds rows. -/
theorem ProfileInv.quiet (h : ProfileInv c) (hi : c.threads[i]? = some t)
    (hlog : unmirrored t.log = none) (hnew : unmirrored (entry :: t.log) = none)
    (husers : ∀ uid, w'.user uid = c.shared.user uid)
    (hrows : KeepsRows c.shared.directory w'.directory)
    (hclaims : ∀ claim, Claimed (entry :: t.log) claim → Claimed t.log claim ∨
      w'.directory.HasRow claim.id claim.verifiedEmail) :
    ProfileInv ⟨w', c.threads.set i ⟨t.request, entry :: t.log, prog⟩⟩ := by
  constructor
  · intro uid row huser
    obtain ⟨email, hrow⟩ := h.rowed uid row ((husers uid).symm.trans huser)
    exact ⟨email, hrows uid email hrow⟩
  · intro uid row huser hsome
    rcases h.mirrored uid row ((husers uid).symm.trans huser) hsome with
      hrow | ⟨t₁, ht₁, hpending⟩
    · exact .inl (hrows uid _ hrow)
    · right
      obtain ⟨j, hj⟩ := List.mem_iff_getElem?.mp ht₁
      have hne : i ≠ j := by
        rintro rfl
        cases hi.symm.trans hj
        rw [hlog] at hpending
        cases hpending
      exact ⟨t₁, List.mem_of_getElem? (by rw [List.getElem?_set_ne hne, hj]), hpending⟩
  · intro t₁ ht₁ claim hclaim huser
    have huser' : c.shared.user claim.id = none := (husers _).symm.trans huser
    rcases mem_set_cases ht₁ with rfl | ht₁
    · rcases hclaims claim hclaim with hclaim | hrow
      · exact hrows _ _ (h.claimed t (List.mem_of_getElem? hi) claim hclaim huser')
      · exact hrow
    · exact hrows _ _ (h.claimed t₁ ht₁ claim hclaim huser')
  · intro t₁ ht₁ uid email hpending
    dsimp only
    rw [husers]
    rcases mem_set_cases ht₁ with rfl | ht₁
    · rw [hnew] at hpending
      cases hpending
    · exact h.initialized t₁ ht₁ uid email hpending

theorem claimed_cons_of_ne (hentry : ∀ claims, entry ≠ ⟨.d1 (.claimUsers claims), .ok ()⟩)
    {log : Log} {claim : Directory.UserClaim} (h : Claimed (entry :: log) claim) :
    Claimed log claim := by
  obtain ⟨claims, hmem, hclaim⟩ := h
  rcases List.mem_cons.mp hmem with heq | hmem
  · exact absurd heq.symm (hentry claims)
  · exact ⟨claims, hmem, hclaim⟩

theorem user_setObject {w : World} {uid : String} {o : UserObject} (v : String) :
    (w.setObject uid o).user v = if v = uid then o.tables.user else w.user v := by
  by_cases hv : v = uid
  · subst hv
    simp [World.setObject, World.user]
  · simp [World.setObject, World.user, hv]

/-- A step that writes the row of one object: it has its own row, with its verified email, or its
write is one to be mirrored. -/
theorem ProfileInv.written {uid : String} {row : UserRow} (h : ProfileInv c)
    (hi : c.threads[i]? = some t) (hlog : unmirrored t.log = none)
    (huser : w'.user uid = some row) (husers : ∀ v, v ≠ uid → w'.user v = c.shared.user v)
    (hdirectory : w'.directory = c.shared.directory)
    (hrow : ∃ email, c.shared.directory.HasRow uid email)
    (hmirrored : verifiedOf row ≠ none → c.shared.directory.HasRow uid (verifiedOf row) ∨
      unmirrored (entry :: t.log) = some (uid, verifiedOf row))
    (hnew : ∀ v email, unmirrored (entry :: t.log) = some (v, email) → v = uid)
    (hclaims : ∀ claim, Claimed (entry :: t.log) claim → Claimed t.log claim) :
    ProfileInv ⟨w', c.threads.set i ⟨t.request, entry :: t.log, prog⟩⟩ := by
  have hself : (⟨t.request, entry :: t.log, prog⟩ : ProfileThread) ∈
      c.threads.set i ⟨t.request, entry :: t.log, prog⟩ :=
    List.mem_of_getElem? (List.getElem?_set_self (List.getElem?_eq_some_iff.mp hi).1)
  constructor
  · intro v row' huser'
    dsimp only at huser' ⊢
    rw [hdirectory]
    by_cases hv : v = uid
    · exact hv ▸ hrow
    · exact h.rowed v row' ((husers v hv).symm.trans huser')
  · intro v row' huser' hsome
    dsimp only at huser' ⊢
    rw [hdirectory]
    by_cases hv : v = uid
    · subst hv
      cases huser.symm.trans huser'
      exact (hmirrored hsome).imp_right fun hpending => ⟨_, hself, hpending⟩
    · refine (h.mirrored v row' ((husers v hv).symm.trans huser') hsome).imp_right ?_
      rintro ⟨t₁, ht₁, hpending⟩
      obtain ⟨j, hj⟩ := List.mem_iff_getElem?.mp ht₁
      have hne : i ≠ j := by
        rintro rfl
        cases hi.symm.trans hj
        rw [hlog] at hpending
        cases hpending
      exact ⟨t₁, List.mem_of_getElem? (by rw [List.getElem?_set_ne hne, hj]), hpending⟩
  · intro t₁ ht₁ claim hclaim huser'
    dsimp only at huser' ⊢
    have hne : claim.id ≠ uid := by
      intro heq
      rw [heq, huser] at huser'
      cases huser'
    have hold : c.shared.user claim.id = none := (husers _ hne).symm.trans huser'
    rw [hdirectory]
    rcases mem_set_cases ht₁ with rfl | ht₁
    · exact h.claimed t (List.mem_of_getElem? hi) claim (hclaims claim hclaim) hold
    · exact h.claimed t₁ ht₁ claim hclaim hold
  · intro t₁ ht₁ v email hpending
    dsimp only
    by_cases hv : v = uid
    · rw [hv, huser]
      exact nofun
    · rw [husers v hv]
      rcases mem_set_cases ht₁ with rfl | ht₁
      · exact absurd (hnew v email hpending) hv
      · exact h.initialized t₁ ht₁ v email hpending

/-- A mirror write, whether or not it took effect. -/
theorem ProfileInv.mirror {uid : String} {email : Option String} (h : ProfileInv c)
    (hi : c.threads[i]? = some t) (hlog : unmirrored t.log = some (uid, email))
    (husers : ∀ v, w'.user v = c.shared.user v)
    (hothers : ∀ v email, v ≠ uid → c.shared.directory.HasRow v email →
      w'.directory.HasRow v email)
    (hrow : (∃ email, c.shared.directory.HasRow uid email) →
      ∃ email, w'.directory.HasRow uid email)
    (horder : c.shared.verifiedEmail uid ≠ none →
      w'.directory.HasRow uid (c.shared.verifiedEmail uid) ∨
        ∃ j t₁, j ≠ i ∧ c.threads[j]? = some t₁ ∧
          unmirrored t₁.log = some (uid, c.shared.verifiedEmail uid))
    (hnew : unmirrored (entry :: t.log) = none)
    (hclaims : ∀ claim, Claimed (entry :: t.log) claim → Claimed t.log claim) :
    ProfileInv ⟨w', c.threads.set i ⟨t.request, entry :: t.log, prog⟩⟩ := by
  have hstays : ∀ {j t₁}, j ≠ i → c.threads[j]? = some t₁ →
      t₁ ∈ c.threads.set i ⟨t.request, entry :: t.log, prog⟩ :=
    fun hne hj => List.mem_of_getElem? (by rw [List.getElem?_set_ne (Ne.symm hne), hj])
  constructor
  · intro v row huser
    have hexists := h.rowed v row ((husers v).symm.trans huser)
    by_cases hv : v = uid
    · subst hv
      exact hrow hexists
    · obtain ⟨email, hemail⟩ := hexists
      exact ⟨email, hothers v email hv hemail⟩
  · intro v row huser hsome
    have hold : c.shared.user v = some row := (husers v).symm.trans huser
    by_cases hv : v = uid
    · subst hv
      have hemail : c.shared.verifiedEmail v = verifiedOf row := by
        simp [World.verifiedEmail, hold]
      rw [hemail] at horder
      rcases horder hsome with hrow | ⟨j, t₁, hne, hj, hpending⟩
      · exact .inl hrow
      · exact .inr ⟨t₁, hstays hne hj, hpending⟩
    · rcases h.mirrored v row hold hsome with hmirrored | ⟨t₁, ht₁, hpending⟩
      · exact .inl (hothers v _ hv hmirrored)
      · obtain ⟨j, hj⟩ := List.mem_iff_getElem?.mp ht₁
        have hne : j ≠ i := by
          rintro rfl
          cases hi.symm.trans hj
          rw [hlog] at hpending
          exact hv (congrArg Prod.fst (Option.some.inj hpending)).symm
        exact .inr ⟨t₁, hstays hne hj, hpending⟩
  · intro t₁ ht₁ claim hclaim huser
    have hold : c.shared.user claim.id = none := (husers _).symm.trans huser
    have hclaimed : c.shared.directory.HasRow claim.id claim.verifiedEmail := by
      rcases mem_set_cases ht₁ with rfl | ht₁
      · exact h.claimed t (List.mem_of_getElem? hi) claim (hclaims claim hclaim) hold
      · exact h.claimed t₁ ht₁ claim hclaim hold
    have hne : claim.id ≠ uid := by
      intro heq
      exact h.initialized t (List.mem_of_getElem? hi) uid _ hlog (heq ▸ hold)
    exact hothers _ _ hne hclaimed
  · intro t₁ ht₁ v email hpending
    dsimp only
    rw [husers]
    rcases mem_set_cases ht₁ with rfl | ht₁
    · rw [hnew] at hpending
      cases hpending
    · exact h.initialized t₁ ht₁ v email hpending

theorem ProfileInv.spawn {sha256 : String → Bytes} (h : ProfileInv c) (q : ProfileRequest) :
    ProfileInv ⟨c.shared, c.threads ++ [⟨q, [], (profiles sha256).start q⟩]⟩ := by
  have hcases : ∀ t₁ ∈ c.threads ++ [(⟨q, [], (profiles sha256).start q⟩ : ProfileThread)],
      t₁ ∈ c.threads ∨ t₁.log = [] := by
    intro t₁ ht₁
    rcases List.mem_append.mp ht₁ with ht₁ | ht₁
    · exact .inl ht₁
    · cases List.mem_singleton.mp ht₁
      exact .inr rfl
  constructor
  · exact h.rowed
  · intro uid row huser hsome
    exact (h.mirrored uid row huser hsome).imp_right fun ⟨t₁, ht₁, hpending⟩ =>
      ⟨t₁, List.mem_append_left _ ht₁, hpending⟩
  · rintro t₁ ht₁ claim hclaim huser
    rcases hcases t₁ ht₁ with ht₁ | hlog
    · exact h.claimed t₁ ht₁ claim hclaim huser
    · simp [Claimed, hlog] at hclaim
  · intro t₁ ht₁ uid email hpending
    rcases hcases t₁ ht₁ with ht₁ | hlog
    · exact h.initialized t₁ ht₁ uid email hpending
    · simp [unmirrored, hlog] at hpending

/-! The objects after a call. -/

theorem getProfile_object (sha256 : String → Bytes) (o : UserObject) :
    (o.call sha256 .getProfile).1 = o := by
  simp only [UserObject.call, answered, UserObject.getProfile, UserObject.guarded]
  split <;> rfl

theorem user_init (sha256 : String → Bytes) (o : UserObject) (p : InitProfile) (now : ℤ)
    (identities : List NewIdentity) :
    (o.call sha256 (.init p now identities)).1.tables.user = o.tables.user ∨
      o.tables.user = none ∧ (o.call sha256 (.init p now identities)).1.tables.user =
        some (UserObject.newUserRow p now) := by
  simp only [UserObject.call, answered, UserObject.init]
  split
  · exact .inl rfl
  · split
    · split <;> exact .inl rfl
    · next hnone =>
      split
      · exact .inl rfl
      · next hinserted => exact .inr ⟨hnone, (insertIdentities_sameCore hinserted).user⟩

theorem user_updateProfile (sha256 : String → Bytes) (o : UserObject) {patch : ProfilePatch}
    (now : ℤ) (hemail : patch.email.isSome = true) (hverified : patch.emailVerified.isSome = true) :
    ((o.call sha256 (.updateProfile patch now)).1.tables.user = o.tables.user ∧
      ∀ p, (o.call sha256 (.updateProfile patch now)).2 ≠ .profile (.ok p)) ∨
    ∃ row p, o.tables.user ≠ none ∧
      (o.call sha256 (.updateProfile patch now)).1.tables.user = some row ∧
      verifiedOf row = patchVerified patch ∧
      (o.call sha256 (.updateProfile patch now)).2 = .profile (.ok p) := by
  obtain ⟨email, hemail⟩ := Option.isSome_iff_exists.mp hemail
  obtain ⟨verified, hverified⟩ := Option.isSome_iff_exists.mp hverified
  simp only [UserObject.call, answered, UserObject.updateProfile, UserObject.guarded]
  split
  · exact .inl ⟨rfl, nofun⟩
  · next row hguard =>
    refine .inr ⟨_, _, ?_, rfl, ?_, rfl⟩
    · simp [(guard_ok hguard).2]
    · simp [verifiedOf, patchVerified, hemail, hverified]

theorem user_perform {sha256 : String → Bytes} {w : World} {uid : String} {call : Call}
    (v : String) : (w.perform sha256 (.user uid call)).1.user v =
      if v = uid then ((w.objects uid).call sha256 call).1.tables.user else w.user v :=
  user_setObject v

/-- A call that changes no object, and no row but for its status, or adds rows, under any fault. -/
theorem ProfileInv.quiet_exec {sha256 : String → Bytes} {fault : Fault} {op : Op}
    (h : ProfileInv c) (hi : c.threads[i]? = some t) (hlog : unmirrored t.log = none)
    (hnew : ∀ r, unmirrored (⟨op, r⟩ :: t.log) = none)
    (husers : ∀ uid, (c.shared.perform sha256 op).1.user uid = c.shared.user uid)
    (hrows : KeepsRows c.shared.directory (c.shared.perform sha256 op).1.directory)
    (hclaims : ∀ claims, op = .d1 (.claimUsers claims) →
      (c.shared.perform sha256 op).2 ≍ (.ok () : Except D1Error Unit) → ∀ claim ∈ claims,
      (c.shared.perform sha256 op).1.directory.HasRow claim.id claim.verifiedEmail) :
    ProfileInv ⟨(c.shared.exec sha256 fault op).1, c.threads.set i
      ⟨t.request, ⟨op, (c.shared.exec sha256 fault op).2⟩ :: t.log, prog⟩⟩ := by
  have hthrown : ∀ claims, (⟨op, thrown op⟩ : Entry Op.Answer) ≠
      ⟨.d1 (.claimUsers claims), .ok ()⟩ := by
    rintro claims heq
    cases heq
  cases fault with
  | before =>
    exact h.quiet hi hlog (hnew _) (fun _ => rfl) (.refl _)
      fun claim hclaim => .inl (claimed_cons_of_ne hthrown hclaim)
  | after =>
    exact h.quiet hi hlog (hnew _) husers hrows
      fun claim hclaim => .inl (claimed_cons_of_ne hthrown hclaim)
  | none =>
    refine h.quiet hi hlog (hnew _) husers hrows ?_
    rintro claim ⟨claims, hmem, hclaim⟩
    rcases List.mem_cons.mp hmem with heq | hmem
    · right
      obtain ⟨hop, hreply⟩ := Sigma.mk.inj heq
      exact hclaims claims hop.symm hreply.symm claim hclaim
    · exact .inl ⟨claims, hmem, hclaim⟩

theorem profileInv_user {sha256 : String → Bytes} {fault : Fault} {uid : String} {call : Call}
    (h : ProfileInv c) (hi : c.threads[i]? = some t)
    (hperm : ProfilePermits t.request t.log (.user uid call))
    (hhead : t.prog.head = some (.user uid call))
    (horder : mirrorsInOrder c (.step i fault) = true) :
    ProfileInv ⟨(c.shared.exec sha256 fault (.user uid call)).1, c.threads.set i
      ⟨t.request, ⟨.user uid call, (c.shared.exec sha256 fault (.user uid call)).2⟩ :: t.log,
        prog⟩⟩ := by
  have hsame : ((c.shared.objects uid).call sha256 call).1.tables.user =
      (c.shared.objects uid).tables.user → ∀ v,
        (c.shared.perform sha256 (.user uid call)).1.user v = c.shared.user v := by
    intro heq v
    rw [user_perform, heq]
    split
    · next hv => rw [hv]; rfl
    · rfl
  have hnoclaim : ∀ r claims,
      (⟨.user uid call, r⟩ : Entry Op.Answer) ≠ ⟨.d1 (.claimUsers claims), .ok ()⟩ := by
    rintro r claims heq
    cases heq
  have hthrew : unmirrored t.log = none → ProfileInv ⟨c.shared, c.threads.set i
      ⟨t.request, ⟨.user uid call, (none : Option Reply)⟩ :: t.log, prog⟩⟩ := fun hlog =>
    h.quiet hi hlog (unmirrored_of_no_profile (by simp)) (fun _ => rfl) (.refl _)
      fun claim hclaim => .inl (claimed_cons_of_ne (hnoclaim _) hclaim)
  cases call with
  | getProfile =>
    exact h.quiet_exec hi hperm (fun _ => rfl) (hsame (by rw [getProfile_object])) (.refl _)
      (by rintro _ ⟨⟩)
  | init p now identities =>
    obtain ⟨hlog, claim, hclaim, rfl, hemail⟩ := hperm
    rcases user_init sha256 (c.shared.objects claim.id) p now identities with
      hkept | ⟨hnone, hwritten⟩
    · exact h.quiet_exec hi hlog (fun _ => rfl) (hsame hkept) (.refl _) (by rintro _ ⟨⟩)
    · have hrow := h.claimed t (List.mem_of_getElem? hi) claim hclaim hnone
      have hwrite : ∀ r, ProfileInv ⟨(c.shared.perform sha256
          (.user claim.id (.init p now identities))).1, c.threads.set i ⟨t.request,
            ⟨.user claim.id (.init p now identities), r⟩ :: t.log, prog⟩⟩ := by
        intro r
        refine h.written hi hlog (by rw [user_perform, if_pos rfl, hwritten])
          (fun v hv => by rw [user_perform, if_neg hv]) rfl ⟨_, hrow⟩
          (fun _ => .inl ?_)
          (fun v email hpending => by cases hpending)
          fun claim' hclaim' => claimed_cons_of_ne (hnoclaim r) hclaim'
        rwa [hemail] at hrow
      cases fault with
      | before => exact hthrew hlog
      | after => exact hwrite _
      | none => exact hwrite _
  | updateProfile patch now =>
    obtain ⟨hlog, hemail, hverified⟩ := hperm
    cases fault with
    | after =>
      have hnone : patchVerified patch = none := by simpa [mirrorsInOrder, hi, hhead] using horder
      rcases user_updateProfile sha256 (c.shared.objects uid) now hemail
        hverified with ⟨hkept, -⟩ | ⟨row, p, hsome, hwritten, hpatch, -⟩
      · exact h.quiet hi hlog (unmirrored_of_no_profile (by exact nofun)) (hsame hkept) (.refl _)
          fun claim' hclaim' => .inl (claimed_cons_of_ne (hnoclaim _) hclaim')
      · obtain ⟨row₀, hrow₀⟩ := Option.ne_none_iff_exists'.mp hsome
        refine h.written hi hlog ((user_perform uid).trans (by rw [if_pos rfl, hwritten]))
          (fun v hv => (user_perform v).trans (if_neg hv)) rfl (h.rowed uid row₀ hrow₀)
          (fun hverified => absurd (hpatch.trans hnone) hverified) ?_
          fun claim' hclaim' => claimed_cons_of_ne (hnoclaim _) hclaim'
        intro v email heq
        cases heq
    | before => exact hthrew hlog
    | none =>
      rcases user_updateProfile sha256 (c.shared.objects uid) now hemail
        hverified with ⟨hkept, hreply⟩ | ⟨row, p, hsome, hwritten, hpatch, hreply⟩
      · refine h.quiet hi hlog ?_ (hsame hkept) (.refl _)
          fun claim' hclaim' => .inl (claimed_cons_of_ne (hnoclaim _) hclaim')
        exact unmirrored_of_no_profile fun p heq => hreply p (Option.some.inj heq)
      · have hpending : unmirrored (⟨.user uid (.updateProfile patch now),
            (c.shared.exec sha256 .none (.user uid (.updateProfile patch now))).2⟩ :: t.log) =
              some (uid, verifiedOf row) := by
          have hexec : (c.shared.exec sha256 .none (.user uid (.updateProfile patch now))).2 =
              some (.profile (.ok p)) := congrArg some hreply
          rw [hexec, hpatch]
          rfl
        obtain ⟨row₀, hrow₀⟩ := Option.ne_none_iff_exists'.mp hsome
        refine h.written hi hlog ((user_perform uid).trans (by rw [if_pos rfl, hwritten]))
          (fun v hv => (user_perform v).trans (if_neg hv)) rfl (h.rowed uid row₀ hrow₀)
          (fun _ => .inr hpending) ?_ fun claim' hclaim' => claimed_cons_of_ne (hnoclaim _) hclaim'
        intro v email heq
        rw [hpending] at heq
        exact (congrArg Prod.fst (Option.some.inj heq)).symm
  | _ => exact hperm.elim

theorem exists_of_mirroredLater {uid : String} {email : Option String}
    (h : mirroredLater c i uid email = true) :
    ∃ j t₁, j ≠ i ∧ c.threads[j]? = some t₁ ∧ unmirrored t₁.log = some (uid, email) := by
  obtain ⟨t₁, ht₁, hpending⟩ := List.any_eq_true.mp h
  obtain ⟨j, hj, hjt⟩ := List.mem_eraseIdx_iff_getElem?.mp ht₁
  exact ⟨j, t₁, hj, hjt, beq_iff_eq.mp hpending⟩

theorem rowed_of_verified {uid : String} (h : ProfileInv c)
    (hheld : c.shared.verifiedEmail uid ≠ none) :
    ∃ email, c.shared.directory.HasRow uid email := by
  obtain ⟨e, he⟩ := Option.ne_none_iff_exists'.mp hheld
  obtain ⟨row, hrow, -⟩ := Option.bind_eq_some_iff.mp he
  exact h.rowed uid row hrow

/-- What the object of a call that has still to mirror holds, and the call did not write. -/
theorem held_of_other {uid : String} {email : Option String} (h : ProfileInv c)
    (hi : c.threads[i]? = some t) (hlog : unmirrored t.log = some (uid, email))
    (hheld : c.shared.verifiedEmail uid ≠ none) (hne : c.shared.verifiedEmail uid ≠ email) :
    c.shared.directory.HasRow uid (c.shared.verifiedEmail uid) ∨
      ∃ j t₁, j ≠ i ∧ c.threads[j]? = some t₁ ∧
        unmirrored t₁.log = some (uid, c.shared.verifiedEmail uid) := by
  obtain ⟨e, he⟩ := Option.ne_none_iff_exists'.mp hheld
  obtain ⟨row, hrow, hverified⟩ := Option.bind_eq_some_iff.mp he
  have hemail : c.shared.verifiedEmail uid = verifiedOf row := he.trans hverified.symm
  rw [hemail] at hheld hne ⊢
  refine (h.mirrored uid row hrow hheld).imp_right ?_
  rintro ⟨t₁, ht₁, hpending⟩
  obtain ⟨j, hj⟩ := List.mem_iff_getElem?.mp ht₁
  refine ⟨j, t₁, ?_, hj, hpending⟩
  rintro rfl
  cases hi.symm.trans hj
  rw [hlog] at hpending
  exact hne (congrArg Prod.snd (Option.some.inj hpending)).symm

/-- A mirror write that does not take effect. -/
theorem mirror_kept (sha256 : String → Bytes) {fault : Fault} {uid : String}
    {mirror : Directory.UserMirror} (h : ProfileInv c) (hi : c.threads[i]? = some t)
    (hlog : unmirrored t.log = some (uid, mirror.verifiedEmail)) (now : ℤ)
    (heffective : (fault != .before &&
      c.shared.directory.unheldByOthers uid mirror.verifiedEmail) = false) :
    (c.shared.exec sha256 fault (.d1 (.updateUserMirror uid mirror now))).1 = c.shared := by
  obtain ⟨row, hrow⟩ := Option.ne_none_iff_exists'.mp
    (h.initialized t (List.mem_of_getElem? hi) uid _ hlog)
  have hrefused : c.shared.directory.unheldByOthers uid mirror.verifiedEmail = false →
      (c.shared.perform sha256 (.d1 (.updateUserMirror uid mirror now))).1 = c.shared := by
    intro hheld
    have hrun := updateUserMirror_refused now hheld (h.rowed uid row hrow)
    simp [World.perform, Directory.run, Directory.write, hrun]
  cases fault with
  | before => rfl
  | after => exact hrefused (by simpa using heffective)
  | none => exact hrefused (by simpa using heffective)

theorem profileInv_d1 {sha256 : String → Bytes} {fault : Fault} {statement : Statement}
    (h : ProfileInv c) (hi : c.threads[i]? = some t)
    (hperm : ProfilePermits t.request t.log (.d1 statement))
    (hhead : t.prog.head = some (.d1 statement))
    (horder : mirrorsInOrder c (.step i fault) = true) :
    ProfileInv ⟨(c.shared.exec sha256 fault (.d1 statement)).1, c.threads.set i
      ⟨t.request, ⟨.d1 statement, (c.shared.exec sha256 fault (.d1 statement)).2⟩ :: t.log,
        prog⟩⟩ := by
  have hkept := KeepsRows.refl c.shared.directory
  cases statement with
  | insertMembership _ _ _ | deleteMembership _ _ | setUserStatus _ _ _ | deleteUserRow _ =>
    exact hperm.elim
  | getUser _ | listUsers _ _ _ | groupNamesOfUser _ | identitiesOfUser _ =>
    exact h.quiet_exec hi hperm (fun _ => rfl) (fun _ => rfl) hkept (by rintro _ ⟨⟩)
  | groupIdsByName =>
    exact h.quiet_exec hi hperm (fun _ => rfl) (fun _ => rfl) hkept (by rintro _ ⟨⟩)
  | memberUserIds _ _ =>
    exact h.quiet_exec hi hperm (fun _ => rfl) (fun _ => rfl) hkept (by rintro _ ⟨⟩)
  | findVerifiedUser _ =>
    exact h.quiet_exec hi hperm (fun _ => rfl) (fun _ => rfl) hkept (by rintro _ ⟨⟩)
  | activateUsers rows =>
    exact h.quiet_exec hi hperm (fun _ => rfl) (fun _ => rfl) (activateUsers_keeps _ rows)
      (by rintro _ ⟨⟩)
  | claimUsers claims =>
    cases hclaims : c.shared.directory.claimUsers claims with
    | error e =>
      have hperform : c.shared.perform sha256 (.d1 (.claimUsers claims)) =
          (c.shared, .error e) := by
        simp [World.perform, Directory.run, Directory.write, hclaims]
      refine h.quiet_exec hi hperm (fun _ => rfl) (fun _ => rfl) ?_ ?_
      · rw [hperform]
        exact .refl _
      · rintro claims' ⟨⟩ hreply
        rw [hperform] at hreply
        cases hreply
    | ok d =>
      have hperform : c.shared.perform sha256 (.d1 (.claimUsers claims)) =
          ({ c.shared with directory := d }, .ok ()) := by
        simp [World.perform, Directory.run, Directory.write, hclaims]
      obtain ⟨hkeeps, hrows⟩ := claimUsers_ok hclaims
      refine h.quiet_exec hi hperm (fun _ => rfl) (fun _ => rfl) ?_ ?_
      · rw [hperform]
        exact hkeeps
      · rintro claims' ⟨⟩ -
        rw [hperform]
        exact hrows
  | updateUserMirror uid mirror now =>
    simp only [mirrorsInOrder, hi, hhead, Bool.or_eq_true, beq_iff_eq] at horder
    have hlast : ∀ r claim, Claimed (⟨.d1 (.updateUserMirror uid mirror now), r⟩ :: t.log) claim →
        Claimed t.log claim := fun r claim hclaim => claimed_cons_of_ne (by rintro _ ⟨⟩) hclaim
    by_cases heffective : (fault != .before &&
        c.shared.directory.unheldByOthers uid mirror.verifiedEmail) = true
    · obtain ⟨hfault, hunheld⟩ := Bool.and_eq_true_iff.mp heffective
      obtain ⟨d, hok, hothers, hrow⟩ := updateUserMirror_ok now hunheld
      have hperform : c.shared.perform sha256 (.d1 (.updateUserMirror uid mirror now)) =
          ({ c.shared with directory := d }, .ok ()) := by
        simp [World.perform, Directory.run, Directory.write, hok]
      have hexec : (c.shared.exec sha256 fault (.d1 (.updateUserMirror uid mirror now))).1 =
          { c.shared with directory := d } := by
        cases fault with
        | before => cases hfault
        | after => exact congrArg Prod.fst hperform
        | none => exact congrArg Prod.fst hperform
      rw [hexec]
      refine h.mirror hi hperm (fun _ => rfl) hothers (fun hexists => ⟨_, hrow hexists⟩) ?_ rfl
        (hlast _)
      intro hheld
      rcases horder with (hnone | hlater) | hsame
      · exact absurd hnone hheld
      · exact .inr (exists_of_mirroredLater hlater)
      · left
        rw [beq_iff_eq.mp (hsame.symm.trans heffective)]
        exact hrow (rowed_of_verified h hheld)
    · have hkept := mirror_kept sha256 h hi hperm now
        (Bool.eq_false_of_not_eq_true heffective)
      refine h.mirror hi hperm (fun v => ?_) ?_ ?_ ?_ rfl (hlast _)
      · rw [hkept]
      · rw [hkept]
        exact fun _ _ _ hrow => hrow
      · rw [hkept]
        exact id
      · rw [hkept]
        intro hheld
        rcases horder with (hnone | hlater) | hother
        · exact absurd hnone hheld
        · exact .inr (exists_of_mirroredLater hlater)
        · have hne : c.shared.verifiedEmail uid ≠ mirror.verifiedEmail := by
            intro heq
            exact heffective (hother.trans (beq_iff_eq.mpr heq))
          exact held_of_other h hi hperm hheld hne

end Steps

theorem profileInv_run {sha256 : String → Bytes} {w : World} {labels : List ProfileLabel}
    (hsynced : Synced w) (horder : MirrorsInOrder sha256 w labels) :
    ProfileInv ((profiles sha256).after w labels) := by
  refine System.run_invariant (profiles_follow sha256) (C := MirrorsInOrder sha256 w)
    (fun _ _ h => h.2) (J := fun c _ => ProfileInv c) ?_ ?_ ?_ ?_ labels horder
  · exact ⟨fun uid row huser => ⟨_, hsynced uid row huser⟩,
      fun uid row huser _ => .inl (hsynced uid row huser), by simp, by simp⟩
  · intro labels q hinv
    exact hinv.spawn q
  · rintro labels i t op fault prog ⟨horder, -⟩ - hinv hi hhead hperm
    cases op with
    | user uid call => exact profileInv_user hinv hi hperm hhead horder
    | d1 statement => exact profileInv_d1 hinv hi hperm hhead horder
  · intro labels op answer hinv hop
    cases hop

/-- Registry rows keep verified emails apart. -/
theorem eq_of_hasRow {d : Directory} {u v e : String} (hu : d.HasRow u (some e))
    (hv : d.HasRow v (some e)) : u = v := by
  obtain ⟨r, hr, rfl, hre⟩ := hu
  obtain ⟨s, hs, rfl, hse⟩ := hv
  exact congrArg RegistryUser.id (Table.eq_of_nodup_filterMap d.verifiedEmails hr hs hre hse)

/-- Once every call has returned, no two objects hold one verified email. -/
theorem verified_email_unique_of_mirrors_in_order (sha256 : String → Bytes) (w : World)
    (labels : List ProfileLabel) (hsynced : Synced w) (horder : MirrorsInOrder sha256 w labels)
    (hreturned : ∀ t ∈ ((profiles sha256).after w labels).threads, t.prog.result.isSome = true) :
    ∀ u v e, ((profiles sha256).after w labels).shared.verifiedEmail u = some e →
      ((profiles sha256).after w labels).shared.verifiedEmail v = some e → u = v := by
  have hinv := profileInv_run hsynced horder
  have hrow : ∀ u e, ((profiles sha256).after w labels).shared.verifiedEmail u = some e →
      ((profiles sha256).after w labels).shared.directory.HasRow u (some e) := by
    intro u e hemail
    obtain ⟨row, huser, hverified⟩ := Option.bind_eq_some_iff.mp hemail
    rcases hinv.mirrored u row huser (hverified ▸ nofun) with hrow | ⟨t, ht, hpending⟩
    · rwa [hverified] at hrow
    · -- A call that has returned has mirrored what it wrote.
      have hends := System.thread_obeys_to (S := profiles sha256) ProfileRequest.run_obeys w
        labels t ht
      have hdone := hreturned t ht
      cases hprog : t.prog with
      | call op next =>
        rw [hprog] at hdone
        cases hdone
      | done a =>
        rw [hprog] at hends
        have hnone : unmirrored t.log = none := hends
        rw [hnone] at hpending
        cases hpending
  intro u v e hu hv
  exact eq_of_hasRow (hrow u e hu) (hrow v e hv)

/-! ### Two updates that overlap -/

namespace Sample

def registered (uid : String) : RegistryUser := ⟨uid, none, none, false, none, .active, 0, 0⟩

def initialized (uid : String) : UserObject :=
  (UserObject.fresh.init ⟨uid, none, none, false, none, []⟩ 0 []).1

/-- Two active users without an email. -/
def users : World where
  directory :=
    { Directory.empty with
      users := ⟨[registered "u1", registered "u2"], by decide⟩
      verifiedEmails := by decide }
  objects := Function.update (Function.update (fun _ => UserObject.fresh) "u1" (initialized "u1"))
    "u2" (initialized "u2")

/-- The user gets the verified email `e@x.test`. -/
def verify (uid : String) : ProfileRequest :=
  .update uid ⟨some (some "e@x.test"), some true, none⟩ 5

def steps (thread count : ℕ) : List ProfileLabel := List.replicate count (.step thread .none)

/-- The second update finds the email taken. -/
def verifiedInTurn : List ProfileLabel :=
  steps 1 2 ++ steps 0 4 ++ [.spawn (verify "u2"), .spawn (verify "u1")]

/-- Both updates look the email up before either writes. -/
def verifiedTogether : List ProfileLabel :=
  steps 1 2 ++ steps 0 2 ++ steps 1 2 ++ steps 0 2 ++
    [.spawn (verify "u2"), .spawn (verify "u1")]

theorem users_synced : Synced users := by
  intro uid row huser
  by_cases h₂ : uid = "u2"
  · subst h₂
    cases huser
    exact ⟨registered "u2", by decide, rfl, rfl⟩
  · by_cases h₁ : uid = "u1"
    · subst h₁
      cases huser
      exact ⟨registered "u1", by decide, rfl, rfl⟩
    · simp only [World.user, users, ne_eq, h₁, h₂, not_false_eq_true, Function.update_of_ne]
        at huser
      cases huser

end Sample

theorem verified_email_unique_sample :
    ((profiles fun _ => []).after Sample.users Sample.verifiedInTurn).shared.verifiedEmail "u1" =
        some "e@x.test" ∧
      ∀ v, ((profiles fun _ => []).after Sample.users
        Sample.verifiedInTurn).shared.verifiedEmail v = some "e@x.test" → "u1" = v := by
  have hholds : ((profiles fun _ => []).after Sample.users
      Sample.verifiedInTurn).shared.verifiedEmail "u1" = some "e@x.test" := by decide +kernel
  exact ⟨hholds, fun v => verified_email_unique_of_mirrors_in_order (fun _ => []) Sample.users
    Sample.verifiedInTurn Sample.users_synced (by decide +kernel) (by decide +kernel) "u1" v
    "e@x.test" hholds⟩

/-- The mirror write of the second update is refused after the object took the email. -/
theorem verified_email_held_twice :
    ¬ ∀ (sha256 : String → Bytes) (w : World) (labels : List ProfileLabel), Synced w →
      (∀ t ∈ ((profiles sha256).after w labels).threads, t.prog.result.isSome = true) →
      ∀ u v e, ((profiles sha256).after w labels).shared.verifiedEmail u = some e →
        ((profiles sha256).after w labels).shared.verifiedEmail v = some e → u = v := by
  intro hall
  have hsame := hall (fun _ => []) Sample.users Sample.verifiedTogether Sample.users_synced
    (by decide +kernel) "u1" "u2" "e@x.test" (by decide +kernel) (by decide +kernel)
  exact absurd hsame (by decide)

end TinyOidc.Account
