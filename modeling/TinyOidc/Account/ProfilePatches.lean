import TinyOidc.Account.VerifiedEmails

/-! Updates of one user's profile that overlap (`src/users/admin.ts`). Each call reads the profile,
computes every email attribute from what it has read, writes the object and then the mirror row;
here is when it still touches only what it names, and the mirror ends like the object. -/
namespace TinyOidc.Account
open RowTable TinyOidc.User TinyOidc.Util
open Threads (Prog Entry Label Thread Config System)
open Threads.Prog (Obeys)

/-! ### The calls -/

structure PatchCall where
  update : ProfileUpdate
  now : ℤ
  deriving DecidableEq

/-- Whether an update names `email` or `email_verified`. -/
def PatchCall.namesEmail (q : PatchCall) : Bool :=
  q.update.email.isSome || q.update.emailVerified.isSome

def patches (sha256 : String → Bytes) (uid : String) :
    System PatchCall Fault World Op.Answer UpdateProfileResult where
  start q := updateUserProfile uid q.update q.now
  exec := World.exec sha256
  isOutside _ := false

abbrev PatchThread := Thread PatchCall Op.Answer UpdateProfileResult

abbrev PatchConfig := Config PatchCall World Op.Answer UpdateProfileResult

abbrev PatchLabel := Label PatchCall Op Fault

def World.emailOf (w : World) (uid : String) : Option (Option String × Option String × Bool) :=
  (w.user uid).map fun row => (row.email, row.emailNorm, row.emailVerified)

def World.displayNameOf (w : World) (uid : String) : Option (Option String) :=
  (w.user uid).map (·.displayName)

def rowMirror (row : UserRow) : Directory.UserMirror :=
  ⟨row.email, row.emailNorm, row.emailVerified, row.displayName⟩

def Directory.mirrorOf (d : Directory) (uid : String) : Option Directory.UserMirror :=
  (d.users.find uid).map fun r => ⟨r.email, r.emailNorm, r.emailVerified, r.displayName⟩

/-- The object's comparison form is that of its email, as every writer of the two leaves it. -/
def Normed (w : World) (uid : String) : Prop :=
  ∀ row, w.user uid = some row → row.emailNorm = row.email.map normalizeEmail

/-- The mirror row of the user, when it has one, has the attributes of the object. -/
def Mirrored (w : World) (uid : String) : Prop :=
  ∀ row mirror, w.user uid = some row → w.directory.mirrorOf uid = some mirror →
    mirror = rowMirror row

/-! ### Reading a log -/

def profileRead : Log → Option UserProfile
  | [] => none
  | ⟨.user _ .getProfile, some (.profile (.ok current))⟩ :: _ => some current
  | _ :: log => profileRead log

/-- What a call that has just written the object has still to write to the mirror. -/
def toMirror : Log → Option Directory.UserMirror
  | ⟨.user _ (.updateProfile patch _), some (.profile (.ok updated))⟩ :: _ => some
      { email := patch.email.getD none
        emailNorm := patch.emailNorm.getD none
        emailVerified := patch.emailVerified.getD false
        displayName := updated.displayName }
  | _ => none

def hasMirrored : Entry Op.Answer → Bool
  | ⟨.d1 (.updateUserMirror _ _ _), .ok _⟩ => true
  | _ => false

/-- A write that threw, whether or not it took effect. -/
def hasThrown : Entry Op.Answer → Bool
  | ⟨.user _ (.updateProfile _ _), none⟩ => true
  | ⟨.d1 (.updateUserMirror _ _ _), .error _⟩ => true
  | _ => false

def PatchPermits (uid : String) (q : PatchCall) (log : Log) : Op → Prop
  | .user id .getProfile => id = uid ∧ log = []
  | .user id (.updateProfile patch _) => id = uid ∧ toMirror log = none ∧
      ∃ current, profileRead log = some current ∧ patch = profilePatch current q.update
  | .user _ _ => False
  | .d1 (.findVerifiedUser _) => toMirror log = none
  | .d1 (.updateUserMirror id mirror _) => id = uid ∧ toMirror log = some mirror
  | .d1 _ => False

/-- A call that returns ok has written the mirror, and none of its writes threw. -/
def PatchReturns (log : Log) (result : UpdateProfileResult) : Prop :=
  (∀ profile, result ≠ .ok profile) ∨
    toMirror log = none ∧ log.any hasMirrored = true ∧ log.any hasThrown = false

section Protocol
variable {uid : String} {q : PatchCall} {log : Log}

theorem writeProfile_patches {current : UserProfile} (now : ℤ) (hlog : toMirror log = none)
    (hread : profileRead log = some current) (hthrown : log.any hasThrown = false) :
    Obeys (PatchPermits uid q) PatchReturns log
      (writeProfile uid (profilePatch current q.update) now) := by
  refine Obeys.perform ⟨rfl, hlog, current, hread, rfl⟩ fun reply => ?_
  split
  · exact .inl nofun
  · next updated =>
    refine Obeys.perform ⟨rfl, rfl⟩ fun written => ?_
    cases written with
    | error e => exact .inl nofun
    | ok _ =>
      have hfirst : (⟨.user uid (.updateProfile (profilePatch current q.update) now),
          some (.profile (.ok updated))⟩ :: log : Log).any hasThrown = false := hthrown
      exact .inr ⟨rfl, rfl, hfirst⟩
  · exact .inl nofun

theorem updateUserProfile_patches (uid : String) (q : PatchCall) :
    Obeys (PatchPermits uid q) PatchReturns [] (updateUserProfile uid q.update q.now) := by
  refine Obeys.perform ⟨rfl, rfl⟩ fun reply => ?_
  split
  · exact .inl (by simp)
  · next current =>
    dsimp only
    split
    · exact .inl (by simp)
    · split
      · exact writeProfile_patches q.now rfl rfl rfl
      · refine Obeys.perform rfl fun holder => ?_
        cases holder with
        | error e => exact .inl (by simp)
        | ok holder =>
          dsimp only
          split
          · exact .inl (by simp)
          · exact writeProfile_patches q.now rfl rfl rfl
  · exact .inl (by simp)

theorem patches_follow (sha256 : String → Bytes) (uid : String) :
    (patches sha256 uid).Follows (PatchPermits uid) :=
  fun q => (updateUserProfile_patches uid q).mono fun _ _ _ => trivial

end Protocol

/-! ### The condition -/

/-- The object's email is as the call has read it. -/
def writesAsRead (row : UserRow) (log : Log) : Bool :=
  (profileRead log).all fun current =>
    row.email == current.email && row.emailVerified == current.emailVerified

/-- When a call that names neither email attribute writes the object, the email is still the one it
has read. When a call writes the mirror, the object is still as it has left it, or some other call
has yet to write the mirror. -/
def patchesInOrder (uid : String) (c : PatchConfig) : PatchLabel → Bool
  | .step i fault =>
      match c.threads[i]? with
      | none => true
      | some t =>
        match t.prog.head with
        | some (.user _ (.updateProfile _ _)) => fault == .before || t.request.namesEmail ||
            (c.shared.user uid).all (writesAsRead · t.log)
        | some (.d1 (.updateUserMirror _ mirror _)) => fault != .none ||
            (c.shared.user uid).all (rowMirror · == mirror) ||
            (c.threads.eraseIdx i).any fun t' => (toMirror t'.log).isSome
        | _ => true
  | _ => true

def PatchesInOrder (sha256 : String → Bytes) (uid : String) (w : World) : List PatchLabel → Prop
  | [] => True
  | l :: labels => patchesInOrder uid ((patches sha256 uid).after w labels) l = true ∧
      PatchesInOrder sha256 uid w labels

instance decidablePatchesInOrder (sha256 : String → Bytes) (uid : String) (w : World) :
    (labels : List PatchLabel) → Decidable (PatchesInOrder sha256 uid w labels)
  | [] => isTrue trivial
  | _ :: labels =>
      have := decidablePatchesInOrder sha256 uid w labels
      inferInstanceAs (Decidable (_ ∧ _))

theorem PatchesInOrder.earlier {sha256 : String → Bytes} {uid : String} {w : World}
    {earlier : List PatchLabel} (later : List PatchLabel)
    (h : PatchesInOrder sha256 uid w (later ++ earlier)) :
    PatchesInOrder sha256 uid w earlier := by
  induction later with
  | nil => exact h
  | cons l later ih => exact ih h.2

/-! ### One write -/

def patchedRow (row : UserRow) (patch : ProfilePatch) (now : ℤ) : UserRow :=
  { row with
    email := patch.email.getD row.email
    emailNorm := if patch.email.isNone then row.emailNorm else patch.emailNorm.getD none
    emailVerified := patch.emailVerified.getD
      (if patch.email.getD row.email ≠ row.email then false else row.emailVerified)
    displayName := patch.displayName.getD row.displayName
    updatedAt := now }

theorem updateProfile_row (sha256 : String → Bytes) (o : UserObject) (patch : ProfilePatch)
    (now : ℤ) :
    ((o.call sha256 (.updateProfile patch now)).1.tables.user = o.tables.user ∧
      ∀ p, (o.call sha256 (.updateProfile patch now)).2 ≠ .profile (.ok p)) ∨
    ∃ row, o.tables.user = some row ∧
      (o.call sha256 (.updateProfile patch now)).1.tables.user = some (patchedRow row patch now) ∧
      (o.call sha256 (.updateProfile patch now)).2 =
        .profile (.ok (profile (patchedRow row patch now))) := by
  simp only [UserObject.call, answered, UserObject.updateProfile, UserObject.guarded]
  split
  · exact .inl ⟨rfl, by simp⟩
  · next row hguard => exact .inr ⟨row, (guard_ok hguard).2, rfl, rfl⟩

theorem mirrorOf_updateUserMirror {d d' : Directory} {uid : String} {mirror : Directory.UserMirror}
    {now : ℤ} (h : d.updateUserMirror uid mirror now = .ok d') :
    ∀ m, d'.mirrorOf uid = some m → m = mirror := by
  intro m hm
  have hfind : d'.users.find uid = (d.users.find uid).map fun r =>
      if r.id == uid then Directory.mirrored mirror now r else r := by
    rw [withUsers_users h]
    exact Table.find_updateWhere uid
  rw [Directory.mirrorOf, hfind, Option.map_map] at hm
  obtain ⟨r, hr, hmirror⟩ := Option.map_eq_some_iff.mp hm
  have hid : r.id = uid := (Table.find_eq_some.mp hr).2
  simp only [Function.comp, hid, beq_self_eq_true, if_true, Directory.mirrored] at hmirror
  exact hmirror.symm

section Write
variable {sha256 : String → Bytes} {uid : String} {q : PatchCall} {log : Log} {w : World}
  {fault : Fault} {op : Op}

theorem user_d1_exec {statement : Statement} :
    (w.exec sha256 fault (.d1 statement)).1.user uid = w.user uid := by
  cases fault with
  | none => rfl
  | before => rfl
  | after => rfl

variable (sha256 w fault) in
/-- A call changes the object's row only by its patch. -/
theorem user_of_exec (hperm : PatchPermits uid q log op) :
    (w.exec sha256 fault op).1.user uid = w.user uid ∨
    ∃ patch now row, op = .user uid (.updateProfile patch now) ∧ fault ≠ .before ∧
      w.user uid = some row ∧
      (w.exec sha256 fault op).1.user uid = some (patchedRow row patch now) := by
  have hperform : ∀ {id : String} {call : Call}, fault ≠ .before →
      (w.exec sha256 fault (.user id call)).1 = (w.perform sha256 (.user id call)).1 := by
    intro id call hfault
    cases fault with
    | none => rfl
    | before => exact absurd rfl hfault
    | after => rfl
  cases op with
  | d1 statement => exact .inl user_d1_exec
  | user id call =>
    by_cases hbefore : fault = .before
    · subst hbefore
      exact .inl rfl
    rw [hperform hbefore, user_perform]
    by_cases hid : uid = id
    · subst hid
      rw [if_pos rfl]
      cases call with
      | updateProfile patch now =>
        rcases updateProfile_row sha256 (w.objects uid) patch now with
          ⟨hsame, -⟩ | ⟨row, hrow, hafter, -⟩
        · exact .inl hsame
        · exact .inr ⟨patch, now, row, rfl, hbefore, hrow, hafter⟩
      | getProfile =>
        refine .inl ?_
        simp only [UserObject.call, answered, UserObject.getProfile, UserObject.guarded]
        split
        · rfl
        · rfl
      | _ => exact hperm.elim
    · rw [if_neg hid]
      exact .inl rfl

theorem Normed.exec (h : Normed w uid) (hperm : PatchPermits uid q log op) :
    Normed (w.exec sha256 fault op).1 uid := by
  intro row hrow
  rcases user_of_exec sha256 w fault hperm with
    hsame | ⟨patch, now, before, rfl, -, hbefore, hafter⟩
  · exact h row (hsame ▸ hrow)
  · obtain ⟨-, -, current, -, rfl⟩ := hperm
    cases hafter.symm.trans hrow
    rfl

/-- A call that names no email attribute, and writes what it has read, changes none. -/
theorem emailOf_exec (h : Normed w uid) (hperm : PatchPermits uid q log op)
    (hnames : q.namesEmail = false)
    (hread : ∀ patch now, op = .user uid (.updateProfile patch now) → fault ≠ .before →
      (w.user uid).all (writesAsRead · log) = true) :
    (w.exec sha256 fault op).1.emailOf uid = w.emailOf uid := by
  rcases user_of_exec sha256 w fault hperm with
    hsame | ⟨patch, now, row, rfl, hfault, hrow, hafter⟩
  · rw [World.emailOf, hsame, World.emailOf]
  · have hasRead := hread patch now rfl hfault
    obtain ⟨-, -, current, hcurrent, rfl⟩ := hperm
    simp only [hrow, Option.all_some, writesAsRead, hcurrent, Bool.and_eq_true, beq_iff_eq]
      at hasRead
    simp only [PatchCall.namesEmail, Bool.or_eq_false_iff, Option.isSome_eq_false_iff,
      Option.isNone_iff_eq_none] at hnames
    have hnorm := h row hrow
    rw [World.emailOf, hafter, World.emailOf, hrow]
    simp [patchedRow, profilePatch, hnames.1, hnames.2, hnorm, hasRead.1, hasRead.2]

/-- A call that does not name the display name never changes it. -/
theorem displayNameOf_exec (hperm : PatchPermits uid q log op)
    (hnames : q.update.displayName = none) :
    (w.exec sha256 fault op).1.displayNameOf uid = w.displayNameOf uid := by
  rcases user_of_exec sha256 w fault hperm with
    hsame | ⟨patch, now, row, rfl, -, hrow, hafter⟩
  · rw [World.displayNameOf, hsame, World.displayNameOf]
  · obtain ⟨-, -, current, -, rfl⟩ := hperm
    rw [World.displayNameOf, hafter, World.displayNameOf, hrow]
    simp [patchedRow, profilePatch, hnames]

end Write

/-! ### The mirror -/

/-- The mirror is right unless some call has yet to write it, a write has thrown, or no call has
come so far. -/
inductive MirrorState (uid : String) (c : PatchConfig) : Prop where
  | pending (t : PatchThread) (ht : t ∈ c.threads) (h : (toMirror t.log).isSome = true)
  | thrown (t : PatchThread) (ht : t ∈ c.threads) (h : t.log.any hasThrown = true)
  | untouched (h : ∀ t ∈ c.threads, t.log.any hasMirrored = false)
  | mirrored (h : Mirrored c.shared uid)

section Mirror
variable {sha256 : String → Bytes} {uid : String} {c : PatchConfig} {i : ℕ} {t : PatchThread}
  {prog : Program UpdateProfileResult}

theorem mem_called (hi : c.threads[i]? = some t) (entry : Entry Op.Answer) :
    ⟨t.request, entry :: t.log, prog⟩ ∈ c.threads.set i ⟨t.request, entry :: t.log, prog⟩ :=
  List.mem_of_getElem? (List.getElem?_set_self (List.getElem?_eq_some_iff.mp hi).1)

/-- A call that writes neither store. -/
theorem MirrorState.quiet (h : MirrorState uid c) (hi : c.threads[i]? = some t) {w : World}
    {entry : Entry Op.Answer} (huser : w.user uid = c.shared.user uid)
    (hdirectory : w.directory = c.shared.directory) (hlog : toMirror t.log = none)
    (hentry : hasMirrored entry = false) :
    MirrorState uid ⟨w, c.threads.set i ⟨t.request, entry :: t.log, prog⟩⟩ := by
  cases h with
  | pending t' ht' hpending =>
    obtain ⟨j, hj⟩ := List.mem_iff_getElem?.mp ht'
    have hne : i ≠ j := by
      intro hij
      subst hij
      cases hi.symm.trans hj
      rw [hlog] at hpending
      cases hpending
    exact .pending t' (List.mem_of_getElem? (by rw [List.getElem?_set_ne hne, hj])) hpending
  | thrown t' ht' hthrown =>
    obtain ⟨t'', ht'', -, hgrown⟩ := Threads.exists_grown_of_mem hi entry prog ht'
    obtain ⟨e, he, hthrew⟩ := List.any_eq_true.mp hthrown
    exact .thrown t'' ht'' (List.any_eq_true.mpr ⟨e, hgrown.subset he, hthrew⟩)
  | untouched hnone =>
    refine .untouched fun t' ht' => ?_
    rcases Threads.exists_of_mem_set ht' with rfl | ⟨j, -, hj⟩
    · simpa only [List.any_cons, hentry, Bool.false_or] using hnone t (List.mem_of_getElem? hi)
    · exact hnone t' (List.mem_of_getElem? hj)
  | mirrored hmirrored =>
    refine .mirrored fun row mirror hrow hmirror => hmirrored row mirror ?_ ?_
    · exact huser ▸ hrow
    · exact hdirectory ▸ hmirror

/-- A write of the object leaves the mirror to its call, unless it is refused. -/
theorem MirrorState.updateProfile (h : MirrorState uid c) (hi : c.threads[i]? = some t)
    (hlog : toMirror t.log = none) (fault : Fault) (patch : ProfilePatch) (now : ℤ) :
    MirrorState uid ⟨(c.shared.exec sha256 fault (.user uid (.updateProfile patch now))).1,
      c.threads.set i ⟨t.request, ⟨.user uid (.updateProfile patch now),
        (c.shared.exec sha256 fault (.user uid (.updateProfile patch now))).2⟩ :: t.log,
          prog⟩⟩ := by
  cases fault with
  | before => exact .thrown _ (mem_called hi _) rfl
  | after => exact .thrown _ (mem_called hi _) rfl
  | none =>
    rcases updateProfile_row sha256 (c.shared.objects uid) patch now with
      ⟨hsame, -⟩ | ⟨row, -, -, hreply⟩
    · refine h.quiet hi ?_ rfl hlog rfl
      rw [World.exec, user_perform, if_pos rfl, hsame]
      rfl
    · refine .pending _ (mem_called hi _) ?_
      have hexec : (c.shared.exec sha256 .none (.user uid (.updateProfile patch now))).2 =
          some (.profile (.ok (profile (patchedRow row patch now)))) := congrArg some hreply
      rw [hexec]
      rfl

/-- A write of the mirror that is in order makes it right, or leaves that to a call which is still
to write it. -/
theorem mirrorState_updateUserMirror (hi : c.threads[i]? = some t) {fault : Fault}
    {mirror : Directory.UserMirror} {now : ℤ}
    (hhead : t.prog.head = some (.d1 (.updateUserMirror uid mirror now)))
    (horder : patchesInOrder uid c (.step i fault) = true) :
    MirrorState uid ⟨(c.shared.exec sha256 fault (.d1 (.updateUserMirror uid mirror now))).1,
      c.threads.set i ⟨t.request, ⟨.d1 (.updateUserMirror uid mirror now),
        (c.shared.exec sha256 fault (.d1 (.updateUserMirror uid mirror now))).2⟩ :: t.log,
          prog⟩⟩ := by
  cases fault with
  | before => exact .thrown _ (mem_called hi _) rfl
  | after => exact .thrown _ (mem_called hi _) rfl
  | none =>
    have hexec : c.shared.exec sha256 .none (.d1 (.updateUserMirror uid mirror now)) =
        ({ c.shared with directory := (c.shared.directory.write
            (c.shared.directory.updateUserMirror uid mirror now)).1 },
          (c.shared.directory.write (c.shared.directory.updateUserMirror uid mirror now)).2) := rfl
    rw [hexec]
    cases hwritten : c.shared.directory.updateUserMirror uid mirror now with
    | error e => exact .thrown _ (mem_called hi _) rfl
    | ok d =>
      simp only [patchesInOrder, hi, hhead, bne_self_eq_false, Bool.false_or, Bool.or_eq_true]
        at horder
      rcases horder with hobject | hpending
      · refine .mirrored fun row m hrow hm => ?_
        have hsame : rowMirror row = mirror := by
          have hall : c.shared.user uid = some row := hrow
          simpa only [hall, Option.all_some, beq_iff_eq] using hobject
        rw [hsame]
        exact mirrorOf_updateUserMirror hwritten m hm
      · obtain ⟨t', ht', htoMirror⟩ := List.any_eq_true.mp hpending
        obtain ⟨j, hne, hj⟩ := List.mem_eraseIdx_iff_getElem?.mp ht'
        refine .pending t' (List.mem_of_getElem? (i := j) ?_) htoMirror
        rw [List.getElem?_set_ne (Ne.symm hne), hj]

theorem MirrorState.step (h : MirrorState uid c) (hi : c.threads[i]? = some t) {op : Op}
    {fault : Fault} (hhead : t.prog.head = some op) (hperm : PatchPermits uid t.request t.log op)
    (horder : patchesInOrder uid c (.step i fault) = true) :
    MirrorState uid ⟨(c.shared.exec sha256 fault op).1,
      c.threads.set i ⟨t.request, ⟨op, (c.shared.exec sha256 fault op).2⟩ :: t.log, prog⟩⟩ := by
  have huser := user_of_exec sha256 c.shared fault hperm
  cases op with
  | user id call =>
    cases call with
    | getProfile =>
      obtain ⟨rfl, hlog⟩ := hperm
      rcases huser with hsame | ⟨patch, now, row, hop, -⟩
      · refine h.quiet hi hsame ?_ (by rw [hlog]; rfl) rfl
        cases fault with
        | none => rfl
        | before => rfl
        | after => rfl
      · cases hop
    | updateProfile patch now =>
      obtain ⟨rfl, hlog, -⟩ := hperm
      exact h.updateProfile hi hlog fault patch now
    | _ => exact hperm.elim
  | d1 statement =>
    cases statement with
    | findVerifiedUser emailNorm =>
      refine h.quiet hi user_d1_exec ?_ hperm rfl
      cases fault with
      | none => rfl
      | before => rfl
      | after => rfl
    | updateUserMirror id mirror now =>
      obtain ⟨rfl, -⟩ := hperm
      exact mirrorState_updateUserMirror hi hhead horder
    | _ => exact hperm.elim

end Mirror

/-! ### Runs -/

section Runs
variable {sha256 : String → Bytes} {uid : String} {w : World}

theorem normed_run (hnorm : Normed w uid) (labels : List PatchLabel) :
    Normed ((patches sha256 uid).after w labels).shared uid := by
  refine (System.shared_invariant (patches_follow sha256 uid) (I := fun w => Normed w uid)
    (E := fun _ => True) hnorm ?_ labels).1
  intro w fault op h hop
  rcases hop with hout | ⟨q, log, hperm⟩
  · cases hout
  · exact ⟨h.exec hperm, trivial⟩

theorem mirrorState_run {labels : List PatchLabel} (horder : PatchesInOrder sha256 uid w labels) :
    MirrorState uid ((patches sha256 uid).after w labels) := by
  refine System.run_invariant (patches_follow sha256 uid) (C := PatchesInOrder sha256 uid w)
    (fun _ _ h => h.2) (J := fun c _ => MirrorState uid c) (.untouched (by simp)) ?_ ?_ ?_ labels
    horder
  · intro labels q h
    cases h with
    | pending t ht hpending => exact .pending t (List.mem_append_left _ ht) hpending
    | thrown t ht hthrown => exact .thrown t (List.mem_append_left _ ht) hthrown
    | untouched hnone =>
      refine .untouched fun t ht => ?_
      rcases List.mem_append.mp ht with ht | ht
      · exact hnone t ht
      · rw [List.mem_singleton.mp ht]
        rfl
    | mirrored hmirrored => exact .mirrored hmirrored
  · intro labels i t op fault prog horder _ h hi hhead hperm
    exact h.step hi hhead hperm horder.1
  · intro labels op fault _ hop
    cases hop

/-- One step of a call. -/
theorem step_touches (hnorm : Normed w uid) {i : ℕ} {fault : Fault} {earlier : List PatchLabel}
    (horder : patchesInOrder uid ((patches sha256 uid).after w earlier) (.step i fault) = true)
    {t : PatchThread} (hi : ((patches sha256 uid).after w earlier).threads[i]? = some t) :
    (t.request.namesEmail = false →
      ((patches sha256 uid).after w (.step i fault :: earlier)).shared.emailOf uid =
        ((patches sha256 uid).after w earlier).shared.emailOf uid) ∧
    (t.request.update.displayName = none →
      ((patches sha256 uid).after w (.step i fault :: earlier)).shared.displayNameOf uid =
        ((patches sha256 uid).after w earlier).shared.displayNameOf uid) := by
  have hafter : (patches sha256 uid).after w (.step i fault :: earlier) =
      ((patches sha256 uid).step ((patches sha256 uid).after w earlier) (.step i fault)).1 := rfl
  rw [hafter]
  rcases (patches sha256 uid).step_turn ((patches sha256 uid).after w earlier) i fault with
    ⟨hidle, -⟩ | ⟨t', op, next, hi', hprog, hstep⟩
  · rw [hidle]
    exact ⟨fun _ => rfl, fun _ => rfl⟩
  · cases hi.symm.trans hi'
    have hobeys := System.thread_obeys (patches_follow sha256 uid) w earlier t
      (List.mem_of_getElem? hi)
    rw [hprog] at hobeys
    have hperm : PatchPermits uid t.request t.log op := hobeys.1
    have hhead : t.prog.head = some op := by rw [hprog]; rfl
    rw [hstep]
    constructor
    · intro hnames
      refine emailOf_exec (normed_run hnorm earlier) hperm hnames fun patch now hop hfault => ?_
      subst hop
      simpa [patchesInOrder, hi, hhead, hnames, hfault] using horder
    · exact displayNameOf_exec hperm

end Runs

/-- In every run whose calls write the object as they have read it, and the mirror as the object is,
a call that does not name an attribute does not change it, and once all calls have returned ok the
mirror is like the object. -/
theorem patch_touches_named (sha256 : String → Bytes) (uid : String) (w : World)
    (hnorm : Normed w uid) (labels : List PatchLabel)
    (horder : PatchesInOrder sha256 uid w labels) :
    (∀ later i fault earlier, labels = later ++ .step i fault :: earlier →
      ∀ t, ((patches sha256 uid).after w earlier).threads[i]? = some t →
        (t.request.namesEmail = false →
          ((patches sha256 uid).after w (.step i fault :: earlier)).shared.emailOf uid =
            ((patches sha256 uid).after w earlier).shared.emailOf uid) ∧
        (t.request.update.displayName = none →
          ((patches sha256 uid).after w (.step i fault :: earlier)).shared.displayNameOf uid =
            ((patches sha256 uid).after w earlier).shared.displayNameOf uid)) ∧
    (((patches sha256 uid).after w labels).threads ≠ [] →
      (∀ t ∈ ((patches sha256 uid).after w labels).threads,
        ∃ profile, t.prog.result = some (.ok profile)) →
      Mirrored ((patches sha256 uid).after w labels).shared uid) := by
  constructor
  · intro later i fault earlier hlabels t hi
    subst hlabels
    exact step_touches hnorm (horder.earlier later).1 hi
  · intro hcalls hok
    have hreturned : ∀ t ∈ ((patches sha256 uid).after w labels).threads, toMirror t.log = none ∧
        t.log.any hasMirrored = true ∧ t.log.any hasThrown = false := by
      intro t ht
      obtain ⟨profile, hresult⟩ := hok t ht
      have hends := System.thread_obeys_to (S := patches sha256 uid)
        (updateUserProfile_patches uid) w labels t ht
      rw [Prog.result_eq_some.mp hresult] at hends
      rcases (hends : PatchReturns t.log (.ok profile)) with hno | hreturns
      · exact absurd rfl (hno profile)
      · exact hreturns
    cases mirrorState_run horder with
    | pending t ht hpending =>
      rw [(hreturned t ht).1] at hpending
      cases hpending
    | thrown t ht hthrown =>
      rw [(hreturned t ht).2.2] at hthrown
      cases hthrown
    | untouched hnone =>
      obtain ⟨t, ht⟩ := List.exists_mem_of_ne_nil _ hcalls
      have hmirrored := (hreturned t ht).2.1
      rw [hnone t ht] at hmirrored
      cases hmirrored
    | mirrored hmirrored => exact hmirrored

/-! ### Two patches of one user -/

namespace Sample

def setEmail : PatchLabel := .spawn ⟨⟨some (some "e@x.test"), none, none⟩, 5⟩

def setDisplayName : PatchLabel := .spawn ⟨⟨none, none, some (some "Ada")⟩, 6⟩

def patchSteps (thread count : ℕ) : List PatchLabel := List.replicate count (.step thread .none)

def patchedInTurn : List PatchLabel :=
  patchSteps 1 3 ++ patchSteps 0 3 ++ [setDisplayName, setEmail]

/-- The second patch writes back the email that it has read before the first one wrote, and the
first one writes the mirror last. -/
def patchedTogether : List PatchLabel :=
  patchSteps 0 1 ++ patchSteps 1 2 ++ patchSteps 0 1 ++ patchSteps 1 1 ++ patchSteps 0 1 ++
    [setDisplayName, setEmail]

theorem users_normed : Normed users "u1" := by
  intro row hrow
  cases hrow
  rfl

def afterPatches (labels : List PatchLabel) : PatchConfig :=
  (patches (fun _ => []) "u1").after users labels

def isOk : UpdateProfileResult → Bool
  | .ok _ => true
  | _ => false

end Sample

theorem patch_touches_named_sample :
    ((Sample.afterPatches Sample.patchedInTurn).threads.map (·.prog.result.any Sample.isOk) =
        [true, true] ∧
      (Sample.afterPatches Sample.patchedInTurn).shared.emailOf "u1" =
        some (some "e@x.test", some "e@x.test", false)) ∧
    (∀ later i fault earlier, Sample.patchedInTurn = later ++ .step i fault :: earlier →
      ∀ t, (Sample.afterPatches earlier).threads[i]? = some t →
        (t.request.namesEmail = false →
          (Sample.afterPatches (.step i fault :: earlier)).shared.emailOf "u1" =
            (Sample.afterPatches earlier).shared.emailOf "u1") ∧
        (t.request.update.displayName = none →
          (Sample.afterPatches (.step i fault :: earlier)).shared.displayNameOf "u1" =
            (Sample.afterPatches earlier).shared.displayNameOf "u1")) ∧
    ((Sample.afterPatches Sample.patchedInTurn).threads ≠ [] →
      (∀ t ∈ (Sample.afterPatches Sample.patchedInTurn).threads,
        ∃ profile, t.prog.result = some (.ok profile)) →
      Mirrored (Sample.afterPatches Sample.patchedInTurn).shared "u1") :=
  ⟨by decide +kernel, patch_touches_named (fun _ => []) "u1" Sample.users Sample.users_normed
    Sample.patchedInTurn (by decide +kernel)⟩

/-- A patch of the display name undoes the change of the email, and the mirror differs at the
end. -/
theorem patch_writes_back :
    ¬ (∀ (sha256 : String → Bytes) (uid : String) (w : World) (labels : List PatchLabel),
      Normed w uid → ∀ later i fault earlier, labels = later ++ .step i fault :: earlier →
      ∀ t, ((patches sha256 uid).after w earlier).threads[i]? = some t →
        t.request.namesEmail = false →
        ((patches sha256 uid).after w (.step i fault :: earlier)).shared.emailOf uid =
          ((patches sha256 uid).after w earlier).shared.emailOf uid) ∧
    ¬ ∀ (sha256 : String → Bytes) (uid : String) (w : World) (labels : List PatchLabel),
      Normed w uid → ((patches sha256 uid).after w labels).threads ≠ [] →
      (∀ t ∈ ((patches sha256 uid).after w labels).threads,
        ∃ profile, t.prog.result = some (.ok profile)) →
      Mirrored ((patches sha256 uid).after w labels).shared uid := by
  constructor
  · intro hall
    have hsame := hall (fun _ => []) "u1" Sample.users Sample.patchedTogether Sample.users_normed
      (Sample.patchSteps 0 1 ++ Sample.patchSteps 1 1) 1 .none
      (Sample.patchSteps 0 1 ++ Sample.patchSteps 1 1 ++ Sample.patchSteps 0 1 ++
        [Sample.setDisplayName, Sample.setEmail]) rfl
    obtain ⟨t, ht, hnames⟩ : ∃ t, (Sample.afterPatches (Sample.patchSteps 0 1 ++
        Sample.patchSteps 1 1 ++ Sample.patchSteps 0 1 ++
        [Sample.setDisplayName, Sample.setEmail])).threads[1]? = some t ∧
        t.request.namesEmail = false := ⟨_, rfl, rfl⟩
    exact absurd (hsame t ht hnames) (by decide)
  · intro hall
    have hok : ∀ t ∈ (Sample.afterPatches Sample.patchedTogether).threads,
        t.prog.result.any Sample.isOk = true := by decide
    have hmirrored := hall (fun _ => []) "u1" Sample.users Sample.patchedTogether
      Sample.users_normed (by decide) fun t ht => by
        have hisOk := hok t ht
        cases hresult : t.prog.result with
        | none => simp [hresult] at hisOk
        | some result =>
          cases result with
          | ok profile => exact ⟨profile, rfl⟩
          | _ => simp [hresult, Sample.isOk] at hisOk
    obtain ⟨row, mirror, hrow, hmirror, hdiffer⟩ : ∃ row mirror,
        (Sample.afterPatches Sample.patchedTogether).shared.user "u1" = some row ∧
        (Sample.afterPatches Sample.patchedTogether).shared.directory.mirrorOf "u1" = some mirror ∧
        mirror ≠ rowMirror row := ⟨_, _, rfl, rfl, by decide⟩
    exact hdiffer (hmirrored row mirror hrow hmirror)

end TinyOidc.Account
