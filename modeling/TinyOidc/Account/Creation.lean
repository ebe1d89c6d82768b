import TinyOidc.Account.Statuses
import TinyOidc.Lib.Lists

/-! What a creation of users calls, and what it has done for the users it reports as created. -/
namespace TinyOidc.Account
open TinyOidc.User
open TinyOidc.Interaction (CreateUserError)
open Threads (Prog Entry)
open Threads.Prog (Obeys)
open Lists (forall₂_comp)

def ClaimedId (log : Log) (uid : String) : Prop := ∃ c, Claimed log c ∧ c.id = uid

def Initialized (log : Log) (uid : String) : Prop :=
  ∃ p now identities profile,
    (⟨.user uid (.init p now identities), some (.profile (.ok profile))⟩ : Entry Op.Answer) ∈ log

def Activated (log : Log) (uid : String) : Prop :=
  ∃ rows, (⟨.d1 (.activateUsers rows), .ok ()⟩ : Entry Op.Answer) ∈ log ∧ uid ∈ rows.map (·.1)

structure Created (log : Log) (uid : String) : Prop where
  claimed : ClaimedId log uid
  initialized : Initialized log uid
  activated : Activated log uid

/-- What a creation calls before it initializes an object. -/
def isClaiming : Op → Bool
  | .d1 .groupIdsByName | .d1 (.claimUsers _) => true
  | _ => false

/-- What a creation calls before it activates the rows. -/
def isCreating : Op → Bool
  | .d1 .groupIdsByName | .d1 (.claimUsers _) | .user _ (.init _ _ _) => true
  | _ => false

/-- The claims come first, an object is initialized for a claimed user, and rows are activated when
their objects are; nothing but the steps before was called before each. -/
def CreationPermits (log : Log) : Op → Prop
  | .d1 .groupIdsByName => True
  | .d1 (.claimUsers _) => ∀ entry ∈ log, isClaiming entry.1 = true
  | .user uid (.init _ _ _) => ClaimedId log uid
  | .d1 (.activateUsers rows) =>
      (∀ entry ∈ log, isCreating entry.1 = true) ∧ ∀ row ∈ rows, Initialized log row.1
  | _ => False

/-- A log that only grew by the first two steps. -/
structure GrewBy (log log' : Log) : Prop where
  subset : log ⊆ log'
  creating : (∀ entry ∈ log, isCreating entry.1 = true) → ∀ entry ∈ log', isCreating entry.1 = true

section Creation
variable {log log' log'' : Log} {uid : String}

theorem GrewBy.refl (log : Log) : GrewBy log log := ⟨List.Subset.refl log, fun h => h⟩

theorem GrewBy.trans (h : GrewBy log log') (h' : GrewBy log' log'') : GrewBy log log'' :=
  ⟨List.Subset.trans h.subset h'.subset, fun hlog => h'.creating (h.creating hlog)⟩

theorem GrewBy.cons {entry : Entry Op.Answer} (h : isCreating entry.1 = true) :
    GrewBy log (entry :: log) := by
  constructor
  · exact List.subset_cons_self entry log
  · intro hlog e he
    rcases List.mem_cons.mp he with rfl | he
    · exact h
    · exact hlog e he

theorem ClaimedId.subset (h : ClaimedId log uid) (hsub : log ⊆ log') : ClaimedId log' uid := by
  obtain ⟨c, ⟨claims, hmem, hc⟩, rfl⟩ := h
  exact ⟨c, ⟨claims, hsub hmem, hc⟩, rfl⟩

theorem Initialized.subset (h : Initialized log uid) (hsub : log ⊆ log') :
    Initialized log' uid := by
  obtain ⟨p, now, identities, profile, hmem⟩ := h
  exact ⟨p, now, identities, profile, hsub hmem⟩

theorem initializeObject_creates {p : Prepared} (attempts : ℕ)
    (hclaimed : ClaimedId log p.input.id) :
    Obeys CreationPermits (fun log' result => GrewBy log log' ∧
      ∀ profile, result = .ok profile → Initialized log' p.input.id) log
      (initializeObject p attempts) := by
  induction attempts generalizing log with
  | zero => exact ⟨.refl log, by intro profile h; cases h⟩
  | succ attempts ih =>
    refine Obeys.perform hclaimed fun r => ?_
    have hgrew : GrewBy log (⟨.user p.input.id (.init p.profile p.instant p.input.identities),
        r⟩ :: log) := .cons rfl
    split
    · next profile =>
      exact ⟨hgrew, fun _ _ => ⟨_, _, _, profile, List.mem_cons_self⟩⟩
    · exact ⟨hgrew, by intro profile h; cases h⟩
    · refine (ih (hclaimed.subset hgrew.subset)).mono fun log' result h => ?_
      exact ⟨hgrew.trans h.1, h.2⟩

theorem initializeEach_creates (entries : List (Except CreateUserError Prepared))
    (hclaimed : ∀ p, .ok p ∈ entries → ClaimedId log p.input.id) :
    Obeys CreationPermits (fun log' results => GrewBy log log' ∧
      List.Forall₂ (fun entry result => ∀ profile, result = .ok profile →
        ∃ p, entry = .ok p ∧ Initialized log' p.input.id) entries results) log
      (initializeEach entries) := by
  induction entries generalizing log with
  | nil => exact ⟨.refl log, .nil⟩
  | cons entry rest ih =>
    have hrest : ∀ p, .ok p ∈ rest → ClaimedId log p.input.id :=
      fun p hp => hclaimed p (List.mem_cons_of_mem _ hp)
    cases entry with
    | error e =>
      refine Obeys.bind ((ih hrest).mono fun log' results h => ⟨h.1, .cons ?_ h.2⟩)
      intro profile heq
      cases heq
    | ok p =>
      refine Obeys.bind ((initializeObject_creates 2 (hclaimed p List.mem_cons_self)).mono ?_)
      rintro log₁ result ⟨hgrew₁, hinitialized⟩
      refine Obeys.bind ((ih fun p hp => (hrest p hp).subset hgrew₁.subset).mono ?_)
      rintro log₂ results ⟨hgrew₂, hresults⟩
      refine ⟨hgrew₁.trans hgrew₂, .cons (fun profile heq => ⟨p, rfl, ?_⟩) hresults⟩
      exact (hinitialized profile heq).subset hgrew₂.subset

/-- What a claim step leaves of the entries: those that it has claimed, and failures. -/
def Keeps (log : Log) (entries kept : List (Except CreateUserError Prepared)) : Prop :=
  List.Forall₂ (fun entry entry' => ∀ p, entry' = .ok p → entry = .ok p ∧
    ClaimedId log p.input.id) entries kept

/-- A log of claims that one more call of them extends. -/
theorem claiming_cons {entry : Entry Op.Answer} (hentry : isClaiming entry.1 = true)
    (hlog : ∀ e ∈ log, isClaiming e.1 = true) : ∀ e ∈ entry :: log, isClaiming e.1 = true :=
  List.forall_mem_cons.mpr ⟨hentry, hlog⟩

theorem claimEach_keeps (entries : List (Except CreateUserError Prepared))
    (hlog : ∀ entry ∈ log, isClaiming entry.1 = true) :
    Obeys CreationPermits (fun log' claimed => GrewBy log log' ∧
      ∀ kept, claimed = some kept → Keeps log' entries kept) log (claimEach entries) := by
  induction entries generalizing log with
  | nil =>
    refine ⟨.refl log, ?_⟩
    rintro _ ⟨⟩
    exact .nil
  | cons entry rest ih =>
    -- The lines after one go on from the longer log, whatever became of it.
    have hnext : ∀ (log₁ : Log) (entry' : Except CreateUserError Prepared), GrewBy log log₁ →
        (∀ e ∈ log₁, isClaiming e.1 = true) →
        (∀ p, entry' = .ok p → entry = .ok p ∧ ClaimedId log₁ p.input.id) →
        Obeys CreationPermits (fun log' claimed => GrewBy log log' ∧
          ∀ kept, claimed = some kept → Keeps log' (entry :: rest) kept) log₁
          (do return (← claimEach rest).map (entry' :: ·)) := by
      intro log₁ entry' hgrew hlog₁ hentry
      refine Obeys.bind ((ih hlog₁).mono ?_)
      rintro log₂ claimed ⟨hgrew₂, hkeeps⟩
      refine ⟨hgrew.trans hgrew₂, fun kept hkept => ?_⟩
      obtain ⟨kept', rfl, rfl⟩ := Option.map_eq_some_iff.mp hkept
      refine .cons (fun p heq => ?_) (hkeeps kept' rfl)
      obtain ⟨hsame, hclaimed⟩ := hentry p heq
      exact ⟨hsame, hclaimed.subset hgrew₂.subset⟩
    cases entry with
    | error e => exact hnext log (.error e) (.refl log) hlog (by intro p h; cases h)
    | ok p =>
      refine Obeys.perform hlog fun r => ?_
      cases r with
      | error e =>
        dsimp only
        split
        · exact ⟨.cons rfl, by intro kept h; cases h⟩
        · next failure _ =>
          exact hnext _ (.error failure) (.cons rfl) (claiming_cons rfl hlog)
            (by intro p h; cases h)
      | ok _ =>
        refine hnext _ (.ok p) (.cons rfl) (claiming_cons rfl hlog) fun p' heq => ?_
        cases heq
        exact ⟨rfl, p.claim, ⟨[p.claim], List.mem_cons_self, by simp⟩, rfl⟩

theorem claimAll_keeps (entries : List (Except CreateUserError Prepared))
    (hlog : ∀ entry ∈ log, isClaiming entry.1 = true) :
    Obeys CreationPermits (fun log' claimed => GrewBy log log' ∧
      ∀ kept, claimed = some kept → Keeps log' entries kept) log (claimAll entries) := by
  unfold claimAll
  split
  · next hnone =>
    refine ⟨.refl log, ?_⟩
    rintro _ ⟨⟩
    refine List.forall₂_same.mpr fun entry hentry p heq => ?_
    rw [heq, ← mem_preparedOf, List.isEmpty_iff.mp hnone] at hentry
    cases hentry
  · refine Obeys.perform hlog fun r => ?_
    cases r with
    | error e =>
      dsimp only
      split
      · exact ⟨.cons rfl, by intro kept h; cases h⟩
      · exact (claimEach_keeps entries (claiming_cons rfl hlog)).mono fun log' claimed h =>
          ⟨GrewBy.trans (.cons rfl) h.1, h.2⟩
    | ok _ =>
      refine ⟨.cons rfl, ?_⟩
      rintro _ ⟨⟩
      refine List.forall₂_same.mpr fun entry hentry p heq => ⟨heq, p.claim, ?_, rfl⟩
      rw [heq] at hentry
      exact ⟨_, List.mem_cons_self, List.mem_map_of_mem (mem_preparedOf.mpr hentry)⟩

theorem prepare_input {groupIds : List (String × String)} {now : ℤ} {input : NewUser}
    {p : Prepared} (h : prepare groupIds now input = .ok p) : p.input = input := by
  unfold prepare at h
  dsimp only at h
  split at h
  · cases h
  · split at h
    · cases h
    · cases h
      rfl

theorem mem_activations {entries : List (Except CreateUserError Prepared)}
    {results : List CreateUserResult} {p : Prepared} {profile : UserProfile}
    (h : (.ok p, .ok profile) ∈ entries.zip results) :
    p.input.id ∈ (activations entries results).map (·.1) :=
  List.mem_map.mpr ⟨(p.input.id, p.instant), List.mem_filterMap.mpr ⟨_, h, rfl⟩, rfl⟩

theorem initialized_of_activations {entries : List (Except CreateUserError Prepared)}
    {results : List CreateUserResult}
    (h : List.Forall₂ (fun entry result => ∀ profile, result = .ok profile →
      ∃ p, entry = .ok p ∧ Initialized log p.input.id) entries results) :
    ∀ row ∈ activations entries results, Initialized log row.1 := by
  intro row hrow
  obtain ⟨⟨entry, result⟩, hzip, hsome⟩ := List.mem_filterMap.mp hrow
  cases entry with
  | error e => cases hsome
  | ok p =>
    cases result with
    | error e => cases hsome
    | ok profile =>
      cases hsome
      obtain ⟨p', heq, hinitialized⟩ := List.forall₂_zip h hzip profile rfl
      cases heq
      exact hinitialized

/-- A user reported as created has been claimed, initialized and activated. -/
theorem createUsers_creates (inputs : List NewUser) (now : ℤ) :
    Obeys CreationPermits (fun log' outcome => ∀ results, outcome = some results →
      List.Forall₂ (fun input result => ∀ profile, result = .ok profile →
        Created log' input.id) inputs results) [] (createUsers inputs now) := by
  refine Obeys.perform trivial fun r => ?_
  cases r with
  | error e =>
    intro results h
    cases h
  | ok groupIds =>
    refine Obeys.bind ((claimAll_keeps _ (by simp [isClaiming])).mono ?_)
    rintro log₁ claimed ⟨hgrew₁, hkeeps⟩
    cases claimed with
    | none =>
      intro results h
      cases h
    | some kept =>
      have hkept := hkeeps kept rfl
      have hprepared : List.Forall₂ (fun input entry => ∀ p, entry = .ok p → p.input = input)
          inputs (inputs.map (prepare groupIds now)) := by
        rw [List.forall₂_map_right_iff, List.forall₂_same]
        exact fun input _ p heq => prepare_input heq
      have hclaimed : ∀ p, .ok p ∈ kept → ClaimedId log₁ p.input.id := by
        intro p hp
        obtain ⟨k, hk⟩ := List.mem_iff_get.mp hp
        have hlength := hkept.length_eq
        exact (hkept.get (by omega) k.2 p hk).2
      refine Obeys.bind ((initializeEach_creates kept hclaimed).mono ?_)
      rintro log₂ results ⟨hgrew₂, hresults⟩
      -- The rows to activate are those of the results that are profiles.
      have hdone : ∀ (log₃ : Log), log₂ ⊆ log₃ →
          (∀ uid ∈ (activations kept results).map (·.1), Activated log₃ uid) →
          List.Forall₂ (fun input result => ∀ profile, result = .ok profile →
            Created log₃ input.id) inputs results := by
        intro log₃ hsub hactivated
        have hzipped := List.forall₂_iff_zip.mpr ⟨hresults.length_eq, fun {entry result} hzip =>
          And.intro hzip (List.forall₂_zip hresults hzip)⟩
        have hboth := forall₂_comp (T := fun input entry => ∀ p, entry = .ok p →
          p.input = input ∧ ClaimedId log₁ p.input.id) (fun input entry entry' h h' p heq =>
            ⟨h p (h' p heq).1, (h' p heq).2⟩) hprepared hkept
        refine forall₂_comp (fun input entry result h h' profile heq => ?_) hboth hzipped
        obtain ⟨p, rfl, hinitialized⟩ := h'.2 profile heq
        obtain ⟨rfl, hclaim⟩ := h p rfl
        subst heq
        exact ⟨hclaim.subset (List.Subset.trans hgrew₂.subset hsub),
          hinitialized.subset hsub, hactivated _ (mem_activations h'.1)⟩
      split
      · next hempty =>
        rintro _ ⟨⟩
        refine hdone log₂ (List.Subset.refl log₂) fun uid huid => ?_
        rw [List.isEmpty_iff.mp hempty] at huid
        simp at huid
      · refine Obeys.perform ⟨?_, initialized_of_activations hresults⟩ fun r => ?_
        · exact (hgrew₁.trans hgrew₂).creating (by simp [isCreating])
        · cases r with
          | error e =>
            intro results h
            cases h
          | ok _ =>
            rintro _ ⟨⟩
            exact hdone _ (List.subset_cons_self _ _)
              fun uid huid => ⟨_, List.mem_cons_self, huid⟩

end Creation
end TinyOidc.Account
