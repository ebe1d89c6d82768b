import TinyOidc.Lib.Ensures
import TinyOidc.Registration.AllOrNothing
import TinyOidc.User.Passkeys

/-! What a refused registration leaves, when no storage fails. The invitation goes first and a
recovery ends the sessions before the passkey is added, so a refusal that is found after them has
its price. -/
namespace TinyOidc.Registration
open RowTable TinyOidc.Interaction TinyOidc.User TinyOidc.Util
open Threads (Prog)
open Threads.Prog (Ensures Yields only_true)

def Response.code : Response → Option String
  | .error _ code _ => some code
  | _ => none

def verificationCodes : List String := ["passkey_verification_failed", "passkey_not_discoverable"]

/-! ### Frames -/

/-- Nothing but interactions has changed. -/
structure SameStores (s s' : Deployment) : Prop where
  directory : s'.directory = s.directory
  credentials : s'.credentials = s.credentials
  invitations : s'.invitations = s.invitations
  users : s'.objects.users = s.objects.users

def Uses (s : Deployment) (id invitationId : String) : Prop :=
  ∃ doc challenge, (s.objects.interactions id).doc = some doc ∧
    doc.passkeyChallenge = some challenge ∧ challenge.invitationId = some invitationId

/-- Nothing but interactions and the invitation of this one has changed. -/
structure SpentInvitation (s : Deployment) (id : String) (s' : Deployment) : Prop where
  directory : s'.directory = s.directory
  credentials : s'.credentials = s.credentials
  users : s'.objects.users = s.objects.users
  invitations : ∀ invitationId, ¬ Uses s id invitationId →
    s'.invitations.find invitationId = s.invitations.find invitationId

section Frames
variable {s s' s'' : Deployment} {id : String}

theorem SameStores.refl (s : Deployment) : SameStores s s := ⟨rfl, rfl, rfl, rfl⟩

theorem SameStores.trans (h : SameStores s s') (h' : SameStores s' s'') : SameStores s s'' :=
  ⟨h'.directory.trans h.directory, h'.credentials.trans h.credentials,
    h'.invitations.trans h.invitations, h'.users.trans h.users⟩

end Frames

section Runs
variable (sha256 : String → Bytes) (oracle : Oracle) {α : Type} {s : Deployment}
  {post : Deployment → α → Prop}

/-- A question that the stores only read for. -/
theorem ensures_read {question : Question} {f : question.Answer → Handler α}
    (hread : (s.respond oracle question).1 = s)
    (h : ∀ answer, answer = (s.respond oracle question).2 →
      Ensures (Deployment.exec sha256 oracle) post s (f answer)) :
    Ensures (Deployment.exec sha256 oracle) post s (ask question >>= f) := by
  refine Ensures.perform ?_
  change Ensures _ _ (s.respond oracle question).1 (f (s.respond oracle question).2)
  rw [hread]
  exact h _ rfl

/-- A call of an interaction leaves everything else. -/
theorem ensures_interaction {id : String} {call : InteractionCall}
    {f : call.Answer → Handler α}
    (h : ∀ s' answer, SameStores s s' → answer = ((s.objects.interactions id).call call).2 →
      Ensures (Deployment.exec sha256 oracle) post s' (f answer)) :
    Ensures (Deployment.exec sha256 oracle) post s (interactionCall id call >>= f) :=
  Ensures.perform (h _ _ ⟨rfl, rfl, rfl, rfl⟩ rfl)

theorem ensures_user {uid : String} {call : Call} {f : Reply → Handler α}
    (h : Ensures (Deployment.exec sha256 oracle) post
      (s.setUser uid ((s.user uid).call sha256 call).1) (f ((s.user uid).call sha256 call).2)) :
    Ensures (Deployment.exec sha256 oracle) post s (userCall uid call >>= f) :=
  Ensures.perform h

/-! ### The guard -/

/-- What the guard lets through is the interaction's document and the settings. -/
def Guarding (s : Deployment) (r : ApiRequest) (s' : Deployment) :
    Except Response Guarded → Prop
  | .error response => SameStores s s' ∧
      ∃ code ∈ ["rate_limited", "interaction_not_found", "temporarily_unavailable",
        "origin_not_allowed", "interaction_binding_failed"], Response.code response = some code
  | .ok g => SameStores s s' ∧ g.id = r.id ∧ (s.objects.interactions r.id).doc = some g.doc ∧
      oracle .settings = some g.settings

theorem guard_ensures (r : ApiRequest) (isGet : Bool) :
    Ensures (Deployment.exec sha256 oracle) (Guarding oracle s r) s
      (Interaction.guard r isGet) := by
  unfold Interaction.guard
  refine ensures_read sha256 oracle rfl fun limited _ => ?_
  split
  · exact ⟨.refl s, _, by simp, rfl⟩
  split
  · exact ⟨.refl s, _, by simp, rfl⟩
  refine ensures_read sha256 oracle rfl fun settings hsettings => ?_
  cases settings with
  | none => exact ⟨.refl s, _, by simp, rfl⟩
  | some settings =>
    dsimp only
    split
    · exact ⟨.refl s, _, by simp, rfl⟩
    cases r.binding with
    | none => exact ⟨.refl s, _, by simp, rfl⟩
    | some binding =>
      dsimp only
      split
      · exact ⟨.refl s, _, by simp, rfl⟩
      refine ensures_read sha256 oracle rfl fun now _ => ?_
      refine ensures_interaction sha256 oracle fun s' got hsame hgot => ?_
      cases got with
      | error e => exact ⟨hsame, _, by simp, rfl⟩
      | ok doc =>
        dsimp only
        split
        · exact ⟨hsame, _, by simp, rfl⟩
        split
        · exact ⟨hsame, _, by simp, rfl⟩
        split
        · exact ⟨hsame, _, by simp, rfl⟩
        · refine ⟨hsame, rfl, ?_, hsettings.symm⟩
          have hget : (s.objects.interactions r.id).get now = .ok doc := hgot.symm
          exact InteractionObject.get_ok hget

theorem countAttempt_ensures (g : Guarded) :
    Ensures (Deployment.exec sha256 oracle) (fun s' refused => SameStores s s' ∧
      ∀ response, refused = some response → Response.code response = some "too_many_attempts") s
      (countAttempt g) := by
  refine ensures_interaction sha256 oracle fun s' counted hsame _ => ?_
  cases counted with
  | error e => exact ⟨hsame, by rintro response ⟨⟩; rfl⟩
  | ok attempts => exact ⟨hsame, by rintro response ⟨⟩⟩

/-! ### The invitation -/

def spend (s : Deployment) (now : ℤ) : Option String → Deployment
  | none => s
  | some invitationId => (s.consumeInvitation invitationId now).1

theorem find_spend {s : Deployment} {now : ℤ} {invitationId : Option String} {other : String}
    (h : invitationId ≠ some other) :
    (spend s now invitationId).invitations.find other = s.invitations.find other := by
  cases invitationId with
  | none => rfl
  | some invitationId =>
    have hne : invitationId ≠ other := fun heq => h (congrArg some heq)
    have hfind : (spend s now (some invitationId)).invitations.find other =
        (s.invitations.find other).map fun row =>
          if row.id == invitationId && isOpen now row then { row with usedAt := some now }
          else row := by
      simp only [spend, Deployment.consumeInvitation]
      exact Table.find_updateWhere other
    rw [hfind]
    cases hrow : s.invitations.find other with
    | none => rfl
    | some row =>
      have hid : row.id = other := (Table.find_eq_some.mp hrow).2
      have hspared : (row.id == invitationId) = false := by
        rw [hid]
        exact beq_eq_false_iff_ne.mpr hne.symm
      simp only [Option.map_some, hspared, Bool.false_and, Bool.false_eq_true, if_false]

/-- An invitation that is not open stays as it is. -/
theorem consumeInvitation_refused {s : Deployment} {id : String} {now : ℤ}
    (h : (s.consumeInvitation id now).2 = false) : (s.consumeInvitation id now).1 = s := by
  have hclosed : ∀ row ∈ s.invitations.rows, (row.id == id && isOpen now row) = true →
      { row with usedAt := some now } = row := by
    intro row hrow hopen
    rw [Bool.and_eq_true, beq_iff_eq] at hopen
    have hfind : s.invitations.find id = some row := Table.find_eq_some.mpr ⟨hrow, hopen.1⟩
    simp [Deployment.consumeInvitation, hfind, hopen.2] at h
  have hsame : s.invitations.updateWhere (fun row => row.id == id && isOpen now row)
      (fun row => { row with usedAt := some now }) (fun _ => rfl) = s.invitations :=
    Table.updateWhere_self hclosed
  simp only [Deployment.consumeInvitation, hsame]

theorem takeInvitation_ensures (invitationId : Option String) (uid : String) (now : ℤ) :
    Ensures (Deployment.exec sha256 oracle) (fun s' refused =>
      (refused = none ∧ s' = spend s now invitationId) ∨
        s' = s ∧ ∃ fault, refused = some (invitationRefused fault)) s
      (takeInvitation invitationId uid now) := by
  cases invitationId with
  | none => exact .inl ⟨rfl, rfl⟩
  | some invitationId =>
    unfold takeInvitation
    refine Ensures.perform ?_
    change Ensures _ _ (s.consumeInvitation invitationId now).1
      (if (s.consumeInvitation invitationId now).2 = true then _ else _)
    by_cases hconsumed : (s.consumeInvitation invitationId now).2 = true
    · rw [if_pos hconsumed]
      exact .inl ⟨rfl, rfl⟩
    · rw [if_neg hconsumed, consumeInvitation_refused (by simpa using hconsumed)]
      refine ensures_read sha256 oracle rfl fun row _ => ?_
      cases row with
      | none => exact .inr ⟨rfl, _, rfl⟩
      | some row => exact .inr ⟨rfl, _, rfl⟩

/-! ### The account -/

/-- Only the account and its object have changed, and the object's passkeys have not: a registration
leaves its sessions and families, a recovery the account. -/
structure AccountReady (s : Deployment) (uid : String) (kind : RegistrationKind) (s' : Deployment) :
    Prop where
  credentials : s'.credentials = s.credentials
  invitations : s'.invitations = s.invitations
  others : ∀ other, other ≠ uid → s'.user other = s.user other
  passkeys : (s'.user uid).tables.passkeys = (s.user uid).tables.passkeys
  register : kind = .register → (s'.user uid).tables.sessions = (s.user uid).tables.sessions ∧
    (s'.user uid).tables.refreshFamilies = (s.user uid).tables.refreshFamilies
  recover : kind = .recover → s'.directory = s.directory ∧
    (s'.user uid).tables.user = (s.user uid).tables.user

theorem AccountReady.refl (s : Deployment) (uid : String) (kind : RegistrationKind) :
    AccountReady s uid kind s :=
  ⟨rfl, rfl, fun _ _ => rfl, rfl, fun _ => ⟨rfl, rfl⟩, fun _ => ⟨rfl, rfl⟩⟩

theorem AccountReady.registered {s s' : Deployment} {uid : String}
    (h : AccountReady s uid .register s') (d : Account.Directory) {o : UserObject}
    (hpasskeys : o.tables.passkeys = (s'.user uid).tables.passkeys)
    (hsessions : o.tables.sessions = (s'.user uid).tables.sessions)
    (hfamilies : o.tables.refreshFamilies = (s'.user uid).tables.refreshFamilies) :
    AccountReady s uid .register { s'.setUser uid o with directory := d } := by
  have hobject : ({ s'.setUser uid o with directory := d } : Deployment).user uid = o :=
    s'.user_setUser uid o
  constructor
  · exact h.credentials
  · exact h.invitations
  · intro other hother
    rw [← h.others other hother]
    exact Function.update_of_ne hother o s'.objects.users
  · rw [hobject, hpasskeys, h.passkeys]
  · intro _
    rw [hobject, hsessions, hfamilies]
    exact h.register rfl
  · rintro ⟨⟩

/-- An initialization leaves the passkeys, the sessions and the families. -/
theorem init_keeps (o : UserObject) (p : InitProfile) (now : ℤ) (identities : List NewIdentity) :
    (o.init p now identities).1.tables.passkeys = o.tables.passkeys ∧
      (o.init p now identities).1.tables.sessions = o.tables.sessions ∧
      (o.init p now identities).1.tables.refreshFamilies = o.tables.refreshFamilies := by
  unfold UserObject.init
  split
  · exact ⟨rfl, rfl, rfl⟩
  split
  · split <;> exact ⟨rfl, rfl, rfl⟩
  split
  · exact ⟨rfl, rfl, rfl⟩
  next t ht =>
    have hcore := insertIdentities_sameCore ht
    exact ⟨(insertIdentities_passkeys ht).trans rfl, hcore.sessions, hcore.families⟩

theorem initializeUser_ensures (p : InitProfile) (now : ℤ) (identities : List NewIdentity)
    {s₀ : Deployment} (h : AccountReady s₀ p.id .register s) :
    Ensures (Deployment.exec sha256 oracle) (fun s' result => AccountReady s₀ p.id .register s' ∧
      result ≠ .error .accountExists) s (initializeUser p now identities) := by
  have hinit : ∀ s, AccountReady s₀ p.id .register s → AccountReady s₀ p.id .register
      (s.setUser p.id ((s.user p.id).call sha256 (.init p now identities)).1) := by
    intro s hready
    obtain ⟨hpasskeys, hsessions, hfamilies⟩ := init_keeps (s.user p.id) p now identities
    exact hready.registered s.directory hpasskeys hsessions hfamilies
  unfold initializeUser
  refine ensures_user sha256 oracle ?_
  split
  · exact ⟨hinit s h, by simp⟩
  · exact ⟨hinit s h, by simp⟩
  · refine ensures_user sha256 oracle ?_
    split
    · exact ⟨hinit _ (hinit s h), by simp⟩
    · exact ⟨hinit _ (hinit s h), by simp⟩

theorem createUser_ensures (user : NewUser) (now : ℤ) :
    Ensures (Deployment.exec sha256 oracle) (fun s' result =>
      (result = .error .accountExists → s' = s) ∧
        ∀ profile, result = .ok profile → AccountReady s user.id .register s') s
      (createUser user now) := by
  have hnormalized : ∀ (email : Option String), Ensures (Deployment.exec sha256 oracle)
      (fun s' _ => s' = s) s (normalizedEmail email) := by
    intro email
    cases email <;> rfl
  unfold createUser
  refine Ensures.bind ((hnormalized _).mono ?_)
  intro _ emailNorm hsame
  rw [hsame]
  refine Ensures.perform ?_
  cases hclaim : Identity.claimUser s.directory user now with
  | error e =>
    have hexec : s.exec sha256 oracle (.ask (.claimUser user now)) = (s, .error e) := by
      simp only [Deployment.exec, Deployment.respond, Identity.respond, hclaim]
    rw [hexec]
    exact ⟨fun _ => rfl, by rintro profile ⟨⟩⟩
  | ok d =>
    have hexec : s.exec sha256 oracle (.ask (.claimUser user now)) =
        ({ s with directory := d }, .ok ()) := by
      simp only [Deployment.exec, Deployment.respond, Identity.respond, hclaim]
    have hready : AccountReady s user.id .register { s with directory := d } := by
      have hsame := (AccountReady.refl s user.id .register).registered d rfl rfl rfl
      rwa [Deployment.setUser_user] at hsame
    rw [hexec]
    refine Ensures.bind ((initializeUser_ensures sha256 oracle _ now user.identities
      hready).mono ?_)
    rintro s' result ⟨hready', hresult⟩
    cases result with
    | error e => exact ⟨fun hexists => absurd hexists hresult, by rintro profile ⟨⟩⟩
    | ok profile =>
      refine Ensures.perform ⟨by rintro ⟨⟩, fun _ _ => ?_⟩
      have hactive := hready'.registered (Identity.activateUser s'.directory user.id) rfl rfl rfl
      rwa [Deployment.setUser_user] at hactive

/-- How a registration comes to its account: an account that exists changes nothing. -/
def AccountEnds (s : Deployment) (uid : String) (kind : RegistrationKind) (s' : Deployment) :
    Except Response UserProfile → Prop
  | .error response => (Response.code response = some "account_exists" → s' = s) ∧
      Response.code response ∉
        ["passkey_limit_reached", "passkey_verification_failed",
          "passkey_not_discoverable"].map some
  | .ok _ => AccountReady s uid kind s'

theorem getProfile_keeps (s : Deployment) (uid : String) :
    s.setUser uid ((s.user uid).call sha256 .getProfile).1 = s := by
  have hobject : ((s.user uid).call sha256 .getProfile).1 = s.user uid := by
    simp only [UserObject.call, answered, UserObject.getProfile, UserObject.guarded]
    split <;> rfl
  rw [hobject, Deployment.setUser_user]

theorem registrationAccount_ensures (uid : String) (draft : RegistrationDraft) (now : ℤ) :
    Ensures (Deployment.exec sha256 oracle) (AccountEnds s uid draft.kind) s
      (registrationAccount uid draft now) := by
  unfold registrationAccount
  cases hkind : draft.kind with
  | register =>
    refine Ensures.bind ((createUser_ensures sha256 oracle _ now).mono ?_)
    rintro s' result ⟨hexists, hready⟩
    cases result with
    | ok profile => exact hready profile rfl
    | error e =>
      cases e with
      | accountExists => exact ⟨fun _ => hexists rfl, by simp [Response.code]⟩
      | _ => exact ⟨by simp [Response.code], by simp [Response.code]⟩
  | recover =>
    refine ensures_user sha256 oracle ?_
    rw [getProfile_keeps]
    split
    · refine ensures_user sha256 oracle ?_
      have hkept := call_account sha256 (s.user uid) (c := .revokeAll now "recover") rfl rfl
      refine ⟨rfl, rfl, fun other hother => ?_, ?_, by rintro ⟨⟩, fun _ => ⟨rfl, ?_⟩⟩
      · exact Function.update_of_ne hother _ s.objects.users
      · simp only [Prog.run_pure, Deployment.user_setUser, hkept.passkeys]
      · simp only [Prog.run_pure, Deployment.user_setUser, hkept.user]
    · exact ⟨by simp [Response.code, invitationRefused, InvitationFault.text],
        by simp [Response.code, invitationRefused, InvitationFault.text]⟩
    · exact ⟨by simp [Response.code], by simp [Response.code]⟩

/-! ### The passkey -/

theorem addPasskey_limit (o : UserObject) (p : NewPasskey) (now : ℤ) (maxPerUser : ℕ)
    (h : (o.addPasskey p now maxPerUser).2 = .fail .passkeyLimitReached) :
    (o.addPasskey p now maxPerUser).1 = o ∧ maxPerUser ≤ o.tables.passkeys.rows.length := by
  unfold UserObject.addPasskey UserObject.guarded at h ⊢
  cases hguard : o.guard with
  | error e =>
    rw [hguard] at h
    unfold UserObject.guard at hguard
    split at hguard
    · cases hguard
      cases h
    split at hguard
    · cases hguard
      cases h
    · cases hguard
  | ok user =>
    simp only [hguard] at h ⊢
    by_cases hfull : maxPerUser ≤ o.tables.passkeys.rows.length
    · exact ⟨by rw [if_pos hfull], hfull⟩
    · rw [if_neg hfull] at h
      split at h
      · cases h
      · split at h <;> cases h

theorem registerPasskey_ensures (uid : String) (p : NewPasskey) (now : ℤ) (maxPerUser : ℕ) :
    Ensures (Deployment.exec sha256 oracle) (fun s' result =>
      result = .error .passkeyLimitReached →
        s' = s ∧ maxPerUser ≤ (s.user uid).tables.passkeys.rows.length) s
      (registerPasskey uid p now maxPerUser) := by
  unfold registerPasskey
  refine ensures_read sha256 oracle rfl fun holder _ => ?_
  split
  · rintro ⟨⟩
  refine ensures_user sha256 oracle ?_
  have hlimit := addPasskey_limit (s.user uid) p now maxPerUser
  split
  · next added hadded =>
    refine Ensures.bind ((only_true _).yields.ensures.mono fun s' outcome _ => ?_)
    cases outcome with
    | claimed => rintro ⟨⟩
    | _ =>
      refine ensures_user sha256 oracle ?_
      rintro ⟨⟩
  · rintro ⟨⟩
  · next hanswer =>
    intro _
    obtain ⟨hobject, hfull⟩ := hlimit (by simpa [UserObject.call, answered] using hanswer)
    refine ⟨?_, hfull⟩
    change s.setUser uid (s.user uid |>.addPasskey p now maxPerUser).1 = s
    rw [hobject, Deployment.setUser_user]
  · rintro ⟨⟩

/-! ### The verified registration -/

/-- What the refusal of a full object leaves: the invitation is spent, the account of a new user
is there, and the sessions of a recovered one are revoked. -/
structure LimitEnds (s : Deployment) (uid : String) (invitationId : Option String)
    (kind : RegistrationKind) (s' : Deployment) : Prop where
  credentials : s'.credentials = s.credentials
  invitations : ∀ other, invitationId ≠ some other →
    s'.invitations.find other = s.invitations.find other
  others : ∀ other, other ≠ uid → s'.user other = s.user other
  register : kind = .register → (s'.user uid).tables.sessions = (s.user uid).tables.sessions ∧
    (s'.user uid).tables.refreshFamilies = (s.user uid).tables.refreshFamilies
  recover : kind = .recover → s'.directory = s.directory ∧
    (s'.user uid).tables.user = (s.user uid).tables.user

structure VerifiedEnds (s : Deployment) (maxPerUser : ℕ) (now : ℤ) (uid : String)
    (invitationId : Option String) (kind : RegistrationKind) (s' : Deployment)
    (response : Response) : Prop where
  verified : Response.code response ∉ verificationCodes.map some
  exists_ : Response.code response = some "account_exists" → s' = spend s now invitationId
  full : Response.code response = some "passkey_limit_reached" →
    maxPerUser ≤ (s.user uid).tables.passkeys.rows.length ∧ LimitEnds s uid invitationId kind s'

theorem spend_eq (s : Deployment) (now : ℤ) (invitationId : Option String) :
    (spend s now invitationId).directory = s.directory ∧
      (spend s now invitationId).credentials = s.credentials ∧
      (spend s now invitationId).objects = s.objects := by
  cases invitationId <;> exact ⟨rfl, rfl, rfl⟩

theorem limitEnds_of_ready {s s' : Deployment} {now : ℤ} {uid : String}
    {invitationId : Option String} {kind : RegistrationKind}
    (h : AccountReady (spend s now invitationId) uid kind s') :
    LimitEnds s uid invitationId kind s' := by
  obtain ⟨hdirectory, hcredentials, hobjects⟩ := spend_eq s now invitationId
  have huser : ∀ other, (spend s now invitationId).user other = s.user other := by
    intro other
    rw [Deployment.user, hobjects, Deployment.user]
  constructor
  · rw [h.credentials, hcredentials]
  · intro other hother
    rw [h.invitations, find_spend hother]
  · intro other hother
    rw [h.others other hother, huser]
  · intro hkind
    rw [← huser]
    exact h.register hkind
  · intro hkind
    rw [← huser, ← hdirectory]
    exact h.recover hkind

theorem authenticateInteraction_code (g : Guarded) (client : Client) (profile : UserProfile)
    (method : AuthMethod) (operation : InteractionOperation) :
    (authenticateInteraction g client profile method operation).Yields (fun _ => True)
      fun response => Response.code response = none := by
  unfold authenticateInteraction
  split
  · exact Yields.perform trivial fun _ => rfl
  · refine Yields.bind (only_true _).yields fun needed _ => ?_
    refine Yields.perform trivial fun applied => ?_
    cases applied <;> rfl

theorem registerVerified_ensures (g : Guarded) (uid : String) (invitationId : Option String)
    (draft : RegistrationDraft) (verified : VerifiedPasskey) (name : Option String) :
    Ensures (Deployment.exec sha256 oracle)
      (VerifiedEnds s g.settings.maxPerUser g.now uid invitationId draft.kind) s
      (registerVerified g uid invitationId draft verified name) := by
  have hother : ∀ (s' : Deployment) {response : Response},
      Response.code response ∉ ["account_exists", "passkey_limit_reached",
        "passkey_verification_failed", "passkey_not_discoverable"].map some →
      VerifiedEnds s g.settings.maxPerUser g.now uid invitationId draft.kind s' response := by
    intro s' response hcode
    simp only [List.map_cons, List.map_nil, List.mem_cons, not_or] at hcode
    exact ⟨by simp [verificationCodes, hcode], fun h => absurd h hcode.1,
      fun h => absurd h hcode.2.1⟩
  unfold registerVerified
  refine Ensures.bind ((takeInvitation_ensures sha256 oracle invitationId uid g.now).mono ?_)
  rintro s₁ refused (⟨rfl, hspent⟩ | ⟨-, fault, rfl⟩)
  · refine Ensures.bind ((registrationAccount_ensures sha256 oracle uid draft g.now).mono ?_)
    intro s₂ result haccount
    rw [hspent] at haccount
    cases result with
    | error response =>
      obtain ⟨hexists, hcode⟩ := haccount
      simp only [List.map_cons, List.map_nil, List.mem_cons, not_or] at hcode
      exact ⟨by simp [verificationCodes, hcode], hexists, fun h => absurd h hcode.1⟩
    | ok profile =>
      refine ensures_read sha256 oracle rfl fun id _ => ?_
      refine Ensures.bind ((registerPasskey_ensures sha256 oracle uid _ g.now _).mono ?_)
      intro s₃ registered hlimit
      cases registered with
      | error e =>
        cases e with
        | passkeyLimitReached =>
          obtain ⟨hsame, hfull⟩ := hlimit rfl
          have hrows : (s₂.user uid).tables.passkeys = (s.user uid).tables.passkeys := by
            rw [haccount.passkeys, Deployment.user, (spend_eq s g.now invitationId).2.2,
              Deployment.user]
          refine ⟨by simp [Response.code, verificationCodes], by simp [Response.code], fun _ => ?_⟩
          rw [hsame, ← hrows]
          exact ⟨hfull, limitEnds_of_ready haccount⟩
        | _ => exact hother s₃ (by simp [Response.code])
      | ok passkey =>
        have hclient : (interactionClient g.doc).Yields (fun _ => True) fun _ => True :=
          (only_true _).yields
        refine Ensures.bind (hclient.ensures.mono fun s₄ client _ => ?_)
        cases client with
        | none => exact hother s₄ (by simp [Response.code, clientUnavailable])
        | some client =>
          refine (authenticateInteraction_code g client profile _ _).ensures.mono ?_
          intro s₅ response hcode
          exact hother s₅ (by simp [hcode])
  · cases fault <;> exact hother s₁
      (by simp [Response.code, invitationRefused, InvitationFault.text])

/-! ### The handler -/

def Pending (s : Deployment) (id uid : String) (invitationId : Option String)
    (draft : RegistrationDraft) : Prop :=
  ∃ doc challenge, (s.objects.interactions id).doc = some doc ∧
    doc.passkeyChallenge = some challenge ∧ challenge.pendingUid = some uid ∧
    challenge.invitationId = invitationId ∧ doc.registration = some draft

structure RefusalCosts (s : Deployment) (id : String) (s' : Deployment) (response : Response) :
    Prop where
  unverified : ∀ code ∈ verificationCodes, Response.code response = some code → SameStores s s'
  exists_ : Response.code response = some "account_exists" → SpentInvitation s id s'
  full : Response.code response = some "passkey_limit_reached" →
    ∃ uid invitationId draft settings, Pending s id uid invitationId draft ∧
      oracle .settings = some settings ∧
      settings.maxPerUser ≤ (s.user uid).tables.passkeys.rows.length ∧
      LimitEnds s uid invitationId draft.kind s'

theorem SameStores.user {s s' : Deployment} (h : SameStores s s') (uid : String) :
    s'.user uid = s.user uid := by
  rw [Deployment.user, h.users, Deployment.user]

theorem LimitEnds.of_same {s s' s'' : Deployment} {uid : String} {invitationId : Option String}
    {kind : RegistrationKind} (h : LimitEnds s' uid invitationId kind s'')
    (hsame : SameStores s s') :
    LimitEnds s uid invitationId kind s'' := by
  constructor
  · rw [h.credentials, hsame.credentials]
  · intro other hother
    rw [h.invitations other hother, hsame.invitations]
  · intro other hother
    rw [h.others other hother, hsame.user]
  · intro hkind
    rw [← hsame.user]
    exact h.register hkind
  · intro hkind
    rw [← hsame.user, ← hsame.directory]
    exact h.recover hkind

theorem refusalCosts_of_verified {s s' s'' : Deployment} {id uid : String} {settings : Settings}
    {now : ℤ} {invitationId : Option String} {draft : RegistrationDraft} {response : Response}
    (hsame : SameStores s s') (hsettings : oracle .settings = some settings)
    (hpending : Pending s id uid invitationId draft)
    (h : VerifiedEnds s' settings.maxPerUser now uid invitationId draft.kind s'' response) :
    RefusalCosts oracle s id s'' response := by
  constructor
  · intro code hmem hcode
    exact absurd (List.mem_map_of_mem hmem) (hcode ▸ h.verified)
  · intro hcode
    obtain ⟨hdirectory, hcredentials, hobjects⟩ := spend_eq s' now invitationId
    have hspent := h.exists_ hcode
    constructor
    · rw [hspent, hdirectory, hsame.directory]
    · rw [hspent, hcredentials, hsame.credentials]
    · rw [hspent, hobjects, hsame.users]
    · intro other hother
      have hne : invitationId ≠ some other := by
        rintro rfl
        obtain ⟨doc, challenge, hdoc, hchallenge, -, hinvitation, -⟩ := hpending
        exact hother ⟨doc, challenge, hdoc, hchallenge, hinvitation⟩
      rw [hspent, find_spend hne, hsame.invitations]
  · intro hcode
    obtain ⟨hfull, hends⟩ := h.full hcode
    rw [hsame.user] at hfull
    exact ⟨uid, invitationId, draft, settings, hpending, hsettings, hfull, hends.of_same hsame⟩

theorem registerVerifyHandler_ensures (r : ApiRequest) (malformed : Bool) (name : Option String) :
    Ensures (Deployment.exec sha256 oracle) (RefusalCosts oracle s r.id) s
      (registerVerifyHandler r malformed name) := by
  -- A response before the invitation goes leaves the stores, and is no other refusal.
  have hearly : ∀ (s' : Deployment) {response : Response}, SameStores s s' →
      Response.code response ∉ ["account_exists", "passkey_limit_reached"].map some →
      RefusalCosts oracle s r.id s' response := by
    intro s' response hsame hcode
    simp only [List.map_cons, List.map_nil, List.mem_cons, not_or] at hcode
    exact ⟨fun _ _ _ => hsame, fun h => absurd h hcode.1, fun h => absurd h hcode.2.1⟩
  unfold registerVerifyHandler
  refine Ensures.bind ((guard_ensures sha256 oracle r false).mono ?_)
  intro s₁ guarded hguard
  cases guarded with
  | error response =>
    obtain ⟨hsame, code, hmem, hcode⟩ := hguard
    have hnone : Response.code response ∉ ["account_exists", "passkey_limit_reached"].map some := by
      rw [hcode]
      simp only [List.mem_cons, List.not_mem_nil, or_false] at hmem
      rcases hmem with rfl | rfl | rfl | rfl | rfl <;> simp
    exact hearly s₁ hsame hnone
  | ok g =>
    obtain ⟨hsame, -, hdoc, hsettings⟩ := hguard
    dsimp only
    split
    · exact hearly s₁ hsame (by simp [Response.code, invalidState])
    refine Ensures.bind ((countAttempt_ensures sha256 oracle g).mono ?_)
    rintro s₂ counted ⟨hcounted, hrefused⟩
    have hsame₂ := hsame.trans hcounted
    cases counted with
    | some refused => exact hearly s₂ hsame₂ (by simp [hrefused refused rfl])
    | none =>
      dsimp only
      split
      · exact hearly s₂ hsame₂ (by simp [Response.code])
      split
      · exact hearly s₂ hsame₂ (by simp [Response.code])
      · next name' _ =>
        refine ensures_interaction sha256 oracle fun s₃ _ hpatched _ => ?_
        have hsame₃ := hsame₂.trans hpatched
        split
        · next value expiresAt uid invitationId draft hchallenge hdraft =>
          refine ensures_read sha256 oracle rfl fun verified _ => ?_
          split
          · exact hearly s₃ hsame₃ (by simp [Response.code])
          · exact hearly s₃ hsame₃ (by simp [Response.code])
          · next verified _ =>
            refine ensures_read sha256 oracle rfl fun holder _ => ?_
            split
            · exact hearly s₃ hsame₃ (by simp [Response.code])
            · refine (registerVerified_ensures sha256 oracle g uid invitationId draft verified
                name').mono ?_
              intro s₄ response hends
              have hchallenge := (Option.filter_eq_some_iff.mp hchallenge).1
              exact refusalCosts_of_verified oracle hsame₃ hsettings
                ⟨g.doc, _, hdoc, hchallenge, rfl, rfl, hdraft⟩ hends
        · exact hearly s₃ hsame₃ (by simp [Response.code, verificationFailed])

end Runs

def verification (sha256 : String → Bytes) (oracle : Oracle) (s : Deployment) (r : ApiRequest)
    (malformed : Bool) (name : Option String) : Deployment × Response :=
  (registerVerifyHandler r malformed name).run (Deployment.exec sha256 oracle) s

/-- A failed verification leaves every store. An account that exists costs the invitation and
nothing else. A full object was full before, and costs the invitation and, by recovery, the
sessions; a recovery creates neither a row nor an object. -/
theorem registration_refused (sha256 : String → Bytes) (oracle : Oracle) (s : Deployment)
    (r : ApiRequest) (malformed : Bool) (name : Option String) :
    RefusalCosts oracle s r.id (verification sha256 oracle s r malformed name).1
      (verification sha256 oracle s r malformed name).2 :=
  registerVerifyHandler_ensures sha256 oracle r malformed name

/-! ### A recovery of a full account -/

namespace Sample

def full : Deployment where
  objects :=
    { interactions := fun _ => ⟨some
        { id := Interaction.Sample.ix, kind := .authorize, status := .loginRequired, createdAt := 0,
          expiresAt := 600, bindingHash := encodeBase64Url [1], clientId := none, request := none,
          existingSession := none,
          passkeyChallenge := some ⟨"text", 300, some "u1", some "i1"⟩,
          registration := some ⟨.recover, none, false, none, []⟩, federation := none, link := none,
          auth := none, consent := none, logout := none, error := none, attempts := 0,
          parConsumed := false, completing := false }, none⟩
      users := fun _ => ((member.user "u1").addPasskey passkey 0 20).1 }
  directory := member.directory
  credentials := ⟨[⟨"c1", "u1", 0⟩], by simp⟩
  invitations := ⟨[⟨"i1", .recover, some "u1", none, false, none, [], 900, none⟩], by simp⟩

/-- One passkey a user, and a ceremony that proves another. -/
def ceremony : Oracle
  | .settings => some { Interaction.Sample.settings with maxPerUser := 1 }
  | .verifyRegistration _ => .ok ⟨"c2", [], -7, 0, [], none, false, false⟩
  | question => oracle question

def refused : Deployment × Response :=
  verification (fun _ => []) ceremony full (Interaction.Sample.api Interaction.Sample.ix) false none

theorem refused_response :
    refused.2 = .error 403 "passkey_limit_reached" "too many passkeys" := by rfl

theorem refused_invitation : (refused.1.invitations.find "i1").map (·.usedAt) = some (some 10) := by
  rfl

end Sample

/-- The invitation of the interaction is as it was, no row and no object is new, and no session or
family has been revoked. -/
structure CostsNothing (s : Deployment) (id : String) (s' : Deployment) : Prop where
  invitation : ∀ invitationId, Uses s id invitationId →
    s'.invitations.find invitationId = s.invitations.find invitationId
  rows : ∀ uid, s.directory.getUser uid = none → s'.directory.getUser uid = none
  objects : ∀ uid, (s.user uid).tables.user = none → (s'.user uid).tables.user = none
  sessions : ∀ uid, (s'.user uid).tables.sessions = (s.user uid).tables.sessions ∧
    (s'.user uid).tables.refreshFamilies = (s.user uid).tables.refreshFamilies

/-- The recovery of an account that is full takes its invitation. -/
theorem refusal_has_cost :
    ¬ ∀ (sha256 : String → Bytes) (oracle : Oracle) (s : Deployment) (r : ApiRequest)
      (malformed : Bool) (name : Option String) (code : String),
      code ∈ verificationCodes ++ ["account_exists", "passkey_limit_reached"] →
      Response.code (verification sha256 oracle s r malformed name).2 = some code →
      CostsNothing s r.id (verification sha256 oracle s r malformed name).1 := by
  intro hall
  have hfree : CostsNothing Sample.full Interaction.Sample.ix Sample.refused.1 :=
    hall (fun _ => []) Sample.ceremony Sample.full (Interaction.Sample.api Interaction.Sample.ix)
      false none "passkey_limit_reached" (by simp) (congrArg Response.code Sample.refused_response)
  have hkept := congrArg (Option.map (·.usedAt)) (hfree.invitation "i1" ⟨_, _, rfl, rfl, rfl⟩)
  rw [Sample.refused_invitation] at hkept
  cases hkept

end TinyOidc.Registration
