import TinyOidc.Account.Creation
import TinyOidc.Account.Import
import TinyOidc.Oidc.Handles

/-! Which stored users the routes, the handles and the authenticators' user handles can name. Ids
are drawn in lowercase, and an imported line brings its own. -/
namespace TinyOidc.Account
open RowTable TinyOidc.User TinyOidc.Util TinyOidc.Crypto TinyOidc.Oidc Chunks
open Threads (Prog Entry Label Thread Config System arrivals)
open Threads.Prog (Only Yields)
open Batches (bind_eq_ok)

/-- The user handle an authenticator is given: the bytes of the UUID, in base64url. -/
def userHandleOf (uid : String) : Option String := (uuidToBytes uid).map encodeBase64Url

/-- The user id inside a user handle (`src/interaction/passkey.ts`). -/
def uidFromUserHandle : Option String → Except Thrown (Option String)
  | none => .ok none
  | some userHandle =>
    match decodeBase64Url userHandle with
    | .error e => .error e
    | .ok none => .ok none
    | .ok (some bytes) =>
      if bytes.length = 16 then (bytesToUuid bytes).map some else .ok none

/-- What takes the id of a stored user takes this one. -/
structure Addressable (gcm : Gcm) (sha256 : Bytes → Bytes) (id : String) : Prop where
  uuid : isUuid id = true
  bytes : ∃ bytes, uuidToBytes id = some bytes ∧ bytesToUuid bytes = .ok id
  found : ∀ (hash : String → Bytes) (w : World) (row : RegistryUser),
    w.directory.getUser id = some row → row.status ≠ .creating →
    ((loadUser id).run (fun w op => w.exec hash .none op) w).2 = .ok row
  session : ∀ (keys : DerivedKeys) (sid : String) (secret : Bytes), isUuid sid = true →
    secret.length = 32 → Seals keys (sealSessionHandle gcm keys · id sid secret)
      (openSessionHandle gcm · sha256 ·) ⟨id, sid, sha256 secret⟩
  code : ∀ (keys : DerivedKeys) (secret : Bytes), secret.length = 32 →
    Seals keys (sealCodeHandle gcm keys · id secret)
      (openCodeHandle gcm · sha256 ·) ⟨id, sha256 secret⟩
  refresh : ∀ (keys : DerivedKeys) (family : String) (secret : Bytes), isUuid family = true →
    secret.length = 32 → Seals keys (sealRefreshHandle gcm keys · id family secret)
      (openRefreshHandle gcm · sha256 ·) ⟨id, family, sha256 secret⟩
  userHandle : ∃ userHandle, userHandleOf id = some userHandle ∧
    uidFromUserHandle (some userHandle) = .ok (some id)

/-! ### UUIDs are addressable -/

theorem loadUser_of_isUuid {id : String} (hid : isUuid id = true) (hash : String → Bytes)
    {w : World} {row : RegistryUser} (hrow : w.directory.getUser id = some row)
    (hstatus : row.status ≠ .creating) :
    ((loadUser id).run (fun w op => w.exec hash .none op) w).2 = .ok row := by
  have hanswer : (w.exec hash .none (.d1 (.getUser id))).2 = .ok (some row) := by
    show Except.ok (w.directory.getUser id) = _
    rw [hrow]
  unfold loadUser
  simp only [hid, Bool.not_true, Bool.false_eq_true, if_false, Threads.Prog.run_bind]
  show (Threads.Prog.run _ (match (w.exec hash .none (.d1 (.getUser id))).2 with
    | .error _ => _
    | .ok none => _
    | .ok (some row) => _) _).2 = _
  rw [hanswer]
  simp only [if_neg hstatus]
  rfl

theorem Addressable.of_isUuid (gcm : Gcm) (sha256 : Bytes → Bytes) {id : String}
    (hid : isUuid id = true) : Addressable gcm sha256 id := by
  obtain ⟨bytes, hbytes, hlength, hback⟩ := bytesToUuid_uuidToBytes hid
  constructor
  · exact hid
  · exact ⟨bytes, hbytes, hback⟩
  · intro hash w row hrow hstatus
    exact loadUser_of_isUuid hid hash hrow hstatus
  · intro keys sid secret hsid hsecret
    exact session_seals gcm sha256 keys hsecret hid hsid
  · intro keys secret hsecret
    exact code_seals gcm sha256 keys hsecret hid
  · intro keys family secret hfamily hsecret
    exact refresh_seals gcm sha256 keys hsecret hid hfamily
  · refine ⟨encodeBase64Url bytes, by simp [userHandleOf, hbytes], ?_⟩
    simp only [uidFromUserHandle, decodeBase64Url_eq_some.mpr rfl, if_pos hlength, hback]
    rfl

/-! ### Letter case -/

/-- No hexadecimal digit of the id is in upper case. -/
def hasNoUpper (id : String) : Bool := id.toList.all fun c => !c.isUpper

theorem isHexDigit_not_upper {c : Char} (h : isHexDigit c = true) : c.isUpper = false := by
  have hall : ∀ m : Fin 128, isHexDigit (Char.ofNat m) = true →
      (Char.ofNat m).isUpper = false := by
    decide
  have hc := hall ⟨c.toNat, isHexDigit_ascii h⟩
  rw [Char.ofNat_toNat] at hc
  exact hc h

theorem toLower_of_not_upper {c : Char} (h : c.isUpper = false) : c.toLower = c := by
  unfold Char.toLower
  split
  · next hupper =>
    have htrue : c.isUpper = true := decide_eq_true hupper
    rw [h] at htrue
    cases htrue
  · rfl

theorem hasNoUpper_of_isUuid {id : String} (h : isUuid id = true) : hasNoUpper id = true := by
  obtain ⟨digits, -, hdigits, hchars⟩ := isUuid_iff.mp h
  apply List.all_eq_true.mpr
  intro c hc
  rw [hchars, hyphenated] at hc
  by_cases hdash : c = '-'
  · rw [hdash]
    decide
  · have hmem : c ∈ digits := by
      simp only [List.mem_append, List.mem_cons, hdash, false_or] at hc
      rcases hc with hc | hc | hc | hc | hc
      · exact List.mem_of_mem_take hc
      · exact List.mem_of_mem_drop (List.mem_of_mem_take hc)
      · exact List.mem_of_mem_drop (List.mem_of_mem_take hc)
      · exact List.mem_of_mem_drop (List.mem_of_mem_take hc)
      · exact List.mem_of_mem_drop hc
    rw [isHexDigit_not_upper (hdigits c hmem)]
    rfl

/-- Of the ids in either letter case, those in lowercase are the ids that `isUuid` takes. -/
theorem isUuid_iff_hasNoUpper {id : String} (h : isUuidIgnoringCase id = true) :
    isUuid id = true ↔ hasNoUpper id = true := by
  constructor
  · exact hasNoUpper_of_isUuid
  · intro hlower
    have hsame : id.toList.map Char.toLower = id.toList := by
      conv_rhs => rw [← List.map_id id.toList]
      apply List.map_congr_left
      intro c hc
      exact toLower_of_not_upper (by simpa using List.all_eq_true.mp hlower c hc)
    rw [isUuidIgnoringCase, hsame, String.ofList_toList] at h
    exact h

/-- An id with an upper-case digit has no bytes, its routes answer 404, and sealings throw. -/
theorem unaddressable_of_not_isUuid {id : String} (h : ¬ isUuid id = true) (gcm : Gcm)
    (keys : DerivedKeys) (nonce : Nonce) (secret : Bytes) :
    uuidToBytes id = none ∧ userHandleOf id = none ∧ loadUser id = pure (.error userNotFound) ∧
      sealCodeHandle gcm keys nonce id secret = .error (.rangeError "not a UUID") ∧
      ∀ other, sealSessionHandle gcm keys nonce id other secret =
          .error (.rangeError "not a UUID") ∧
        sealRefreshHandle gcm keys nonce id other secret = .error (.rangeError "not a UUID") := by
  have hbytes : uuidToBytes id = none := if_neg h
  have hthrows : uuidBytes id = .error (.rangeError "not a UUID") := by
    unfold uuidBytes
    rw [hbytes]
  have hload : loadUser id = pure (.error userNotFound) := by
    unfold loadUser
    rw [if_pos (by simpa using h)]
  refine ⟨hbytes, by rw [userHandleOf, hbytes]; rfl, hload, ?_, ?_⟩
  · unfold sealCodeHandle
    rw [hthrows]
    rfl
  · intro other
    unfold sealSessionHandle sealRefreshHandle
    rw [hthrows]
    exact ⟨rfl, rfl⟩

/-! ### The creation paths -/

structure RegistrationDraft where
  email : Option String
  emailVerified : Bool
  displayName : Option String
  groups : List String

structure FederatedUser where
  email : Option String
  emailVerified : Bool
  displayName : Option String
  groups : List String
  issuer : String
  subject : String
  claims : IdentityClaims

structure AdminUserCreate where
  email : Option String
  emailVerified : Option Bool
  displayName : Option String
  groups : Option (List String)
  identities : List NewIdentity

/-- A request that creates users, with the first id that it draws from the generator. -/
inductive CreationPath where
  | register (draw : ℕ) (draft : RegistrationDraft) (now : ℤ)
  | federate (draw : ℕ) (user : FederatedUser) (now : ℤ)
  | adminCreate (draw : ℕ) (input : AdminUserCreate) (now : ℤ)
  | importUsers (draw : ℕ) (body : String) (now : ℤ)

inductive CreationReply where
  | user (result : Option CreateUserResult)
  | lines (response : ImportResponse)

section Paths
variable (schema : ImportLineSchema) (uuids : UuidV7)

/-- The id is `pending_uid`. -/
def registeredUser (draw : ℕ) (draft : RegistrationDraft) : NewUser :=
  ⟨uuids.next draw, draft.email, draft.emailVerified, draft.displayName, draft.groups, [], none⟩

def federatedUser (draw : ℕ) (user : FederatedUser) : NewUser :=
  ⟨uuids.next draw, user.email, user.emailVerified, user.displayName, user.groups,
    [⟨uuids.next (draw + 1), user.issuer, user.subject, user.claims.email,
      some user.claims.emailVerified, user.claims.name⟩], none⟩

/-- The identities draw their ids before the user does. -/
def adminUser (draw : ℕ) (input : AdminUserCreate) : NewUser :=
  ⟨uuids.next (draw + input.identities.length), input.email, input.emailVerified.getD false,
    input.displayName, uniqueTexts (input.groups.getD []),
    input.identities.mapIdx fun i identity => { identity with id := uuids.next (draw + i) }, none⟩

def CreationPath.run : CreationPath → Program CreationReply
  | .register draw draft now => do
    return .user (← createUser (registeredUser uuids draw draft) now)
  | .federate draw user now => do
    return .user (← createUser (federatedUser uuids draw user) now)
  | .adminCreate draw input now => do
    return .user (← createUser (adminUser uuids draw input) now)
  | .importUsers draw body now => do
    return .lines (← importUsersHandler schema uuids draw body now)

def lineIds (draw : ℕ) : ℕ → List String → List String
  | _, [] => []
  | number, raw :: rest =>
    ((schema.parse raw).toOption.map fun input =>
      (newUserOf uuids (draw + drawsOfLine * number) input).id).toList ++
        lineIds draw (number + 1) rest

/-- The ids a request accepts. -/
def CreationPath.ids : CreationPath → List String
  | .register draw draft _ => [(registeredUser uuids draw draft).id]
  | .federate draw user _ => [(federatedUser uuids draw user).id]
  | .adminCreate draw input _ => [(adminUser uuids draw input).id]
  | .importUsers draw body _ => lineIds schema uuids draw 1 (rawLines body)

def CreationPath.importedIds : CreationPath → List String
  | .importUsers _ body _ => (rawLines body).filterMap fun raw =>
      (schema.parse raw).toOption.bind (·.id)
  | _ => []

theorem mem_lineIds {draw number : ℕ} {lines : List String} {id : String}
    (h : id ∈ lineIds schema uuids draw number lines) :
    (∃ n, id = uuids.next n) ∨ ∃ raw ∈ lines, ∃ input, schema.parse raw = .ok input ∧
      input.id = some id := by
  induction lines generalizing number with
  | nil => cases h
  | cons raw rest ih =>
    rcases List.mem_append.mp h with h | h
    · cases hparse : schema.parse raw with
      | error reason =>
        rw [hparse] at h
        cases h
      | ok input =>
        rw [hparse] at h
        have hid : (newUserOf uuids (draw + drawsOfLine * number) input).id = id := by
          simpa [Except.toOption, eq_comm] using h
        cases hinput : input.id with
        | none =>
          left
          refine ⟨draw + drawsOfLine * number, ?_⟩
          rw [← hid]
          simp [newUserOf, hinput]
        | some given =>
          right
          have hgiven : given = id := by simpa [newUserOf, hinput] using hid
          exact ⟨raw, by simp, input, hparse, by rw [hinput, hgiven]⟩
    · rcases ih h with hdrawn | ⟨raw', hraw', hgiven⟩
      · exact .inl hdrawn
      · exact .inr ⟨raw', List.mem_cons_of_mem _ hraw', hgiven⟩

/-- An accepted id is drawn, or an imported one in either letter case. -/
theorem ids_cases {path : CreationPath} {id : String} (h : id ∈ path.ids schema uuids) :
    isUuid id = true ∨ (isUuidIgnoringCase id = true ∧ id ∈ path.importedIds schema) := by
  have hdrawn : ∀ n, id = uuids.next n → isUuid id = true := by
    intro n hn
    rw [hn]
    exact uuids.next_isUuid n
  cases path with
  | register draw draft now => exact .inl (hdrawn _ (List.mem_singleton.mp h))
  | federate draw user now => exact .inl (hdrawn _ (List.mem_singleton.mp h))
  | adminCreate draw input now => exact .inl (hdrawn _ (List.mem_singleton.mp h))
  | importUsers draw body now =>
    rcases mem_lineIds schema uuids h with ⟨n, hn⟩ | ⟨raw, hraw, input, hparse, hid⟩
    · exact .inl (hdrawn n hn)
    · right
      refine ⟨schema.uuid raw input id hparse hid, ?_⟩
      apply List.mem_filterMap.mpr
      exact ⟨raw, hraw, by simp [hparse, Except.toOption, hid]⟩

end Paths

/-! ### What the paths claim -/

def ClaimsOf (ids : List String) : Op → Prop
  | .d1 (.claimUsers claims) => ∀ c ∈ claims, c.id ∈ ids
  | _ => True

section Claims
variable {ids : List String}

theorem claimEach_only {entries : List (Except Interaction.CreateUserError Prepared)}
    (h : ∀ p, .ok p ∈ entries → p.input.id ∈ ids) : (claimEach entries).Only (ClaimsOf ids) := by
  induction entries with
  | nil => trivial
  | cons entry rest ih =>
    have hrest := ih fun p hp => h p (List.mem_cons_of_mem _ hp)
    cases entry with
    | error e => exact Only.bind hrest fun _ => trivial
    | ok p =>
      apply Only.perform
      · intro c hc
        rw [List.mem_singleton.mp hc]
        exact h p (by simp)
      · intro r
        cases r with
        | ok _ => exact Only.bind hrest fun _ => trivial
        | error e =>
          dsimp only
          split
          · trivial
          · exact Only.bind hrest fun _ => trivial

theorem claimAll_only {entries : List (Except Interaction.CreateUserError Prepared)}
    (h : ∀ p, .ok p ∈ entries → p.input.id ∈ ids) : (claimAll entries).Only (ClaimsOf ids) := by
  unfold claimAll
  split
  · trivial
  · apply Only.perform
    · intro c hc
      obtain ⟨p, hp, rfl⟩ := List.mem_map.mp hc
      exact h p (mem_preparedOf.mp hp)
    · intro r
      cases r with
      | ok _ => trivial
      | error e =>
        dsimp only
        split
        · trivial
        · exact claimEach_only h

theorem initializeObject_only (p : Prepared) (attempts : ℕ) :
    (initializeObject p attempts).Only (ClaimsOf ids) := by
  induction attempts with
  | zero => trivial
  | succ attempts ih =>
    apply Only.perform
    · trivial
    · intro r
      split
      · trivial
      · trivial
      · exact ih

theorem initializeEach_only (entries : List (Except Interaction.CreateUserError Prepared)) :
    (initializeEach entries).Only (ClaimsOf ids) := by
  induction entries with
  | nil => trivial
  | cons entry rest ih =>
    cases entry with
    | error e => exact Only.bind ih fun _ => trivial
    | ok p =>
      exact Only.bind (initializeObject_only p 2) fun _ => Only.bind ih fun _ => trivial

theorem createUsers_only {inputs : List NewUser} (h : ∀ input ∈ inputs, input.id ∈ ids)
    (now : ℤ) : (createUsers inputs now).Only (ClaimsOf ids) := by
  apply Only.perform
  · trivial
  · intro r
    cases r with
    | error e => trivial
    | ok groupIds =>
      have hprepared : ∀ p, .ok p ∈ inputs.map (prepare groupIds now) → p.input.id ∈ ids := by
        intro p hp
        obtain ⟨input, hinput, heq⟩ := List.mem_map.mp hp
        rw [prepare_input heq]
        exact h input hinput
      apply Only.bind (claimAll_only hprepared)
      intro claimed
      cases claimed with
      | none => trivial
      | some kept =>
        apply Only.bind (initializeEach_only kept)
        intro results
        split
        · trivial
        · apply Only.perform
          · trivial
          · intro r
            cases r <;> trivial

theorem createUser_only {input : NewUser} (h : input.id ∈ ids) (now : ℤ) :
    (createUser input now).Only (ClaimsOf ids) := by
  apply Only.bind
  · apply createUsers_only
    intro other hother
    rw [List.mem_singleton.mp hother]
    exact h
  · intro results
    trivial

theorem compareLine_only (number : ℕ) (input : ImportLine) (email : Option String) :
    (compareLine number input email).Only (ClaimsOf ids) := by
  unfold compareLine
  split
  · apply Only.perform
    · trivial
    · intro r
      split
      · trivial
      · trivial
      · split
        · trivial
        · apply Only.perform
          · trivial
          · intro r
            split
            · split
              · trivial
              · split <;> trivial
            · trivial
  · split
    · apply Only.perform
      · trivial
      · intro r
        split <;> trivial
    · trivial

theorem setUserDisabled_only (uid : String) (disabled : Bool) (now : ℤ) :
    (setUserDisabled uid disabled now).Only (ClaimsOf ids) := by
  apply Only.perform
  · trivial
  · intro r
    split
    · apply Only.perform
      · trivial
      · intro r
        split <;> trivial
    · trivial
    · trivial

theorem createdLine_only (now : ℤ) (creatable : Creatable) :
    (createdLine now creatable).Only (ClaimsOf ids) := by
  unfold createdLine
  dsimp only
  split
  · apply Only.bind (setUserDisabled_only _ _ _)
    intro result
    split <;> trivial
  · trivial

theorem reportEach_only (now : ℤ) (outcomes : List (Creatable × CreateUserResult)) :
    (reportEach now outcomes).Only (ClaimsOf ids) := by
  induction outcomes with
  | nil => trivial
  | cons first rest ih =>
    obtain ⟨creatable, result⟩ := first
    cases result with
    | error failure => exact Only.bind ih fun _ => trivial
    | ok profile =>
      exact Only.bind (createdLine_only now creatable) fun _ => Only.bind ih fun _ => trivial

theorem importGroups_only {groups : List (List Creatable)} (now : ℤ)
    (h : ∀ group ∈ groups, ∀ c ∈ group, c.user.id ∈ ids) :
    (importGroups now groups).Only (ClaimsOf ids) := by
  induction groups with
  | nil => trivial
  | cons group rest ih =>
    have hrest := ih fun group' hgroup' => h group' (List.mem_cons_of_mem _ hgroup')
    apply Only.bind
    · apply Only.bind
      · apply createUsers_only
        intro input hinput
        obtain ⟨c, hc, rfl⟩ := List.mem_map.mp hinput
        exact h group (by simp) c hc
      · intro outcomes
        cases outcomes with
        | none => trivial
        | some outcomes => exact reportEach_only now _
    · intro results
      exact Only.bind hrest fun _ => trivial

theorem checkLine_yields (schema : ImportLineSchema) (uuids : UuidV7)
    (knownGroups : List (String × String)) (draw number : ℕ) (raw : String) :
    (checkLine schema uuids knownGroups draw number raw).Yields (ClaimsOf ids) fun checked =>
      ∀ c, creatableOf checked = some c →
        ∃ input, schema.parse raw = .ok input ∧ c.user = newUserOf uuids draw input := by
  have hdone : ∀ result : ImportResult, ∀ c, creatableOf (.done result) = some c →
      ∃ input, schema.parse raw = .ok input ∧ c.user = newUserOf uuids draw input := by
    intro result c hc
    cases hc
  unfold checkLine
  split
  · exact hdone _
  next input hparse =>
    split
    · exact hdone _
    · split
      · exact hdone _
      · apply Yields.bind (compareLine_only number input input.email.join).yields
        intro outcome _
        cases outcome with
        | some result => exact hdone _
        | none =>
          intro c hc
          cases hc
          exact ⟨input, hparse, rfl⟩

theorem checkLines_yields (schema : ImportLineSchema) (uuids : UuidV7)
    (knownGroups : List (String × String)) (draw number : ℕ) (lines : List String) :
    (checkLines schema uuids knownGroups draw number lines).Yields (ClaimsOf ids) fun checked =>
      ∀ c ∈ checked.filterMap creatableOf, c.user.id ∈ lineIds schema uuids draw number lines := by
  induction lines generalizing number with
  | nil =>
    intro c hc
    cases hc
  | cons raw rest ih =>
    apply Yields.bind (checkLine_yields schema uuids knownGroups _ number raw)
    intro checked hchecked
    apply Yields.bind (ih (number + 1))
    intro others hothers c hc
    simp only [lineIds, List.mem_append]
    obtain ⟨entry, hentry, hcreatable⟩ := List.mem_filterMap.mp hc
    rcases List.mem_cons.mp hentry with rfl | hentry
    · obtain ⟨input, hparse, huser⟩ := hchecked c hcreatable
      left
      simp [hparse, huser, Except.toOption]
    · right
      exact hothers c (List.mem_filterMap.mpr ⟨entry, hentry, hcreatable⟩)

theorem importUsersHandler_only (schema : ImportLineSchema) (uuids : UuidV7) (draw : ℕ)
    (body : String) (now : ℤ) : (importUsersHandler schema uuids draw body now).Only
      (ClaimsOf (lineIds schema uuids draw 1 (rawLines body))) := by
  unfold importUsersHandler
  split
  · trivial
  · split
    · trivial
    · apply Only.perform
      · trivial
      · intro r
        cases r with
        | error e => trivial
        | ok knownGroups =>
          refine Yields.only (Yields.bind
            (checkLines_yields schema uuids knownGroups draw 1 (rawLines body))
            fun checked hchecked => Only.yields (Only.bind ?_ ?_))
          · apply importGroups_only
            intro group hgroup c hc
            exact hchecked c (mem_of_mem_chunks hgroup c hc)
          · intro results
            trivial

theorem path_only (schema : ImportLineSchema) (uuids : UuidV7) (path : CreationPath) :
    (path.run schema uuids).Only (ClaimsOf (path.ids schema uuids)) := by
  cases path with
  | register draw draft now =>
    exact Only.bind (createUser_only (List.mem_singleton_self _) now) fun _ => trivial
  | federate draw user now =>
    exact Only.bind (createUser_only (List.mem_singleton_self _) now) fun _ => trivial
  | adminCreate draw input now =>
    exact Only.bind (createUser_only (List.mem_singleton_self _) now) fun _ => trivial
  | importUsers draw body now =>
    exact Only.bind (importUsersHandler_only schema uuids draw body now) fun _ => trivial

end Claims

/-! ### Runs -/

def creationPaths (schema : ImportLineSchema) (uuids : UuidV7) (hash : String → Bytes) :
    System CreationPath Fault World Op.Answer CreationReply where
  start := CreationPath.run schema uuids
  exec := World.exec hash
  isOutside _ := false

def World.storedIds (w : World) : List String := w.directory.users.rows.map (·.id)

theorem insertUser_rows {d d' : Directory} {u : RegistryUser} (h : d.insertUser u = .ok d') :
    ∀ row ∈ d'.users.rows, row ∈ d.users.rows ∨ row = u := by
  unfold Directory.insertUser at h
  split at h
  · cases h
  · next users hinsert =>
    intro row hrow
    rw [withUsers_users h] at hrow
    exact (Table.mem_insert hinsert).mp hrow

theorem claimUsers_ids {d d' : Directory} {claims : List Directory.UserClaim}
    (h : d.claimUsers claims = .ok d') :
    ∀ row ∈ d'.users.rows, row ∈ d.users.rows ∨ ∃ c ∈ claims, c.id = row.id := by
  induction claims generalizing d with
  | nil =>
    cases h
    intro row hrow
    exact .inl hrow
  | cons c claims ih =>
    rw [Directory.claimUsers, List.foldlM_cons] at h
    obtain ⟨d₁, hclaim, h⟩ := bind_eq_ok h
    obtain ⟨d₂, hinsert, hclaim⟩ := bind_eq_ok hclaim
    obtain ⟨d₃, hmembers, hclaim⟩ := bind_eq_ok hclaim
    have husers : d₁.users = d₂.users :=
      (insertIdentities_users hclaim).trans (insertMemberships_users hmembers)
    intro row hrow
    rcases ih h row hrow with hrow | ⟨c', hc', hid⟩
    · rw [husers] at hrow
      rcases insertUser_rows hinsert row hrow with hrow | rfl
      · exact .inl hrow
      · exact .inr ⟨c, by simp, rfl⟩
    · exact .inr ⟨c', List.mem_cons_of_mem _ hc', hid⟩

theorem updateWhere_ids (users : Table RegistryUser RegistryUser.id) (p : RegistryUser → Bool)
    (f : RegistryUser → RegistryUser) (hf : ∀ r, (f r).id = r.id) :
    ((users.updateWhere p f hf).rows.map (·.id)) = users.rows.map (·.id) := by
  show (users.rows.map fun r => if p r then f r else r).map (·.id) = _
  rw [List.map_map]
  apply List.map_congr_left
  intro r _
  show (if p r then f r else r).id = r.id
  split
  · exact hf r
  · rfl

theorem setUserStatus_ids (d : Directory) (uid : String) (status : Interaction.UserStatus)
    (now : ℤ) : (d.setUserStatus uid status now).users.rows.map (·.id) =
      d.users.rows.map (·.id) :=
  updateWhere_ids d.users (·.id == uid) (Directory.withStatus status now) fun _ => rfl

theorem activateUsers_ids (d : Directory) (rows : List (String × ℤ)) :
    (d.activateUsers rows).users.rows.map (·.id) = d.users.rows.map (·.id) := by
  induction rows generalizing d with
  | nil => rfl
  | cons row rows ih => exact (ih _).trans (setUserStatus_ids d row.1 .active row.2)

/-- A statement stores no id but one that it claims. -/
theorem run_storedIds {ids : List String} {d : Directory} {statement : Statement}
    (h : ClaimsOf ids (.d1 statement)) {id : String}
    (hid : id ∈ (d.run statement).1.users.rows.map (·.id)) :
    id ∈ d.users.rows.map (·.id) ∨ id ∈ ids := by
  cases statement with
  | claimUsers claims =>
    simp only [Directory.run, Directory.write] at hid
    split at hid
    · next d' hclaims =>
      obtain ⟨row, hrow, rfl⟩ := List.mem_map.mp hid
      rcases claimUsers_ids hclaims row hrow with hrow | ⟨c, hc, hid⟩
      · exact .inl (List.mem_map_of_mem hrow)
      · right
        rw [← hid]
        exact h c hc
    · exact .inl hid
  | updateUserMirror uid mirror now =>
    left
    simp only [Directory.run, Directory.write] at hid
    split at hid
    · next d' hmirror =>
      have hids := updateWhere_ids d.users (·.id == uid) (Directory.mirrored mirror now)
        fun _ => rfl
      rw [withUsers_users hmirror] at hid
      rw [← hids]
      exact hid
    · exact hid
  | insertMembership groupId uid now =>
    left
    simp only [Directory.run, Directory.write] at hid
    split at hid
    · next d' hinsert =>
      rw [insertMembershipOrIgnore_users hinsert] at hid
      exact hid
    · exact hid
  | activateUsers rows =>
    left
    rw [← activateUsers_ids d rows]
    exact hid
  | setUserStatus uid status now =>
    left
    rw [← setUserStatus_ids d uid status now]
    exact hid
  | deleteUserRow uid =>
    left
    obtain ⟨row, hrow, rfl⟩ := List.mem_map.mp hid
    exact List.mem_map_of_mem (Table.mem_deleteWhere.mp hrow).1
  | deleteMembership groupId uid => exact .inl hid
  | groupIdsByName => exact .inl hid
  | memberUserIds groupId limit => exact .inl hid
  | findVerifiedUser emailNorm => exact .inl hid
  | getUser uid => exact .inl hid
  | listUsers status createdBefore limit => exact .inl hid
  | groupNamesOfUser uid => exact .inl hid
  | identitiesOfUser uid => exact .inl hid

theorem exec_storedIds {ids : List String} {hash : String → Bytes} {w : World} {fault : Fault}
    {op : Op} (h : ClaimsOf ids op) {id : String} (hid : id ∈ (w.exec hash fault op).1.storedIds) :
    id ∈ w.storedIds ∨ id ∈ ids := by
  have hperform : id ∈ (w.perform hash op).1.storedIds → id ∈ w.storedIds ∨ id ∈ ids := by
    intro hid
    cases op with
    | user uid call => exact .inl hid
    | d1 statement => exact run_storedIds h hid
  cases fault with
  | none => exact hperform hid
  | before => exact .inl hid
  | after => exact hperform hid

section Runs
variable {schema : ImportLineSchema} {uuids : UuidV7} {hash : String → Bytes} {w : World}

/-- A stored user was there before, or has an id that a request of the run accepts. -/
theorem storedIds_after (labels : List (Label CreationPath Op Fault)) :
    ∀ id ∈ ((creationPaths schema uuids hash).after w labels).shared.storedIds,
      id ∈ w.storedIds ∨ ∃ path ∈ arrivals labels, id ∈ path.ids schema uuids := by
  have hfollows : (creationPaths schema uuids hash).Follows
      fun path _ op => ClaimsOf (path.ids schema uuids) op := by
    intro path
    have honly := path_only schema uuids path
    exact (honly.obeys fun _ _ h => h).mono fun _ _ _ => trivial
  induction labels with
  | nil =>
    intro id hid
    exact .inl hid
  | cons l labels ih =>
    intro id hid
    have hlater : ∀ {path}, path ∈ arrivals labels → path ∈ arrivals (l :: labels) := by
      intro path hpath
      exact ((List.sublist_cons_self l labels).filterMap _).subset hpath
    have hbefore : id ∈ ((creationPaths schema uuids hash).after w labels).shared.storedIds →
        id ∈ w.storedIds ∨ ∃ path ∈ arrivals (l :: labels), id ∈ path.ids schema uuids := by
      intro hid
      rcases ih id hid with hid | ⟨path, hpath, hid⟩
      · exact .inl hid
      · exact .inr ⟨path, hlater hpath, hid⟩
    have hobeys := Threads.System.thread_obeys hfollows w labels
    have hrequests := (creationPaths schema uuids hash).requests_after w labels
    rw [Threads.System.after, Machine.after_cons] at hid
    have hstep := (creationPaths schema uuids hash).step_steps
      ((creationPaths schema uuids hash).after w labels) l
    generalize (creationPaths schema uuids hash).step
      ((creationPaths schema uuids hash).after w labels) l = stepped at hstep hid
    obtain ⟨c', e⟩ := stepped
    dsimp only at hstep hid
    cases hstep with
    | idle => exact hbefore hid
    | spawn path => exact hbefore hid
    | thread i t op next fault hi hp =>
      have ht := List.mem_of_getElem? hi
      have hpermitted := hobeys t ht
      rw [hp] at hpermitted
      rcases exec_storedIds hpermitted.1 hid with hid | hid
      · exact hbefore hid
      · have harrived : t.request ∈ arrivals labels := by
          rw [← List.mem_reverse, ← hrequests]
          exact List.mem_map_of_mem ht
        exact .inr ⟨t.request, hlater harrived, hid⟩
    | outside op fault hop => cases hop

end Runs

/-- An accepted id is addressable exactly when none of its digits is in upper case, and so is the
id of a stored user in every run. Where imported lines keep to lowercase, every stored user is. -/
theorem stored_users_addressable (gcm : Gcm) (sha256 : Bytes → Bytes) (schema : ImportLineSchema)
    (uuids : UuidV7) :
    (∀ (path : CreationPath) (id : String), id ∈ path.ids schema uuids →
      (Addressable gcm sha256 id ↔ hasNoUpper id = true)) ∧
    ∀ (hash : String → Bytes) (labels : List (Label CreationPath Op Fault)),
      (∀ id ∈ ((creationPaths schema uuids hash).after World.fresh labels).shared.storedIds,
        (Addressable gcm sha256 id ↔ hasNoUpper id = true)) ∧
      ((∀ path ∈ arrivals labels, ∀ id ∈ path.importedIds schema, hasNoUpper id = true) →
        ∀ id ∈ ((creationPaths schema uuids hash).after World.fresh labels).shared.storedIds,
          Addressable gcm sha256 id) := by
  have haccepted : ∀ (path : CreationPath) (id : String), id ∈ path.ids schema uuids →
      (isUuid id = true ↔ hasNoUpper id = true) := by
    intro path id hid
    rcases ids_cases schema uuids hid with huuid | ⟨hform, -⟩
    · simp [huuid, hasNoUpper_of_isUuid huuid]
    · exact isUuid_iff_hasNoUpper hform
  have haddressable : ∀ (path : CreationPath) (id : String), id ∈ path.ids schema uuids →
      (Addressable gcm sha256 id ↔ hasNoUpper id = true) := by
    intro path id hid
    rw [← haccepted path id hid]
    exact ⟨fun h => h.uuid, Addressable.of_isUuid gcm sha256⟩
  have hstored : ∀ (hash : String → Bytes) (labels : List (Label CreationPath Op Fault)),
      ∀ id ∈ ((creationPaths schema uuids hash).after World.fresh labels).shared.storedIds,
        ∃ path ∈ arrivals labels, id ∈ path.ids schema uuids := by
    intro hash labels id hid
    rcases storedIds_after labels id hid with hnone | haccepts
    · cases hnone
    · exact haccepts
  refine ⟨haddressable, fun hash labels => ⟨?_, ?_⟩⟩
  · intro id hid
    obtain ⟨path, -, hpath⟩ := hstored hash labels id hid
    exact haddressable path id hpath
  · intro hlower id hid
    obtain ⟨path, harrived, hpath⟩ := hstored hash labels id hid
    rcases ids_cases schema uuids hpath with huuid | ⟨-, himported⟩
    · exact Addressable.of_isUuid gcm sha256 huuid
    · exact (haddressable path id hpath).mpr (hlower path harrived id himported)

/-! ### An imported line with an id in upper case -/

namespace Sample

def upperId : String := "0190A0B0-1234-7ABC-8DEF-0123456789AB"

def upperLine : String := "\x7b\"id\":\"0190A0B0-1234-7ABC-8DEF-0123456789AB\"\x7d"

/-- The schema on that line, and on lines that are not JSON. -/
def lineSchema : ImportLineSchema where
  parse raw := if raw = upperLine then .ok ⟨some upperId, none, none, none, none, none, none, none⟩
    else .error "malformed_json"
  uuid := by
    intro raw line id hparse hid
    rcases ite_eq_iff.mp hparse with ⟨-, hline⟩ | ⟨-, hline⟩
    · cases hline
      cases hid
      decide
    · cases hline

def drawn : UuidV7 := ⟨fun _ => "0190a1b2-c3d4-7e5f-8a6b-7c8d9e0f1a2b", fun _ => by decide⟩

def importRun : List (Label CreationPath Op Fault) :=
  List.replicate 6 (.step 0 .none) ++ [.spawn (.importUsers 0 upperLine 7)]

end Sample

/-- The line is accepted and its user stored under an id that no route and no handle takes. -/
theorem imported_user_unaddressable :
    ¬ ∀ (gcm : Gcm) (sha256 : Bytes → Bytes) (schema : ImportLineSchema) (uuids : UuidV7)
      (hash : String → Bytes) (labels : List (Label CreationPath Op Fault)),
      ∀ id ∈ ((creationPaths schema uuids hash).after World.fresh labels).shared.storedIds,
        Addressable gcm sha256 id := by
  intro hall
  have haddressable := hall Oidc.Sample.plainGcm id Sample.lineSchema Sample.drawn (fun _ => [])
    Sample.importRun Sample.upperId (by decide +kernel)
  exact absurd haddressable.uuid (by decide +kernel)

end TinyOidc.Account
