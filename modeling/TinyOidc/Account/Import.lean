import TinyOidc.Account.Administration
import TinyOidc.Account.BatchCreation
import TinyOidc.Lib.Chunks

/-! Bulk import (`src/admin/import.ts`): each line of the body is checked against the directory,
and the lines to create go in groups. The invitation a line may ask for is of another store. -/
namespace TinyOidc.Account
open TinyOidc.User TinyOidc.Util Chunks

def importMaxLines : ℕ := 1000

/-- Lines whose claims and activations travel in one batch each. -/
def importClaimBatch : ℕ := 25

structure IdentityLine where
  issuer : String
  subject : String
  email : Option String
  emailVerified : Option Bool
  deriving DecidableEq

/-- One input line. A `null` email or display name is `some none`. -/
structure ImportLine where
  id : Option String
  email : Option (Option String)
  emailVerified : Option Bool
  displayName : Option (Option String)
  groups : Option (List String)
  identities : Option (List IdentityLine)
  disabled : Option Bool
  createdAt : Option ℤ
  deriving DecidableEq

/-- The hexadecimal form of RFC 9562 in either letter case. -/
def isUuidIgnoringCase (value : String) : Bool :=
  isUuid (String.ofList (value.toList.map Char.toLower))

/-- `parseJson` on `ImportLineSchema`; `z.uuid()` is of either letter case. -/
structure ImportLineSchema where
  parse : String → Except String ImportLine
  uuid : ∀ raw line id, parse raw = .ok line → line.id = some id → isUuidIgnoringCase id = true

/-- A `UuidV7`: the ids it gives in turn, which are lowercase. -/
structure UuidV7 where
  next : ℕ → String
  next_isUuid : ∀ n, isUuid (next n) = true

inductive ImportStatus where
  | created | unchanged | conflict | error
  deriving DecidableEq

inductive ImportError where
  | invalidLine (reason : String)
  | emailInvalid
  | groupUnknown (name : String)
  | idExistsWithOtherData
  | emailTaken
  | storage
  | creation (failure : Interaction.CreateUserError)
  deriving DecidableEq

structure ImportResult where
  line : ℕ
  status : ImportStatus
  id : Option String
  error : Option ImportError
  deriving DecidableEq

/-- A line that passed its checks and waits for its group's creation. -/
structure Creatable where
  line : ℕ
  input : ImportLine
  user : NewUser

inductive Checked where
  | done (result : ImportResult)
  | create (creatable : Creatable)

/-- Whether an existing user matches the line, in what the line names. -/
def sameAsExisting (line : ImportLine) (row : RegistryUser) (groups : List String)
    (disabled : Bool) : Bool :=
  line.email.all (fun email => decide (email.map normalizeEmail = row.emailNorm)) &&
    line.emailVerified.all (· == row.emailVerified) &&
    line.displayName.all (· == row.displayName) &&
    line.groups.all (fun wanted => sortTexts (uniqueTexts wanted) == sortTexts groups) &&
    line.disabled.all (· == disabled)

/-- The groups a profile holds; one that is not there holds none, and a call may throw. -/
def heldGroups : Outcome UserProfile → Option (List String)
  | .ok profile => some profile.groups
  | .fail _ => some []
  | .thrown _ => none

/-- A line with an id that exists is compared; one without, whose email is held, conflicts. -/
def compareLine (number : ℕ) (input : ImportLine) (email : Option String) :
    Program (Option ImportResult) := do
  match input.id with
  | some id =>
    match ← d1 (.getUser id) with
    | .error _ => return some ⟨number, .error, none, some .storage⟩
    | .ok none => return none
    | .ok (some existing) =>
      if existing.status = .creating then return none
      match ← userCall id .getProfile with
      | some (.profile result) =>
        match heldGroups result with
        | none => return some ⟨number, .error, none, some .storage⟩
        | some held =>
          if sameAsExisting input existing held (existing.status == .disabled) then
            return some ⟨number, .unchanged, some id, none⟩
          else return some ⟨number, .conflict, some id, some .idExistsWithOtherData⟩
      | _ => return some ⟨number, .error, none, some .storage⟩
  | none =>
    match email, input.emailVerified with
    | some email, some true =>
      match ← d1 (.findVerifiedUser (normalizeEmail email)) with
      | .error _ => return some ⟨number, .error, none, some .storage⟩
      | .ok none => return none
      | .ok (some holder) => return some ⟨number, .conflict, some holder.id, some .emailTaken⟩
    | _, _ => return none

/-- The user of a line, with the ids that the line draws from `draw` on. -/
def newUserOf (uuids : UuidV7) (draw : ℕ) (input : ImportLine) : NewUser where
  id := input.id.getD (uuids.next draw)
  email := input.email.join
  emailVerified := input.emailVerified.getD false
  displayName := input.displayName.join
  groups := uniqueTexts (input.groups.getD [])
  identities := (input.identities.getD []).mapIdx fun i identity =>
    ⟨uuids.next (draw + 1 + i), identity.issuer, identity.subject, identity.email,
      identity.emailVerified, none⟩
  createdAt := input.createdAt

def checkLine (schema : ImportLineSchema) (uuids : UuidV7) (knownGroups : List (String × String))
    (draw number : ℕ) (raw : String) : Program Checked := do
  match schema.parse raw with
  | .error reason => return .done ⟨number, .error, none, some (.invalidLine reason)⟩
  | .ok input =>
    if input.email.join.any (!isValidEmail ·) then
      return .done ⟨number, .error, none, some .emailInvalid⟩
    match (uniqueTexts (input.groups.getD [])).find? fun name =>
        (knownGroups.lookup name).isNone with
    | some name => return .done ⟨number, .error, none, some (.groupUnknown name)⟩
    | none =>
      match ← compareLine number input input.email.join with
      | some result => return .done result
      | none => return .create ⟨number, input, newUserOf uuids draw input⟩

/-- The ids that the lines draw: a user's, and those of at most sixteen identities. -/
def drawsOfLine : ℕ := 17

/-- The checks in turn. The source makes up to fifty at once, which only read. -/
def checkLines (schema : ImportLineSchema) (uuids : UuidV7) (knownGroups : List (String × String))
    (draw : ℕ) : ℕ → List String → Program (List Checked)
  | _, [] => return []
  | number, raw :: rest => do
    let checked ← checkLine schema uuids knownGroups (draw + drawsOfLine * number) number raw
    let others ← checkLines schema uuids knownGroups draw (number + 1) rest
    return checked :: others

def createdLine (now : ℤ) (creatable : Creatable) : Program ImportResult := do
  let created : ImportResult := ⟨creatable.line, .created, some creatable.user.id, none⟩
  if creatable.input.disabled = some true then
    match ← setUserDisabled creatable.user.id true now with
    | .thrown => return ⟨creatable.line, .error, none, some .storage⟩
    | _ => return created
  else return created

def statusOfFailure : Interaction.CreateUserError → ImportStatus
  | .accountExists | .identityAlreadyLinked => .conflict
  | _ => .error

def reportEach (now : ℤ) : List (Creatable × CreateUserResult) → Program (List ImportResult)
  | [] => return []
  | (creatable, .error failure) :: rest => do
    let others ← reportEach now rest
    return ⟨creatable.line, statusOfFailure failure, none, some (.creation failure)⟩ :: others
  | (creatable, .ok _) :: rest => do
    let result ← createdLine now creatable
    let others ← reportEach now rest
    return result :: others

def importGroup (now : ℤ) (group : List Creatable) : Program (List ImportResult) := do
  match ← createUsers (group.map (·.user)) now with
  | none => return group.map fun c => ⟨c.line, .error, none, some .storage⟩
  | some outcomes => reportEach now (group.zip outcomes)

/-- The groups in turn. The source has two of them under way. -/
def importGroups (now : ℤ) : List (List Creatable) → Program (List ImportResult)
  | [] => return []
  | group :: rest => do
    let results ← importGroup now group
    let others ← importGroups now rest
    return results ++ others

def doneOf : Checked → Option ImportResult
  | .done result => some result
  | .create _ => none

def creatableOf : Checked → Option Creatable
  | .done _ => none
  | .create creatable => some creatable

/-- The lines of a body; the last one ends it when it is empty. -/
def rawLines (body : String) : List String :=
  let lines := (body.toList.splitOn '\n').map String.ofList
  if lines.getLast? = some "" then lines.dropLast else lines

inductive ImportResponse where
  | error (status : ℕ) (code description : String)
  | lines (results : List ImportResult)
  deriving DecidableEq

def importUsersHandler (schema : ImportLineSchema) (uuids : UuidV7) (draw : ℕ) (body : String)
    (now : ℤ) : Program ImportResponse := do
  if (rawLines body).all fun line => trim line == "" then
    return .error 400 "invalid_request" "no lines"
  if (rawLines body).length > importMaxLines then
    return .error 400 "invalid_request" "at most 1000 lines per call"
  match ← d1 .groupIdsByName with
  | .error _ => return .error 503 "temporarily_unavailable" "directory unavailable"
  | .ok knownGroups =>
    let checked ← checkLines schema uuids knownGroups draw 1 (rawLines body)
    let results ← importGroups now (chunks importClaimBatch (checked.filterMap creatableOf))
    -- Each result takes the place of its line.
    return .lines ((List.range (rawLines body).length).filterMap fun index =>
      (checked.filterMap doneOf ++ results).find? (·.line == index + 1))

end TinyOidc.Account
