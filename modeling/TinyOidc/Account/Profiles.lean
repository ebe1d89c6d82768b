import TinyOidc.Account.World

/-! Profiles (`src/users/admin.ts`, `src/users/create.ts`, `src/users/email.ts`): the update of a
user's profile and the creation of users, each of which writes the object and its mirror row. -/
namespace TinyOidc.Account
open TinyOidc.User TinyOidc.Util
open TinyOidc.Interaction (CreateUserError)
open Threads (Prog)

/-! ### Emails -/

def isAlphanumeric (c : Char) : Bool := c.isUpper || c.isLower || c.isDigit

def isLocalChar (c : Char) : Bool :=
  isAlphanumeric c || ".!#$%&'*+/=?^_`\x7b|\x7d~-".toList.contains c

/-- `[a-zA-Z0-9](?:[a-zA-Z0-9-]{0,61}[a-zA-Z0-9])?`. -/
def isLabel (label : List Char) : Bool :=
  label.head?.any isAlphanumeric && label.getLast?.any isAlphanumeric && label.length ≤ 63 &&
    label.all fun c => isAlphanumeric c || c == '-'

/-- The WHATWG grammar, within 254 characters after trimming. -/
def isValidEmail (email : String) : Bool :=
  let trimmed := (trim email).toList
  0 < trimmed.length && trimmed.length ≤ 254 &&
    match trimmed.splitOn '@' with
    | [name, domain] => !name.isEmpty && name.all isLocalChar && (domain.splitOn '.').all isLabel
    | _ => false

/-- The comparison form. Its callers give it valid emails, which are ASCII and in NFC. -/
def normalizeEmail (email : String) : String := (trim email).map Char.toLower

/-! ### Profile updates -/

structure ProfileUpdate where
  email : Option (Option String)
  emailVerified : Option Bool
  displayName : Option (Option String)
  deriving DecidableEq

inductive UpdateProfileResult where
  | ok (profile : UserProfile)
  | emailInvalid
  | emailTaken
  | userNotAvailable
  | partialFailure (profile : UserProfile)
  | thrown

def profilePatch (current : UserProfile) (update : ProfileUpdate) : ProfilePatch :=
  let email := match update.email with
    | none => current.email
    | some given => given.map trim
  { email := some email
    emailNorm := some (email.map normalizeEmail)
    emailVerified := some (update.emailVerified.getD
      (if email = current.email then current.emailVerified else false))
    displayName := update.displayName }

def patchVerified (patch : ProfilePatch) : Option String :=
  (patch.emailNorm.getD none).filter fun _ => patch.emailVerified.getD false

/-- The object first, then the mirror row. -/
def writeProfile (uid : String) (patch : ProfilePatch) (now : ℤ) :
    Program UpdateProfileResult := do
  match ← userCall uid (.updateProfile patch now) with
  | none => return .thrown
  | some (.profile (.ok updated)) =>
    match ← d1 (.updateUserMirror uid
        { email := patch.email.getD none
          emailNorm := patch.emailNorm.getD none
          emailVerified := patch.emailVerified.getD false
          displayName := updated.displayName } now) with
    | .error _ => return .partialFailure updated
    | .ok _ => return .ok updated
  | some _ => return .userNotAvailable

/-- Updates the profile attributes: a verified email must be unique. -/
def updateUserProfile (uid : String) (update : ProfileUpdate) (now : ℤ) :
    Program UpdateProfileResult := do
  match ← userCall uid .getProfile with
  | none => return .thrown
  | some (.profile (.ok current)) =>
    let patch := profilePatch current update
    if (patch.email.getD none).any (!isValidEmail ·) then return .emailInvalid
    match patchVerified patch with
    | none => writeProfile uid patch now
    | some emailNorm =>
      match ← d1 (.findVerifiedUser emailNorm) with
      | .error _ => return .thrown
      | .ok holder =>
        if holder.any (·.id != uid) then return .emailTaken
        else writeProfile uid patch now
  | some _ => return .userNotAvailable

/-! ### Creation -/

structure NewUser where
  id : String
  email : Option String
  emailVerified : Bool
  displayName : Option String
  groups : List String
  identities : List NewIdentity
  createdAt : Option ℤ
  deriving DecidableEq

structure Prepared where
  input : NewUser
  email : Option String
  emailNorm : Option String
  groupIds : List String
  instant : ℤ
  deriving DecidableEq

def prepare (groupIds : List (String × String)) (now : ℤ) (input : NewUser) :
    Except CreateUserError Prepared :=
  let email := input.email.map trim
  if email.any (!isValidEmail ·) then .error .emailInvalid
  else
    match input.groups.mapM (groupIds.lookup ·) with
    | none => .error .groupUnknown
    | some ids => .ok
        { input := input
          email := email
          emailNorm := email.map normalizeEmail
          groupIds := ids
          instant := input.createdAt.getD now }

def Prepared.claim (p : Prepared) : Directory.UserClaim where
  id := p.input.id
  email := p.email
  emailNorm := p.emailNorm
  emailVerified := p.input.emailVerified
  displayName := p.input.displayName
  groupIds := p.groupIds
  identities := p.input.identities.map fun i => (i.issuer, i.subject)
  createdAt := p.instant

def uniquenessFailure : D1Error → Option CreateUserError
  | .unique .identityIndex => some .identityAlreadyLinked
  | .unique _ => some .accountExists
  | .failed => none

abbrev CreateUserResult := Except CreateUserError UserProfile

def Prepared.profile (p : Prepared) : InitProfile where
  id := p.input.id
  email := p.email
  emailNorm := p.emailNorm
  emailVerified := p.input.emailVerified
  displayName := p.input.displayName
  groups := sortTexts p.input.groups

/-- Step 2 for one claimed user. A call that throws is repeated once. -/
def initializeObject (p : Prepared) : ℕ → Program CreateUserResult
  | 0 => return .error .temporarilyUnavailable
  | attempts + 1 => do
    match ← userCall p.input.id (.init p.profile p.instant p.input.identities) with
    | some (.profile (.ok profile)) => return .ok profile
    | some (.profile (.fail _)) => return .error .temporarilyUnavailable
    | _ => initializeObject p attempts

/-- One claim per user, which attributes a conflict to its line; `none` when a claim fails
otherwise. -/
def claimEach : List (Except CreateUserError Prepared) →
    Program (Option (List (Except CreateUserError Prepared)))
  | [] => return some []
  | .error e :: rest => do
    return (← claimEach rest).map (.error e :: ·)
  | .ok p :: rest => do
    match ← d1 (.claimUsers [p.claim]) with
    | .ok _ => return (← claimEach rest).map (.ok p :: ·)
    | .error e =>
      match uniquenessFailure e with
      | none => return none
      | some failure => return (← claimEach rest).map (.error failure :: ·)

def preparedOf (entries : List (Except CreateUserError Prepared)) : List Prepared :=
  entries.filterMap (·.toOption)

/-- Step 1: the claims all at once, and one at a time on a uniqueness violation. -/
def claimAll (entries : List (Except CreateUserError Prepared)) :
    Program (Option (List (Except CreateUserError Prepared))) := do
  if (preparedOf entries).isEmpty then return some entries
  match ← d1 (.claimUsers ((preparedOf entries).map (·.claim))) with
  | .ok _ => return some entries
  | .error e =>
    if (uniquenessFailure e).isNone then return none
    else claimEach entries

/-- Step 2: the objects in turn. The source initializes up to fifty at once, each its own. -/
def initializeEach : List (Except CreateUserError Prepared) → Program (List CreateUserResult)
  | [] => return []
  | .error e :: rest => do
    let others ← initializeEach rest
    return .error e :: others
  | .ok p :: rest => do
    let result ← initializeObject p 2
    let others ← initializeEach rest
    return result :: others

def activations (entries : List (Except CreateUserError Prepared))
    (results : List CreateUserResult) : List (String × ℤ) :=
  (entries.zip results).filterMap fun
    | (.ok p, .ok _) => some (p.input.id, p.instant)
    | _ => none

/-- Creates users together: one claim batch, the objects, one activation batch. Results keep the
positions of the inputs; `none` when a statement throws. -/
def createUsers (inputs : List NewUser) (now : ℤ) : Program (Option (List CreateUserResult)) := do
  match ← d1 .groupIdsByName with
  | .error _ => return none
  | .ok groupIds =>
    match ← claimAll (inputs.map (prepare groupIds now)) with
    | none => return none
    | some claimed =>
      let results ← initializeEach claimed
      if (activations claimed results).isEmpty then return some results
      match ← d1 (.activateUsers (activations claimed results)) with
      | .error _ => return none
      | .ok _ => return some results

end TinyOidc.Account
