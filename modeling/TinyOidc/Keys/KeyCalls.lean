import TinyOidc.Keys.Retirement
import TinyOidc.Lib.Threads

/-! The key operations as programs of D1 statements that interleave: rotation, emergency
retirement, the cron maintenance and the load that creates the first key. -/
namespace TinyOidc.Keys
open RowTable
open Threads (Prog Entry Label Thread Config System)

inductive KeyStatement where
  | listSigningKeys
  | insertSigningKey (row : SigningKeyRow)
  | insertFirstSigningKey (row : SigningKeyRow)
  | retireSigningKey (kid : String) (now : ℤ)
  | deleteRetiredSigningKeys (cutoff : ℤ)
  deriving DecidableEq

/-- An insertion tells whether it went through; a taken kid throws. -/
@[reducible] def KeyStatement.Answer : KeyStatement → Type
  | .listSigningKeys => List SigningKeyRow
  | .insertSigningKey _ | .insertFirstSigningKey _ => Bool
  | .retireSigningKey _ _ => Unit
  | .deleteRetiredSigningKeys _ => List String

def inserted (t : KeyTable) (written : Option KeyTable) : KeyTable × Bool :=
  match written with
  | some t' => (t', true)
  | none => (t, false)

def perform (t : KeyTable) : (s : KeyStatement) → KeyTable × s.Answer
  | .listSigningKeys => (t, listSigningKeys t)
  | .insertSigningKey row => inserted t (t.insert row)
  | .insertFirstSigningKey row => inserted t (insertFirstSigningKey t row)
  | .retireSigningKey kid now => (retireSigningKey t kid now, ())
  | .deleteRetiredSigningKeys cutoff => deleteRetiredSigningKeys t cutoff

abbrev KeyProgram := Prog KeyStatement KeyStatement.Answer

def d1 (s : KeyStatement) : KeyProgram s.Answer := .perform s

/-- The kid, or `none` when the insertion throws. -/
def rotate (key : GeneratedKey) (now prepublishSeconds : ℤ) (immediate : Bool) :
    KeyProgram (Option String) := do
  let activatesAt := if immediate then now else now + prepublishSeconds
  if ← d1 (.insertSigningKey (newRow key activatesAt now)) then return some key.kid
  else return none

inductive RetireResult where
  | retired | notFound | lastActiveKey
  deriving DecidableEq, Repr

/-- The keys of a listing that would still sign without one of them. -/
def survivors (now : ℤ) (kid : String) (rows : List SigningKeyRow) : List SigningKeyRow :=
  rows.filter fun r => r.kid != kid && isActive now r

/-- Emergency retirement: refused for the only unretired key that has activated. -/
def retireSigningKeyNow (kid : String) (now : ℤ) : KeyProgram RetireResult := do
  let rows ← d1 .listSigningKeys
  match rows.find? fun r => r.kid == kid && r.retiredAt.isNone with
  | none => return .notFound
  | some target =>
    if target.activatesAt ≤ now && (survivors now kid rows).isEmpty then return .lastActiveKey
    else
      d1 (.retireSigningKey kid now)
      return .retired

def retireEach (now : ℤ) : List SigningKeyRow → KeyProgram Unit
  | [] => return ()
  | row :: rest => do
    d1 (.retireSigningKey row.kid now)
    retireEach now rest

/-- The steps of the cron after the creation: superseded keys, then old rows. -/
def retireAndDelete (superseded : List SigningKeyRow) (created : Option String) (now : ℤ) :
    KeyProgram (Option MaintenanceResult) := do
  retireEach now superseded
  let deleted ← d1 (.deleteRetiredSigningKeys (now - retiredKeyRetentionSeconds))
  return some ⟨created, superseded.map (·.kid), deleted⟩

/-- The cron steps, one statement at a time; `none` when the insertion throws. -/
def maintain (key : GeneratedKey) (now : ℤ) (s : KeySettings) :
    KeyProgram (Option MaintenanceResult) := do
  let rows ← d1 .listSigningKeys
  let roles := deriveRoles rows now
  let superseded := retirable roles now s.retireAfterSeconds
  if rotationDue roles now s.rotationDays then
    match ← rotate key now s.prepublishSeconds false with
    | none => return none
    | some kid => retireAndDelete superseded (some kid) now
  else retireAndDelete superseded none now

/-- The rows of a load, with the first key created on an empty store. -/
def loadRows (key : GeneratedKey) (now : ℤ) : KeyProgram (Option (List SigningKeyRow)) := do
  let rows ← d1 .listSigningKeys
  if rows.any (·.retiredAt.isNone) then return some rows
  else if ← d1 (.insertFirstSigningKey (newRow key now now)) then
    return some (← d1 .listSigningKeys)
  else return none

inductive KeyRequest where
  | rotate (key : GeneratedKey) (now prepublishSeconds : ℤ) (immediate : Bool)
  | retire (kid : String) (now : ℤ)
  | maintain (key : GeneratedKey) (now : ℤ) (s : KeySettings)
  | load (key : GeneratedKey) (now : ℤ)

namespace KeyRequest

/-- The clock as the request reads it. -/
def now : KeyRequest → ℤ
  | rotate _ now _ _ | retire _ now | maintain _ now _ | load _ now => now

end KeyRequest

inductive KeyAnswer where
  | rotated (kid : Option String)
  | retired (result : RetireResult)
  | maintained (result : Option MaintenanceResult)
  | loaded (rows : Option (List SigningKeyRow))

def KeyRequest.run : KeyRequest → KeyProgram KeyAnswer
  | .rotate key now prepublishSeconds immediate => do
    return .rotated (← Keys.rotate key now prepublishSeconds immediate)
  | .retire kid now => do return .retired (← retireSigningKeyNow kid now)
  | .maintain key now s => do return .maintained (← Keys.maintain key now s)
  | .load key now => do return .loaded (← loadRows key now)

/-! ### The cron on its own -/

theorem retireEach_run (t : KeyTable) (now : ℤ) (rows : List SigningKeyRow) :
    ((retireEach now rows).run perform t).1 =
      (rows.map (·.kid)).foldl (fun t kid => retireSigningKey t kid now) t := by
  induction rows generalizing t with
  | nil => rfl
  | cons row rest ih => exact ih (retireSigningKey t row.kid now)

theorem retireAndDelete_run (t : KeyTable) (superseded : List SigningKeyRow)
    (created : Option String) (now : ℤ) :
    (retireAndDelete superseded created now).run perform t =
      let t := (superseded.map (·.kid)).foldl (fun t kid => retireSigningKey t kid now) t
      let deleted := deleteRetiredSigningKeys t (now - retiredKeyRetentionSeconds)
      (deleted.1, some ⟨created, superseded.map (·.kid), deleted.2⟩) := by
  rw [← retireEach_run]
  simp [retireAndDelete, d1, perform]

/-- Statement by statement, with nobody in between, the cron does what it does at once. -/
theorem maintain_run (t : KeyTable) (key : GeneratedKey) (now : ℤ) (s : KeySettings) :
    (maintain key now s).run perform t = maintainSigningKeys t key now s := by
  unfold maintain maintainSigningKeys
  simp only [Prog.run_bind, d1, Prog.run_perform, perform]
  by_cases hdue : rotationDue (deriveRoles (listSigningKeys t) now) now s.rotationDays = true
  · simp only [hdue, if_true, rotateSigningKey, rotate, Bool.false_eq_true, if_false,
      Prog.run_bind, d1, Prog.run_perform, perform]
    cases t.insert (newRow key (now + s.prepublishSeconds) now) with
    | none => rfl
    | some t' => exact retireAndDelete_run t' _ _ now
  · simp only [hdue, Bool.false_eq_true, if_false]
    exact retireAndDelete_run t _ _ now

end TinyOidc.Keys
