import TinyOidc.Account.BatchCreation
import TinyOidc.Account.Import

/-! What an import answers for a line whose id exists (`src/admin/import.ts`): the row of the
registry and the groups of the object are compared with what the line names, and nothing is
written. -/
namespace TinyOidc.Account
open RowTable TinyOidc.User TinyOidc.Util
open Threads (Prog)
open Threads.Prog (Yields only_true)

/-! ### Group lists -/

/-- A name that a list joined by line breaks gives back. -/
def Joinable (name : String) : Prop := name.toList ≠ [] ∧ '\n' ∉ name.toList

theorem joinable_of_isGroupName {name : String} (h : isGroupName name = true) : Joinable name := by
  have hbreak : isNameStart '\n' = false := by decide
  unfold isGroupName at h
  split at h
  · cases h
  next c rest hname =>
    simp only [Bool.and_eq_true, List.all_eq_true] at h
    constructor
    · simp [hname]
    · rw [hname, List.mem_cons]
      rintro (rfl | hmem)
      · simp [hbreak] at h
      · have hchar := h.2 '\n' hmem
        simp [hbreak] at hchar

theorem toList_joinLines (lines : List String) :
    (joinLines lines).toList = ['\n'].intercalate (lines.map String.toList) := by
  induction lines with
  | nil => rfl
  | cons line rest ih =>
    cases rest with
    | nil => simp [joinLines, List.intercalate]
    | cons next rest =>
      simp [joinLines, ih, List.intercalate]

/-- Lists of such names are as equal as their joined texts. -/
theorem joinLines_inj {names held : List String} (hnames : ∀ name ∈ names, Joinable name)
    (hheld : ∀ name ∈ held, Joinable name) : joinLines names = joinLines held ↔ names = held := by
  have hsplit : ∀ lines : List String, (∀ line ∈ lines, Joinable line) → lines ≠ [] →
      (joinLines lines).toList.splitOn '\n' = lines.map String.toList := by
    intro lines hlines hne
    rw [toList_joinLines]
    apply List.splitOn_intercalate
    · intro text htext
      obtain ⟨line, hline, rfl⟩ := List.mem_map.mp htext
      exact (hlines line hline).2
    · simpa using hne
  have hempty : ∀ lines : List String, (∀ line ∈ lines, Joinable line) →
      joinLines lines = "" → lines = [] := by
    intro lines hlines hjoin
    by_contra hne
    have htexts := hsplit lines hlines hne
    rw [hjoin] at htexts
    obtain ⟨line, rest, rfl⟩ := List.exists_cons_of_ne_nil hne
    have hline := (hlines line List.mem_cons_self).1
    exact hline (List.cons.inj htexts).1.symm
  constructor
  · intro heq
    by_cases hnil : names = []
    · subst hnil
      exact (hempty held hheld heq.symm).symm
    · have hheldNe : held ≠ [] := by
        rintro rfl
        exact hnil (hempty names hnames heq)
      apply List.map_injective_iff.mpr fun _ _ => String.toList_injective
      rw [← hsplit names hnames hnil, heq, hsplit held hheld hheldNe]
  · exact congrArg joinLines

/-- The source compares the texts of the two lists, which for group names is to compare the
lists. -/
theorem sameGroups_iff_joinLines {wanted held : List String}
    (hwanted : ∀ name ∈ wanted, isGroupName name = true)
    (hheld : ∀ name ∈ held, isGroupName name = true) :
    joinLines (sortTexts (uniqueTexts wanted)) = joinLines (sortTexts held) ↔
      sortTexts (uniqueTexts wanted) = sortTexts held := by
  apply joinLines_inj
  · intro name hname
    exact joinable_of_isGroupName (hwanted name (by simpa using hname))
  · intro name hname
    exact joinable_of_isGroupName (hheld name (by simpa using hname))

/-! ### One line -/

def World.heldGroups (w : World) (id : String) : List String :=
  match (w.objects id).guard with
  | .ok user => user.groups
  | .error _ => []

def comparison (w : World) (number : ℕ) (line : ImportLine) (existing : RegistryUser)
    (id : String) : ImportResult :=
  if sameAsExisting line existing (w.heldGroups id) (existing.status == .disabled) then
    ⟨number, .unchanged, some id, none⟩
  else ⟨number, .conflict, some id, some .idExistsWithOtherData⟩

theorem comparison_unchanged {w : World} {number : ℕ} {line : ImportLine}
    {existing : RegistryUser} {id : String}
    (h : (comparison w number line existing id).status = .unchanged) :
    sameAsExisting line existing (w.heldGroups id) (existing.status == .disabled) = true ∧
      comparison w number line existing id = ⟨number, .unchanged, some id, none⟩ := by
  unfold comparison at h ⊢
  split_ifs at h ⊢ with hsame
  exact ⟨hsame, rfl⟩

section Lines
variable (hash : String → Bytes) (w : World)

theorem quiet_getProfile (id : String) : ∃ result,
    w.perform hash (.user id .getProfile) = (w, some (.profile result)) ∧
      TinyOidc.Account.heldGroups result = some (w.heldGroups id) := by
  have hobject : ((w.objects id).call hash .getProfile).1 = w.objects id := getProfile_object hash _
  refine ⟨((w.objects id).getProfile).2, ?_, ?_⟩
  · simp only [World.perform, hobject, World.setObject_self]
    rfl
  · unfold World.heldGroups UserObject.getProfile UserObject.guarded
    cases (w.objects id).guard <;> rfl

theorem compareLine_quiet (number : ℕ) {line : ImportLine} {id : String} (hid : line.id = some id)
    (email : Option String) : Quiet hash (compareLine number line email) w =
      (w, ((w.directory.getUser id).filter (·.status ≠ .creating)).map
        (comparison w number line · id)) := by
  obtain ⟨result, hcall, hheld⟩ := quiet_getProfile hash w id
  have hget : w.perform hash (.d1 (.getUser id)) = (w, .ok (w.directory.getUser id)) := rfl
  simp only [Quiet, compareLine, hid, d1, userCall, Prog.run_bind, Prog.run_perform, hget]
  cases hrow : w.directory.getUser id with
  | none => rfl
  | some existing =>
    by_cases hstatus : existing.status = .creating
    · simp [hstatus]
    · simp only [if_neg hstatus, Prog.run_bind, Prog.run_perform, hcall, hheld]
      simp only [Option.filter_some, hstatus, comparison, ne_eq, not_false_iff, decide_true,
        if_true,
        Option.map_some]
      split <;> rfl

/-- A line without an id only looks for a holder of its email. -/
theorem compareLine_quiet_of_none (number : ℕ) {line : ImportLine} (hid : line.id = none)
    (email : Option String) : ∃ outcome, Quiet hash (compareLine number line email) w =
    (w, outcome) ∧
      ∀ result, outcome = some result → result.status = .conflict := by
  simp only [Quiet, compareLine, hid]
  split
  next email' _ =>
    have hfind : w.perform hash (.d1 (.findVerifiedUser (normalizeEmail email'))) =
      (w, .ok (w.directory.findVerifiedUser (normalizeEmail email'))) := rfl
    simp only [d1, Prog.run_bind, Prog.run_perform, hfind]
    cases w.directory.findVerifiedUser (normalizeEmail email') with
    | none => exact ⟨none, rfl, by simp⟩
    | some holder => exact ⟨_, rfl, by rintro result ⟨⟩; rfl⟩
  · exact ⟨none, rfl, by simp⟩

structure FoundUnchanged (schema : ImportLineSchema) (number : ℕ) (raw : String) (line : ImportLine)
    (id : String) (existing : RegistryUser) (result : ImportResult) : Prop where
  parsed : schema.parse raw = .ok line
  named : line.id = some id
  stored : w.directory.getUser id = some existing
  visible : existing.status ≠ .creating
  same : sameAsExisting line existing (w.heldGroups id) (existing.status == .disabled) = true
  answer : result = ⟨number, .unchanged, some id, none⟩

variable (schema : ImportLineSchema) (uuids : UuidV7) (knownGroups : List (String × String))

/-- The check of a line changes nothing. -/
theorem checkLine_quiet (draw number : ℕ) (raw : String) : ∃ checked,
    Quiet hash (checkLine schema uuids knownGroups draw number raw) w = (w, checked) ∧
      ∀ result, checked = .done result → result.status = .unchanged →
        ∃ line id existing, FoundUnchanged w schema number raw line id existing result := by
  unfold checkLine
  split
  · exact ⟨_, rfl, by rintro result ⟨⟩ ⟨⟩⟩
  next line hparse =>
    by_cases hemail : (line.email.join.any fun email => !isValidEmail email) = true
    · simp only [if_pos hemail]
      exact ⟨_, rfl, by rintro result ⟨⟩ ⟨⟩⟩
    simp only [if_neg hemail]
    split
    · exact ⟨_, rfl, by rintro result ⟨⟩ ⟨⟩⟩
    · cases hid : line.id with
      | none =>
        obtain ⟨outcome, hcompare, hconflict⟩ :=
          compareLine_quiet_of_none hash w number hid line.email.join
        simp only [Quiet] at hcompare
        simp only [Quiet, Prog.run_bind, hcompare]
        cases outcome with
        | none => exact ⟨_, rfl, by rintro result ⟨⟩⟩
        | some result =>
          refine ⟨_, rfl, ?_⟩
          rintro _ ⟨⟩ hunchanged
          cases (hconflict result rfl).symm.trans hunchanged
      | some id =>
        have hcompare := compareLine_quiet hash w number hid line.email.join
        simp only [Quiet] at hcompare
        simp only [Quiet, Prog.run_bind, hcompare]
        cases hrow : (w.directory.getUser id).filter (·.status ≠ .creating) with
        | none => exact ⟨_, rfl, by rintro result ⟨⟩⟩
        | some existing =>
          refine ⟨_, rfl, ?_⟩
          rintro _ ⟨⟩ hunchanged
          obtain ⟨hstored, hvisible⟩ := Option.filter_eq_some_iff.mp hrow
          obtain ⟨hsame, hanswer⟩ := comparison_unchanged hunchanged
          exact ⟨line, id, existing, hparse, hid, hstored, by simpa using hvisible, hsame, hanswer⟩

/-- The checks of a body change nothing, and each is that of its line. -/
theorem checkLines_quiet (draw number : ℕ) (lines : List String) : ∃ checked,
    Quiet hash (checkLines schema uuids knownGroups draw number lines) w = (w, checked) ∧
      ∀ result ∈ checked.filterMap doneOf, result.status = .unchanged →
        ∃ index raw line id existing, lines[index]? = some raw ∧
          FoundUnchanged w schema (number + index) raw line id existing result := by
  induction lines generalizing number with
  | nil => exact ⟨[], rfl, by simp⟩
  | cons raw rest ih =>
    obtain ⟨first, hfirst, hfound⟩ :=
      checkLine_quiet hash w schema uuids knownGroups (draw + drawsOfLine * number) number raw
    obtain ⟨others, hothers, hrest⟩ := ih (number + 1)
    simp only [Quiet] at hfirst hothers
    refine ⟨first :: others, ?_, ?_⟩
    · simp only [Quiet, checkLines, Prog.run_bind, hfirst, hothers, Prog.run_pure]
    · intro result hresult hunchanged
      obtain ⟨entry, hentry, hdone⟩ := List.mem_filterMap.mp hresult
      have hentryDone : entry = .done result := by
        cases entry with
        | done given => exact congrArg Checked.done (Option.some.inj hdone)
        | create creatable => cases hdone
      rcases List.mem_cons.mp hentry with rfl | hlater
      · obtain ⟨line, id, existing, hmatch⟩ := hfound result hentryDone hunchanged
        exact ⟨0, raw, line, id, existing, rfl, hmatch⟩
      · obtain ⟨index, raw', line, id, existing, hraw, hmatch⟩ :=
          hrest result (List.mem_filterMap.mpr ⟨entry, hlater, hdone⟩) hunchanged
        refine ⟨index + 1, raw', line, id, existing, by simpa using hraw, ?_⟩
        rwa [Nat.add_assoc, Nat.add_comm 1] at hmatch

/-! ### The body -/

end Lines

def NoneUnchanged (results : List ImportResult) : Prop :=
  ∀ result ∈ results, result.status ≠ .unchanged

theorem NoneUnchanged.cons {result : ImportResult} {results : List ImportResult}
    (h : NoneUnchanged results) (hresult : result.status ≠ .unchanged) :
    NoneUnchanged (result :: results) := List.forall_mem_cons.mpr ⟨hresult, h⟩

theorem NoneUnchanged.append {results others : List ImportResult} (h : NoneUnchanged results)
    (hothers : NoneUnchanged others) : NoneUnchanged (results ++ others) := by
  intro result hresult
  rcases List.mem_append.mp hresult with hresult | hresult
  · exact h result hresult
  · exact hothers result hresult

theorem statusOfFailure_ne (failure : Interaction.CreateUserError) :
    statusOfFailure failure ≠ .unchanged := by
  cases failure <;> decide

/-- The lines of a creation end as created, in a conflict or in an error. -/
theorem reportEach_yields (now : ℤ) (outcomes : List (Creatable × CreateUserResult)) :
    (reportEach now outcomes).Yields (fun _ => True) NoneUnchanged := by
  induction outcomes with
  | nil =>
    intro result hresult
    cases hresult
  | cons first rest ih =>
    obtain ⟨creatable, outcome⟩ := first
    cases outcome with
    | error failure =>
      refine Yields.bind ih fun others hothers => ?_
      exact hothers.cons (statusOfFailure_ne failure)
    | ok profile =>
      have hline : (createdLine now creatable).Yields (fun _ => True)
          fun result => result.status ≠ .unchanged := by
        unfold createdLine
        dsimp only
        split
        · refine Yields.bind (only_true _).yields fun disabled _ => ?_
          cases disabled <;> (intro hunchanged; cases hunchanged)
        · intro hunchanged
          cases hunchanged
      exact Yields.bind hline fun result hresult =>
        Yields.bind ih fun others hothers => hothers.cons hresult

theorem importGroups_yields (now : ℤ) (groups : List (List Creatable)) :
    (importGroups now groups).Yields (fun _ => True) NoneUnchanged := by
  induction groups with
  | nil =>
    intro result hresult
    cases hresult
  | cons group rest ih =>
    have hgroup : (importGroup now group).Yields (fun _ => True) NoneUnchanged := by
      refine Yields.bind (only_true _).yields fun outcomes _ => ?_
      cases outcomes with
      | none =>
        intro result hresult
        obtain ⟨creatable, -, rfl⟩ := List.mem_map.mp hresult
        simp
      | some outcomes => exact reportEach_yields now _
    exact Yields.bind hgroup fun results hresults =>
      Yields.bind ih fun others hothers => hresults.append hothers

/-- A line of a body answered `unchanged` was found so when the body was checked. -/
theorem foundUnchanged_of_import (schema : ImportLineSchema) (uuids : UuidV7)
    (hash : String → Bytes) (w : World) (draw : ℕ) (body : String) (now : ℤ)
    {results : List ImportResult} {result : ImportResult}
    (hanswer : (Quiet hash (importUsersHandler schema uuids draw body now) w).2 = .lines results)
    (hresult : result ∈ results) (hunchanged : result.status = .unchanged) :
    ∃ index raw line id existing, (rawLines body)[index]? = some raw ∧
      FoundUnchanged w schema (index + 1) raw line id existing result := by
  unfold importUsersHandler at hanswer
  split at hanswer
  · cases hanswer
  split at hanswer
  · cases hanswer
  have hgroups : w.perform hash (.d1 .groupIdsByName) = (w, .ok w.directory.groupIdsByName) := rfl
  obtain ⟨checked, hchecked, hfound⟩ := checkLines_quiet hash w schema uuids
    w.directory.groupIdsByName draw 1 (rawLines body)
  simp only [Quiet] at hchecked
  simp only [Quiet, d1, Prog.run_bind, Prog.run_perform, hgroups, hchecked, Prog.run_pure]
    at hanswer
  cases hanswer
  have hcreated := (importGroups_yields now (Chunks.chunks importClaimBatch
    (checked.filterMap creatableOf))).run (fun w op => World.perform hash w op) w
  obtain ⟨position, -, hfind⟩ := List.mem_filterMap.mp hresult
  rcases List.mem_append.mp (List.mem_of_find?_eq_some hfind) with hdone | hmade
  · obtain ⟨index, raw, line, id, existing, hraw, hmatch⟩ := hfound result hdone hunchanged
    rw [Nat.add_comm] at hmatch
    exact ⟨index, raw, line, id, existing, hraw, hmatch⟩
  · exact absurd hunchanged (hcreated result hmade)

/-! ### What `unchanged` says -/

/-- What the line names of these equals what is stored: the registry's row, and as a set the groups
that the profile holds. -/
structure ComparedEqual (line : ImportLine) (row : RegistryUser) (held : List String) : Prop where
  email : ∀ email, line.email = some email → email.map normalizeEmail = row.emailNorm
  emailVerified : ∀ verified, line.emailVerified = some verified → verified = row.emailVerified
  displayName : ∀ name, line.displayName = some name → name = row.displayName
  groups : ∀ names, line.groups = some names → ∀ name, name ∈ names ↔ name ∈ held
  disabled : ∀ disabled, line.disabled = some disabled →
    (disabled = true ↔ row.status = .disabled)

theorem comparedEqual_of_same {line : ImportLine} {row : RegistryUser} {held : List String}
    (h : sameAsExisting line row held (row.status == .disabled) = true) :
    ComparedEqual line row held := by
  simp only [sameAsExisting, Bool.and_eq_true] at h
  obtain ⟨⟨⟨⟨hemail, hverified⟩, hname⟩, hgroups⟩, hdisabled⟩ := h
  constructor
  · rintro email heq
    simpa [heq] using hemail
  · rintro verified heq
    simpa [heq] using hverified
  · rintro name heq
    simpa [heq] using hname
  · rintro names heq name
    rw [heq] at hgroups
    have hsorted : sortTexts (uniqueTexts names) = sortTexts held := by simpa using hgroups
    rw [← mem_uniqueTexts, ← mem_sortTexts, hsorted, mem_sortTexts]
  · rintro disabled heq
    rw [heq] at hdisabled
    have hsame : disabled = (row.status == .disabled) := by simpa using hdisabled
    simp [hsame]

/-- A line answered `unchanged` is that of a visible user, and what it names of the email, its
verification, the display name, the groups and the status equals what is stored. A profile that
the object does not have counts as one without groups. -/
theorem import_unchanged (schema : ImportLineSchema) (uuids : UuidV7) (hash : String → Bytes)
    (w : World) (draw : ℕ) (body : String) (now : ℤ) (results : List ImportResult)
    (result : ImportResult)
    (hanswer : (Quiet hash (importUsersHandler schema uuids draw body now) w).2 = .lines results)
    (hresult : result ∈ results) (hunchanged : result.status = .unchanged) :
    ∃ index raw line id row, (rawLines body)[index]? = some raw ∧ result.line = index + 1 ∧
      schema.parse raw = .ok line ∧ line.id = some id ∧ result.id = some id ∧
      w.directory.getUser id = some row ∧ row.status ≠ .creating ∧
      ComparedEqual line row (w.heldGroups id) := by
  obtain ⟨index, raw, line, id, row, hraw, hfound⟩ :=
    foundUnchanged_of_import schema uuids hash w draw body now hanswer hresult hunchanged
  have hanswer := hfound.answer
  exact ⟨index, raw, line, id, row, hraw, by rw [hanswer], hfound.parsed, hfound.named,
    by rw [hanswer], hfound.stored, hfound.visible, comparedEqual_of_same hfound.same⟩

namespace Sample

def storedId : String := "0190a1b2-c3d4-7e5f-8a6b-7c8d9e0f1a2b"

/-- The line names the email, its verification, the groups and the status. -/
def fullLine : String :=
  "\x7b\"id\":\"0190a1b2-c3d4-7e5f-8a6b-7c8d9e0f1a2b\",\"email\":\"Ada@x.test\"," ++
    "\"email_verified\":true,\"groups\":[\"staff\",\"ops\"],\"disabled\":true\x7d"

def fullSchema : ImportLineSchema where
  parse raw := if raw = fullLine then
      .ok ⟨some storedId, some (some "Ada@x.test"), some true, none, some ["staff", "ops"], none,
        some true, none⟩
    else .error "malformed_json"
  uuid := by
    intro raw line id hparse hid
    rcases ite_eq_iff.mp hparse with ⟨-, hline⟩ | ⟨-, hline⟩
    · cases hline
      cases hid
      decide
    · cases hline

def idsInTurn : UuidV7 := ⟨fun _ => storedId, fun _ => by decide⟩

/-- A disabled user with an email and two groups. -/
def employed : World where
  directory := { Directory.empty with
    users := ⟨[⟨storedId, some "ada@x.test", some "ada@x.test", true, some "Ada", .disabled, 0,
      5⟩], by simp⟩
    groups := ⟨[⟨"g1", "ops", by decide⟩, ⟨"g2", "staff", by decide⟩], by decide⟩
    verifiedEmails := by decide
    groupNames := by decide }
  objects := Function.update (fun _ => .fresh) storedId
    { UserObject.fresh with
      tables := { UserObject.fresh.tables with
        user := some ⟨storedId, some "ada@x.test", some "ada@x.test", true, some "Ada",
          ["ops", "staff"], some 5, 0, 5⟩ } }

def sameAnswer : ImportResult := ⟨1, .unchanged, some storedId, none⟩

theorem employed_answer :
    (Quiet (fun _ => []) (importUsersHandler fullSchema idsInTurn 0 fullLine 7) employed).2 =
      .lines [sameAnswer] := by
  decide +kernel

end Sample

theorem import_unchanged_sample :
    ∃ index raw line id row, (rawLines Sample.fullLine)[index]? = some raw ∧
      Sample.sameAnswer.line = index + 1 ∧ Sample.fullSchema.parse raw = .ok line ∧
      line.id = some id ∧ Sample.sameAnswer.id = some id ∧
      Sample.employed.directory.getUser id = some row ∧ row.status ≠ .creating ∧
      ComparedEqual line row (Sample.employed.heldGroups id) :=
  import_unchanged Sample.fullSchema Sample.idsInTurn (fun _ => []) Sample.employed 0
    Sample.fullLine 7 [Sample.sameAnswer] Sample.sameAnswer Sample.employed_answer (by simp) rfl

/-! ### An object that is gone -/

namespace Sample

/-- The line names the user's groups, of which there are none. -/
def groupsLine : String :=
  "\x7b\"id\":\"0190a1b2-c3d4-7e5f-8a6b-7c8d9e0f1a2b\",\"groups\":[]\x7d"

def groupsSchema : ImportLineSchema where
  parse raw := if raw = groupsLine then
      .ok ⟨some storedId, none, none, none, some [], none, none, none⟩
    else .error "malformed_json"
  uuid := by
    intro raw line id hparse hid
    rcases ite_eq_iff.mp hparse with ⟨-, hline⟩ | ⟨-, hline⟩
    · cases hline
      cases hid
      decide
    · cases hline

/-- The row of a user whose object is gone. -/
def hollow : World where
  directory := { Directory.empty with
    users := ⟨[⟨storedId, none, none, false, none, .active, 0, 0⟩], by simp⟩
    verifiedEmails := by decide }
  objects _ := .fresh

def hollowAnswer : ImportResult := ⟨1, .unchanged, some storedId, none⟩

theorem hollow_answer :
    (Quiet (fun _ => []) (importUsersHandler groupsSchema idsInTurn 0 groupsLine 7) hollow).2 =
      .lines [hollowAnswer] := by
  rfl

end Sample

/-- Everything the line names equals what is stored. -/
structure StoredAs (line : ImportLine) (row : RegistryUser) (t : Tables) (user : UserRow) : Prop
    extends ComparedEqual line row user.groups where
  identities : ∀ identities, line.identities = some identities → ∀ issuer subject,
    (∃ i ∈ identities, i.issuer = issuer ∧ i.subject = subject) ↔
      ∃ i ∈ t.identities.rows, i.issuer = issuer ∧ i.subject = subject
  createdAt : ∀ instant, line.createdAt = some instant → instant = row.createdAt

/-- The object is gone, and its user's line is answered `unchanged`. -/
theorem unchanged_without_profile :
    ¬ ∀ (schema : ImportLineSchema) (uuids : UuidV7) (hash : String → Bytes) (w : World) (draw : ℕ)
      (body : String) (now : ℤ) (results : List ImportResult) (result : ImportResult),
      (Quiet hash (importUsersHandler schema uuids draw body now) w).2 = .lines results →
      result ∈ results → result.status = .unchanged →
      ∃ (index : ℕ) (raw : String) (line : ImportLine) (id : String) (row : RegistryUser)
        (user : UserRow), (rawLines body)[index]? = some raw ∧
        schema.parse raw = .ok line ∧ line.id = some id ∧ w.directory.getUser id = some row ∧
        (w.objects id).guard = .ok user ∧ StoredAs line row (w.objects id).tables user := by
  intro hall
  obtain ⟨-, -, -, id, -, user, -, -, -, -, hguard, -⟩ := hall Sample.groupsSchema Sample.idsInTurn
    (fun _ => []) Sample.hollow 0 Sample.groupsLine 7 [Sample.hollowAnswer] Sample.hollowAnswer
    Sample.hollow_answer (by simp) rfl
  cases hguard

end TinyOidc.Account
