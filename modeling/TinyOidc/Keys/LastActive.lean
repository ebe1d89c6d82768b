import TinyOidc.Keys.KeyCalls

/-! Whether a key is left to sign with. Each retirement is decided on a listing that other
retirements may have overtaken; what the decision guards is a key of that listing. -/
namespace TinyOidc.Keys
open RowTable
open Threads (Prog Entry Label Thread Config System)
open Threads.Prog (Obeys)

/-! ### What a retirement has listed -/

abbrev KeyLog := List (Entry KeyStatement.Answer)

def listed : KeyLog → List SigningKeyRow
  | [] => []
  | ⟨.listSigningKeys, rows⟩ :: _ => rows
  | _ :: log => listed log

/-- A key is retired when, by the listing, others that have activated stay, or it has not
activated. Time passes with the request. -/
def KeyPermits (q : KeyRequest) (log : KeyLog) : KeyStatement → Prop
  | .retireSigningKey kid _ => ((listed log).map (·.kid)).Nodup →
      ∀ r ∈ listed log, r.kid = kid → r.retiredAt = none → r.activatesAt ≤ q.now →
        survivors q.now kid (listed log) ≠ []
  | _ => True

section Protocol
variable {q : KeyRequest} {log : KeyLog}

theorem mem_survivors {now : ℤ} {kid : String} {rows : List SigningKeyRow} {r : SigningKeyRow} :
    r ∈ survivors now kid rows ↔
      r ∈ rows ∧ r.kid ≠ kid ∧ r.retiredAt = none ∧ r.activatesAt ≤ now := by
  simp [survivors, isActive]

theorem rotate_obeys (key : GeneratedKey) (now prepublishSeconds : ℤ) (immediate : Bool) :
    Obeys (KeyPermits q) (fun log' _ => listed log' = listed log) log
      (rotate key now prepublishSeconds immediate) := by
  refine Obeys.perform trivial fun r => ?_
  cases r <;> rfl

theorem loadRows_obeys (key : GeneratedKey) (now : ℤ) :
    Obeys (KeyPermits q) (fun _ _ => True) log (loadRows key now) := by
  refine Obeys.perform trivial fun rows => ?_
  split
  · trivial
  · refine Obeys.perform trivial fun inserted => ?_
    cases inserted with
    | false => trivial
    | true => exact Obeys.perform trivial fun _ => trivial

theorem retireSigningKeyNow_obeys (kid : String) (now : ℤ) :
    Obeys (KeyPermits (.retire kid now)) (fun _ _ => True) [] (retireSigningKeyNow kid now) := by
  refine Obeys.perform trivial fun rows => ?_
  split
  · trivial
  · next target hfind =>
    split
    · trivial
    · next hguard =>
      refine Obeys.perform ?_ fun _ => trivial
      intro hnodup r hr hkid hretired hactive hnone
      have htarget := List.find?_some hfind
      simp only [Bool.and_eq_true, beq_iff_eq] at htarget
      have hsame : r = target :=
        List.inj_on_of_nodup_map hnodup hr (List.mem_of_find?_eq_some hfind)
        (hkid.trans htarget.1.symm)
      subst hsame
      have hnone' : survivors now kid rows = [] := hnone
      have hactive' : r.activatesAt ≤ now := hactive
      simp [hnone', hactive'] at hguard

/-- The signing key stays when the keys it supersedes are retired. -/
theorem survivors_of_retirable {now retireAfter : ℤ} {rows : List SigningKeyRow}
    (hnodup : (rows.map (·.kid)).Nodup) {row : SigningKeyRow}
    (h : row ∈ retirable (deriveRoles rows now) now retireAfter) :
    survivors now row.kid rows ≠ [] := by
  have hverifying : row ∈ (deriveRoles rows now).verifying := by
    unfold retirable at h
    split at h
    · exact h
    · cases h
  obtain ⟨hrow, signing, hsigning, hlater⟩ := mem_verifying hverifying
  obtain ⟨hmem, hretired, hactive, -⟩ := signing_spec hsigning
  refine List.ne_nil_of_mem (mem_survivors.mpr ⟨hmem, fun hkid => ?_, hretired, hactive⟩)
  have hsame := List.inj_on_of_nodup_map hnodup hmem hrow hkid
  rw [hsame] at hlater
  exact lt_irrefl _ hlater

theorem retireEach_obeys {now retireAfter : ℤ} {rows : List SigningKeyRow} (hnow : q.now = now)
    (superseded : List SigningKeyRow)
    (hsub : ∀ row ∈ superseded, row ∈ retirable (deriveRoles rows now) now retireAfter)
    (hlisted : listed log = rows) :
    Obeys (KeyPermits q) (fun _ _ => True) log (retireEach now superseded) := by
  induction superseded generalizing log with
  | nil => trivial
  | cons row rest ih =>
    refine Obeys.perform ?_ fun _ => ih (fun r hr => hsub r (List.mem_cons_of_mem _ hr)) hlisted
    intro hnodup _ _ _ _ _
    rw [hlisted, hnow] at *
    exact survivors_of_retirable hnodup (hsub row List.mem_cons_self)

theorem maintain_obeys (key : GeneratedKey) (now : ℤ) (s : KeySettings) :
    Obeys (KeyPermits (.maintain key now s)) (fun _ _ => True) [] (maintain key now s) := by
  refine Obeys.perform trivial fun rows => ?_
  have hfinish : ∀ (log : KeyLog) (created : Option String), listed log = rows →
      Obeys (KeyPermits (.maintain key now s)) (fun _ _ => True) log
        (retireAndDelete (retirable (deriveRoles rows now) now s.retireAfterSeconds) created
          now) := by
    intro log created hlisted
    refine Obeys.bind ((retireEach_obeys rfl _ (fun _ h => h) hlisted).mono fun log' _ _ => ?_)
    exact Obeys.perform trivial fun _ => trivial
  dsimp only
  split
  · refine Obeys.bind ((rotate_obeys key now _ false).mono fun log' created hsame => ?_)
    split
    · trivial
    · exact hfinish log' _ hsame
  · exact hfinish _ none rfl

theorem KeyRequest.run_obeys (q : KeyRequest) :
    Obeys (KeyPermits q) (fun _ _ => True) [] q.run := by
  cases q with
  | rotate key now prepublishSeconds immediate =>
    exact Obeys.bind ((rotate_obeys key now prepublishSeconds immediate).mono fun _ _ _ => trivial)
  | retire kid now =>
    exact Obeys.bind ((retireSigningKeyNow_obeys kid now).mono fun _ _ _ => trivial)
  | maintain key now s => exact Obeys.bind ((maintain_obeys key now s).mono fun _ _ _ => trivial)
  | load key now => exact Obeys.bind ((loadRows_obeys key now).mono fun _ _ _ => trivial)

end Protocol

/-! ### The system -/

/-- A step is labelled with the clock when it is made. -/
def keyCalls : System KeyRequest ℤ KeyTable KeyStatement.Answer KeyAnswer where
  start := KeyRequest.run
  exec t _ op := perform t op
  isOutside _ := false

abbrev KeyConfig := Config KeyRequest KeyTable KeyStatement.Answer KeyAnswer

abbrev KeyLabel := Label KeyRequest KeyStatement ℤ

theorem keyCalls_follow : keyCalls.Follows KeyPermits := KeyRequest.run_obeys

/-- The clock at a step; a request reads it when it arrives. -/
def clockOf : KeyLabel → ℤ
  | .spawn q => q.now
  | .step _ clock | .outside _ clock => clock

/-- The clock does not go back. -/
def KeysInTime (labels : List KeyLabel) : Prop := (labels.map clockOf).Pairwise (· ≥ ·)

instance (labels : List KeyLabel) : Decidable (KeysInTime labels) :=
  inferInstanceAs (Decidable (List.Pairwise _ _))

def HasActive (t : KeyTable) (clock : ℤ) : Prop := ∃ r ∈ t.rows, isActive clock r = true

instance (t : KeyTable) (clock : ℤ) : Decidable (HasActive t clock) :=
  inferInstanceAs (Decidable (∃ r ∈ t.rows, _))

/-- When the next step retires a key that has activated, the key is the one its request listed,
active then, and one of the others that were has not been retired since. -/
def retiresListed (c : KeyConfig) : KeyLabel → Bool
  | .step i clock =>
      match c.threads[i]? with
      | none => true
      | some t =>
        match t.prog.head with
        | some (.retireSigningKey kid _) =>
            let others := survivors t.request.now kid (listed t.log)
            c.shared.rows.all fun row => row.kid != kid || !isActive clock row ||
              ((listed t.log).contains row && row.activatesAt ≤ t.request.now &&
                (others.isEmpty || others.any c.shared.rows.contains))
        | _ => true
  | _ => true

def RetiresListed (t : KeyTable) : List KeyLabel → Prop
  | [] => True
  | l :: labels => retiresListed (keyCalls.after t labels) l = true ∧ RetiresListed t labels

instance decidableRetiresListed (t : KeyTable) :
    (labels : List KeyLabel) → Decidable (RetiresListed t labels)
  | [] => isTrue trivial
  | _ :: labels =>
      have := decidableRetiresListed t labels
      inferInstanceAs (Decidable (_ ∧ _))

/-! ### Runs -/

theorem HasActive.later {t : KeyTable} {clock clock' : ℤ} (h : HasActive t clock)
    (hle : clock ≤ clock') : HasActive t clock' := by
  obtain ⟨r, hr, hactive⟩ := h
  simp only [isActive, Bool.and_eq_true, decide_eq_true_eq] at hactive
  refine ⟨r, hr, ?_⟩
  simp only [isActive, Bool.and_eq_true, decide_eq_true_eq]
  exact ⟨hactive.1, hactive.2.trans hle⟩

/-- A statement that retires nothing keeps the unretired rows. -/
theorem mem_perform {t : KeyTable} {op : KeyStatement}
    (hop : ∀ kid now, op ≠ .retireSigningKey kid now)
    {r : SigningKeyRow} (hr : r ∈ t.rows) (hretired : r.retiredAt = none) :
    r ∈ (perform t op).1.rows := by
  have hinserted : ∀ (row : SigningKeyRow), r ∈ (inserted t (t.insert row)).1.rows := by
    intro row
    cases hinsert : t.insert row with
    | none => exact hr
    | some t' => exact (Table.mem_insert hinsert).mpr (.inl hr)
  cases op with
  | listSigningKeys => exact hr
  | insertSigningKey row => exact hinserted row
  | insertFirstSigningKey row =>
    change r ∈ (inserted t (insertFirstSigningKey t row)).1.rows
    unfold insertFirstSigningKey
    split
    · exact hr
    · exact hinserted row
  | retireSigningKey kid now => exact absurd rfl (hop kid now)
  | deleteRetiredSigningKeys cutoff =>
    exact Table.mem_deleteWhere.mpr ⟨hr, by simp [isDeletable, hretired]⟩

theorem mem_retire_of_ne {t : KeyTable} {kid : String} {now : ℤ} {r : SigningKeyRow}
    (hr : r ∈ t.rows) (hkid : r.kid ≠ kid) : r ∈ (retireSigningKey t kid now).rows := by
  have hself : r = if (r.kid == kid && r.retiredAt.isNone) = true then
      { r with retiredAt := some now, privateJwkEnc := none } else r := by simp [hkid]
  rw [hself]
  exact List.mem_map_of_mem hr

/-- A listing has each kid once. -/
theorem nodup_listed (t : KeyTable) (labels : List KeyLabel) :
    ∀ th ∈ (keyCalls.after t labels).threads, ((listed th.log).map (·.kid)).Nodup := by
  intro th hth
  have hentries := (System.shared_invariant keyCalls_follow (I := fun _ => True)
    (E := fun entry => ∀ rows, entry = ⟨.listSigningKeys, rows⟩ → (rows.map (·.kid)).Nodup)
    trivial (s := t) (fun t clock op _ _ => ⟨trivial, ?_⟩) labels).2 th hth
  · generalize th.log = log at hentries
    induction log with
    | nil => exact List.nodup_nil
    | cons entry log ih =>
      have hlog := ih fun e he => hentries e (List.mem_cons_of_mem _ he)
      unfold listed
      split
      · exact List.nodup_nil
      · next rows log' heq =>
        cases heq
        exact hentries _ List.mem_cons_self rows rfl
      · next entry' log' hno heq =>
        cases heq
        exact hlog
  · intro rows heq
    obtain ⟨rfl, hrows⟩ := Sigma.mk.inj heq
    cases eq_of_heq hrows
    have hperm : (listSigningKeys t).Perm t.rows := List.perm_insertionSort rowLe t.rows
    exact ((hperm.map (·.kid)).nodup_iff).mpr t.nodup

section Steps
variable {t : KeyTable} {labels : List KeyLabel} {i : ℕ} {clock : ℤ} {op : KeyStatement}
  {th : Thread KeyRequest KeyStatement.Answer KeyAnswer}

/-- A step of a request leaves an active key, if there was one. -/
theorem HasActive.step (h : HasActive (keyCalls.after t labels).shared clock)
    (hi : (keyCalls.after t labels).threads[i]? = some th) (hhead : th.prog.head = some op)
    (hperm : KeyPermits th.request th.log op) (hnow : th.request.now ≤ clock)
    (hlisted : retiresListed (keyCalls.after t labels) (.step i clock) = true) :
    HasActive (perform (keyCalls.after t labels).shared op).1 clock := by
  have hnodup := nodup_listed t labels th (List.mem_of_getElem? hi)
  generalize keyCalls.after t labels = c at *
  obtain ⟨r, hr, hactive⟩ := h
  have hr' : r.retiredAt = none ∧ r.activatesAt ≤ clock := by simpa [isActive] using hactive
  by_cases hop : ∃ kid now, op = .retireSigningKey kid now
  · obtain ⟨kid, now, rfl⟩ := hop
    by_cases hkid : r.kid = kid
    · simp only [retiresListed, hi, hhead, List.all_eq_true] at hlisted
      have hrow := hlisted r hr
      simp only [hkid, bne_self_eq_false, hactive, Bool.not_true, Bool.false_or,
        Bool.and_eq_true, decide_eq_true_eq, Bool.or_eq_true, List.isEmpty_iff,
        List.any_eq_true, List.contains_iff_mem] at hrow
      obtain ⟨⟨hmem, hbefore⟩, hothers⟩ := hrow
      -- Its request left other keys to sign with, one of which is still there.
      have hguard := hperm hnodup r hmem hkid hr'.1 hbefore
      obtain ⟨other, hother, hstays⟩ := hothers.resolve_left hguard
      obtain ⟨-, hne, hretired, hactivated⟩ := mem_survivors.mp hother
      refine ⟨other, mem_retire_of_ne hstays hne, ?_⟩
      simp only [isActive, hretired, Option.isNone_none, Bool.true_and, decide_eq_true_eq]
      omega
    · exact ⟨r, mem_retire_of_ne hr hkid, hactive⟩
  · exact ⟨r, mem_perform (fun kid now heq => hop ⟨kid, now, heq⟩) hr hr'.1, hactive⟩

end Steps

/-- Once a key has activated there is always one to sign with, in every run whose retirements
are of keys as listed, with one of the other keys listed still unretired. -/
theorem active_key_stays (t : KeyTable) (later earlier : List KeyLabel) (start : ℤ)
    (hclock : KeysInTime (later ++ earlier)) (hlisted : RetiresListed t (later ++ earlier))
    (hstart : HasActive (keyCalls.after t earlier).shared start)
    (hafter : ∀ l ∈ later, start ≤ clockOf l) :
    ∀ clock, start ≤ clock → (∀ l ∈ later, clockOf l ≤ clock) →
      HasActive (keyCalls.after t (later ++ earlier)).shared clock := by
  induction later with
  | nil => exact fun clock hle _ => hstart.later hle
  | cons l later ih =>
    intro clock hle hclocks
    obtain ⟨hmax, hclock⟩ := List.pairwise_cons.mp hclock
    have hread := hclocks l List.mem_cons_self
    have hbefore : HasActive (keyCalls.after t (later ++ earlier)).shared (clockOf l) :=
      ih hclock hlisted.2 (fun l' hl' => hafter l' (List.mem_cons_of_mem _ hl')) (clockOf l)
        (hafter l List.mem_cons_self)
        fun l' hl' => hmax _ (List.mem_map_of_mem (List.mem_append_left _ hl'))
    suffices hnext : HasActive (keyCalls.after t (l :: (later ++ earlier))).shared (clockOf l) from
      hnext.later hread
    rw [System.after, Machine.after_cons]
    cases l with
    | spawn q => exact hbefore
    | outside op clock' => exact hbefore
    | step i clock' =>
      rcases keyCalls.step_turn (keyCalls.after t (later ++ earlier)) i clock' with
        ⟨hidle, -⟩ | ⟨th, op, next, hi, hp, hstep⟩
      · rw [hidle]
        exact hbefore
      · rw [hstep]
        have hth := List.mem_of_getElem? hi
        have hobeys := System.thread_obeys keyCalls_follow t (later ++ earlier) th hth
        rw [hp] at hobeys
        have hnow := hmax _ (List.mem_map_of_mem (keyCalls.spawn_mem_of_thread hth))
        exact hbefore.step hi (by rw [hp]; rfl) hobeys.1 hnow hlisted.1

/-! ### Two retirements that see each other's key -/

namespace Sample

def keyRow (kid : String) : SigningKeyRow := ⟨kid, "jwk", some [], 0, 0, none⟩

def twoKeys : KeyTable := ⟨[keyRow "k1", keyRow "k2"], by decide⟩

def retirements : List KeyLabel := [.spawn (.retire "k2" 5), .spawn (.retire "k1" 5)]

/-- The second retirement lists the keys after the first is done, and is refused. -/
def inTurn : List KeyLabel := [.step 1 6, .step 0 5, .step 0 5]

/-- Both retirements list the keys, and then both update their row. -/
def together : List KeyLabel := [.step 1 6, .step 0 6, .step 1 5, .step 0 5]

end Sample

theorem active_key_stays_sample :
    HasActive (keyCalls.after Sample.twoKeys (Sample.inTurn ++ Sample.retirements)).shared 6 :=
  active_key_stays Sample.twoKeys Sample.inTurn Sample.retirements 5 (by decide)
    (by decide) (by decide) (by decide) 6 (by decide) (by decide +kernel)

/-- Two operators retire one key each; each listing shows the other's key, and none is left. -/
theorem last_keys_retired :
    ¬ ∀ (t : KeyTable) (later earlier : List KeyLabel) (start : ℤ),
      KeysInTime (later ++ earlier) → HasActive (keyCalls.after t earlier).shared start →
      (∀ l ∈ later, start ≤ clockOf l) →
      ∀ clock, start ≤ clock → (∀ l ∈ later, clockOf l ≤ clock) →
        HasActive (keyCalls.after t (later ++ earlier)).shared clock := by
  intro hall
  have hactive := hall Sample.twoKeys Sample.together Sample.retirements 5 (by decide)
    (by decide) (by decide) 6 (by decide) (by decide)
  exact absurd hactive (by decide)

end TinyOidc.Keys
