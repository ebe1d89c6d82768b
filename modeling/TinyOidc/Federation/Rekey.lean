import TinyOidc.Federation.UpstreamCalls

/-! The sealed material of upstreams while rekeying and administration interleave. A rekey lists
the records once and later rewrites both columns of each; a patch writes back the columns it
keeps. What either has read may have been replaced in between. -/
namespace TinyOidc.Federation
open RowTable TinyOidc.Crypto
open TinyOidc.User (Bytes)
open Threads (Prog Entry Label Config System Delivery)

abbrev UpstreamConfig (β : Type) :=
  Config (UpstreamRequest β) UpstreamTable UpstreamOp.Answer UpstreamResponse

abbrev UpstreamLabel (β : Type) := Label (UpstreamRequest β) UpstreamOp UpstreamOutside

/-- What the patches have set for each upstream and column: a secret, or that there is none. -/
abbrev SetMaterial := String → SealedColumn → Option (Option Bytes)

/-- What a patch sets for a column: the secret it gives, or none where it drops the stored one. A
column that it writes back as read it does not set. -/
def setBy (given read written : Option Bytes) : Option (Option Bytes) :=
  match given with
  | some plaintext => some (some plaintext)
  | none => if written = read then none else some none

section Condition
variable {β : Type} (cipher : Cipher) (keys : DerivedKeys) (rules : BodyRules β)
  (issuerUrl : String)

def readBy (log : UpstreamLog) (column : SealedColumn) : Option Bytes :=
  (loadedRecord log).bind (·.material column)

/-- What is set after one more statement. A new record, or none, starts afresh. -/
def nextSet (q : UpstreamRequest β) (log : UpstreamLog) (t : UpstreamTable)
    (outside : UpstreamOutside) (set : SetMaterial) : UpstreamOp → SetMaterial
  | .updateUpstream u now => fun recordAlias column =>
      if recordAlias = u.recordAlias ∧ outside.delivery.isApplied = true ∧
          (updateUpstream t u now).2 = .changed then
        (setBy (givenBy rules q log column) (readBy log column) (u.material column)).or
          (set recordAlias column)
      else set recordAlias column
  | .insertUpstream u => fun recordAlias column =>
      if recordAlias = u.recordAlias ∧ outside.delivery.isApplied = true ∧
          (insertUpstream t u).2 = .created then none
      else set recordAlias column
  | .deleteUpstream deleted => fun recordAlias column =>
      if recordAlias = deleted ∧ outside.delivery.isApplied = true then none
      else set recordAlias column
  | _ => set

def lastSet (t : UpstreamTable) : List (UpstreamLabel β) → SetMaterial
  | [] => fun _ _ => none
  | .step i outside :: labels =>
      let c := (upstreamCalls cipher keys rules issuerUrl).after t labels
      match c.threads[i]? with
      | none => lastSet t labels
      | some th =>
        match th.prog.head with
        | some op => nextSet rules th.request th.log c.shared outside (lastSet t labels) op
        | none => lastSet t labels
  | _ :: labels => lastSet t labels

/-- A stored column opens to the secret that was set, or is empty where none was. -/
def OpensTo (stored : Option Bytes) : Option Bytes → Prop
  | some plaintext => stored.bind (openSecret cipher keys) = some plaintext
  | none => stored = none

def MaterialAsSet (t : UpstreamTable) (set : SetMaterial) : Prop :=
  ∀ recordAlias u column given, t.find recordAlias = some u →
    set recordAlias column = some given → OpensTo cipher keys (u.material column) given

/-- A statement of a rekey finds both columns as listed; one of a patch finds the columns that it
writes back as it has loaded them. -/
def writesAsRead (q : UpstreamRequest β) (log : UpstreamLog) (t : UpstreamTable) :
    UpstreamOp → Bool
  | .updateUpstreamSecrets recordAlias _ _ =>
      (t.find recordAlias).all fun row => (listedRecords log).all fun u =>
        u.recordAlias != recordAlias ||
          (row.clientSecretEnc == u.clientSecretEnc && row.clientJwkEnc == u.clientJwkEnc)
  | .updateUpstream u _ =>
      (t.find u.recordAlias).all fun row =>
        [SealedColumn.clientSecret, .clientJwk].all fun column =>
          (givenBy rules q log column).isSome || u.material column != readBy log column ||
            row.material column == readBy log column
  | _ => true

def stepWritesAsRead (c : UpstreamConfig β) : UpstreamLabel β → Bool
  | .step i outside =>
      match c.threads[i]? with
      | none => true
      | some th =>
        match th.prog.head with
        | some op =>
          !outside.delivery.isApplied || writesAsRead rules th.request th.log c.shared op
        | none => true
  | _ => true

def WritesAsRead (t : UpstreamTable) : List (UpstreamLabel β) → Prop
  | [] => True
  | l :: labels =>
      stepWritesAsRead rules ((upstreamCalls cipher keys rules issuerUrl).after t labels) l = true ∧
        WritesAsRead t labels

instance decidableWritesAsRead (t : UpstreamTable) : (labels : List (UpstreamLabel β)) →
    Decidable (WritesAsRead cipher keys rules issuerUrl t labels)
  | [] => isTrue trivial
  | _ :: labels =>
      have := decidableWritesAsRead t labels
      inferInstanceAs (Decidable (_ ∧ _))

end Condition

/-! ### One statement -/

section Statements
variable {β : Type} {cipher : Cipher} {keys : DerivedKeys} {rules : BodyRules β}
  {q : UpstreamRequest β} {log : UpstreamLog} {t : UpstreamTable} {set : SetMaterial}

def SealsOpen (cipher : Cipher) (keys : DerivedKeys) (log : UpstreamLog) : Prop :=
  ∀ plaintext blob, (⟨.sealSecret plaintext, blob⟩ : Entry UpstreamOp.Answer) ∈ log →
    openSecret cipher keys blob = some plaintext

/-- Sealing again keeps what a column opens to. -/
theorem OpensTo.resealed {stored written given : Option Bytes}
    (h : OpensTo cipher keys stored given)
    (hopen : SealsOpen cipher keys log) (hresealed : ResealedFrom cipher keys log stored written) :
    OpensTo cipher keys written given := by
  rcases hresealed with rfl | ⟨b, plaintext, blob, rfl, hplain, hmem, rfl⟩
  · exact h
  · cases given with
    | none => cases h
    | some expected =>
      have hsame : openSecret cipher keys b = some expected := h
      rw [hplain] at hsame
      cases hsame
      exact hopen plaintext blob hmem

/-- A column that a patch writes is as the patch sets it, or as it was. -/
theorem opensTo_prepared {given read written stored expected : Option Bytes}
    {before : Option (Option Bytes)} (hopen : SealsOpen cipher keys log)
    (hprepared : PreparedFrom log given read written)
    (hkept : given = none → written = read → stored = read)
    (hstored : ∀ x, before = some x → OpensTo cipher keys stored x)
    (hset : (setBy given read written).or before = some expected) :
    OpensTo cipher keys written expected := by
  cases given with
  | some plaintext =>
    obtain ⟨blob, hmem, rfl⟩ := hprepared
    cases hset
    exact hopen plaintext blob hmem
  | none =>
    by_cases hsame : written = read
    · have hbefore : before = some expected := by simpa [setBy, hsame] using hset
      rw [hsame, ← hkept rfl hsame]
      exact hstored expected hbefore
    · have hnone : some none = some expected := by simpa [setBy, hsame] using hset
      cases hnone
      exact hprepared.resolve_left hsame

theorem find_updateUpstream {u : Upstream} {now : ℤ}
    (hchanged : (updateUpstream t u now).2 = .changed)
    (recordAlias : String) : (updateUpstream t u now).1.find recordAlias =
      (t.find recordAlias).map fun r => if r.recordAlias == u.recordAlias then rewritten u now r
        else r := by
  unfold updateUpstream at *
  cases hfind : t.find u.recordAlias with
  | none => simp [hfind] at hchanged
  | some r =>
    simp only [hfind] at hchanged ⊢
    split
    · next htaken => simp [htaken] at hchanged
    · exact @Table.find_updateWhere _ _ (·.recordAlias) _ t (·.recordAlias == u.recordAlias)
        (rewritten u now) (fun _ => rfl) recordAlias

theorem updateUpstream_unchanged {u : Upstream} {now : ℤ}
    (h : (updateUpstream t u now).2 ≠ .changed) : (updateUpstream t u now).1 = t := by
  unfold updateUpstream at *
  cases hfind : t.find u.recordAlias with
  | none => rfl
  | some r =>
    simp only [hfind] at h ⊢
    split
    · rfl
    · next htaken => simp [htaken] at h

theorem find_insertUpstream {u : Upstream} {recordAlias : String}
    (hne : recordAlias ≠ u.recordAlias) :
    (insertUpstream t u).1.find recordAlias = t.find recordAlias := by
  unfold insertUpstream
  split
  · rfl
  · cases hinsert : t.insert u with
    | none => rfl
    | some t' =>
      have hfind := Table.find_insert hinsert recordAlias
      rwa [if_neg hne] at hfind

theorem insertUpstream_refused {u : Upstream} (h : (insertUpstream t u).2 ≠ .created) :
    (insertUpstream t u).1 = t := by
  unfold insertUpstream at *
  split
  · rfl
  · next htaken =>
    cases hinsert : t.insert u with
    | none => rfl
    | some t' => simp [htaken, hinsert] at h

theorem MaterialAsSet.update (h : MaterialAsSet cipher keys t set) {outside : UpstreamOutside}
    {u : Upstream} {now : ℤ} (happlied : outside.delivery.isApplied = true)
    (hopen : SealsOpen cipher keys log)
    (hperm : UpstreamPermits cipher keys rules q log (.updateUpstream u now))
    (hread : writesAsRead rules q log t (.updateUpstream u now) = true) :
    MaterialAsSet cipher keys (updateUpstream t u now).1
      (nextSet rules q log t outside set (.updateUpstream u now)) := by
  intro recordAlias row column expected hrow hset
  by_cases hchanged : (updateUpstream t u now).2 = .changed
  · rw [find_updateUpstream hchanged] at hrow
    obtain ⟨before, hbefore, hassigned⟩ := Option.map_eq_some_iff.mp hrow
    have hkey : before.recordAlias = recordAlias := (Table.find_eq_some.mp hbefore).2
    by_cases halias : recordAlias = u.recordAlias
    · subst halias
      simp only [hkey, beq_self_eq_true, if_true] at hassigned
      simp only [nextSet, happlied, hchanged, and_self, if_true] at hset
      obtain ⟨current, hloaded, -, hcolumns⟩ := hperm
      have hreadBy : readBy log column = current.material column := by simp [readBy, hloaded]
      have hmaterial : row.material column = u.material column := by
        rw [← hassigned]
        cases column <;> rfl
      rw [hmaterial]
      refine opensTo_prepared hopen (hreadBy ▸ hcolumns column) ?_
        (fun x hx => h u.recordAlias before column x hbefore hx) hset
      intro hgiven hwritten
      simp only [writesAsRead, hbefore, Option.all_some, List.all_eq_true] at hread
      have hcolumn := hread column (by cases column <;> simp)
      simpa [hgiven, hwritten] using hcolumn
    · have hother : (before.recordAlias == u.recordAlias) = false := by simpa [hkey] using halias
      rw [hother] at hassigned
      simp only [nextSet, halias, false_and, if_false] at hset
      cases hassigned
      exact h recordAlias _ column expected hbefore hset
  · rw [updateUpstream_unchanged hchanged] at hrow
    simp only [nextSet, hchanged, and_false, if_false] at hset
    exact h recordAlias row column expected hrow hset

theorem MaterialAsSet.insert (h : MaterialAsSet cipher keys t set) {outside : UpstreamOutside}
    {u : Upstream} (happlied : outside.delivery.isApplied = true) :
    MaterialAsSet cipher keys (insertUpstream t u).1
      (nextSet rules q log t outside set (.insertUpstream u)) := by
  intro recordAlias row column expected hrow hset
  by_cases hcreated : (insertUpstream t u).2 = .created
  · by_cases halias : recordAlias = u.recordAlias
    · simp only [nextSet, halias, happlied, hcreated, and_self, if_true] at hset
      cases hset
    · rw [find_insertUpstream halias] at hrow
      simp only [nextSet, halias, false_and, if_false] at hset
      exact h recordAlias row column expected hrow hset
  · rw [insertUpstream_refused hcreated] at hrow
    simp only [nextSet, hcreated, and_false, if_false] at hset
    exact h recordAlias row column expected hrow hset

theorem MaterialAsSet.delete (h : MaterialAsSet cipher keys t set) {outside : UpstreamOutside}
    {deleted : String} (happlied : outside.delivery.isApplied = true) :
    MaterialAsSet cipher keys (deleteUpstream t deleted).1
      (nextSet rules q log t outside set (.deleteUpstream deleted)) := by
  intro recordAlias row column expected hrow hset
  by_cases halias : recordAlias = deleted
  · simp only [nextSet, halias, happlied, and_self, if_true] at hset
    cases hset
  · have hfind : (t.deleteWhere (·.recordAlias == deleted)).find recordAlias = some row := hrow
    rw [Table.find_deleteWhere_key, if_neg halias] at hfind
    simp only [nextSet, halias, false_and, if_false] at hset
    exact h recordAlias row column expected hfind hset

theorem MaterialAsSet.reseal (h : MaterialAsSet cipher keys t set) {recordAlias : String}
    {secret jwk : Option Bytes} (hopen : SealsOpen cipher keys log)
    (hperm : UpstreamPermits cipher keys rules q log
      (.updateUpstreamSecrets recordAlias secret jwk))
    (hread : writesAsRead rules q log t (.updateUpstreamSecrets recordAlias secret jwk) = true) :
    MaterialAsSet cipher keys (updateUpstreamSecrets t recordAlias secret jwk) set := by
  intro found row column expected hrow hset
  have hfind : (updateUpstreamSecrets t recordAlias secret jwk).find found = (t.find found).map
      fun r => if r.recordAlias == recordAlias then withMaterial secret jwk r else r :=
    Table.find_updateWhere found
  rw [hfind] at hrow
  obtain ⟨before, hbefore, hassigned⟩ := Option.map_eq_some_iff.mp hrow
  have hkey : before.recordAlias = found := (Table.find_eq_some.mp hbefore).2
  have hopens := h found before column expected hbefore hset
  by_cases halias : found = recordAlias
  · subst halias
    simp only [hkey, beq_self_eq_true, if_true] at hassigned
    obtain ⟨u, hu, hualias, hsecret, hjwk⟩ := hperm
    simp only [writesAsRead, hbefore, Option.all_some, List.all_eq_true] at hread
    have hsame := hread u hu
    simp only [hualias, bne_self_eq_false, Bool.false_or, Bool.and_eq_true, beq_iff_eq] at hsame
    rw [← hsame.1] at hsecret
    rw [← hsame.2] at hjwk
    cases hassigned
    cases column with
    | clientSecret => exact hopens.resealed hopen hsecret
    | clientJwk => exact hopens.resealed hopen hjwk
  · have hother : (before.recordAlias == recordAlias) = false := by simpa [hkey] using halias
    rw [hother] at hassigned
    cases hassigned
    exact hopens

end Statements

/-! ### Runs -/

section Runs
variable {β : Type} {cipher : Cipher} {keys : DerivedKeys} {rules : BodyRules β}
  {issuerUrl : String}

theorem sealsOpen_of_mem (t : UpstreamTable) (labels : List (UpstreamLabel β)) :
    ∀ th ∈ ((upstreamCalls cipher keys rules issuerUrl).after t labels).threads,
      SealsOpen cipher keys th.log := by
  have hfollows : (upstreamCalls cipher keys rules issuerUrl).Follows
      (UpstreamPermits cipher keys rules) := upstreamCalls_follow issuerUrl
  have hentries := (System.shared_invariant hfollows (I := fun _ => True) (E := fun entry =>
    ∀ plaintext blob, entry = ⟨.sealSecret plaintext, blob⟩ →
      openSecret cipher keys blob = some plaintext) trivial (s := t) ?_ labels).2
  · exact fun th hth plaintext blob hmem => hentries th hth _ hmem plaintext blob rfl
  · intro t outside op _ _
    refine ⟨trivial, fun plaintext blob heq => ?_⟩
    obtain ⟨rfl, hblob⟩ := Sigma.mk.inj heq
    cases eq_of_heq hblob
    exact openSecret_sealSecret cipher keys outside.nonce plaintext

/-- One statement of a thread keeps the material as set. -/
theorem MaterialAsSet.exec {t : UpstreamTable} {set : SetMaterial} {outside : UpstreamOutside}
    {q : UpstreamRequest β} {log : UpstreamLog} {op : UpstreamOp}
    (h : MaterialAsSet cipher keys t set) (hopen : SealsOpen cipher keys log)
    (hperm : UpstreamPermits cipher keys rules q log op)
    (hread : (!outside.delivery.isApplied || writesAsRead rules q log t op) = true) :
    MaterialAsSet cipher keys (execUpstream cipher keys t outside op).1
      (nextSet rules q log t outside set op) := by
  cases happlied : outside.delivery.isApplied with
  | false =>
    cases op with
    | now | sealSecret | fetchDiscovery => exact h
    | getUpstream | listSealedUpstreams | updateUpstreamSecrets =>
      simpa [execUpstream, Delivery.deliver_state, happlied, nextSet] using h
    | insertUpstream | updateUpstream | deleteUpstream =>
      simpa [execUpstream, Delivery.deliver_state, happlied, nextSet] using h
  | true =>
    rw [happlied, Bool.not_true, Bool.false_or] at hread
    cases op with
    | now | sealSecret | fetchDiscovery => exact h
    | getUpstream | listSealedUpstreams =>
      simpa [execUpstream, Delivery.deliver_state, nextSet] using h
    | insertUpstream u =>
      simp only [execUpstream, Delivery.deliver_state, happlied, if_true]
      exact h.insert happlied
    | updateUpstream u now =>
      simp only [execUpstream, Delivery.deliver_state, happlied, if_true]
      exact h.update happlied hopen hperm hread
    | deleteUpstream recordAlias =>
      simp only [execUpstream, Delivery.deliver_state, happlied, if_true]
      exact h.delete happlied
    | updateUpstreamSecrets recordAlias secret jwk =>
      simp only [execUpstream, Delivery.deliver_state, happlied, if_true]
      exact h.reseal hopen hperm hread

end Runs

/-- In every run whose writes of sealed columns find them as their request has read them, the
stored material opens to what the patches have set last. -/
theorem material_as_set_of_writes_as_read {β : Type} (cipher : Cipher) (keys : DerivedKeys)
    (rules : BodyRules β) (issuerUrl : String) (t : UpstreamTable)
    (labels : List (UpstreamLabel β)) (hread : WritesAsRead cipher keys rules issuerUrl t labels) :
    MaterialAsSet cipher keys ((upstreamCalls cipher keys rules issuerUrl).after t labels).shared
      (lastSet cipher keys rules issuerUrl t labels) := by
  induction labels with
  | nil =>
    intro recordAlias u column given _ hset
    cases hset
  | cons l labels ih =>
    have hbefore := ih hread.2
    rw [System.after, Machine.after_cons]
    cases l with
    | spawn q => exact hbefore
    | outside op answer => exact hbefore
    | step i outside =>
      rcases (upstreamCalls cipher keys rules issuerUrl).step_turn
          ((upstreamCalls cipher keys rules issuerUrl).after t labels) i outside with
        ⟨hidle, hnone⟩ | ⟨th, op, next, hi, hp, hstep⟩
      · have hset : lastSet cipher keys rules issuerUrl t (.step i outside :: labels) =
            lastSet cipher keys rules issuerUrl t labels := by
          rw [lastSet]
          cases hi : ((upstreamCalls cipher keys rules issuerUrl).after t labels).threads[i]? with
          | none => rfl
          | some th =>
            rw [hi] at hnone
            have hhead : th.prog.head = none := hnone
            simp only [hhead]
        rw [hidle, hset]
        exact hbefore
      · have hhead : th.prog.head = some op := by
          rw [hp]
          rfl
        have hth := List.mem_of_getElem? hi
        have hobeys := System.thread_obeys (upstreamCalls_follow issuerUrl) t labels th hth
        rw [hp] at hobeys
        have hcondition := hread.1
        simp only [stepWritesAsRead, hi, hhead] at hcondition
        rw [hstep]
        simp only [lastSet, hi, hhead]
        exact hbefore.exec (sealsOpen_of_mem t labels th hth) hobeys.1 hcondition

/-! ### A rekey across a new secret -/

namespace Sample

def tag : Bytes := List.replicate tagLength 0

def cipher : Cipher where
  encrypt _ _ _ plaintext := plaintext ++ tag
  decrypt _ _ _ text := some (text.take (text.length - tagLength))
  decrypt_encrypt _ _ _ plaintext := by simp [tag, tagLength]
  length_encrypt _ _ _ plaintext := by simp [tag]

def nonce : Nonce := ⟨List.replicate nonceLength 7, rfl⟩

def oldKeys : DerivedKeys := ⟨[1, 2], 1, by decide⟩

def keys : DerivedKeys := ⟨[1, 2], 2, by decide⟩

def rules : BodyRules Bytes where
  namesAlias _ := false
  parse
    | some input, secret => .ok { input with clientSecret := some secret }
    | none, _ => .error "alias: required"

/-- An upstream with a secret under the old master key. -/
def upstream : Upstream where
  recordAlias := "up"
  issuer := "https://up.test"
  displayName := "Up"
  clientId := "client"
  tokenEndpointAuthMethod := .clientSecretBasic
  clientSecretEnc := some (sealSecret cipher oldKeys nonce [1])
  clientJwkEnc := none
  scopes := "openid"
  discovery := .manual ⟨"a", "t", "j", none⟩
  useUserinfo := false
  enabled := true
  createdAt := 0
  updatedAt := 0

def table : UpstreamTable := ⟨[upstream], by decide⟩

def steps (thread count : ℕ) : List (UpstreamLabel Bytes) :=
  List.replicate count (.step thread ⟨5, nonce, .error ("", ""), .answers⟩)

def requests : List (UpstreamLabel Bytes) := [.spawn (.patch "up" (.ok [2])), .spawn (.rekey 50)]

def patchedAfter : List (UpstreamLabel Bytes) := steps 1 5 ++ steps 0 3 ++ requests

/-- The patch is done between the listing of the rekey and its write. -/
def patchedBetween : List (UpstreamLabel Bytes) :=
  steps 0 2 ++ steps 1 5 ++ steps 0 1 ++ requests

end Sample

theorem material_as_set_sample : MaterialAsSet Sample.cipher Sample.keys
    ((upstreamCalls Sample.cipher Sample.keys Sample.rules "").after Sample.table
      Sample.patchedAfter).shared
    (lastSet Sample.cipher Sample.keys Sample.rules "" Sample.table Sample.patchedAfter) :=
  material_as_set_of_writes_as_read Sample.cipher Sample.keys Sample.rules "" Sample.table
    Sample.patchedAfter (by decide)

/-- The rekey puts the secret back that the patch has replaced. -/
theorem secret_change_undone :
    ¬ ∀ (β : Type) (cipher : Cipher) (keys : DerivedKeys) (rules : BodyRules β)
      (issuerUrl : String) (t : UpstreamTable) (labels : List (UpstreamLabel β)),
      MaterialAsSet cipher keys ((upstreamCalls cipher keys rules issuerUrl).after t labels).shared
        (lastSet cipher keys rules issuerUrl t labels) := by
  intro hall
  have hset := hall Bytes Sample.cipher Sample.keys Sample.rules "" Sample.table
    Sample.patchedBetween "up"
  have hfound : (((upstreamCalls Sample.cipher Sample.keys Sample.rules "").after Sample.table
      Sample.patchedBetween).shared.find "up").bind (fun u => u.clientSecretEnc.bind
        (openSecret Sample.cipher Sample.keys)) = some [1] := by decide
  obtain ⟨u, hu, hopens⟩ := Option.bind_eq_some_iff.mp hfound
  have hnew : OpensTo Sample.cipher Sample.keys u.clientSecretEnc (some [2]) :=
    hset u .clientSecret (some [2]) hu (by decide)
  have hboth : some [1] = some ([2] : Bytes) := hopens.symm.trans hnew
  exact absurd hboth (by decide)

end TinyOidc.Federation
