import TinyOidc.Federation.Upstreams

/-! The requests that change upstreams, as threads on one table, and what each may write: a patch
writes columns that it was given or has read, a rekey writes what it has read sealed again. -/
namespace TinyOidc.Federation
open RowTable TinyOidc.Crypto
open TinyOidc.User (Bytes)
open Threads (Prog Entry System)
open Threads.Prog (Obeys)

inductive UpstreamRequest (β : Type) where
  | create (body : Except String β)
  | patch (recordAlias : String) (body : Except String β)
  | delete (recordAlias : String)
  | rekey (limit : ℕ)

abbrev UpstreamLog := List (Entry UpstreamOp.Answer)

def loadedRecord : UpstreamLog → Option Upstream
  | [] => none
  | ⟨.getUpstream _, some (some u)⟩ :: _ => some u
  | _ :: log => loadedRecord log

def listedRecords : UpstreamLog → List Upstream
  | [] => []
  | ⟨.listSealedUpstreams, some listed⟩ :: _ => listed
  | _ :: log => listedRecords log

section Calls
variable {β : Type} (cipher : Cipher) (keys : DerivedKeys) (rules : BodyRules β)
  (issuerUrl : String)

def UpstreamRequest.run : UpstreamRequest β → UpstreamProgram UpstreamResponse
  | create body => createUpstreamHandler rules issuerUrl body
  | patch recordAlias body => patchUpstreamHandler rules issuerUrl recordAlias body
  | delete recordAlias => deleteUpstreamHandler recordAlias
  | rekey limit => rekeyUpstreams cipher keys limit

def upstreamCalls : System (UpstreamRequest β) UpstreamOutside UpstreamTable UpstreamOp.Answer
    UpstreamResponse where
  start := UpstreamRequest.run cipher keys rules issuerUrl
  exec := execUpstream cipher keys
  isOutside _ := false

/-- The secret that a patch gives for a column, over the record it has loaded. -/
def givenBy (q : UpstreamRequest β) (log : UpstreamLog) (column : SealedColumn) : Option Bytes :=
  match q, loadedRecord log with
  | .patch _ (.ok raw), some current =>
    match rules.parse (some (inputOf current)) raw with
    | .ok input => input.given column
    | .error _ => none
  | _, _ => none

/-- What a column becomes: a given secret sealed, or what is stored, or nothing. -/
def PreparedFrom (log : UpstreamLog) (given stored written : Option Bytes) : Prop :=
  match given with
  | some plaintext => ∃ blob,
      (⟨.sealSecret plaintext, blob⟩ : Entry UpstreamOp.Answer) ∈ log ∧ written = some blob
  | none => written = stored ∨ written = none

def ResealedFrom (log : UpstreamLog) (stored written : Option Bytes) : Prop :=
  written = stored ∨ ∃ b plaintext blob, stored = some b ∧
    openSecret cipher keys b = some plaintext ∧
    (⟨.sealSecret plaintext, blob⟩ : Entry UpstreamOp.Answer) ∈ log ∧ written = some blob

def UpstreamPermits (q : UpstreamRequest β) (log : UpstreamLog) : UpstreamOp → Prop
  | .updateUpstream u _ => ∃ current, loadedRecord log = some current ∧
      u.recordAlias = current.recordAlias ∧ ∀ column,
        PreparedFrom log (givenBy rules q log column) (current.material column)
          (u.material column)
  | .updateUpstreamSecrets recordAlias secret jwk => ∃ u ∈ listedRecords log,
      u.recordAlias = recordAlias ∧ ResealedFrom cipher keys log u.clientSecretEnc secret ∧
        ResealedFrom cipher keys log u.clientJwkEnc jwk
  | _ => True

end Calls

section Protocol
variable {β : Type} {cipher : Cipher} {keys : DerivedKeys} {rules : BodyRules β}
  {issuerUrl : String} {q : UpstreamRequest β} {log : UpstreamLog}

theorem PreparedFrom.grow {log' : UpstreamLog} {given stored written : Option Bytes}
    (h : PreparedFrom log given stored written) (hgrown : log ⊆ log') :
    PreparedFrom log' given stored written := by
  unfold PreparedFrom at *
  split at h
  · obtain ⟨blob, hmem, hwritten⟩ := h
    exact ⟨blob, hgrown hmem, hwritten⟩
  · exact h

theorem ResealedFrom.grow {log' : UpstreamLog} {stored written : Option Bytes}
    (h : ResealedFrom cipher keys log stored written) (hgrown : log ⊆ log') :
    ResealedFrom cipher keys log' stored written := by
  rcases h with hsame | ⟨b, plaintext, blob, hstored, hopen, hmem, hwritten⟩
  · exact .inl hsame
  · exact .inr ⟨b, plaintext, blob, hstored, hopen, hgrown hmem, hwritten⟩

/-- A program that reads nothing of the table leaves the loaded record as it was. -/
def Prepares (log log' : UpstreamLog) : Prop :=
  log ⊆ log' ∧ loadedRecord log' = loadedRecord log ∧ listedRecords log' = listedRecords log

theorem Prepares.trans {log₁ log₂ : UpstreamLog} (h : Prepares log log₁) (h' : Prepares log₁ log₂) :
    Prepares log log₂ :=
  ⟨List.Subset.trans h.1 h'.1, h'.2.1.trans h.2.1, h'.2.2.trans h.2.2⟩

theorem Prepares.refl (log : UpstreamLog) : Prepares log log := ⟨List.Subset.refl _, rfl, rfl⟩

/-- What `preparedMaterial` has given for a column, over what the method keeps. -/
def Material (log : UpstreamLog) (given kept written : Option Bytes) : Prop :=
  (∀ plaintext, given = some plaintext → ∃ blob,
    (⟨.sealSecret plaintext, blob⟩ : Entry UpstreamOp.Answer) ∈ log ∧ written = some blob) ∧
  (given = none → written = kept)

theorem preparedMaterial_obeys (given stored : Option Bytes)
    {permits : UpstreamLog → UpstreamOp → Prop}
    (hseal : ∀ log plaintext, permits log (.sealSecret plaintext)) :
    Obeys permits (fun log' written => Prepares log log' ∧ Material log' given stored written) log
      (preparedMaterial given stored) := by
  cases given with
  | none => exact ⟨Prepares.refl log, by simp, fun _ => rfl⟩
  | some plaintext =>
    refine Obeys.perform (hseal _ _) fun blob =>
      ⟨⟨List.subset_cons_self _ _, rfl, rfl⟩, ?_, by simp⟩
    intro plaintext' heq
    cases heq
    exact ⟨blob, List.mem_cons_self, rfl⟩

theorem reseal_obeys (blob : Option Bytes) {permits : UpstreamLog → UpstreamOp → Prop}
    (hseal : ∀ log plaintext, permits log (.sealSecret plaintext)) :
    Obeys permits (fun log' written => Prepares log log' ∧
      ((blob.isSome && written.isNone) = false → ResealedFrom cipher keys log' blob written)) log
      (reseal cipher keys blob) := by
  cases blob with
  | none => exact ⟨Prepares.refl log, fun _ => .inl rfl⟩
  | some b =>
    unfold reseal
    dsimp only
    split
    · cases hopen : openSecret cipher keys b with
      | none => exact ⟨Prepares.refl log, by simp⟩
      | some plaintext =>
        refine Obeys.perform (hseal _ _) fun sealedAgain =>
          ⟨⟨List.subset_cons_self _ _, rfl, rfl⟩, fun _ => .inr ?_⟩
        exact ⟨b, plaintext, sealedAgain, rfl, hopen, List.mem_cons_self, rfl⟩
    · exact ⟨Prepares.refl log, fun _ => .inl rfl⟩

theorem Prepares.cons {op : UpstreamOp} {r : op.Answer} (hload : ∀ a, op ≠ .getUpstream a)
    (hlist : op ≠ .listSealedUpstreams) : Prepares log (⟨op, r⟩ :: log) := by
  refine ⟨List.subset_cons_self _ _, ?_, ?_⟩
  · cases op with
    | getUpstream a => exact absurd rfl (hload a)
    | _ => rfl
  · cases op with
    | listSealedUpstreams => exact absurd rfl hlist
    | _ => rfl

theorem Material.prepared {log' : UpstreamLog} {given written : Option Bytes}
    {current : Option Upstream} {uses : Bool} {column : SealedColumn}
    (h : Material log given (keptMaterial current uses column) written) (hgrown : log ⊆ log') :
    PreparedFrom log' given (current.bind (·.material column)) written := by
  cases given with
  | some plaintext =>
    obtain ⟨blob, hmem, hwritten⟩ := h.1 plaintext rfl
    exact ⟨blob, hgrown hmem, hwritten⟩
  | none =>
    have hwritten := h.2 rfl
    cases uses with
    | true => exact .inl hwritten
    | false => exact .inr hwritten

/-- Each column of a prepared record comes from the input or from the record loaded. -/
def PreparedRecord (log log' : UpstreamLog) (input : UpstreamInput) (current : Option Upstream)
    (prepared : Except UpstreamResponse Upstream) : Prop :=
  ∀ u, prepared = .ok u → Prepares log log' ∧ u.recordAlias = input.recordAlias ∧
    ∀ column, PreparedFrom log' (input.given column) (current.bind (·.material column))
      (u.material column)

theorem preparedRecord_error {log' : UpstreamLog} {input : UpstreamInput}
    {current : Option Upstream} {response : UpstreamResponse} :
    PreparedRecord log log' input current (.error response) := fun u heq => by cases heq

theorem preparedRecord_recordOf {log₁ log₂ log' : UpstreamLog} {input : UpstreamInput}
    {current : Option Upstream} {secret jwk : Option Bytes} {secretUses jwkUses : Bool}
    (createdAt now : ℤ)
    (hlog : Prepares log log') (h₁ : log₁ ⊆ log') (h₂ : log₂ ⊆ log')
    (hsecret : Material log₁ input.clientSecret
      (keptMaterial current secretUses .clientSecret) secret)
    (hjwk : Material log₂ input.clientJwk (keptMaterial current jwkUses .clientJwk) jwk) :
    PreparedRecord log log' input current (.ok (recordOf input secret jwk createdAt now)) := by
  intro u heq
  obtain rfl := Except.ok.inj heq
  refine ⟨hlog, rfl, fun column => ?_⟩
  cases column with
  | clientSecret => exact hsecret.prepared h₁
  | clientJwk => exact hjwk.prepared h₂

theorem prepare_obeys (input : UpstreamInput) (current : Option Upstream) (now : ℤ)
    {permits : UpstreamLog → UpstreamOp → Prop}
    (hseal : ∀ log plaintext, permits log (.sealSecret plaintext))
    (hfetch : ∀ log issuer, permits log (.fetchDiscovery issuer)) :
    Obeys permits (fun log' prepared => PreparedRecord log log' input current prepared) log
      (prepare input current now) := by
  refine Obeys.bind ((preparedMaterial_obeys _ _ hseal).mono ?_)
  rintro log₁ secret ⟨hlog₁, hsecret⟩
  refine Obeys.bind ((preparedMaterial_obeys _ _ hseal).mono ?_)
  rintro log₂ jwk ⟨hlog₂, hjwk⟩
  have hrecord : ∀ {log' : UpstreamLog} (createdAt : ℤ), Prepares log₂ log' →
      PreparedRecord log log' input current (.ok (recordOf input secret jwk createdAt now)) :=
    fun createdAt h => preparedRecord_recordOf createdAt now ((hlog₁.trans hlog₂).trans h)
      (List.Subset.trans hlog₂.1 h.1) h.1 hsecret hjwk
  dsimp only
  split
  · cases input.discovery with
    | manual endpoints => exact hrecord _ (Prepares.refl log₂)
    | auto =>
      refine Obeys.perform (hfetch _ _) fun fetched => ?_
      cases fetched with
      | error reason => exact preparedRecord_error
      | ok metadata => exact hrecord _ (Prepares.cons (by simp) (by simp))
  · exact preparedRecord_error

/-- A record that is loaded is the one the log shows. -/
theorem loadUpstream_obeys (recordAlias : String) {permits : UpstreamLog → UpstreamOp → Prop}
    (hget : ∀ log recordAlias, permits log (.getUpstream recordAlias)) :
    Obeys permits (fun log' loaded => ∀ u, loaded = .ok u → loadedRecord log' = some u) log
      (loadUpstream recordAlias) := by
  unfold loadUpstream
  split
  · refine Obeys.perform (hget _ _) fun answer => ?_
    split
    · intro u heq
      cases heq
    · intro u heq
      cases heq
    · intro u heq
      cases heq
      rfl
  · intro u heq
    cases heq

theorem createUpstreamHandler_obeys (body : Except String β) :
    Obeys (UpstreamPermits cipher keys rules q) (fun _ _ => True) []
      (createUpstreamHandler rules issuerUrl body) := by
  unfold createUpstreamHandler
  cases body with
  | error description => trivial
  | ok raw =>
    refine Obeys.perform trivial fun now => ?_
    cases rules.parse none raw with
    | error detail => trivial
    | ok input =>
      refine Obeys.bind ((prepare_obeys input none now (fun _ _ => trivial)
        fun _ _ => trivial).mono ?_)
      intro log' prepared _
      cases prepared with
      | error response => trivial
      | ok u =>
        refine Obeys.perform trivial fun inserted => ?_
        split <;> trivial

theorem patchUpstreamHandler_obeys (recordAlias : String) (body : Except String β) :
    Obeys (UpstreamPermits cipher keys rules (.patch recordAlias body)) (fun _ _ => True) []
      (patchUpstreamHandler rules issuerUrl recordAlias body) := by
  refine Obeys.bind ((loadUpstream_obeys recordAlias fun _ _ => trivial).mono ?_)
  intro log₁ loaded hloaded
  cases loaded with
  | error response => trivial
  | ok current =>
    have hcurrent := hloaded current rfl
    cases body with
    | error description => trivial
    | ok raw =>
      dsimp only
      split
      · trivial
      · refine Obeys.perform trivial fun now => ?_
        cases hparse : rules.parse (some (inputOf current)) raw with
        | error detail => trivial
        | ok input =>
          refine Obeys.bind ((prepare_obeys _ (some current) now (fun _ _ => trivial)
            fun _ _ => trivial).mono ?_)
          intro log₂ prepared hprepared
          cases prepared with
          | error response => trivial
          | ok u =>
            obtain ⟨⟨-, hsame, -⟩, halias, hcolumns⟩ := hprepared u rfl
            have hloaded₂ : loadedRecord log₂ = some current := hsame.trans hcurrent
            refine Obeys.perform trivial fun updatedAt => Obeys.perform ?_ fun updated => ?_
            · refine ⟨current, hloaded₂, halias, fun column => ?_⟩
              have hgiven : givenBy rules (.patch recordAlias (.ok raw))
                  (⟨.now, updatedAt⟩ :: log₂) column = input.given column := by
                simp only [givenBy, loadedRecord, hloaded₂, hparse]
              rw [hgiven]
              exact PreparedFrom.grow (hcolumns column) (List.subset_cons_self _ _)
            · split <;> trivial

theorem deleteUpstreamHandler_obeys (recordAlias : String) :
    Obeys (UpstreamPermits cipher keys rules q) (fun _ _ => True) []
      (deleteUpstreamHandler recordAlias) := by
  refine Obeys.bind ((loadUpstream_obeys recordAlias fun _ _ => trivial).mono ?_)
  intro log₁ loaded _
  cases loaded with
  | error response => trivial
  | ok current =>
    refine Obeys.perform trivial fun deleted => ?_
    split <;> trivial

theorem rekeyEach_obeys (report : RekeyReport) (us : List Upstream)
    (hlisted : ∀ u ∈ us, u ∈ listedRecords log) :
    Obeys (UpstreamPermits cipher keys rules q) (fun _ _ => True) log
      (rekeyEach cipher keys report us) := by
  induction us generalizing log report with
  | nil => trivial
  | cons u rest ih =>
    have hrest : ∀ {log' : UpstreamLog}, listedRecords log' = listedRecords log →
        ∀ v ∈ rest, v ∈ listedRecords log' := by
      intro log' hsame v hv
      rw [hsame]
      exact hlisted v (List.mem_cons_of_mem _ hv)
    refine Obeys.bind ((reseal_obeys _ fun _ _ => trivial).mono ?_)
    rintro log₁ secret ⟨⟨-, -, hlisted₁⟩, hsecret⟩
    refine Obeys.bind ((reseal_obeys _ fun _ _ => trivial).mono ?_)
    rintro log₂ jwk ⟨⟨hsub₂, -, hlisted₂⟩, hjwk⟩
    split
    · exact ih _ (hrest (hlisted₂.trans hlisted₁))
    · next hkept =>
      obtain ⟨hsecretKept, hjwkKept⟩ := Bool.or_eq_false_iff.mp (Bool.eq_false_iff.mpr hkept)
      refine Obeys.perform ?_ fun updated => ?_
      · refine ⟨u, ?_, rfl, (hsecret hsecretKept).grow hsub₂, hjwk hjwkKept⟩
        rw [hlisted₂, hlisted₁]
        exact hlisted u List.mem_cons_self
      · cases updated with
        | none => trivial
        | some _ => exact ih _ (hrest (hlisted₂.trans hlisted₁))

theorem rekeyUpstreams_obeys (limit : ℕ) :
    Obeys (UpstreamPermits cipher keys rules q) (fun _ _ => True) []
      (rekeyUpstreams cipher keys limit) := by
  refine Obeys.perform trivial fun listed => ?_
  cases listed with
  | none => trivial
  | some listed =>
    refine Obeys.bind ((rekeyEach_obeys _ _ ?_).mono ?_)
    · intro u hu
      exact List.mem_of_mem_filter (List.mem_of_mem_take hu)
    · intro log' report _
      cases report <;> trivial

theorem upstreamCalls_follow (issuerUrl : String) :
    (upstreamCalls cipher keys rules issuerUrl).Follows (UpstreamPermits cipher keys rules) := by
  intro q
  cases q with
  | create body => exact createUpstreamHandler_obeys body
  | patch recordAlias body => exact patchUpstreamHandler_obeys recordAlias body
  | delete recordAlias => exact deleteUpstreamHandler_obeys recordAlias
  | rekey limit => exact rekeyUpstreams_obeys limit

end Protocol

end TinyOidc.Federation
