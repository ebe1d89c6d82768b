import TinyOidc.Interaction.Runs
import TinyOidc.Interaction.SourceProtocol
import TinyOidc.Oidc.Authorize

/-! Every code respects its client's registration. The request of a code was validated once: by
the request that issued the code, or by the one that created the interaction it was issued for.
Documents, consent and the user's object carry it from there to the row. -/
namespace TinyOidc.Interaction
open TinyOidc.User Threads
open Threads.Prog (Obeys)

/-! ### Where a request was validated -/

structure WorksOn (q : Request) (log : Log) (id : String) (d : InteractionDocument) : Prop where
  behalf : q.behalf = some id
  shown : Seen log id d ∨ ∃ clientId bindingHash now ttl,
    (⟨.interaction id (.claimPushed clientId bindingHash now ttl), .ok d⟩ : Entry Op.Answer) ∈ log

def Creates (log : Log) (id : String) : Prop := ∃ entry ∈ log, createdId entry = some id

/-- The interaction was created with a request that its creator had validated for the client. -/
def CreatedFor (c : RunConfig) (id : String) (client : Client) (request : AuthorizeRequest) :
    Prop :=
  ∃ t ∈ c.threads, Creates t.log id ∧ Checked t.request t.log client (.ok request)

/-- A validation that a thread relies on: its own, or the one by which the interaction it works on
was created, for the client and with the request of the document. -/
inductive ReliesOn (c : RunConfig) (t : RunThread) (client : Client) :
    AuthorizeValidation → Prop where
  | own (outcome : AuthorizeValidation) (h : Checked t.request t.log client outcome) :
      ReliesOn c t client outcome
  | earlier (id : String) (d : InteractionDocument) (works : WorksOn t.request t.log id d)
      (hclient : d.clientId = some client.clientId) (request : AuthorizeRequest)
      (hrequest : d.request = some request) (h : CreatedFor c id client request) :
      ReliesOn c t client (.ok request)

/-- A document's request was validated by its creator, for its client; its consent narrows it. -/
def Backed (c : RunConfig) (id : String) (d : InteractionDocument) : Prop :=
  ∀ request, d.request = some request →
    (∃ client, d.clientId = some client.clientId ∧ CreatedFor c id client request) ∧
    ∀ scopes, d.consent = some scopes → Narrows scopes request.scope

/-- A code repeats a validated request, but for the scopes left out of a consent. -/
structure Repeats (request : AuthorizeRequest) (redirectUri : String) (scope : List String)
    (codeChallenge : Option String) : Prop where
  redirectUri : redirectUri = request.redirectUri
  codeChallenge : codeChallenge = request.codeChallenge
  scope : scope = request.scope ∨ Narrows scope request.scope

def Issues (log : Log) (uid : String) (row : CodeRow) : Prop :=
  ∃ call reply asked, (⟨.user uid call, reply⟩ : Entry Op.Answer) ∈ log ∧
    requestedCode call = some asked ∧ asked.secretHash = row.secretHash

/-- The thread that was to issue the code relied on a validation for the row's client, and the row
repeats the request. -/
def RowChecked (c : RunConfig) (uid : String) (row : CodeRow) : Prop :=
  ∃ t ∈ c.threads, Issues t.log uid row ∧ ∃ client request, client.clientId = row.clientId ∧
    ReliesOn c t client (.ok request) ∧ Repeats request row.redirectUri row.scope row.codeChallenge

structure AllChecked (c : RunConfig) : Prop where
  stored : ∀ id d, c.shared.doc id = some d → Backed c id d
  read : ∀ t ∈ c.threads, ∀ id d, Seen t.log id d → Backed c id d
  redeemed : ∀ t ∈ c.threads, ∀ id clientId bindingHash now ttl d,
    (⟨.interaction id (.claimPushed clientId bindingHash now ttl), .ok d⟩ : Entry Op.Answer) ∈
      t.log → d.clientId = some clientId ∧ Backed c id d
  codes : ∀ uid, ∀ row ∈ (c.shared.users uid).tables.authCodes.rows, RowChecked c uid row

variable {c c' : RunConfig} {id : String}

theorem WorksOn.mono {q : Request} {log log' : Log} {d : InteractionDocument}
    (h : WorksOn q log id d) (hsub : log ⊆ log') : WorksOn q log' id d := by
  refine ⟨h.behalf, ?_⟩
  rcases h.shown with hseen | ⟨clientId, bindingHash, now, ttl, hlog⟩
  · exact .inl (hseen.mono hsub)
  · exact .inr ⟨clientId, bindingHash, now, ttl, hsub hlog⟩

theorem CreatedFor.grow {client : Client} {request : AuthorizeRequest}
    (h : CreatedFor c id client request)
    (hgrows : c.Grows c') : CreatedFor c' id client request := by
  obtain ⟨t, ht, ⟨entry, hentry, hcreated⟩, hchecked⟩ := h
  obtain ⟨t', ht', hrequest, hsuffix⟩ := hgrows t ht
  exact ⟨t', ht', ⟨entry, hsuffix.subset hentry, hcreated⟩,
    hrequest ▸ hchecked.mono hsuffix.subset⟩

theorem ReliesOn.grow {t t' : RunThread} {client : Client} {outcome : AuthorizeValidation}
    (h : ReliesOn c t client outcome) (hgrows : c.Grows c') (hrequest : t'.request = t.request)
    (hsub : t.log ⊆ t'.log) : ReliesOn c' t' client outcome := by
  cases h with
  | own outcome h => exact .own outcome (hrequest ▸ h.mono hsub)
  | earlier id d works hclient request hasked h =>
    exact .earlier id d (hrequest ▸ works.mono hsub) hclient request hasked (h.grow hgrows)

theorem Backed.grow {d : InteractionDocument} (h : Backed c id d) (hgrows : c.Grows c') :
    Backed c' id d := by
  intro request hrequest
  obtain ⟨⟨client, hclient, hcreated⟩, hconsent⟩ := h request hrequest
  exact ⟨⟨client, hclient, hcreated.grow hgrows⟩, hconsent⟩

theorem Backed.of_same {d d' : InteractionDocument} (h : Backed c id d)
    (hclient : d'.clientId = d.clientId) (hrequest : d'.request = d.request)
    (hconsent : d'.consent = d.consent) : Backed c id d' := by
  intro request hd
  rw [hconsent, hclient]
  exact h request (hrequest ▸ hd)

theorem RowChecked.grow {uid : String} {row row' : CodeRow} (h : RowChecked c uid row)
    (hlater : row.Later row') (hgrows : c.Grows c') : RowChecked c' uid row' := by
  obtain ⟨t, ht, ⟨call, reply, asked, hentry, hasked, hsecret⟩, client, request, hclient, hrelies,
    hrepeats⟩ := h
  obtain ⟨t', ht', hrequest, hsuffix⟩ := hgrows t ht
  refine ⟨t', ht', ⟨call, reply, asked, hsuffix.subset hentry, hasked, ?_⟩, client, request, ?_,
    hrelies.grow hgrows hrequest hsuffix.subset, ?_⟩
  · rw [hsecret, hlater.row]
  · rw [hclient, hlater.row]
  · rw [hlater.row]
    exact hrepeats

/-- What a thread works with rests on a validation for the client, and the scopes are those of a
code for it. -/
theorem AllChecked.requested (h : AllChecked c) {t : RunThread} (ht : t ∈ c.threads)
    {clientId : Option String} {request : AuthorizeRequest} {scope : List String}
    (hrequested : Requested t.request t.log clientId request scope) :
    ∃ client, clientId = some client.clientId ∧ ReliesOn c t client (.ok request) ∧
      (scope = request.scope ∨ Narrows scope request.scope) := by
  cases hrequested with
  | checked client request hchecked => exact ⟨client, rfl, .own _ hchecked, .inl rfl⟩
  | redeemed id clientId bindingHash now ttl behalf d hlog request hrequest =>
    obtain ⟨hclientId, hbacked⟩ := h.redeemed t ht id clientId bindingHash now ttl d hlog
    obtain ⟨⟨client, hclient, hcreated⟩, -⟩ := hbacked request hrequest
    refine ⟨client, hclientId.symm.trans hclient, ?_, .inl rfl⟩
    exact .earlier id d ⟨behalf, .inr ⟨clientId, bindingHash, now, ttl, hlog⟩⟩ hclient request
      hrequest hcreated
  | read id behalf d seen request hrequest =>
    obtain ⟨⟨client, hclient, hcreated⟩, hconsent⟩ := h.read t ht id d seen request hrequest
    refine ⟨client, hclient,
      .earlier id d ⟨behalf, .inl seen⟩ hclient request hrequest hcreated, ?_⟩
    cases hscopes : d.consent with
    | none => exact .inl rfl
    | some scopes => exact .inr (hconsent scopes hscopes)

/-! ### One call -/

section Call

variable {t : RunThread} {entry : Entry Op.Answer}

/-- A transition keeps the request, and stores a consent only to what its request asked for. -/
theorem Backed.transition {d : InteractionDocument} (h : Backed c id d)
    {operation : InteractionOperation} {target : InteractionStatus} {patch : TransitionPatch}
    {now : ℤ} (applies : Applies t.request t.log id operation target patch)
    (traces : Traces t.request t.log (.interaction id (.apply operation target patch now)))
    (hkept : ∀ d₀, Seen t.log id d₀ → d.request = d₀.request) :
    Backed c id (d.transition target patch now) := by
  obtain ⟨hpatch, hclientPatch⟩ := applies.keeps_request
  intro request hrequest
  have hd : d.request = some request := by
    simpa [InteractionDocument.transition, hpatch] using hrequest
  obtain ⟨⟨client, hclient, hcreated⟩, hconsent⟩ := h request hd
  have hkeeps : (d.transition target patch now).clientId = d.clientId := by
    simp [InteractionDocument.transition, hclientPatch]
  refine ⟨⟨client, hkeeps.trans hclient, hcreated⟩, fun scopes hscopes => ?_⟩
  cases hnew : patch.consent with
  | none => exact hconsent scopes (by simpa [InteractionDocument.transition, hnew] using hscopes)
  | some consent =>
    have hsame : consent = some scopes := by
      simpa [InteractionDocument.transition, hnew] using hscopes
    subst hsame
    obtain ⟨d₀, request₀, hseen, hrequest₀, hnarrows⟩ := traces scopes hnew
    have heq : request₀ = request := by
      have hsame := (hkept d₀ hseen).symm.trans hd
      rw [hrequest₀] at hsame
      exact Option.some.inj hsame
    exact heq ▸ hnarrows

/-- The call of a thread leaves a document whose request its creator validated. -/
theorem Backed.move {x : Option InteractionDocument} {d' : InteractionDocument}
    (hmove : DocMove t.request t.log id entry x (some d')) {prog : Handler Response}
    (hgrows : c.Grows c') (ht' : ⟨t.request, entry :: t.log, prog⟩ ∈ c'.threads)
    (traces : Traces t.request t.log entry.1) (hstored : ∀ d, x = some d → Backed c id d)
    (hkept : ∀ d, x = some d → ∀ d₀, Seen t.log id d₀ → d.request = d₀.request) :
    Backed c' id d' := by
  generalize hy : some d' = y at hmove
  cases hmove with
  | kept entry x htakes hcreated => exact (hstored d' hy.symm).grow hgrows
  | created input now ttlSeconds pending =>
    cases hy
    intro request hrequest
    obtain ⟨client, hclient, hchecked⟩ := traces request hrequest
    refine ⟨⟨client, hclient, _, ht', ⟨_, List.mem_cons_self, rfl⟩, ?_⟩, ?_⟩
    · exact hchecked.mono (List.subset_cons_self _ _)
    · intro scopes hscopes
      cases hscopes
  | claimedPushed clientId bindingHash now ttlSeconds d claimed pushed unclaimed hq hlog hclaimed =>
    cases hy
    subst hclaimed
    exact ((hstored d rfl).of_same rfl rfl rfl).grow hgrows
  | applied operation target patch now d permitted applies =>
    cases hy
    exact ((hstored d rfl).transition applies traces (hkept d rfl)).grow hgrows
  | claimedCompletion now d status unclaimed hq hlog =>
    cases hy
    exact ((hstored d rfl).of_same rfl rfl rfl).grow hgrows
  | touched entry d d₁ same htakes hcreated =>
    cases hy
    exact ((hstored d rfl).of_same same.clientId same.request same.consent).grow hgrows
  | exhausted now limit d d₀ seen live =>
    cases hy
    exact ((hstored d rfl).of_same rfl rfl rfl).grow hgrows

/-- A redeemed document is the stored one. -/
theorem doc_of_redeemed {q : Request} {log : Log} {id clientId bindingHash : String} {now ttl : ℤ}
    {d : InteractionDocument} {x y : Option InteractionDocument}
    (hmove : DocMove q log id
      ⟨.interaction id (.claimPushed clientId bindingHash now ttl), .ok d⟩ x y) : y = some d := by
  generalize hentry : (⟨.interaction id (.claimPushed clientId bindingHash now ttl), .ok d⟩ :
    Entry Op.Answer) = entry at hmove
  cases hmove with
  | kept entry x htakes hcreated =>
    subst hentry
    simp [takes] at htakes
  | touched entry d₁ d₂ same htakes hcreated =>
    subst hentry
    simp [takes] at htakes
  | claimedPushed =>
    cases hentry
    rfl
  | created => cases hentry
  | applied => cases hentry
  | claimedCompletion => cases hentry
  | exhausted => cases hentry

/-- A pushed request is redeemed only for its client. -/
theorem clientId_of_redeemed {sha256 : String → Bytes} {w w' : World}
    {clientId bindingHash : String}
    {now ttl : ℤ} {d : InteractionDocument} (performed : Performed sha256 w w'
      ⟨.interaction id (.claimPushed clientId bindingHash now ttl), .ok d⟩) :
    d.clientId = some clientId := by
  generalize hentry : (⟨.interaction id (.claimPushed clientId bindingHash now ttl), .ok d⟩ :
    Entry Op.Answer) = entry at performed
  cases performed with
  | asked question oracle => cases hentry
  | onUser uid call => cases hentry
  | onInteraction id' call o answer answered =>
    cases answered with
    | claimedPushed clientId' bindingHash' now' ttl' alarmAt d₁ stored pushed unclaimed client =>
      cases hentry
      exact client
    | refused _ e => cases hentry
    | _ => cases hentry

/-- A code stays what it was, or is the one the call was to issue. -/
theorem code_of_performed {sha256 : String → Bytes} {w w' : World}
    (performed : Performed sha256 w w' entry) {uid : String} {row : CodeRow}
    (hrow : row ∈ (w'.users uid).tables.authCodes.rows) :
    (∃ old ∈ (w.users uid).tables.authCodes.rows, old.Later row) ∨
      ∃ call reply asked session now, entry = ⟨.user uid call, reply⟩ ∧
        requestedCode call = some asked ∧ row = Tables.codeRow asked session now := by
  cases performed with
  | asked question oracle => exact .inl ⟨row, hrow, .refl row⟩
  | onInteraction id call o answer answered => exact .inl ⟨row, hrow, .refl row⟩
  | onUser uid' call =>
    by_cases huid : uid' = uid
    · subst huid
      simp only [Function.update_self] at hrow
      refine (call_codes sha256 (w.users uid') call row hrow).imp_right ?_
      rintro ⟨asked, session, now, hcode, hsame⟩
      exact ⟨call, _, asked, session, now, rfl, hcode, hsame⟩
    · simp only [Function.update_of_ne (Ne.symm huid)] at hrow
      exact .inl ⟨row, hrow, .refl row⟩

end Call

/-! ### Runs -/

section Steps

variable {sha256 : String → Bytes} {steps : List Step}

theorem names_run {t : RunThread} (ht : t ∈ (runState sha256 steps).threads)
    {clientId name : String} (h : Names t.log clientId name) : name = clientId := by
  rcases h with hsame | ⟨client, hrecord, rfl⟩
  · exact hsame
  · obtain ⟨effect, heffect, hentry⟩ := exists_effect_of_mem_log ht hrecord
    exact clientId_of_directoryEntry heffect hentry

theorem AllChecked.thread (hfresh : FreshIds (runEffects sha256 steps))
    (h : AllChecked (runState sha256 steps)) {i : ℕ} {t : RunThread} {entry : Entry Op.Answer}
    {w : World} (prog : Handler Response) (hi : (runState sha256 steps).threads[i]? = some t)
    (permitted : Permits t.request t.log entry.1) (traces : Traces t.request t.log entry.1)
    (performed : Performed sha256 (runState sha256 steps).shared w entry) :
    AllChecked ⟨w, (runState sha256 steps).threads.set i ⟨t.request, entry :: t.log, prog⟩⟩ := by
  have ht := List.mem_of_getElem? hi
  have hgrows := Config.grows_called hi w entry prog
  have hlast : ⟨t.request, entry :: t.log, prog⟩ ∈
      (runState sha256 steps).threads.set i ⟨t.request, entry :: t.log, prog⟩ :=
    List.mem_of_getElem? (List.getElem?_set_self (List.getElem?_eq_some_iff.mp hi).1)
  have hmove := docMove_of_performed permitted performed
  have hstored : ∀ id d, w.doc id = some d → Backed
      ⟨w, (runState sha256 steps).threads.set i ⟨t.request, entry :: t.log, prog⟩⟩ id d := by
    intro id d hd
    have hdoc := hmove id
    rw [hd] at hdoc
    refine Backed.move hdoc hgrows hlast traces (h.stored id) ?_
    exact fun d₁ hd₁ d₀ hseen => ((tracks_of_seen hfresh ht hseen).later d₁ hd₁).request
  constructor
  · exact hstored
  · intro t' ht' id d hseen
    rcases List.mem_or_eq_of_mem_set ht' with ht' | rfl
    · exact (h.read t' ht' id d hseen).grow hgrows
    · obtain ⟨e, he, hopen⟩ := hseen
      rcases List.mem_cons.mp he with rfl | he
      · exact hstored id d (openDocument_performed performed hopen).1
      · exact (h.read t ht id d ⟨e, he, hopen⟩).grow hgrows
  · intro t' ht' id clientId bindingHash now ttl d hlog
    rcases List.mem_or_eq_of_mem_set ht' with ht' | rfl
    · obtain ⟨hclient, hbacked⟩ := h.redeemed t' ht' id clientId bindingHash now ttl d hlog
      exact ⟨hclient, hbacked.grow hgrows⟩
    · rcases List.mem_cons.mp hlog with rfl | hlog
      · exact ⟨clientId_of_redeemed performed, hstored id d (doc_of_redeemed (hmove id))⟩
      · obtain ⟨hclient, hbacked⟩ := h.redeemed t ht id clientId bindingHash now ttl d hlog
        exact ⟨hclient, hbacked.grow hgrows⟩
  · intro uid row hrow
    rcases code_of_performed performed hrow with ⟨old, hold, hlater⟩ |
      ⟨call, reply, asked, session, now, rfl, hcode, rfl⟩
    · exact (h.codes uid old hold).grow hlater hgrows
    · obtain ⟨clientId, request, scope, name, secretHash, hrequested, hname, rfl⟩ :=
        traces asked hcode
      obtain ⟨client, hclient, hrelies, hscope⟩ := h.requested ht hrequested
      have hsame : name = client.clientId := names_run ht (hname _ hclient)
      refine ⟨_, hlast, ⟨call, reply, _, List.mem_cons_self, hcode, rfl⟩, client, request,
        hsame.symm, ?_, rfl, rfl, hscope⟩
      exact hrelies.grow hgrows rfl (List.subset_cons_self _ _)

theorem AllChecked.outside (h : AllChecked (runState sha256 steps)) {entry : Entry Op.Answer}
    {w : World} (hop : outsideOp entry.1 = true)
    (performed : Performed sha256 (runState sha256 steps).shared w entry) :
    AllChecked ⟨w, (runState sha256 steps).threads⟩ := by
  have hgrows := Config.grows_shared (runState sha256 steps) w
  refine ⟨fun id d hd => ?_, h.read, h.redeemed, fun uid row hrow => ?_⟩
  · rcases doc_of_outside hop performed id with hdoc | hdoc
    · exact h.stored id d (hdoc ▸ hd)
    · rw [show w.doc id = some d from hd] at hdoc
      cases hdoc
  · rcases code_of_performed performed hrow with ⟨old, hold, hlater⟩ |
      ⟨call, reply, asked, session, now, rfl, hcode, -⟩
    · exact (h.codes uid old hold).grow hlater hgrows
    · cases call with
      | finalizeLogin input => cases hop
      | authorizeWithSession input => cases hop
      | _ => cases hcode

end Steps

theorem allChecked_run {sha256 : String → Bytes} (steps : List Step)
    (hfresh : FreshIds (runEffects sha256 steps)) : AllChecked (runState sha256 steps) := by
  have htraces : (deployment sha256).Follows Traces :=
    fun q => (deployment_traces sha256 q).mono fun _ _ _ => trivial
  refine System.run_invariant ((deployment_follows sha256).and htraces)
    (C := fun steps => FreshIds (runEffects sha256 steps)) (J := fun c _ => AllChecked c)
    (fun _ _ => FreshIds.earlier) ?_ ?_ ?_ ?_ steps hfresh
  · refine ⟨fun id d hd => ?_, fun t ht => ?_, fun t ht => ?_, fun uid row hrow => ?_⟩
    · cases hd
    · cases ht
    · cases ht
    · simp [World.fresh, UserObject.fresh, Tables.empty] at hrow
  · intro steps q h
    have hgrows := Config.grows_append (runState sha256 steps) (runState sha256 steps).shared
      [⟨q, [], (deployment sha256).start q⟩]
    constructor
    · exact fun id d hd => (h.stored id d hd).grow hgrows
    · intro t ht id d hseen
      rcases List.mem_append.mp ht with ht | ht
      · exact (h.read t ht id d hseen).grow hgrows
      · rw [List.mem_singleton.mp ht] at hseen
        obtain ⟨e, he, -⟩ := hseen
        cases he
    · intro t ht id clientId bindingHash now ttl d hlog
      rcases List.mem_append.mp ht with ht | ht
      · obtain ⟨hclient, hbacked⟩ := h.redeemed t ht id clientId bindingHash now ttl d hlog
        exact ⟨hclient, hbacked.grow hgrows⟩
      · rw [List.mem_singleton.mp ht] at hlog
        cases hlog
    · exact fun uid row hrow => (h.codes uid row hrow).grow (.refl row) hgrows
  · intro steps i t op answer prog hfresh _ h hi _ hop
    exact h.thread hfresh.earlier prog hi hop.1 hop.2 (exec_performed sha256 _ answer op)
  · intro steps op answer h hop
    have hperformed := exec_performed sha256 (runState sha256 steps).shared answer op
    have houtside : outsideOp op = true := hop
    exact h.outside houtside hperformed

end TinyOidc.Interaction

namespace TinyOidc.Oidc
open TinyOidc.Interaction TinyOidc.User Threads

/-! ### The registration -/

/-- `validateAuthorizeRequest` was given the parameters of `t` and the record that the directory
answered `t` with for the client. -/
structure ValidatedAs (t : RunThread) (clientId : String) (client : Client)
    (given : RequestParams) (outcome : AuthorizeValidation) : Prop where
  record : directoryEntry clientId client ∈ t.log
  params : t.request.params = some given
  validated : validateAuthorizeRequest given.params client given.parse = outcome

/-- The validation of what `t` works with: its own, or, on an interaction, that of the request that
created it, for the client and with the request that the document of the interaction names. -/
inductive ValidatedFor (c : RunConfig) (t : RunThread) (clientId : String) (client : Client)
    (given : RequestParams) : AuthorizeValidation → Prop where
  | own (outcome : AuthorizeValidation) (h : ValidatedAs t clientId client given outcome) :
      ValidatedFor c t clientId client given outcome
  | earlier (id : String) (d : InteractionDocument) (works : WorksOn t.request t.log id d)
      (hclient : d.clientId = some clientId) (request : AuthorizeRequest)
      (hrequest : d.request = some request) (creator : RunThread) (hcreator : creator ∈ c.threads)
      (creates : Creates creator.log id)
      (h : ValidatedAs creator clientId client given (.ok request)) :
      ValidatedFor c t clientId client given (.ok request)

def outcomeUri : AuthorizeValidation → Option String
  | .ok request => some request.redirectUri
  | .redirected redirectUri _ _ _ => some redirectUri
  | .refused _ _ => none

/-- A consent leaves a code within the registration. -/
theorem Respects.narrow {parse : UrlParser} {client : Client} {redirectUri : String}
    {scope scopes : List String} {codeChallenge : Option String}
    (h : Respects parse client redirectUri scope codeChallenge) (hnarrows : Narrows scopes scope) :
    Respects parse client redirectUri scopes codeChallenge where
  redirect := h.redirect
  openid := hnarrows.openid
  distinct := hnarrows.distinct
  allowed := by
    intro s hs
    rcases hnarrows.within s hs with rfl | hs
    · exact h.allowed _ h.openid
    · exact h.allowed s hs
  offline := by
    intro hoffline
    rcases hnarrows.within _ hoffline with heq | hoffline
    · exact absurd heq (by decide)
    · exact h.offline hoffline
  pkce := h.pkce

theorem Respects.repeats {parse : UrlParser} {client : Client} {request : AuthorizeRequest}
    (h : Respects parse client request.redirectUri request.scope request.codeChallenge)
    {redirectUri : String} {scope : List String} {codeChallenge : Option String}
    (hrepeats : Repeats request redirectUri scope codeChallenge) :
    Respects parse client redirectUri scope codeChallenge := by
  rw [hrepeats.redirectUri, hrepeats.codeChallenge]
  rcases hrepeats.scope with hscope | hnarrows
  · rw [hscope]
    exact h
  · exact h.narrow hnarrows

/-- The URI of a validated outcome is a registered one. -/
theorem outcomeUri_matched {given : RequestParams} {client : Client} {uri : String}
    (h : outcomeUri (given.validate client) = some uri) :
    (matchRedirectUri given.parse client.redirectUris uri).isSome = true := by
  cases houtcome : given.validate client with
  | ok request =>
    rw [houtcome] at h
    cases h
    exact (validateAuthorizeRequest_ok houtcome).redirect
  | redirected redirectUri state error description =>
    rw [houtcome] at h
    cases h
    exact validateAuthorizeRequest_redirected houtcome
  | refused error description =>
    rw [houtcome] at h
    cases h

theorem ValidatedFor.validated {c : RunConfig} {t : RunThread} {clientId : String} {client : Client}
    {given : RequestParams} {outcome : AuthorizeValidation}
    (h : ValidatedFor c t clientId client given outcome) : given.validate client = outcome := by
  cases h with
  | own outcome h => exact h.validated
  | earlier id d works hclient request hrequest creator hcreator creates h => exact h.validated

section Runs

variable {sha256 : String → Bytes} {steps : List Step}

theorem validatedAs_of_checked {t : RunThread} (ht : t ∈ (runState sha256 steps).threads)
    {client : Client} {outcome : AuthorizeValidation} (h : Checked t.request t.log client outcome) :
    ∃ given, ValidatedAs t client.clientId client given outcome := by
  obtain ⟨⟨asked, hrecord⟩, given, hgiven, hvalidated⟩ := h
  obtain ⟨effect, heffect, hentry⟩ := exists_effect_of_mem_log ht hrecord
  have hasked := clientId_of_directoryEntry heffect hentry
  exact ⟨given, hasked ▸ hrecord, hgiven, hvalidated⟩

theorem validatedFor_of_reliesOn {t : RunThread} (ht : t ∈ (runState sha256 steps).threads)
    {client : Client} {outcome : AuthorizeValidation}
    (h : ReliesOn (runState sha256 steps) t client outcome) :
    ∃ given, ValidatedFor (runState sha256 steps) t client.clientId client given outcome := by
  cases h with
  | own outcome h =>
    obtain ⟨given, hvalidated⟩ := validatedAs_of_checked ht h
    exact ⟨given, .own outcome hvalidated⟩
  | earlier id d works hclient request hrequest h =>
    obtain ⟨creator, hcreator, creates, hchecked⟩ := h
    obtain ⟨given, hvalidated⟩ := validatedAs_of_checked hcreator hchecked
    exact ⟨given, .earlier id d works hclient request hrequest creator hcreator creates hvalidated⟩

/-- Where a finished request sends its result matched a registered URI at the validation of what
it works with. -/
theorem redirect_matched (hfresh : FreshIds (runEffects sha256 steps)) {t : RunThread}
    (ht : t ∈ (runState sha256 steps).threads) {uri : String} {state : Option String}
    {result : ClientResult} (hdone : t.prog = .done (.toClient uri state result)) :
    ∃ client given outcome, ValidatedFor (runState sha256 steps) t client.clientId client given
      outcome ∧ outcomeUri outcome = some uri := by
  have hobeys := System.thread_obeys_to (deployment_traces sha256) .fresh steps t ht
  rw [hdone] at hobeys
  have hsends : Sends t.request t.log uri := hobeys
  rcases hsends with ⟨clientId, request, scope, hrequested, rfl⟩ | ⟨client, state', error,
    description, hchecked⟩
  · obtain ⟨client, -, hrelies, -⟩ := (allChecked_run steps hfresh).requested ht hrequested
    obtain ⟨given, hvalidated⟩ := validatedFor_of_reliesOn ht hrelies
    exact ⟨client, given, .ok request, hvalidated, rfl⟩
  · obtain ⟨given, hvalidated⟩ := validatedAs_of_checked ht hchecked
    exact ⟨client, given, _, .own _ hvalidated, rfl⟩

end Runs

/-- In every run, every stored code respects the record of its client that its request was validated
against: by the request that issued it, or by the one that created the interaction it was issued
for. A result is only sent to the redirect URI of that validation, which matched. -/
theorem codes_respect_registration (sha256 : String → Bytes) (steps : List Step)
    (hfresh : FreshIds (runEffects sha256 steps)) :
    (∀ uid, ∀ row ∈ ((runState sha256 steps).shared.users uid).tables.authCodes.rows,
      ∃ t ∈ (runState sha256 steps).threads, Issues t.log uid row ∧ ∃ client given request,
        ValidatedFor (runState sha256 steps) t row.clientId client given (.ok request) ∧
          Repeats request row.redirectUri row.scope row.codeChallenge ∧
          Respects given.parse client row.redirectUri row.scope row.codeChallenge) ∧
    ∀ t ∈ (runState sha256 steps).threads, ∀ uri state result,
      t.prog = .done (.toClient uri state result) → ∃ clientId client given outcome,
        ValidatedFor (runState sha256 steps) t clientId client given outcome ∧
          outcomeUri outcome = some uri ∧
          (matchRedirectUri given.parse client.redirectUris uri).isSome = true := by
  constructor
  · intro uid row hrow
    obtain ⟨t, ht, hissues, client, request, hclient, hrelies, hrepeats⟩ :=
      (allChecked_run steps hfresh).codes uid row hrow
    obtain ⟨given, hvalidated⟩ := validatedFor_of_reliesOn ht hrelies
    rw [hclient] at hvalidated
    refine ⟨t, ht, hissues, client, given, request, hvalidated, hrepeats, ?_⟩
    exact (validateAuthorizeRequest_ok hvalidated.validated).repeats hrepeats
  · intro t ht uri state result hdone
    obtain ⟨client, given, outcome, hvalidated, huri⟩ := redirect_matched hfresh ht hdone
    refine ⟨client.clientId, client, given, outcome, hvalidated, huri, ?_⟩
    exact outcomeUri_matched (hvalidated.validated ▸ huri)

namespace Sample
open TinyOidc.Interaction.Sample

def parse : UrlParser := fun text =>
  if text = "https://app.test/cb" then
    some ⟨text, "https://app.test", "https:", "app.test", "", "", "/cb", "", ""⟩
  else none

def params : Params
  | "redirect_uri" => some "https://app.test/cb"
  | "response_type" => some "code"
  | "state" => some "state"
  | "scope" => some "openid"
  | "code_challenge" => some "E9Melhoa2OwvFrEMTJguCHaoeK1t8URWbuGJSstw-cM"
  | "code_challenge_method" => some "S256"
  | _ => none

/-- A request that is validated, consented to by `u1` and completed. -/
def completed : List Step :=
  (user "u1" ++ whole 0 ix (.authorize (some ⟨⟨params, parse⟩, some "app", none, false⟩) .absent) ++
    login 1 ix "u1" ++ whole 3 ix (.consent (api ix) (some (.grant ["openid"]))) ++
    whole 4 ix complete).reverse

end Sample

theorem codes_respect_registration_sample :
    FreshIds (runEffects User.Sample.sha256 Sample.completed) ∧
      ∃ row ∈
          ((runState User.Sample.sha256 Sample.completed).shared.users "u1").tables.authCodes.rows,
        row.clientId = "app" ∧
        ∃ t ∈ (runState User.Sample.sha256 Sample.completed).threads, Issues t.log "u1" row ∧
          ∃ client given request,
            ValidatedFor (runState User.Sample.sha256 Sample.completed) t row.clientId client given
              (.ok request) ∧
            Repeats request row.redirectUri row.scope row.codeChallenge ∧
            Respects given.parse client row.redirectUri row.scope row.codeChallenge := by
  have hrun : FreshIds (runEffects User.Sample.sha256 Sample.completed) ∧
      ((runState User.Sample.sha256 Sample.completed).shared.users
        "u1").tables.authCodes.rows.map (·.clientId) = ["app"] := by decide +kernel
  obtain ⟨hfresh, hclients⟩ := hrun
  obtain ⟨row, hrow, hclient⟩ := List.mem_map.mp (hclients ▸ List.mem_singleton_self "app")
  obtain ⟨hcodes, -⟩ := codes_respect_registration User.Sample.sha256 Sample.completed hfresh
  exact ⟨hfresh, row, hrow, hclient, hcodes "u1" row hrow⟩

end TinyOidc.Oidc
