import TinyOidc.Client.Records
import TinyOidc.User.CodeRows
import TinyOidc.User.FamilyOrigins
import TinyOidc.User.Grants
import TinyOidc.User.Lifecycle

/-! Deleted and re-created clients: the client table beside one user's object, and what of the
object's rows is honoured for a record created under an id that had an earlier one. -/
namespace TinyOidc.Client
open RowTable TinyOidc.User

/-- A record of a client id, told from the others by its creation time. -/
abbrev Incarnation := String × ℤ

def incarnation (client : ClientRef) : Incarnation := (client.clientId, client.createdAt)

/-- The client a call is made for, as its caller resolved it. -/
def calledFor : Call → Option ClientRef
  | .authorizeWithSession input => some input.client
  | .finalizeLogin input => input.client
  | .exchangeCode input => some input.client
  | .rotateRefreshToken input => some input.client
  | .grantConsent client _ _ => some client
  | _ => none

def CodeIssuedFor (who : Incarnation) (x : Bytes) (e : CallEvent) : Prop :=
  codeIssued e = some x ∧ ∃ client, calledFor e.input = some client ∧ incarnation client = who

def FamilyOpenedFor (who : Incarnation) (id : String) (e : CallEvent) : Prop :=
  familyOpened e = some id ∧
    ∃ input, exchangeSucceeded e = some input ∧ incarnation input.client = who

def ConsentFor (who : Incarnation) (scopes : List String) (e : CallEvent) : Prop :=
  ∃ client now record, e.input = .grantConsent client scopes now ∧
    e.reply = .grant (.ok record) ∧ incarnation client = who

/-- The client a stored grant was given to consented to each of its scopes. -/
def GrantsConsented (h : List CallEvent) (t : Tables) : Prop :=
  ∀ g ∈ t.grants.rows, (∃ e ∈ h, ∃ scopes, ConsentFor (g.clientId, g.clientCreatedAt) scopes e) ∧
    ∀ s ∈ g.scopes, ∃ e ∈ h, ∃ scopes, ConsentFor (g.clientId, g.clientCreatedAt) scopes e ∧
      s ∈ scopes

theorem GrantsConsented.mono {h h' : List CallEvent} {t : Tables} (hg : GrantsConsented h t)
    (hsub : h ⊆ h') : GrantsConsented h' t := by
  intro g hmem
  obtain ⟨⟨e, he, hrow⟩, hscopes⟩ := hg g hmem
  refine ⟨⟨e, hsub he, hrow⟩, fun s hs => ?_⟩
  obtain ⟨e, he, hscope⟩ := hscopes s hs
  exact ⟨e, hsub he, hscope⟩

theorem grantsConsented_after (sha256 : String → Bytes) (calls : List Call) :
    GrantsConsented (history sha256 calls) (User.after sha256 calls).tables := by
  induction calls with
  | nil => exact fun g hg => absurd hg (by simp [UserObject.fresh, Tables.empty])
  | cons c calls ih =>
    have hpast := ih.mono (List.subset_cons_self
      (Machine.event (UserObject.call sha256) (User.after sha256 calls) c) _)
    have hafter := call_grants sha256 (User.after sha256 calls) c
    intro g hg
    generalize hreply : ((User.after sha256 calls).call sha256 c).2 = r at hafter
    cases hafter with
    | deleted _ _ subset _ => exact hpast g (subset g hg)
    | granted client scopes now record others own =>
      by_cases hkey : g.clientId = client.clientId
      · obtain ⟨hcreated, hextends⟩ := own g hg hkey
        have hthis : ConsentFor (g.clientId, g.clientCreatedAt) scopes
            (Machine.event (UserObject.call sha256) (User.after sha256 calls)
              (.grantConsent client scopes now)) :=
          ⟨client, now, record, rfl, hreply, by rw [incarnation, hkey, hcreated]⟩
        refine ⟨⟨_, List.mem_cons_self, scopes, hthis⟩, fun s hs => ?_⟩
        rcases hextends s hs with hs | ⟨g₀, hg₀, hkey₀, hcreated₀, hs⟩
        · exact ⟨_, List.mem_cons_self, scopes, hthis, hs⟩
        · rw [hkey, hcreated, ← hkey₀, ← hcreated₀]
          exact (hpast g₀ hg₀).2 s hs
      · exact hpast g ((others g hkey).mp hg)

/-- A stored family was opened for the record it names. -/
theorem familyOpenedFor_after (sha256 : String → Bytes) (calls : List Call) :
    ∀ f ∈ (User.after sha256 calls).tables.refreshFamilies.rows,
      ∃ e ∈ history sha256 calls, FamilyOpenedFor (f.clientId, f.clientCreatedAt) f.id e := by
  induction calls with
  | nil => exact fun f hf => absurd hf (by simp [UserObject.fresh, Tables.empty])
  | cons c calls ih =>
    intro f hf
    rcases call_originsStay sha256 (User.after sha256 calls) c f hf with ⟨g, hg, hsame⟩ | hopened
    · obtain ⟨e, he, hfor⟩ := ih g hg
      rw [hsame.client, hsame.incarnation, hsame.id]
      exact ⟨e, List.mem_cons_of_mem _ he, hfor⟩
    · obtain ⟨input, hin, _, hclient, hcreated, _⟩ := opened_origin hopened hf
      exact ⟨_, List.mem_cons_self, hopened, input, hin, by rw [incarnation, hclient, hcreated]⟩

/-! ### The client table beside the object -/

structure Registry where
  clients : ClientTable
  user : UserObject

def Registry.fresh : Registry := ⟨.empty, .fresh⟩

inductive RegistryStep where
  | createClient (input : ClientInput) (clientId : String) (secretHash : Option Bytes) (now : ℤ)
  | deleteClient (clientId : String)
  | call (c : Call)

inductive RegistryReply where
  | inserted (result : InsertClientResult)
  | deleted (found : Bool)
  | answered (reply : Reply)

/-- Deleting a client writes no user object. -/
def Registry.step (sha256 : String → Bytes) (r : Registry) :
    RegistryStep → Registry × RegistryReply
  | .createClient input clientId secretHash now =>
      let inserted := insertClient r.clients (clientFromInput input clientId secretHash now)
      ({ r with clients := inserted.1 }, .inserted inserted.2)
  | .deleteClient clientId =>
      let deleted := deleteClient r.clients clientId
      ({ r with clients := deleted.1 }, .deleted deleted.2)
  | .call c =>
      let answered := r.user.call sha256 c
      ({ r with user := answered.1 }, .answered answered.2)

abbrev RegistryEvent := Machine.Event Registry RegistryStep RegistryReply

def created (e : RegistryEvent) : Option Incarnation :=
  match e.input, e.reply with
  | .createClient _ clientId _ now, .inserted .created => some (clientId, now)
  | _, _ => none

def incarnations (sha256 : String → Bytes) (steps : List RegistryStep) : List Incarnation :=
  (Machine.events (Registry.step sha256) .fresh steps).filterMap created

def stepCall : RegistryStep → Option Call
  | .call c => some c
  | _ => none

def callsOf (steps : List RegistryStep) : List Call := steps.filterMap stepCall

theorem registry_user (sha256 : String → Bytes) (steps : List RegistryStep) :
    (Machine.after (Registry.step sha256) .fresh steps).user =
      User.after sha256 (callsOf steps) := by
  induction steps with
  | nil => rfl
  | cons s steps ih =>
    cases s with
    | createClient input clientId secretHash now => exact ih
    | deleteClient clientId => exact ih
    | call c =>
      simp only [Machine.after_cons, Registry.step, ih]
      rfl

/-- Callers resolve a client before they call for it: a call names a record created earlier. -/
def refsResolved (sha256 : String → Bytes) : List RegistryStep → Prop
  | [] => True
  | s :: steps =>
      (∀ client ∈ (stepCall s).bind calledFor, incarnation client ∈ incarnations sha256 steps) ∧
        refsResolved sha256 steps

def decideRefsResolved (sha256 : String → Bytes) :
    (steps : List RegistryStep) → Decidable (refsResolved sha256 steps)
  | [] => isTrue trivial
  | s :: steps =>
      have := decideRefsResolved sha256 steps
      inferInstanceAs (Decidable ((∀ client ∈ (stepCall s).bind calledFor,
        incarnation client ∈ incarnations sha256 steps) ∧ refsResolved sha256 steps))

instance (sha256 : String → Bytes) : DecidablePred (refsResolved sha256) :=
  decideRefsResolved sha256

theorem refsResolved_of_append {sha256 : String → Bytes} {later earlier : List RegistryStep}
    (h : refsResolved sha256 (later ++ earlier)) : refsResolved sha256 earlier := by
  induction later with
  | nil => exact h
  | cons s later ih => exact ih h.2

theorem mem_callsOf {c : Call} {steps : List RegistryStep} :
    c ∈ callsOf steps ↔ .call c ∈ steps := by
  simp only [callsOf, List.mem_filterMap]
  constructor
  · rintro ⟨s, hs, hc⟩
    cases s with
    | createClient input clientId secretHash now => cases hc
    | deleteClient clientId => cases hc
    | call c' =>
      cases hc
      exact hs
  · intro h
    exact ⟨.call c, h, rfl⟩

/-- What a call names was created before it. -/
theorem mem_incarnations_of_called {sha256 : String → Bytes} {steps : List RegistryStep}
    (h : refsResolved sha256 steps) {c : Call} (hc : c ∈ callsOf steps) {client : ClientRef}
    (hfor : calledFor c = some client) : incarnation client ∈ incarnations sha256 steps := by
  induction steps with
  | nil => simp [callsOf] at hc
  | cons s steps ih =>
    have hold : incarnations sha256 steps ⊆ incarnations sha256 (s :: steps) :=
      fun who hwho => mem_filterMap_cons.mpr (.inr hwho)
    rcases List.mem_cons.mp (mem_callsOf.mp hc) with rfl | hc
    · exact hold (h.1 client hfor)
    · exact hold (ih h.2 (mem_callsOf.mpr hc))

theorem mem_of_mem_history {sha256 : String → Bytes} {calls : List Call} {e : CallEvent}
    (he : e ∈ history sha256 calls) : e.input ∈ calls := by
  obtain ⟨later, c, earlier, rfl, rfl⟩ := Machine.exists_of_mem_events _ he
  simp

/-- The exchange a step ran was called in the run. -/
theorem called_of_exchangeRun {sha256 : String → Bytes} {calls : List Call} {e : CallEvent}
    {input : ExchangeCodeInput} (he : e ∈ history sha256 calls) (h : exchangeRun e = some input) :
    .exchangeCode input ∈ calls := by
  have hinput := mem_of_mem_history he
  unfold exchangeRun at h
  split at h
  next input' hcall =>
    cases h
    exact hcall ▸ hinput
  next call hcall =>
    split at h
    next input' user challenge hlookup =>
      cases h
      obtain ⟨later, c, earlier, rfl, rfl⟩ := Machine.exists_of_mem_events _ he
      obtain ⟨l, r, _, rfl, _⟩ := suspended_exchange_after sha256 (mem_of_lookup hlookup)
      simp
    · cases h
  · cases h

section Resolved
variable {sha256 : String → Bytes} {steps : List RegistryStep} {who : Incarnation}
  (hresolved : refsResolved sha256 steps) (hnew : who ∉ incarnations sha256 steps)
include hresolved hnew

/-! Before a record is created, nothing is produced for it. -/

theorem not_consentFor_of_new {scopes : List String} {e : CallEvent}
    (he : e ∈ history sha256 (callsOf steps)) : ¬ ConsentFor who scopes e := by
  rintro ⟨client, now, record, hinput, -, hwho⟩
  have hcalled := mem_of_mem_history he
  rw [hinput] at hcalled
  exact hnew (hwho ▸ mem_incarnations_of_called hresolved hcalled rfl)

theorem not_codeIssuedFor_of_new {x : Bytes} {e : CallEvent}
    (he : e ∈ history sha256 (callsOf steps)) : ¬ CodeIssuedFor who x e := by
  rintro ⟨-, client, hclient, hwho⟩
  exact hnew (hwho ▸ mem_incarnations_of_called hresolved (mem_of_mem_history he) hclient)

theorem not_familyOpenedFor_of_new {id : String} {e : CallEvent}
    (he : e ∈ history sha256 (callsOf steps)) : ¬ FamilyOpenedFor who id e := by
  rintro ⟨-, input, hin, hwho⟩
  obtain ⟨user, challenge, hcommit⟩ : ∃ user challenge,
      exchangeCommit e = some (user, challenge, input) := by
    obtain ⟨later, c, earlier, -, rfl⟩ := Machine.exists_of_mem_events _ he
    exact exchangeCommit_of_ok hin
  have hcalled := called_of_exchangeRun he (exchangeRun_of_commit hcommit)
  exact hnew (hwho ▸ mem_incarnations_of_called hresolved hcalled rfl)

end Resolved

/-! ### What a re-created client is given -/

/-- Whatever a call honours for a record was produced for that record, since it was created. -/
structure InheritsNothing (who : Incarnation) (since : List CallEvent) (e : CallEvent) : Prop where
  grants : ∀ client row, incarnation client = who → (e.pre.tables.grantFor client).2 = some row →
    (∃ e' ∈ since, ∃ scopes, ConsentFor who scopes e') ∧
    ∀ s ∈ row.scopes, ∃ e' ∈ since, ∃ scopes, ConsentFor who scopes e' ∧ s ∈ scopes
  families : ∀ input, rotationSucceeded e = some input → incarnation input.client = who →
    ∃ e' ∈ since, FamilyOpenedFor who input.familyId e'
  codes : ∀ input, exchangeSucceeded e = some input → incarnation input.client = who →
    ∃ e' ∈ since, CodeIssuedFor who input.secretHash e'

/-- The calls since a record was created, with the state they started from. -/
def eventsSince (sha256 : String → Bytes) (later earlier : List RegistryStep) : List CallEvent :=
  Machine.events (UserObject.call sha256) (User.after sha256 (callsOf earlier)) (callsOf later)

theorem callsOf_append (later earlier : List RegistryStep) :
    callsOf (later ++ earlier) = callsOf later ++ callsOf earlier := by
  simp [callsOf]

theorem history_since (sha256 : String → Bytes) (later earlier : List RegistryStep) :
    history sha256 (callsOf (later ++ earlier)) =
      eventsSince sha256 later earlier ++ history sha256 (callsOf earlier) := by
  rw [callsOf_append, history, Machine.events_append]
  rfl

/-- No code of an earlier record can be exchanged once the record is created: those stored then
are consumed or have expired, no later call issues one for an earlier record, and no exchange for
the record is of an earlier time. -/
structure CodesRunOut (sha256 : String → Bytes) (who : Incarnation) (c : Call)
    (later earlier : List RegistryStep) : Prop where
  stored : ∀ code ∈ (User.after sha256 (callsOf earlier)).tables.authCodes.rows,
    code.clientId = who.1 → code.consumedAt = none → code.expiresAt ≤ who.2
  asked : ∀ call ∈ callsOf later, ∀ code ∈ requestedCode call, code.clientId = who.1 →
    (calledFor call).map incarnation = some who
  clock : ∀ exchange, .exchangeCode exchange ∈ c :: callsOf later →
    incarnation exchange.client = who → who.2 ≤ exchange.now

/-- What is exchanged for the record was issued for it. -/
theorem CodesRunOut.issuedFor {sha256 : String → Bytes} {who : Incarnation} {c : Call}
    {later earlier : List RegistryStep} (h : CodesRunOut sha256 who c later earlier)
    {code : CodeRow}
    (hcode : code ∈ (Machine.after (UserObject.call sha256) (User.after sha256 (callsOf earlier))
      (callsOf later)).tables.authCodes.rows)
    (hunconsumed : code.consumedAt = none) (hclient : code.clientId = who.1)
    (hunexpired : who.2 < code.expiresAt) :
    ∃ e ∈ eventsSince sha256 later earlier, CodeIssuedFor who code.secretHash e := by
  rcases codes_since sha256 _ (callsOf later) code hcode with
    ⟨old, hold, hlater⟩ | ⟨e, he, hissued, asked, hasked, hsame⟩
  · have hclient' : old.clientId = who.1 := by
      rw [← hclient, hlater.row]
    have hold' : old.consumedAt = none := by
      by_contra hne
      have hsome := hlater.consumed (Option.isSome_iff_ne_none.mpr hne)
      rw [hunconsumed] at hsome
      cases hsome
    have hexpired := h.stored old hold hclient' hold'
    have hexpires : code.expiresAt = old.expiresAt := by
      rw [hlater.row]
    omega
  · have hcall : e.input ∈ callsOf later := by
      obtain ⟨l, c', r, hcalls, rfl⟩ := Machine.exists_of_mem_events _ he
      rw [hcalls]
      exact List.mem_append_right _ List.mem_cons_self
    obtain ⟨client, hfor, hwho⟩ :=
      Option.map_eq_some_iff.mp (h.asked e.input hcall asked hasked (hsame.trans hclient))
    exact ⟨e, he, hissued, client, hfor, hwho⟩

/-- A client id created again in another second inherits nothing, once the codes of its earlier
records have run out. -/
theorem recreated_inherits_nothing_of_codesRunOut (sha256 : String → Bytes)
    (later earlier : List RegistryStep) (input : ClientInput) (id : String)
    (secretHash : Option Bytes) (now : ℤ) (c : Call)
    (hresolved : refsResolved sha256
      (.call c :: later ++ .createClient input id secretHash now :: earlier))
    (hsecond : (id, now) ∉ incarnations sha256 earlier)
    (hcodes : CodesRunOut sha256 (id, now) c later earlier) :
    InheritsNothing (id, now)
      (eventsSince sha256 later (.createClient input id secretHash now :: earlier))
      (Machine.event (UserObject.call sha256)
        (Machine.after (Registry.step sha256) .fresh
          (later ++ .createClient input id secretHash now :: earlier)).user c) := by
  have hearlier : refsResolved sha256 earlier := (refsResolved_of_append hresolved.2).2
  have hhistory := history_since sha256 later (.createClient input id secretHash now :: earlier)
  rw [registry_user]
  have hcalls : callsOf (later ++ .createClient input id secretHash now :: earlier) =
      callsOf later ++ callsOf earlier := callsOf_append later _
  set calls := callsOf (later ++ .createClient input id secretHash now :: earlier)
  -- What is produced for the record is not produced before it is created.
  have hsince : ∀ P : CallEvent → Prop,
      (∀ e ∈ history sha256 (callsOf earlier), ¬ P e) → (∃ e ∈ history sha256 calls, P e) →
      ∃ e ∈ eventsSince sha256 later (.createClient input id secretHash now :: earlier), P e := by
    rintro P hnone ⟨e, he, hp⟩
    rw [hhistory] at he
    rcases List.mem_append.mp he with he | he
    · exact ⟨e, he, hp⟩
    · exact absurd hp (hnone e he)
  have hconsents := grantsConsented_after sha256 calls
  refine ⟨?_, ?_, ?_⟩
  · intro client row hwho hgrant
    obtain ⟨hmem, hclient, hcreated⟩ := grantFor_some hgrant
    have hrow : (row.clientId, row.clientCreatedAt) = (id, now) := by
      rw [hclient, hcreated, ← hwho, incarnation]
    have hconsent := hconsents row hmem
    rw [hrow] at hconsent
    refine ⟨hsince _ ?_ hconsent.1, fun s hs => hsince _ ?_ (hconsent.2 s hs)⟩
    · rintro e he ⟨scopes, hfor⟩
      exact not_consentFor_of_new hearlier hsecond he hfor
    · rintro e he ⟨scopes, hfor, -⟩
      exact not_consentFor_of_new hearlier hsecond he hfor
  · intro rotate hrotated hwho
    obtain ⟨-, user, family, token, grant, hrot⟩ := rotationSucceeded_commit hrotated
    have hp := hrot.presented
    have hopened := familyOpenedFor_after sha256 calls family
      (purgedTables_families_subset hp.family_mem)
    have hrow : (family.clientId, family.clientCreatedAt) = (id, now) := by
      rw [hp.client, hp.incarnation, ← hwho, incarnation]
    rw [hrow, hp.family_id] at hopened
    exact hsince _ (fun e he => not_familyOpenedFor_of_new hearlier hsecond he) hopened
  · intro exchange hexchanged hwho
    obtain ⟨user, challenge, code, session, hcommit, hx, -⟩ := exchangeSucceeded_commit hexchanged
    have hstored := purgedTables_codes_subset hx.code_mem
    -- The exchange was called since the creation: what it names was created before it.
    have hcalled : .exchangeCode exchange ∈ c :: callsOf later := by
      have hlast : Machine.event (UserObject.call sha256) (User.after sha256 calls) c ∈
          history sha256 (c :: calls) := List.mem_cons_self
      have hmem := called_of_exchangeRun hlast (exchangeRun_of_commit hcommit)
      rcases List.mem_cons.mp hmem with hthis | hmem
      · exact List.mem_cons.mpr (.inl hthis)
      · rw [hcalls] at hmem
        rcases List.mem_append.mp hmem with hmem | hmem
        · exact List.mem_cons_of_mem _ hmem
        · exact absurd (hwho ▸ mem_incarnations_of_called hearlier hmem rfl) hsecond
    have hclock := hcodes.clock exchange hcalled hwho
    have hunexpired := hx.unexpired
    have hclient : code.clientId = id := by
      rw [hx.client]
      exact congrArg Prod.fst hwho
    rw [← hx.secret]
    apply hcodes.issuedFor _ hx.unconsumed hclient
    · show now < code.expiresAt
      omega
    · rw [hcalls, User.after, Machine.after_append] at hstored
      exact hstored

namespace Sample

def createApp (now : ℤ) : RegistryStep := .createClient input "app" (some [7]) now

/-- What the object is told of the record created at `now`. -/
def app (now : ℤ) : ClientRef := clientRef (clientFromInput input "app" (some [7]) now)

/-- A user consents to the record created at 5 and logs in for it twice; one of the two codes
is exchanged. Then the client is deleted. -/
def deleted : List RegistryStep :=
  [.deleteClient "app",
    .call (.exchangeCode ⟨[3], app 5, "https://app.test/cb", none, 8,
      some (User.Sample.refresh "f1" [5] true)⟩),
    .call (.finalizeLogin ⟨8, .rotate "s1" [4] User.Sample.auth, some (User.Sample.code [1]),
      some (app 5), 900⟩),
    .call (.finalizeLogin ⟨6, .create ⟨"s1", [2], User.Sample.auth, ⟨none, none, none⟩, 900, 86400⟩,
      some (User.Sample.code [3]), some (app 5), 900⟩),
    .call (.grantConsent (app 5) ["openid", "offline_access"] 6),
    .call User.Sample.init, createApp 5]

def rotateFor (client : ClientRef) : Call :=
  .rotateRefreshToken { User.Sample.rotation "f1" [5] [6] 20 0 with client := client }

def exchangeFor (client : ClientRef) : Call :=
  .exchangeCode ⟨[1], client, "https://app.test/cb", none, 20, none⟩

/-- The user's object as a call of the record created at `now` finds it. -/
def recreated (now : ℤ) : UserObject :=
  (Machine.after (Registry.step User.Sample.sha256) .fresh (createApp now :: deleted)).user

def exchangeAt (secretHash : Bytes) (now : ℤ) : ExchangeCodeInput :=
  ⟨secretHash, app 70, "https://app.test/cb", none, now, none⟩

/-- The user logs in for the record created at 70, whose predecessor's code expired at 68. -/
def relogin : List RegistryStep :=
  [.call (.finalizeLogin ⟨80, .rotate "s1" [8] User.Sample.auth, some (User.Sample.code [9]),
    some (app 70), 900⟩)]

def exchanged : CallEvent :=
  Machine.event (UserObject.call User.Sample.sha256)
    (Machine.after (Registry.step User.Sample.sha256) .fresh
      (relogin ++ createApp 70 :: deleted)).user (.exchangeCode (exchangeAt [9] 90))

end Sample

theorem recreated_inherits_nothing_sample :
    exchangeSucceeded Sample.exchanged = some (Sample.exchangeAt [9] 90) ∧
    InheritsNothing ("app", 70)
      (eventsSince User.Sample.sha256 Sample.relogin (Sample.createApp 70 :: Sample.deleted))
      Sample.exchanged := by
  refine ⟨by decide, ?_⟩
  refine recreated_inherits_nothing_of_codesRunOut User.Sample.sha256 Sample.relogin Sample.deleted
    Sample.input "app" (some [7]) 70 (.exchangeCode (Sample.exchangeAt [9] 90)) (by decide)
    (by decide) ⟨by decide, by decide, ?_⟩
  intro exchange hmem hwho
  rcases List.mem_cons.mp hmem with heq | hmem
  · cases heq
    decide
  · simp [Sample.relogin, callsOf, stepCall] at hmem

/-- The record created at 10 redeems a code of the one created at 5; and a record created in the
same second as the earlier one is given its grant. -/
theorem recreated_inherits_code_and_grant :
    (refsResolved User.Sample.sha256
      (.call (Sample.exchangeFor (Sample.app 10)) :: Sample.createApp 10 :: Sample.deleted) ∧
    ¬ InheritsNothing ("app", 10) [] (Machine.event (UserObject.call User.Sample.sha256)
      (Sample.recreated 10) (Sample.exchangeFor (Sample.app 10)))) ∧
    refsResolved User.Sample.sha256
      (.call (Sample.rotateFor (Sample.app 5)) :: Sample.createApp 5 :: Sample.deleted) ∧
    ¬ InheritsNothing ("app", 5) [] (Machine.event (UserObject.call User.Sample.sha256)
      (Sample.recreated 5) (Sample.rotateFor (Sample.app 5))) := by
  refine ⟨⟨by decide, fun h => ?_⟩, by decide, fun h => ?_⟩
  · obtain ⟨e, he, -⟩ := h.codes ⟨[1], Sample.app 10, "https://app.test/cb", none, 20, none⟩
      (by decide) rfl
    cases he
  · obtain ⟨⟨e, he, -⟩, -⟩ := h.grants (Sample.app 5)
      ⟨"app", 5, ["offline_access", "openid"], 6, 6⟩ rfl (by decide)
    cases he

end TinyOidc.Client
