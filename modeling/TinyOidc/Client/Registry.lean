import TinyOidc.Client.Secrets

/-! The registry of clients under concurrent administration. Requests read a record, check a whole
one and write it back, with others in between; every record that is ever stored is one that some
request checked as a whole. -/
namespace TinyOidc.Client
open RowTable TinyOidc.User Threads
open Threads.Prog (Obeys Only)

variable {β : Type} {rules : BodyRules β}

/-- The administrator whose body a request carries. -/
def ClientRequest.actor : ClientRequest β → Option Actor
  | .create actor _ | .patch actor _ _ => some actor
  | _ => none

/-- A record that a request checked as a whole, with the issuer, the rights and the group names it
read, and with a secret when its method uses one. -/
structure Checked (urls : UrlRules) (q : ClientRequest β) (log : ClientLog)
    (client : ClientRecord) : Prop where
  valid : ∃ actor groups, q.actor = some actor ∧
    (⟨.groupNames, some groups⟩ : Entry ClientOp.Answer) ∈ log ∧
    validateClientInput urls (inputOf client) ⟨actor.issuer, actor.hasAdmin, groups⟩ = []
  secret : usesSecret client.tokenEndpointAuthMethod = true → client.clientSecretHash.isSome

/-- Whole records are written only when they were checked. -/
def RegistryPermits (rules : BodyRules β) (q : ClientRequest β) (log : ClientLog) :
    ClientOp → Prop
  | .insertClient client | .updateClient client _ => Checked rules.urls q log client
  | _ => True

/-- The rules do not look at the id, and read a stored record as the input it came from. -/
theorem validate_inputOf (urls : UrlRules) (input : ClientInput) (clientId : String)
    (secretHash : Option Bytes) (now : ℤ) (context : ValidationContext) :
    validateClientInput urls (inputOf (clientFromInput input clientId secretHash now)) context =
      validateClientInput urls input context := rfl

/-! ### The handlers keep to it -/

/-- The statements that write no whole record. -/
def leavesFields : ClientOp → Prop
  | .insertClient _ | .updateClient _ _ => False
  | _ => True

section Protocol
variable {q : ClientRequest β} {log : ClientLog}

theorem registryPermits_of_leavesFields (log : ClientLog) (op : ClientOp) (h : leavesFields op) :
    RegistryPermits rules q log op := by
  cases op with
  | insertClient client | updateClient client now => exact h.elim
  | _ => trivial

theorem loadClient_leaves (id : String) : Only leavesFields (loadClient id) := by
  unfold loadClient
  split
  · refine Only.perform trivial fun found => ?_
    split <;> trivial
  · trivial

theorem getClientHandler_leaves (id : String) : Only leavesFields (getClientHandler id) := by
  refine (loadClient_leaves id).bind fun loaded => ?_
  cases loaded <;> trivial

theorem deleteClientHandler_leaves (id : String) : Only leavesFields (deleteClientHandler id) := by
  refine (loadClient_leaves id).bind fun loaded => ?_
  cases loaded with
  | error response => trivial
  | ok client =>
    refine Only.perform trivial fun deleted => ?_
    split <;> trivial

theorem rotateSecretHandler_leaves (id : String) : Only leavesFields (rotateSecretHandler id) := by
  refine (loadClient_leaves id).bind fun loaded => ?_
  cases loaded with
  | error response => trivial
  | ok client =>
    dsimp only
    split
    · refine Only.perform trivial fun now => Only.perform trivial fun generated => ?_
      refine Only.perform trivial fun written => ?_
      split <;> trivial
    · trivial

theorem setClientDisabledHandler_leaves (id : String) (disabled : Bool) :
    Only leavesFields (setClientDisabledHandler id disabled) := by
  refine (loadClient_leaves id).bind fun loaded => ?_
  cases loaded with
  | error response => trivial
  | ok client =>
    refine Only.perform trivial fun now => Only.perform trivial fun written => ?_
    split <;> trivial

theorem leaves_obeys {α : Type} {p : ClientProg α} (h : Only leavesFields p) :
    Obeys (RegistryPermits rules q) (fun _ _ => True) log p :=
  (h.obeys registryPermits_of_leavesFields).mono fun _ _ _ => trivial

theorem insertRecord_checks {input : ClientInput} {clientId : String}
    {generated : Option GeneratedSecret} {now : ℤ}
    (h : Checked rules.urls q log (clientFromInput input clientId (generated.map (·.hash)) now)) :
    Obeys (RegistryPermits rules q) (fun _ _ => True) log
      (insertRecord input clientId generated now) := by
  refine Obeys.perform h fun inserted => ?_
  split <;> trivial

theorem createClient_checks {actor : Actor} (hq : q.actor = some actor) (raw : β)
    {groups : List String} (now : ℤ)
    (hgroups : (⟨.groupNames, some groups⟩ : Entry ClientOp.Answer) ∈ log) :
    Obeys (RegistryPermits rules q) (fun _ _ => True) log
      (createClient rules raw ⟨actor.issuer, actor.hasAdmin, groups⟩ now) := by
  unfold createClient
  split
  · trivial
  next input _ =>
    generalize hviolations : validateClientInput rules.urls input _ = violations
    dsimp only
    split
    next hnone =>
      have hvalid := hviolations.trans (List.isEmpty_iff.mp hnone)
      have hrest : ∀ (log : ClientLog) (clientId : String),
          (⟨.groupNames, some groups⟩ : Entry ClientOp.Answer) ∈ log →
          Obeys (RegistryPermits rules q) (fun _ _ => True) log
            (if usesSecret input.tokenEndpointAuthMethod = true then do
              let generated ← perform .generateClientSecret
              insertRecord input clientId (some generated) now
            else insertRecord input clientId none now) := by
        intro log clientId hmem
        split
        next hsecret =>
          exact Obeys.perform trivial fun generated => insertRecord_checks
            ⟨⟨actor, groups, hq, List.mem_cons_of_mem _ hmem, hvalid⟩, fun _ => rfl⟩
        next hsecret =>
          exact insertRecord_checks ⟨⟨actor, groups, hq, hmem, hvalid⟩, fun h => absurd h hsecret⟩
      cases input.clientId with
      | some clientId => exact hrest log clientId hgroups
      | none =>
        exact Obeys.perform trivial fun clientId =>
          hrest _ clientId (List.mem_cons_of_mem _ hgroups)
    · trivial

theorem writeRecord_checks {client : ClientRecord} {secret : Option String} {now : ℤ}
    (h : Checked rules.urls q log client) :
    Obeys (RegistryPermits rules q) (fun _ _ => True) log (writeRecord client secret now) := by
  refine Obeys.perform h fun written => ?_
  split <;> trivial

theorem updateClientRecord_checks {actor : Actor} (hq : q.actor = some actor)
    (current : ClientRecord) (raw : β) {groups : List String} (now : ℤ)
    (hgroups : (⟨.groupNames, some groups⟩ : Entry ClientOp.Answer) ∈ log) :
    Obeys (RegistryPermits rules q) (fun _ _ => True) log
      (updateClientRecord rules current raw ⟨actor.issuer, actor.hasAdmin, groups⟩ now) := by
  unfold updateClientRecord
  split
  · trivial
  split
  · trivial
  split
  · trivial
  next merged _ =>
    generalize hviolations : validateClientInput rules.urls merged _ = violations
    dsimp only
    split
    next hnone =>
      have hvalid := hviolations.trans (List.isEmpty_iff.mp hnone)
      split
      next hsecret =>
        cases current.clientSecretHash with
        | some hash =>
          exact writeRecord_checks ⟨⟨actor, groups, hq, hgroups, hvalid⟩, fun _ => rfl⟩
        | none =>
          exact Obeys.perform trivial fun generated => writeRecord_checks
            ⟨⟨actor, groups, hq, List.mem_cons_of_mem _ hgroups, hvalid⟩, fun _ => rfl⟩
      next hsecret =>
        exact writeRecord_checks ⟨⟨actor, groups, hq, hgroups, hvalid⟩, fun h => absurd h hsecret⟩
    · trivial

theorem createClientHandler_checks (actor : Actor) (body : Except String β) :
    Obeys (RegistryPermits rules (.create actor body)) (fun _ _ => True) log
      (createClientHandler rules actor body) := by
  unfold createClientHandler
  cases body with
  | error text => trivial
  | ok raw =>
    refine Obeys.perform trivial fun groups => ?_
    cases groups with
    | none => trivial
    | some groups =>
      refine Obeys.perform trivial fun now => ?_
      have hgroups : (⟨.groupNames, some groups⟩ : Entry ClientOp.Answer) ∈
          ⟨.now, now⟩ :: ⟨.groupNames, some groups⟩ :: log :=
        List.mem_cons_of_mem _ List.mem_cons_self
      refine Obeys.bind ((createClient_checks rfl raw now hgroups).mono fun _ created _ => ?_)
      cases created <;> trivial

theorem patchClientHandler_checks (actor : Actor) (id : String) (body : Except String β) :
    Obeys (RegistryPermits rules (.patch actor id body)) (fun _ _ => True) log
      (patchClientHandler rules actor id body) := by
  unfold patchClientHandler
  refine Obeys.bind ((leaves_obeys (loadClient_leaves id)).mono fun log' loaded _ => ?_)
  cases loaded with
  | error response => trivial
  | ok client =>
    cases body with
    | error text => trivial
    | ok raw =>
      refine Obeys.perform trivial fun groups => ?_
      cases groups with
      | none => trivial
      | some groups =>
        refine Obeys.perform trivial fun now => ?_
        have hgroups : (⟨.groupNames, some groups⟩ : Entry ClientOp.Answer) ∈
            ⟨.now, now⟩ :: ⟨.groupNames, some groups⟩ :: log' :=
          List.mem_cons_of_mem _ List.mem_cons_self
        refine Obeys.bind ((updateClientRecord_checks rfl client raw now hgroups).mono
          fun _ updated _ => ?_)
        cases updated <;> trivial

end Protocol

theorem adminClients_check (rules : BodyRules β) :
    (adminClients rules).Follows (RegistryPermits rules) := by
  intro q
  cases q with
  | create actor body => exact createClientHandler_checks actor body
  | get id => exact leaves_obeys (getClientHandler_leaves id)
  | patch actor id body => exact patchClientHandler_checks actor id body
  | delete id => exact leaves_obeys (deleteClientHandler_leaves id)
  | rotateSecret id => exact leaves_obeys (rotateSecretHandler_leaves id)
  | setDisabled id disabled => exact leaves_obeys (setClientDisabledHandler_leaves id disabled)

/-! ### One statement -/

/-- What a rotation, a disable or an enable keeps of a record. -/
structure SameFields (r r' : ClientRecord) : Prop where
  input : inputOf r' = inputOf r
  secret : r.clientSecretHash.isSome → r'.clientSecretHash.isSome

theorem sameFields_refl (r : ClientRecord) : SameFields r r := ⟨rfl, id⟩

/-- The whole record a statement writes. -/
def recordWritten : ClientOp → Option ClientRecord
  | .insertClient client | .updateClient client _ => some client
  | _ => none

theorem checked_of_permits {q : ClientRequest β} {log : ClientLog} {op : ClientOp}
    {client : ClientRecord} (h : RegistryPermits rules q log op)
    (hwritten : recordWritten op = some client) : Checked rules.urls q log client := by
  cases op with
  | insertClient written | updateClient written now =>
    cases hwritten
    exact h
  | _ => cases hwritten

/-- A row after a statement has the fields of a row of before, or those that it wrote. -/
theorem fields_of_exec {t : ClientTable} {outside : Outside} {op : ClientOp} {r' : ClientRecord}
    (h : r' ∈ (execClientOp t outside op).1.rows) :
    (∃ r ∈ t.rows, SameFields r r') ∨
      ∃ client, recordWritten op = some client ∧ SameFields client r' := by
  have hkept : r' ∈ t.rows → (∃ r ∈ t.rows, SameFields r r') ∨
      ∃ client, recordWritten op = some client ∧ SameFields client r' :=
    fun hr => .inl ⟨r', hr, sameFields_refl r'⟩
  cases op with
  | getClient clientId => exact (mem_stored h).elim hkept hkept
  | groupNames => exact (mem_stored h).elim hkept hkept
  | now | generateClientId | generateClientSecret => exact hkept h
  | insertClient client =>
    refine (mem_stored h).elim hkept fun h => ?_
    unfold insertClient at h
    cases hinsert : t.insert client with
    | none =>
      rw [hinsert] at h
      exact hkept h
    | some inserted =>
      rw [hinsert] at h
      rcases (Table.mem_insert hinsert).mp h with h | rfl
      · exact hkept h
      · exact .inr ⟨r', rfl, sameFields_refl r'⟩
  | setClientDisabled clientId disabledAt now =>
    refine (mem_stored h).elim hkept fun h => ?_
    obtain h | ⟨r, hr, _, rfl⟩ := mem_updateOne h
    · exact hkept h
    · exact .inl ⟨r, hr, rfl, id⟩
  | updateClientSecretHash clientId hash now =>
    refine (mem_stored h).elim hkept fun h => ?_
    obtain h | ⟨r, hr, _, rfl⟩ := mem_updateOne h
    · exact hkept h
    · exact .inl ⟨r, hr, rfl, fun _ => rfl⟩
  | deleteClient clientId =>
    exact (mem_stored h).elim hkept fun h => hkept (Table.deleteWhere_subset h)
  | updateClient client now =>
    refine (mem_stored h).elim hkept fun h => ?_
    obtain h | ⟨r, hr, hid, rfl⟩ := mem_updateOne h
    · exact hkept h
    · refine .inr ⟨client, rfl, ?_, id⟩
      simp only [inputOf, hid]

theorem Checked.of_same {urls : UrlRules} {q : ClientRequest β} {log : ClientLog}
    {r r' : ClientRecord} (h : Checked urls q log r) (same : SameFields r r') :
    Checked urls q log r' where
  valid := by
    rw [same.input]
    exact h.valid
  secret hmethod := by
    have hsame : r'.tokenEndpointAuthMethod = r.tokenEndpointAuthMethod :=
      congrArg ClientInput.tokenEndpointAuthMethod same.input
    rw [hsame] at hmethod
    exact same.secret (h.secret hmethod)

theorem Checked.grown {urls : UrlRules} {q : ClientRequest β} {log log' : ClientLog}
    {r : ClientRecord} (h : Checked urls q log r) (hsub : log ⊆ log') : Checked urls q log' r where
  valid := by
    obtain ⟨actor, groups, hactor, hgroups, hvalid⟩ := h.valid
    exact ⟨actor, groups, hactor, hsub hgroups, hvalid⟩
  secret := h.secret

theorem SameFields.trans {r r' r'' : ClientRecord} (h : SameFields r r') (h' : SameFields r' r'') :
    SameFields r r'' := ⟨h'.input.trans h.input, fun hs => h'.secret (h.secret hs)⟩

/-! ### Whole runs -/

def CheckedIn (rules : BodyRules β) (threads : List (ClientThread β)) (r : ClientRecord) : Prop :=
  ∃ thread ∈ threads, Checked rules.urls thread.request thread.log r

theorem CheckedIn.after {t : ClientTable}
    {labels : List (Label (ClientRequest β) ClientOp Outside)} {r : ClientRecord}
    (h : CheckedIn rules ((adminClients rules).after t labels).threads r)
    (l : Label (ClientRequest β) ClientOp Outside) :
    CheckedIn rules ((adminClients rules).after t (l :: labels)).threads r := by
  obtain ⟨thread, hmem, hchecked⟩ := h
  obtain ⟨i, hi⟩ := List.getElem?_of_mem hmem
  obtain ⟨grown, hgrown, hrequest, hlog⟩ := (adminClients rules).thread_grows t [l] labels hi
  refine ⟨grown, List.mem_of_getElem? hgrown, ?_⟩
  rw [hrequest]
  refine hchecked.grown ?_
  rcases hlog with rfl | ⟨op, next, answer, -, hsuffix⟩
  · exact List.Subset.refl _
  · exact List.Subset.trans (List.subset_cons_self _ _) hsuffix.subset

/-- In every run of client administration, each stored record has the fields of a record that was
there before, or those of one that a request of the run checked as a whole: no interleaving of
partial updates makes up a record that the rules refuse. -/
theorem registry_stays_valid (rules : BodyRules β) (t : ClientTable)
    (labels : List (Label (ClientRequest β) ClientOp Outside)) (client : ClientRecord)
    (hclient : client ∈ ((adminClients rules).after t labels).shared.rows) :
    (∃ r ∈ t.rows, SameFields r client) ∨
      CheckedIn rules ((adminClients rules).after t labels).threads client := by
  induction labels generalizing client with
  | nil => exact .inl ⟨client, hclient, sameFields_refl client⟩
  | cons l labels ih =>
    have hearlier : ∀ r ∈ ((adminClients rules).after t labels).shared.rows, SameFields r client →
        (∃ r ∈ t.rows, SameFields r client) ∨
          CheckedIn rules ((adminClients rules).after t (l :: labels)).threads client := by
      intro r hr same
      rcases ih r hr with ⟨r₀, hr₀, same₀⟩ | hchecked
      · exact .inl ⟨r₀, hr₀, same₀.trans same⟩
      · obtain ⟨thread, hmem, hthread⟩ := hchecked.after l
        exact .inr ⟨thread, hmem, hthread.of_same same⟩
    have hstep := (adminClients rules).step_steps ((adminClients rules).after t labels) l
    have hnext : (adminClients rules).after t (l :: labels) =
        ((adminClients rules).step ((adminClients rules).after t labels) l).1 :=
      Machine.after_cons ..
    rw [hnext] at hclient hearlier ⊢
    generalize (adminClients rules).step ((adminClients rules).after t labels) l = stepped
      at hstep hclient hearlier ⊢
    obtain ⟨c', e⟩ := stepped
    dsimp only at hstep hclient hearlier ⊢
    cases hstep with
    | idle | spawn => exact hearlier client hclient (sameFields_refl client)
    | thread i thread op next outside hi hp =>
      rcases fields_of_exec hclient with ⟨r, hr, same⟩ | ⟨written, hwritten, same⟩
      · exact hearlier r hr same
      · have hobeys := System.thread_obeys (adminClients_check rules) t labels thread
          (List.mem_of_getElem? hi)
        rw [hp] at hobeys
        have hchecked := (checked_of_permits hobeys.1 hwritten).of_same same
        have hlen : i < ((adminClients rules).after t labels).threads.length :=
          (List.getElem?_eq_some_iff.mp hi).1
        exact .inr ⟨_, List.mem_set hlen _, hchecked.grown (List.subset_cons_self _ _)⟩
    | outside op outside hop => cases hop

/-- A rename of the client: the record it wrote is one it checked. -/
theorem registry_stays_valid_sample :
    CheckedIn Sample.rules ((adminClients Sample.rules).after Sample.clients
      [Sample.next 0, Sample.next 0, Sample.next 0, Sample.next 0, Sample.rename]).threads
      { Sample.stored with clientName := "New name", updatedAt := 100 } := by
  refine (registry_stays_valid Sample.rules Sample.clients _ _ (by decide)).resolve_left ?_
  rintro ⟨r, hr, same⟩
  have hname : r.clientName = "New name" := (congrArg ClientInput.clientName same.input).symm
  rw [List.mem_singleton.mp hr] at hname
  exact absurd hname (by decide)

end TinyOidc.Client
