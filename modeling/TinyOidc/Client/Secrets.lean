import TinyOidc.Client.Handlers

/-! Client secrets under concurrent administration: where the hash of a stored record comes from,
and when a hash that a rotation replaced can come back. -/
namespace TinyOidc.Client
open RowTable TinyOidc.User Threads
open Threads.Prog (Obeys)
open Lists (count_filterMap_cons)

abbrev ClientLog := List (Entry ClientOp.Answer)

abbrev ClientThread (β : Type) := Thread (ClientRequest β) ClientOp.Answer ClientResponse

abbrev ClientEffect (β : Type) := Effect (ClientRequest β) ClientOp.Answer ClientResponse

/-- The hash a request has drawn and not stored yet: it stores it with its next statement. -/
def pendingHash : ClientLog → Option Bytes
  | ⟨.generateClientSecret, generated⟩ :: _ => some generated.hash
  | _ => none

def Loaded (log : ClientLog) (current : ClientRecord) : Prop :=
  ∃ id, (⟨.getClient id, some (some current)⟩ : Entry ClientOp.Answer) ∈ log

/-- A patch that keeps the hash it loaded: the merged method still uses a secret. -/
def KeepsSecret {β : Type} (rules : BodyRules β) (q : ClientRequest β) (current : ClientRecord) :
    Prop :=
  ∃ actor id raw merged, q = .patch actor id (.ok raw) ∧
    rules.parse (some (inputOf current)) raw = .ok merged ∧
    usesSecret merged.tokenEndpointAuthMethod = true

/-- What a request may write: a hash it has just drawn, none, or the one it loaded. -/
def ClientPermits {β : Type} (rules : BodyRules β) (q : ClientRequest β) (log : ClientLog) :
    ClientOp → Prop
  | .updateClientSecretHash _ hash _ => pendingHash log = some hash
  | .insertClient client =>
      client.clientSecretHash = none ∨ client.clientSecretHash = pendingHash log
  | .updateClient client _ =>
      client.clientSecretHash = none ∨ client.clientSecretHash = pendingHash log ∨
        ∃ current, Loaded log current ∧ current.clientId = client.clientId ∧
          current.clientSecretHash = client.clientSecretHash ∧ KeepsSecret rules q current
  | _ => True

/-! ### The handlers keep to it -/

section Protocol
variable {β : Type} {rules : BodyRules β} {q : ClientRequest β} {log : ClientLog}

theorem obeys_perform {α : Type} {post : ClientLog → α → Prop} {op : ClientOp}
    {f : op.Answer → ClientProg α} (hop : ClientPermits rules q log op)
    (h : ∀ r, Obeys (ClientPermits rules q) post (⟨op, r⟩ :: log) (f r)) :
    Obeys (ClientPermits rules q) post log (perform op >>= f) := ⟨hop, h⟩

theorem loadClient_obeys (id : String) :
    Obeys (ClientPermits rules q)
      (fun log' result => ∀ client, result = .ok client → Loaded log' client) log
      (loadClient id) := by
  unfold loadClient
  split
  · refine obeys_perform trivial fun r => ?_
    cases r with
    | none => exact fun client h => by cases h
    | some found =>
      cases found with
      | none => exact fun client h => by cases h
      | some current =>
        intro client h
        cases h
        exact ⟨id, List.mem_cons_self⟩
  · exact fun client h => by cases h

theorem validationContext_obeys (actor : Actor) :
    Obeys (ClientPermits rules q) (fun log' _ => log ⊆ log') log (validationContext actor) := by
  unfold validationContext
  refine obeys_perform trivial fun r => ?_
  cases r with
  | none => exact List.subset_cons_self _ _
  | some groups => exact List.subset_cons_self _ _

theorem insertRecord_obeys {input : ClientInput} {clientId : String}
    {generated : Option GeneratedSecret} {now : ℤ}
    (h : generated = none ∨ pendingHash log = generated.map (·.hash)) :
    Obeys (ClientPermits rules q) (fun _ _ => True) log
      (insertRecord input clientId generated now) := by
  unfold insertRecord
  refine obeys_perform ?_ fun r => ?_
  · rcases h with rfl | h
    · exact .inl rfl
    · exact .inr h.symm
  · cases r with
    | none => trivial
    | some result => cases result <;> trivial

theorem createClient_obeys (raw : β) (context : ValidationContext) (now : ℤ) :
    Obeys (ClientPermits rules q) (fun _ _ => True) log (createClient rules raw context now) := by
  unfold createClient
  split
  · trivial
  next input _ =>
    generalize validateClientInput rules.urls input context = violations
    dsimp only
    split
    · have hrest : ∀ (log : ClientLog) (clientId : String),
          Obeys (ClientPermits rules q) (fun _ _ => True) log
            (if usesSecret input.tokenEndpointAuthMethod = true then do
              let generated ← perform .generateClientSecret
              insertRecord input clientId (some generated) now
            else insertRecord input clientId none now) := by
        intro log clientId
        split
        · exact obeys_perform trivial fun generated => insertRecord_obeys (.inr rfl)
        · exact insertRecord_obeys (.inl rfl)
      cases input.clientId with
      | some clientId => exact hrest log clientId
      | none => exact obeys_perform trivial fun clientId => hrest _ clientId
    · trivial

theorem writeRecord_obeys {client : ClientRecord} {secret : Option String} {now : ℤ}
    (h : ClientPermits rules q log (.updateClient client now)) :
    Obeys (ClientPermits rules q) (fun _ _ => True) log (writeRecord client secret now) := by
  unfold writeRecord
  refine obeys_perform h fun r => ?_
  cases r with
  | none => trivial
  | some found => cases found <;> trivial

theorem updateClientRecord_obeys {actor : Actor} {id : String} {raw : β}
    (hq : q = .patch actor id (.ok raw)) {current : ClientRecord} (hloaded : Loaded log current)
    (context : ValidationContext) (now : ℤ) :
    Obeys (ClientPermits rules q) (fun _ _ => True) log
      (updateClientRecord rules current raw context now) := by
  unfold updateClientRecord
  split
  · trivial
  split
  · trivial
  split
  · trivial
  next merged hmerged =>
    generalize validateClientInput rules.urls merged context = violations
    dsimp only
    split
    · split
      next hsecret =>
        cases hhash : current.clientSecretHash with
        | some hash =>
          refine writeRecord_obeys (.inr (.inr ⟨current, hloaded, rfl, hhash, ?_⟩))
          exact ⟨actor, id, raw, merged, hq, hmerged, hsecret⟩
        | none =>
          exact obeys_perform trivial fun generated => writeRecord_obeys (.inr (.inl rfl))
      · exact writeRecord_obeys (.inl rfl)
    · trivial

theorem patchClientHandler_obeys {actor : Actor} {id : String} {body : Except String β}
    (hq : q = .patch actor id body) :
    Obeys (ClientPermits rules q) (fun _ _ => True) log
      (patchClientHandler rules actor id body) := by
  unfold patchClientHandler
  refine Obeys.bind ((loadClient_obeys id).mono fun log' result hloaded => ?_)
  cases result with
  | error response => trivial
  | ok client =>
    have hclient := hloaded client rfl
    cases body with
    | error text => trivial
    | ok raw =>
      refine Obeys.bind ((validationContext_obeys actor).mono fun log'' context hsub => ?_)
      cases context with
      | none => trivial
      | some context =>
        refine obeys_perform trivial fun now => ?_
        obtain ⟨id', hmem⟩ := hclient
        refine Obeys.bind ((updateClientRecord_obeys hq
          ⟨id', List.mem_cons_of_mem _ (hsub hmem)⟩ context now).mono fun _ updated _ => ?_)
        cases updated <;> trivial

theorem createClientHandler_obeys (actor : Actor) (body : Except String β) :
    Obeys (ClientPermits rules q) (fun _ _ => True) log
      (createClientHandler rules actor body) := by
  unfold createClientHandler
  cases body with
  | error text => trivial
  | ok raw =>
    refine Obeys.bind ((validationContext_obeys actor).mono fun _ context _ => ?_)
    cases context with
    | none => trivial
    | some context =>
      refine obeys_perform trivial fun now => ?_
      refine Obeys.bind ((createClient_obeys raw context now).mono fun _ created _ => ?_)
      cases created <;> trivial

theorem rotateSecretHandler_obeys (id : String) :
    Obeys (ClientPermits rules q) (fun _ _ => True) log (rotateSecretHandler id) := by
  unfold rotateSecretHandler
  refine Obeys.bind ((loadClient_obeys id).mono fun log' result _ => ?_)
  cases result with
  | error response => trivial
  | ok client =>
    dsimp only
    split
    · refine obeys_perform trivial fun now => obeys_perform trivial fun generated => ?_
      refine obeys_perform rfl fun r => ?_
      cases r with
      | none => trivial
      | some found => cases found <;> trivial
    · trivial

theorem deleteClientHandler_obeys (id : String) :
    Obeys (ClientPermits rules q) (fun _ _ => True) log (deleteClientHandler id) := by
  unfold deleteClientHandler
  refine Obeys.bind ((loadClient_obeys id).mono fun log' result _ => ?_)
  cases result with
  | error response => trivial
  | ok client =>
    refine obeys_perform trivial fun r => ?_
    cases r with
    | none => trivial
    | some found => cases found <;> trivial

theorem setClientDisabledHandler_obeys (id : String) (disabled : Bool) :
    Obeys (ClientPermits rules q) (fun _ _ => True) log
      (setClientDisabledHandler id disabled) := by
  unfold setClientDisabledHandler
  refine Obeys.bind ((loadClient_obeys id).mono fun log' result _ => ?_)
  cases result with
  | error response => trivial
  | ok client =>
    refine obeys_perform trivial fun now => obeys_perform trivial fun r => ?_
    cases r with
    | none => trivial
    | some found => cases found <;> trivial

theorem getClientHandler_obeys (id : String) :
    Obeys (ClientPermits rules q) (fun _ _ => True) log (getClientHandler id) := by
  unfold getClientHandler
  refine Obeys.bind ((loadClient_obeys id).mono fun log' result _ => ?_)
  cases result <;> trivial

end Protocol

theorem adminClients_follows {β : Type} (rules : BodyRules β) :
    (adminClients rules).Follows (ClientPermits rules) := by
  intro q
  cases q with
  | create actor body => exact createClientHandler_obeys actor body
  | get id => exact getClientHandler_obeys id
  | patch actor id body => exact patchClientHandler_obeys rfl
  | delete id => exact deleteClientHandler_obeys id
  | rotateSecret id => exact rotateSecretHandler_obeys id
  | setDisabled id disabled => exact setClientDisabledHandler_obeys id disabled

/-! ### Where a stored hash comes from -/

def hashWritten : ClientOp → Option (String × Option Bytes)
  | .insertClient client => some (client.clientId, client.clientSecretHash)
  | .updateClientSecretHash clientId hash _ => some (clientId, some hash)
  | .updateClient client _ => some (client.clientId, client.clientSecretHash)
  | _ => none

theorem mem_updateOne {t : ClientTable} {clientId : String} {f : ClientRecord → ClientRecord}
    {hf : ∀ r, (f r).clientId = r.clientId} {r' : ClientRecord}
    (h : r' ∈ (updateOne t clientId f hf).1.rows) :
    r' ∈ t.rows ∨ ∃ r ∈ t.rows, r.clientId = clientId ∧ r' = f r := by
  obtain ⟨r, hr, ⟨_, rfl⟩ | ⟨hid, rfl⟩⟩ := Table.exists_of_mem_update h
  · exact .inl hr
  · exact .inr ⟨r, hr, beq_iff_eq.mp hid, rfl⟩

theorem mem_stored {α : Type} {t : ClientTable} {storage : Storage} {result : ClientTable × α}
    {r : ClientRecord} (h : r ∈ (stored t storage result).1.rows) :
    r ∈ t.rows ∨ r ∈ result.1.rows := by
  cases storage with
  | answers => exact .inr h
  | throws applied =>
    cases applied with
    | true => exact .inr h
    | false => exact .inl h

/-- A row after a statement has the hash of a row of before, or the one the statement wrote. -/
theorem hash_of_exec {t : ClientTable} {outside : Outside} {op : ClientOp} {r' : ClientRecord}
    (h : r' ∈ (execClientOp t outside op).1.rows) :
    (∃ r ∈ t.rows, r.clientId = r'.clientId ∧ r.clientSecretHash = r'.clientSecretHash) ∨
      hashWritten op = some (r'.clientId, r'.clientSecretHash) := by
  have hkept : r' ∈ t.rows → (∃ r ∈ t.rows, r.clientId = r'.clientId ∧
      r.clientSecretHash = r'.clientSecretHash) ∨
      hashWritten op = some (r'.clientId, r'.clientSecretHash) :=
    fun hr => .inl ⟨r', hr, rfl, rfl⟩
  cases op with
  | getClient clientId => exact (mem_stored h).elim hkept hkept
  | groupNames => exact (mem_stored h).elim hkept hkept
  | now => exact hkept h
  | generateClientId => exact hkept h
  | generateClientSecret => exact hkept h
  | insertClient client =>
    refine (mem_stored h).elim hkept fun h => ?_
    unfold insertClient at h
    cases hinsert : t.insert client with
    | none => exact hkept (by simpa [hinsert] using h)
    | some inserted =>
      simp only [hinsert, Table.mem_insert hinsert] at h
      rcases h with h | rfl
      · exact hkept h
      · exact .inr rfl
  | setClientDisabled clientId disabledAt now =>
    refine (mem_stored h).elim hkept fun h => ?_
    obtain h | ⟨r, hr, _, rfl⟩ := mem_updateOne h
    · exact hkept h
    · exact .inl ⟨r, hr, rfl, rfl⟩
  | updateClientSecretHash clientId hash now =>
    refine (mem_stored h).elim hkept fun h => ?_
    obtain h | ⟨r, hr, rfl, rfl⟩ := mem_updateOne h
    · exact hkept h
    · exact .inr rfl
  | deleteClient clientId =>
    exact (mem_stored h).elim hkept fun h => hkept (Table.deleteWhere_subset h)
  | updateClient client now =>
    refine (mem_stored h).elim hkept fun h => ?_
    obtain h | ⟨r, hr, hid, rfl⟩ := mem_updateOne h
    · exact hkept h
    · exact .inr (by rw [hashWritten, ← hid])

/-! ### Drawn secrets -/

def drawnHash : Entry ClientOp.Answer → Option Bytes
  | ⟨.generateClientSecret, generated⟩ => some generated.hash
  | _ => none

def usedHash (log : ClientLog) (entry : Entry ClientOp.Answer) : Option Bytes :=
  if (hashWritten entry.1).isSome then pendingHash log else none

def heldHash (x : Bytes) (log : ClientLog) : ℕ := if pendingHash log = some x then 1 else 0

theorem heldHash_step (log : ClientLog) (entry : Entry ClientOp.Answer) (x : Bytes) :
    (usedHash log entry).toList.count x + heldHash x (entry :: log) ≤
      heldHash x log + (drawnHash entry).toList.count x := by
  have hused : (usedHash log entry).toList.count x ≤ heldHash x log := by
    unfold usedHash heldHash
    split
    · cases hpending : pendingHash log with
      | none => simp
      | some y => by_cases hy : y = x <;> simp [hy]
    · simp
  obtain ⟨op, answer⟩ := entry
  cases op with
  | generateClientSecret =>
    by_cases hx : answer.hash = x <;>
      simp [usedHash, hashWritten, heldHash, pendingHash, drawnHash, hx]
  | _ =>
    have hheld : ∀ e : Entry ClientOp.Answer, drawnHash e = none → heldHash x (e :: log) = 0 := by
      rintro ⟨op, answer⟩ hdrawn
      cases op <;> first | rfl | cases hdrawn
    rw [hheld _ rfl]
    omega

section Runs
variable {β : Type} {rules : BodyRules β} {t₀ : ClientTable}

/-- A secret is 32 random bytes: no hash is drawn twice, or drawn when a record had it at the
start. -/
structure FreshSecrets (t₀ : ClientTable) (effects : List (ClientEffect β)) : Prop where
  nodup : (drawnIn drawnHash effects).Nodup
  unstored : ∀ r ∈ t₀.rows, ∀ h ∈ drawnIn drawnHash effects, r.clientSecretHash ≠ some h

instance (t₀ : ClientTable) (effects : List (ClientEffect β)) :
    Decidable (FreshSecrets t₀ effects) :=
  decidable_of_iff ((drawnIn drawnHash effects).Nodup ∧
      ∀ r ∈ t₀.rows, ∀ h ∈ drawnIn drawnHash effects, r.clientSecretHash ≠ some h)
    ⟨fun ⟨a, b⟩ => ⟨a, b⟩, fun ⟨a, b⟩ => ⟨a, b⟩⟩

/-- A hash that a record has had: at the start, or by a statement of the run. -/
def Known (t₀ : ClientTable) (effects : List (ClientEffect β)) (h : Bytes) : Prop :=
  (∃ r ∈ t₀.rows, r.clientSecretHash = some h) ∨ h ∈ usedIn usedHash effects

theorem Known.mono {effects effects' : List (ClientEffect β)} {h : Bytes}
    (hk : Known t₀ effects h) (hsub : effects ⊆ effects') : Known t₀ effects' h := by
  rcases hk with hk | hk
  · exact .inl hk
  · obtain ⟨e, he, hused⟩ := List.mem_filterMap.mp hk
    exact .inr (List.mem_filterMap.mpr ⟨e, hsub he, hused⟩)

theorem Known.cons {effects : List (ClientEffect β)} {h : Bytes} (hk : Known t₀ effects h)
    (e : ClientEffect β) : Known t₀ (e :: effects) h := hk.mono (List.subset_cons_self e effects)

theorem FreshSecrets.of_append {later earlier : List (Label (ClientRequest β) ClientOp Outside)}
    (h : FreshSecrets t₀ ((adminClients rules).effects t₀ (later ++ earlier))) :
    FreshSecrets t₀ ((adminClients rules).effects t₀ earlier) := by
  rw [System.effects_append] at h
  refine ⟨?_, fun r hr x hx => h.unstored r hr x ?_⟩
  · have hnodup := h.nodup
    rw [drawnIn, List.filterMap_append] at hnodup
    exact hnodup.of_append_right
  · rw [drawnIn, List.filterMap_append]
    exact List.mem_append_right _ hx

theorem usedHash_le_drawn (rules : BodyRules β) (t₀ : ClientTable)
    (steps : List (Label (ClientRequest β) ClientOp Outside)) (x : Bytes) :
    (usedIn usedHash ((adminClients rules).effects t₀ steps)).count x ≤
      (drawnIn drawnHash ((adminClients rules).effects t₀ steps)).count x := by
  have h := System.used_le_drawn drawnHash usedHash heldHash (adminClients_follows rules)
    (fun _ => rfl) (fun _ log entry x _ =>
      heldHash_step log entry x) (fun _ h => by cases h) t₀ steps x
  omega

/-- A drawn hash that is stored was not known before. -/
theorem not_known_of_used {steps : List (Label (ClientRequest β) ClientOp Outside)}
    {l : Label (ClientRequest β) ClientOp Outside} {e : ClientEffect β} {h : Bytes}
    (hfresh : FreshSecrets t₀ ((adminClients rules).effects t₀ (l :: steps)))
    (heffect : ((adminClients rules).step ((adminClients rules).after t₀ steps) l).2 = some e)
    (hused : usedHash e.log e.entry = some h) :
    ¬ Known t₀ ((adminClients rules).effects t₀ steps) h := by
  have hle := usedHash_le_drawn rules t₀ (l :: steps) h
  have hcons : (adminClients rules).effects t₀ (l :: steps) =
      e :: (adminClients rules).effects t₀ steps := by
    rw [System.effects, System.effectsFrom_cons]
    exact congrArg (·.toList ++ _) heffect
  have hone : (usedIn usedHash ((adminClients rules).effects t₀ (l :: steps))).count h =
      1 + (usedIn usedHash ((adminClients rules).effects t₀ steps)).count h := by
    rw [hcons, usedIn, count_filterMap_cons, hused]
    simp [usedIn]
  rintro (⟨r, hr, hhash⟩ | hknown)
  · have hdrawn : h ∈ drawnIn drawnHash ((adminClients rules).effects t₀ (l :: steps)) := by
      rw [← List.count_pos_iff]
      omega
    exact hfresh.unstored r hr h hdrawn hhash
  · have hcount := List.count_pos_iff.mpr hknown
    have honce := List.nodup_iff_count_le_one.mp hfresh.nodup h
    omega

/-- A hash is written by a request that has drawn it, or by a patch that loaded it. -/
theorem hashWritten_cases {q : ClientRequest β} {log : ClientLog} {op : ClientOp} {id : String}
    {h : Bytes} (hpermits : ClientPermits rules q log op)
    (hwritten : hashWritten op = some (id, some h)) :
    pendingHash log = some h ∨ ∃ client now current, op = .updateClient client now ∧
      Loaded log current ∧ current.clientId = id ∧ current.clientSecretHash = some h ∧
      KeepsSecret rules q current := by
  cases op with
  | insertClient client =>
    obtain ⟨rfl, hhash⟩ := Prod.mk.inj (Option.some.inj hwritten)
    rcases hpermits with hnone | hpending
    · rw [hnone] at hhash
      cases hhash
    · exact .inl (hpending ▸ hhash)
  | updateClientSecretHash clientId hash now =>
    obtain ⟨rfl, hhash⟩ := Prod.mk.inj (Option.some.inj hwritten)
    exact .inl (hhash ▸ hpermits)
  | updateClient client now =>
    obtain ⟨rfl, hhash⟩ := Prod.mk.inj (Option.some.inj hwritten)
    rcases hpermits with hnone | hpending | ⟨current, hloaded, hid, hcurrent, hkeeps⟩
    · rw [hnone] at hhash
      cases hhash
    · exact .inl (hpending ▸ hhash)
    · exact .inr ⟨client, now, current, rfl, hloaded, hid, hcurrent.trans hhash, hkeeps⟩
  | _ => cases hwritten

theorem usedHash_of_pending {log : ClientLog} {entry : Entry ClientOp.Answer} {h : Bytes}
    {written : String × Option Bytes} (hwritten : hashWritten entry.1 = some written)
    (hpending : pendingHash log = some h) : usedHash log entry = some h := by
  simp [usedHash, hwritten, hpending]

theorem mem_of_getClient {t : ClientTable} {outside : Outside} {id : String}
    {current : ClientRecord}
    (h : (execClientOp t outside (.getClient id)).2 = some (some current)) : current ∈ t.rows := by
  simp only [execClientOp, stored] at h
  split at h
  · exact (Table.find_eq_some.mp (Option.some.inj h)).1
  · cases h

/-- Every stored or loaded hash is known. -/
theorem known_after (rules : BodyRules β) (t₀ : ClientTable)
    (steps : List (Label (ClientRequest β) ClientOp Outside)) :
    (∀ r ∈ ((adminClients rules).after t₀ steps).shared.rows, ∀ h, r.clientSecretHash = some h →
      Known t₀ ((adminClients rules).effects t₀ steps) h) ∧
    ∀ t ∈ ((adminClients rules).after t₀ steps).threads, ∀ current, Loaded t.log current →
      ∀ h, current.clientSecretHash = some h →
        Known t₀ ((adminClients rules).effects t₀ steps) h := by
  refine System.run_invariant (adminClients_follows rules) (C := fun _ => True) (fun _ _ h => h)
    (J := fun c effects =>
      (∀ r ∈ c.shared.rows, ∀ h, r.clientSecretHash = some h → Known t₀ effects h) ∧
      ∀ t ∈ c.threads, ∀ current, Loaded t.log current → ∀ h, current.clientSecretHash = some h →
        Known t₀ effects h) ?_ ?_ ?_ ?_ steps trivial
  · exact ⟨fun r hr h hh => .inl ⟨r, hr, hh⟩, by simp⟩
  · rintro steps q ⟨hrows, hthreads⟩
    refine ⟨hrows, fun t ht current hloaded => ?_⟩
    rcases List.mem_append.mp ht with ht | ht
    · exact hthreads t ht current hloaded
    · rw [List.mem_singleton.mp ht] at hloaded
      obtain ⟨id, hid⟩ := hloaded
      cases hid
  · rintro steps i t op answer prog - - ⟨hrows, hthreads⟩ hi - hpermits
    have ht := List.mem_of_getElem? hi
    constructor
    · intro r' hr' h hh
      rcases hash_of_exec hr' with ⟨r, hr, -, hsame⟩ | hwritten
      · exact (hrows r hr h (hsame.trans hh)).cons _
      · rw [hh] at hwritten
        rcases hashWritten_cases hpermits hwritten with
          hpending | ⟨client, now, current, -, hloaded, -, hcurrent, -⟩
        · exact .inr (List.mem_filterMap.mpr ⟨_, List.mem_cons_self,
            usedHash_of_pending hwritten hpending⟩)
        · exact (hthreads t ht current hloaded h hcurrent).cons _
    · intro t' ht' current hloaded h hh
      rcases List.mem_or_eq_of_mem_set ht' with ht' | rfl
      · exact (hthreads t' ht' current hloaded h hh).cons _
      · obtain ⟨id, hid⟩ := hloaded
        rcases List.mem_cons.mp hid with hthis | hid
        · obtain ⟨rfl, hanswer⟩ := Sigma.mk.inj hthis
          exact (hrows current (mem_of_getClient (eq_of_heq hanswer).symm) h hh).cons _
        · exact (hthreads t ht current ⟨id, hid⟩ h hh).cons _
  · intro steps op answer _ hop
    cases hop

/-! ### Retired secrets -/

def Retired (id : String) (h : Bytes) (t : ClientTable) : Prop :=
  ∀ r, getClient t id = some r → r.clientSecretHash ≠ some h

/-- A patch that loaded the record with the hash, and keeps it, writes the record back. -/
def RestoresSecret (rules : BodyRules β) (id : String) (h : Bytes) (e : ClientEffect β) : Prop :=
  ∃ i t client now answer current, e = .thread i t ⟨.updateClient client now, answer⟩ ∧
    Loaded t.log current ∧ current.clientId = id ∧ current.clientSecretHash = some h ∧
    KeepsSecret rules t.request current

theorem retired_iff {id : String} {h : Bytes} {t : ClientTable} :
    Retired id h t ↔ ∀ r ∈ t.rows, r.clientId = id → r.clientSecretHash ≠ some h := by
  constructor
  · intro hr r hmem hid
    exact hr r (Table.find_eq_some.mpr ⟨hmem, hid⟩)
  · intro hr r hfind
    obtain ⟨hmem, hid⟩ := Table.find_eq_some.mp hfind
    exact hr r hmem hid

section Retirement
variable {steps : List (Label (ClientRequest β) ClientOp Outside)}
  {l : Label (ClientRequest β) ClientOp Outside} {id : String} {h : Bytes}

theorem Retired.step (hret : Retired id h ((adminClients rules).after t₀ steps).shared)
    (hknown : Known t₀ ((adminClients rules).effects t₀ steps) h)
    (hfresh : FreshSecrets t₀ ((adminClients rules).effects t₀ (l :: steps)))
    (hpatch : ∀ e, ((adminClients rules).step ((adminClients rules).after t₀ steps) l).2 = some e →
      ¬ RestoresSecret rules id h e) :
    Retired id h ((adminClients rules).after t₀ (l :: steps)).shared := by
  have hobeys := System.thread_obeys (adminClients_follows rules) t₀ steps
  have hsteps := (adminClients rules).step_steps ((adminClients rules).after t₀ steps) l
  have hunused := fun e => not_known_of_used (e := e) (h := h) hfresh
  change Retired id h ((adminClients rules).step ((adminClients rules).after t₀ steps) l).1.shared
  generalize (adminClients rules).step ((adminClients rules).after t₀ steps) l = next
    at hsteps hpatch hunused
  obtain ⟨c', effect⟩ := next
  cases hsteps with
  | idle => exact hret
  | spawn q => exact hret
  | thread i t op next answer hi hp =>
    have ht := hobeys t (List.mem_of_getElem? hi)
    rw [hp] at ht
    refine retired_iff.mpr fun r' hr' hid hhash => ?_
    rcases hash_of_exec hr' with ⟨r, hr, hrid, hsame⟩ | hwritten
    · exact retired_iff.mp hret r hr (hrid.trans hid) (hsame.trans hhash)
    · rw [hhash] at hwritten
      rcases hashWritten_cases ht.1 hwritten with
        hpending | ⟨client, now, current, rfl, hloaded, hcid, hcurrent, hkeeps⟩
      · exact hunused _ rfl (usedHash_of_pending hwritten hpending) hknown
      · exact hpatch _ rfl ⟨i, t, client, now, _, current, rfl, hloaded, hcid.trans hid, hcurrent,
          hkeeps⟩
  | outside op answer hop => cases hop

/-- The statement of a rotation leaves the hash of before retired. -/
theorem retired_of_rotation {i : ℕ} {t : ClientThread β} {hash : Bytes} {now : ℤ}
    {old : ClientRecord}
    (hfresh : FreshSecrets t₀ ((adminClients rules).effects t₀ (l :: steps)))
    (hrotated : ((adminClients rules).step ((adminClients rules).after t₀ steps) l).2 =
      some (.thread i t ⟨.updateClientSecretHash id hash now, some true⟩))
    (hold : getClient ((adminClients rules).after t₀ steps).shared id = some old)
    (hhash : old.clientSecretHash = some h) :
    Retired id h ((adminClients rules).after t₀ (l :: steps)).shared := by
  have hknown := (known_after rules t₀ steps).1 old (Table.find_eq_some.mp hold).1 h hhash
  have hobeys := System.thread_obeys (adminClients_follows rules) t₀ steps
  have hsteps := (adminClients rules).step_steps ((adminClients rules).after t₀ steps) l
  have hunused := not_known_of_used (h := h) hfresh hrotated
  change Retired id h ((adminClients rules).step ((adminClients rules).after t₀ steps) l).1.shared
  generalize (adminClients rules).step ((adminClients rules).after t₀ steps) l = next
    at hsteps hrotated
  obtain ⟨c', effect⟩ := next
  cases hsteps with
  | idle => cases hrotated
  | spawn q => cases hrotated
  | thread j t' op next answer hi hp =>
    have ht := hobeys t' (List.mem_of_getElem? hi)
    rw [hp] at ht
    obtain ⟨rfl, rfl, hentry⟩ := Effect.thread.inj (Option.some.inj hrotated)
    obtain ⟨rfl, hanswer⟩ := Sigma.mk.inj hentry
    have hne : hash ≠ h := by
      rintro rfl
      exact hunused (usedHash_of_pending rfl ht.1) hknown
    refine retired_iff.mpr fun r' hr' hid heq => ?_
    simp only [adminClients, execClientOp, stored] at hanswer hr'
    cases hstorage : answer.storage with
    | throws applied => simp [hstorage] at hanswer
    | answers =>
      rw [hstorage] at hr'
      obtain ⟨r, hr, ⟨hother, rfl⟩ | ⟨-, rfl⟩⟩ := Table.exists_of_mem_update hr'
      · simp [hid] at hother
      · exact hne (Option.some.inj heq)
  | outside op answer hop => cases hop

end Retirement

/-- A retired secret does not return, as long as no patch that loaded the record before the
rotation writes it back after: whatever else is patched, rotated, disabled, deleted or created. -/
theorem retired_secret_stays_of_no_straddling_patch (rules : BodyRules β) (t₀ : ClientTable)
    (later earlier : List (Label (ClientRequest β) ClientOp Outside))
    (l : Label (ClientRequest β) ClientOp Outside) (i : ℕ) (t : ClientThread β) (id : String)
    (hash h : Bytes) (now : ℤ) (old : ClientRecord)
    (hfresh : FreshSecrets t₀ ((adminClients rules).effects t₀ (later ++ l :: earlier)))
    (hrotated : ((adminClients rules).step ((adminClients rules).after t₀ earlier) l).2 =
      some (.thread i t ⟨.updateClientSecretHash id hash now, some true⟩))
    (hold : getClient ((adminClients rules).after t₀ earlier).shared id = some old)
    (hhash : old.clientSecretHash = some h)
    (hpatch : ∀ e ∈ (adminClients rules).effectsFrom ((adminClients rules).after t₀ (l :: earlier))
      later, ¬ RestoresSecret rules id h e) :
    Retired id h ((adminClients rules).after t₀ (later ++ l :: earlier)).shared := by
  induction later with
  | nil => exact retired_of_rotation hfresh hrotated hold hhash
  | cons l' later ih =>
    rw [System.effectsFrom_cons, ← Machine.after_append] at hpatch
    have hearlier : FreshSecrets t₀ ((adminClients rules).effects t₀ (later ++ l :: earlier)) :=
      FreshSecrets.of_append (show FreshSecrets t₀
        ((adminClients rules).effects t₀ ([l'] ++ (later ++ l :: earlier))) from hfresh)
    have hret := ih hearlier fun e he => hpatch e (List.mem_append_right _ he)
    have hknown : Known t₀ ((adminClients rules).effects t₀ (later ++ l :: earlier)) h := by
      have hstored := (known_after rules t₀ earlier).1 old (Table.find_eq_some.mp hold).1 h hhash
      rw [← List.singleton_append, ← List.append_assoc, System.effects_append]
      exact hstored.mono (List.subset_append_right _ _)
    refine hret.step hknown hfresh fun e he => hpatch e (List.mem_append_left _ ?_)
    rw [he]
    exact List.mem_singleton_self e

end Runs

def loadedHash : Entry ClientOp.Answer → Option (Option Bytes)
  | ⟨.getClient _, some (some current)⟩ => some current.clientSecretHash
  | _ => none

theorem Loaded.hash_mem {log : ClientLog} {current : ClientRecord} (h : Loaded log current) :
    current.clientSecretHash ∈ log.filterMap loadedHash := by
  obtain ⟨id, hid⟩ := h
  exact List.mem_filterMap.mpr ⟨_, hid, rfl⟩

namespace Sample

/-- Bodies that name `client_name` only. -/
def rules : BodyRules String where
  isObject := fun _ => true
  namesClientId := fun _ => false
  parse := fun stored name =>
    match stored with
    | none => .error ["grant_types: Invalid input"]
    | some input => .ok { input with clientName := name }
  urls := ⟨fun _ => true, fun _ => true, fun _ => true⟩

def stored : ClientRecord := clientFromInput input "app" (some [7]) 5

def clients : ClientTable := ⟨[stored], by decide⟩

abbrev ClientStep := Label (ClientRequest String) ClientOp Outside

def rename : ClientStep := .spawn (.patch ⟨"https://op.test", true⟩ "app" (.ok "New name"))

def rotate : ClientStep := .spawn (.rotateSecret "app")

def next (thread : ℕ) : ClientStep := .step thread ⟨[], 100, "", ⟨"secret", [9]⟩, .answers⟩

/-- The steps of a rotation, newest first, as thread `i`. -/
def rotation (i : ℕ) : List ClientStep := [next i, next i, next i, next i, rotate]

/-- A rotation, while a patch that has loaded the record is under way. -/
def straddled : List ClientStep := [next 1, next 1, next 1, rotate, next 0, rename]

end Sample

theorem retired_secret_stays_sample :
    Retired "app" [7] ((adminClients Sample.rules).after Sample.clients
      ([Sample.next 1, Sample.next 1, Sample.next 1, Sample.next 1, Sample.rename] ++
        Sample.rotation 0)).shared := by
  refine retired_secret_stays_of_no_straddling_patch Sample.rules Sample.clients
    [Sample.next 1, Sample.next 1, Sample.next 1, Sample.next 1, Sample.rename]
    (Sample.rotation 0).tail (Sample.next 0) 0 _ "app" [9] [7] 100 Sample.stored
    (by decide) rfl (by decide) (by decide) ?_
  rintro e he ⟨i, t, client, now, answer, current, rfl, hloaded, -, hhash, -⟩
  have hnone : ∀ e ∈ (adminClients Sample.rules).effectsFrom ((adminClients Sample.rules).after
      Sample.clients (Sample.rotation 0)) [Sample.next 1, Sample.next 1, Sample.next 1,
        Sample.next 1, Sample.rename], some [7] ∉ e.log.filterMap loadedHash := by decide
  exact hnone _ he (hhash ▸ hloaded.hash_mem)

/-- The patch writes the hash of before the rotation back. -/
theorem retired_secret_restored_by_patch :
    FreshSecrets Sample.clients ((adminClients Sample.rules).effects Sample.clients
      ([Sample.next 0, Sample.next 0, Sample.next 0] ++ Sample.next 1 :: Sample.straddled)) ∧
    (∃ t, ((adminClients Sample.rules).step ((adminClients Sample.rules).after Sample.clients
      Sample.straddled) (Sample.next 1)).2 =
        some (.thread 1 t ⟨.updateClientSecretHash "app" [9] 100, some true⟩)) ∧
    getClient ((adminClients Sample.rules).after Sample.clients Sample.straddled).shared "app" =
      some Sample.stored ∧
    ¬ Retired "app" [7] ((adminClients Sample.rules).after Sample.clients
      ([Sample.next 0, Sample.next 0, Sample.next 0] ++
        Sample.next 1 :: Sample.straddled)).shared := by
  refine ⟨by decide, ⟨_, rfl⟩, by decide, fun h => ?_⟩
  exact h { Sample.stored with clientName := "New name", updatedAt := 100 } (by decide) rfl

end TinyOidc.Client
