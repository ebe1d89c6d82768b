import TinyOidc.Interaction.Runs
import TinyOidc.User.Grants

/-! What an interaction about one client does to a user's grant for another. A listing deletes
every grant whose client it was not given, and the login and the consent page give it theirs
alone; a listing that names the client's record keeps the grant. -/
namespace TinyOidc.Interaction
open TinyOidc.User Threads

def grantsOf (c : RunConfig) (uid : String) : List GrantRow :=
  (c.shared.users uid).tables.grants.rows

abbrev eventsFrom (sha256 : String → Bytes) (c : RunConfig) (later : List Step) : List RunEvent :=
  Machine.events (deployment sha256).step c later

/-- Whether what an entry says of the client is the one record: it exists, created then. -/
def answersAs (clientId : String) (createdAt : ℤ) : Entry Op.Answer → Bool
  | ⟨.ask (.client asked), answer⟩ =>
      asked != clientId || answer.all fun record => record.any (·.createdAt == createdAt)
  | ⟨.ask (.clientRow asked), answer⟩ =>
      asked != clientId || answer.any (·.createdAt == createdAt)
  | _ => true

/-- The calls that end a grant: it is revoked or granted anew, or the user is deleted. -/
def endsGrant (uid clientId : String) : Entry Op.Answer → Bool
  | ⟨.user uid' (.revokeGrant revoked _), _⟩ => uid' == uid && revoked == clientId
  | ⟨.user uid' (.grantConsent client _ _), _⟩ => uid' == uid && client.clientId == clientId
  | ⟨.user uid' .destroy, _⟩ => uid' == uid
  | _ => false

/-- A listing of the user's grants that does not name the record of the grant's client. -/
def listsWithout (uid : String) (g : GrantRow) : Entry Op.Answer → Bool
  | ⟨.user uid' (.listGrants clients), _⟩ => uid' == uid && !UserObject.grantCurrent clients g
  | _ => false

/-- A listing without the grant's client, made while the grant is stored. -/
def dropsGrant (uid : String) (g : GrantRow) (e : RunEvent) : Bool :=
  decide (g ∈ grantsOf e.pre uid) && e.reply.any fun effect => listsWithout uid g effect.entry

/-- A grant stays stored as it is while the record of its client does not change, until it is
revoked or granted anew. -/
def GrantStays (sha256 : String → Bytes) (uid : String) (g : GrantRow) (later earlier : List Step) :
    Prop :=
  (∀ effect ∈ runEffects sha256 (later ++ earlier),
    answersAs g.clientId g.clientCreatedAt effect.entry = true) →
  (∀ e ∈ eventsFrom sha256 (runState sha256 earlier) later,
    e.reply.any (fun effect => endsGrant uid g.clientId effect.entry) = false) →
  g ∈ grantsOf (runState sha256 earlier) uid →
  g ∈ grantsOf (runState sha256 (later ++ earlier)) uid

/-! ### One step -/

/-- A handler's call of the session-hit path carries the record the directory gave it. -/
theorem createdAt_of_authorizeWithSession {sha256 : String → Bytes} {steps : List Step} {i : ℕ}
    {t : RunThread} (hi : (runState sha256 steps).threads[i]? = some t) {uid : String}
    {input : AuthorizeWithSessionInput}
    (permitted : Permits t.request t.log (.user uid (.authorizeWithSession input)))
    {clientId : String} {createdAt : ℤ}
    (hrecord : ∀ effect ∈ runEffects sha256 steps, answersAs clientId createdAt effect.entry = true)
    (hclient : input.client.clientId = clientId) : input.client.createdAt = createdAt := by
  have hfrom : ∀ {asked : String} {client : Client}, directoryEntry asked client ∈ t.log →
      client.clientId = clientId → client.createdAt = createdAt := by
    intro asked client hlog hclient
    obtain ⟨effect, heffect, hentry⟩ := exists_effect_of_mem_log (List.mem_of_getElem? hi) hlog
    have hasked := clientId_of_directoryEntry heffect hentry
    have hanswer := hrecord effect heffect
    rw [hentry] at hanswer
    simpa [answersAs, directoryEntry, ← hasked, hclient] using hanswer
  change Calls t.request t.log uid _ at permitted
  generalize hcall : Call.authorizeWithSession input = call at permitted
  cases permitted with
  | quiet call hquiet =>
    subst hcall
    cases hquiet
  | evaluated ref asked client record =>
    cases hcall
    exact hfrom record hclient
  | onSession id binding cookie hq d completing asked client record =>
    cases hcall
    exact hfrom record hclient
  | login => cases hcall
  | granted => cases hcall
  | ended => cases hcall

/-- A step that neither ends the grant nor lists without its client leaves it stored. -/
theorem mem_grantsOf_step {sha256 : String → Bytes} {steps : List Step} {l : Step} {uid : String}
    {g : GrantRow}
    (hrecord : ∀ effect ∈ runEffects sha256 steps,
      answersAs g.clientId g.clientCreatedAt effect.entry = true)
    (hends : ((deployment sha256).step (runState sha256 steps) l).2.any
      (fun effect => endsGrant uid g.clientId effect.entry) = false)
    (hlists : ((deployment sha256).step (runState sha256 steps) l).2.any
      (fun effect => listsWithout uid g effect.entry) = false)
    (hg : g ∈ grantsOf (runState sha256 steps) uid) :
    g ∈ grantsOf (runState sha256 (l :: steps)) uid := by
  have hmoves := run_moves sha256 steps l
  generalize runState sha256 (l :: steps) = c' at hmoves ⊢
  generalize ((deployment sha256).step (runState sha256 steps) l).2 = effect at hmoves hends hlists
  have hperformed : ∀ {w : World} {entry : Entry Op.Answer} (threads : List RunThread),
      Performed sha256 (runState sha256 steps).shared w entry →
      endsGrant uid g.clientId entry = false → listsWithout uid g entry = false →
      (∀ input, entry.1 = .user uid (.authorizeWithSession input) →
        input.client.clientId = g.clientId → input.client.createdAt = g.clientCreatedAt) →
      g ∈ grantsOf ⟨w, threads⟩ uid := by
    intro w entry threads performed hends hlists hauthorize
    cases performed with
    | asked question oracle => exact hg
    | onInteraction id call o answer answered => exact hg
    | onUser uid' call =>
      by_cases huid : uid' = uid
      · subst huid
        have hkept : disturbs g call = false := by
          cases call with
          | destroy => simp [endsGrant] at hends
          | grantConsent client scopes now => simpa [endsGrant, disturbs] using hends
          | revokeGrant clientId now => simpa [endsGrant, disturbs] using hends
          | listGrants clients => simpa [listsWithout, disturbs] using hlists
          | authorizeWithSession input =>
            have hcreated := hauthorize input rfl
            simp only [disturbs, Bool.and_eq_false_iff, beq_eq_false_iff_ne, bne_eq_false_iff_eq]
            by_cases hclient : input.client.clientId = g.clientId
            · exact .inr (hcreated hclient)
            · exact .inl hclient
          | _ => rfl
        simpa [grantsOf] using mem_grants_of_not_disturbs sha256 hg hkept
      · simpa [grantsOf, Function.update_of_ne (Ne.symm huid)] using hg
  cases hmoves with
  | idle => exact hg
  | spawn q => exact hg
  | thread i t entry w prog hi next permitted performed =>
    refine hperformed _ performed hends hlists fun input hinput hclient => ?_
    rw [hinput] at permitted
    exact createdAt_of_authorizeWithSession hi permitted hrecord hclient
  | outside entry w hop performed =>
    refine hperformed _ performed hends hlists fun input hinput _ => ?_
    rw [hinput] at hop
    cases hop

/-! ### Whole runs -/

/-- In every run in which no listing of the user's grants leaves out the record of a stored
grant's client, the grant stays until it is revoked or granted anew. -/
theorem grant_stays_of_listed (sha256 : String → Bytes) (uid : String) (g : GrantRow)
    (later earlier : List Step)
    (hlists : ∀ e ∈ eventsFrom sha256 (runState sha256 earlier) later, dropsGrant uid g e = false) :
    GrantStays sha256 uid g later earlier := by
  intro hrecord hends hg
  induction later with
  | nil => exact hg
  | cons l later ih =>
    have hevents : eventsFrom sha256 (runState sha256 earlier) (l :: later) =
        Machine.event (deployment sha256).step (runState sha256 (later ++ earlier)) l ::
          eventsFrom sha256 (runState sha256 earlier) later := by
      rw [eventsFrom, Machine.events_cons, ← Machine.after_append]
    rw [List.cons_append, runEffects_cons] at hrecord
    have hrecord' := fun effect heffect => hrecord effect (List.mem_append_right _ heffect)
    have hstored := ih (fun e he => hlists e (hevents ▸ List.mem_cons_of_mem _ he)) hrecord'
      (fun e he => hends e (hevents ▸ List.mem_cons_of_mem _ he))
    have hnow := hlists _ (hevents ▸ List.mem_cons_self)
    simp only [dropsGrant, Machine.event_pre, Machine.event_reply, hstored, decide_true,
      Bool.true_and] at hnow
    exact mem_grantsOf_step hrecord' (hends _ (hevents ▸ List.mem_cons_self)) hnow hstored

namespace Sample

def mailGrant : GrantRow := ⟨"mail", 5, ["openid"], 10, 10⟩

/-- `u1` logs in to an interaction of `portal`, and the account page lists the grants with the
records of their clients. -/
def besidePortal : List Step :=
  (whole 4 iy (authorize "portal" .absent) ++ login 5 iy "u1" ++
    whole 7 iy (.listGrants "u1")).reverse

/-- Then `u1` logs in to an interaction of the client `app`. -/
def loggedInElsewhere : List Step :=
  (whole 4 iy (authorize "app" .absent) ++ login 5 iy "u1").reverse

end Sample

theorem grant_stays_sample :
    (∀ e ∈ eventsFrom User.Sample.sha256
        (runState User.Sample.sha256 (Sample.consented "mail").reverse) Sample.besidePortal,
      dropsGrant "u1" Sample.mailGrant e = false) ∧
      Sample.mailGrant ∈
        grantsOf (runState User.Sample.sha256 (Sample.consented "mail").reverse) "u1" ∧
      GrantStays User.Sample.sha256 "u1" Sample.mailGrant Sample.besidePortal
        (Sample.consented "mail").reverse :=
  ⟨by decide +kernel, by decide +kernel, grant_stays_of_listed User.Sample.sha256 "u1"
    Sample.mailGrant Sample.besidePortal (Sample.consented "mail").reverse (by decide +kernel)⟩

/-- The login to another client's interaction deletes the grant. -/
theorem grant_dropped_by_other_login :
    ¬ GrantStays User.Sample.sha256 "u1" Sample.mailGrant Sample.loggedInElsewhere
      (Sample.consented "mail").reverse := by
  intro h
  have hstored := h (by decide +kernel) (by decide +kernel) (by decide +kernel)
  revert hstored
  decide +kernel

end TinyOidc.Interaction
