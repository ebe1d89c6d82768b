import TinyOidc.Identity.Stores
import TinyOidc.Interaction.Runs
import TinyOidc.Lib.Ledger

/-! An upstream identity belongs to one account. The index row of a pair is a claim on it, so a
release is safe when nobody stands behind the row: then the requests keep the index consistent. -/
namespace TinyOidc.Identity
open TinyOidc.Interaction TinyOidc.User
open Threads (Config Entry System drawnIn usedIn)

def Deployment.holds (s : Deployment) (uid : String) (pair : Pair) : Bool :=
  (identityKeys (s.objects.users uid)).any (·.2 == pair)

theorem holds_iff {s : Deployment} {uid : String} {pair : Pair} :
    s.holds uid pair = true ↔ ∃ id, (id, pair) ∈ identityKeys (s.objects.users uid) := by
  simp [Deployment.holds]

def Stand.toLedger : Stand → Ledger.Stand String Pair
  | creates uid pair | links uid pair => .claims uid pair
  | owes pair => .owes pair

/-- The index, the objects and the requests under way, as a ledger of the pairs. -/
def ledger (c : LinkConfig) : Ledger ℕ String Pair where
  holds uid pair := c.shared.holds uid pair = true
  owner := ownerOf c.shared.directory
  stands i := (c.threads[i]?).bind fun t => (stand t.log).map Stand.toLedger

/-! ### The condition -/

/-- When the next step deletes the row of a pair, the user it names does not hold the pair, and no
request under way has claimed the pair and not stored it yet. -/
def releaseSafe (c : LinkConfig) : LinkStep → Bool
  | .step i _ =>
      match (c.threads[i]?).bind (·.prog.head) with
      | some (.ask (.releaseIdentity issuer subject)) =>
          (ownerOf c.shared.directory (issuer, subject)).all
              (fun uid => !c.shared.holds uid (issuer, subject)) &&
            c.threads.all fun t => (stand t.log).bind Stand.claim != some (issuer, subject)
      | _ => true
  | _ => true

def ReleasesSafe (sha256 : String → Bytes) (s : Deployment) : List LinkStep → Prop
  | [] => True
  | l :: steps => releaseSafe ((linking sha256).after s steps) l = true ∧
      ReleasesSafe sha256 s steps

instance decidableReleasesSafe (sha256 : String → Bytes) (s : Deployment) :
    (steps : List LinkStep) → Decidable (ReleasesSafe sha256 s steps)
  | [] => isTrue trivial
  | _ :: steps =>
      have := decidableReleasesSafe sha256 s steps
      inferInstanceAs (Decidable (_ ∧ _))

/-! ### Assumptions -/

/-- The start: the index is exact, and what has a user has a row. -/
structure Exact (s : Deployment) : Prop where
  indexed : ∀ pair uid, ownerOf s.directory pair = some uid ↔ s.holds uid pair = true
  registered : ∀ uid, (s.objects.users uid).tables.user ≠ none → Registered s.directory uid
  blank : ∀ uid, (s.objects.users uid).tables.user = none → identityKeys (s.objects.users uid) = []

/-- No drawn UUID repeats, or is in use at the start. -/
structure FreshUuids (s : Deployment) (effects : List LinkEffect) : Prop where
  distinct : (drawnIn drawnUuid effects).Nodup
  alive : ∀ id ∈ drawnIn drawnUuid effects, (s.objects.users id).destroyed = false
  unused : ∀ id ∈ drawnIn drawnUuid effects, ∀ uid,
    ∀ key ∈ identityKeys (s.objects.users uid), key.1 ≠ id

theorem FreshUuids.earlier {s : Deployment} {later earlier : List LinkEffect}
    (h : FreshUuids s (later ++ earlier)) : FreshUuids s earlier := by
  have hsub : drawnIn drawnUuid earlier <:+ drawnIn drawnUuid (later ++ earlier) :=
    (List.suffix_append later earlier).filterMap _
  exact ⟨h.distinct.sublist hsub.sublist, fun id hid => h.alive id (hsub.subset hid),
    fun id hid => h.unused id (hsub.subset hid)⟩

/-! ### Ids -/

/-- The id an answered call stored, as long as the request has seen regular answers. -/
def storedFrom (log : Log) (entry : Entry Op.Answer) : Option String :=
  if log.any irregular then none else storedId entry

theorem storedFrom_of_regular {log : Log} (h : ¬ Irregular log) (entry : Entry Op.Answer) :
    storedFrom log entry = storedId entry := by
  refine if_neg fun hany => h ?_
  obtain ⟨e, he, hirregular⟩ := List.any_eq_true.mp hany
  exact ⟨e, he, hirregular⟩

/-- An id that an identity had at the start, or got in the run. -/
def KnownId (s₀ : Deployment) (effects : List LinkEffect) (id : String) : Prop :=
  (∃ uid, ∃ key ∈ identityKeys (s₀.objects.users uid), key.1 = id) ∨
    id ∈ usedIn storedFrom effects

theorem KnownId.cons {s₀ : Deployment} {effects : List LinkEffect} {id : String}
    (h : KnownId s₀ effects id) (effect : LinkEffect) : KnownId s₀ (effect :: effects) id := by
  refine h.imp_right fun hused => ?_
  exact ((List.suffix_cons effect effects).filterMap _).subset hused

theorem heldIds_of_stored {log : Log} {entry : Entry Op.Answer} {id : String}
    (h : LinkPermits log entry.1) (hstored : storedId entry = some id) :
    id ∈ heldIds log ∧ drawnUuid entry = none := by
  obtain ⟨op, r⟩ := entry
  cases op with
  | interaction ix call => cases hstored
  | ask question => cases hstored
  | user uid call =>
    cases call with
    | init p now identities =>
      obtain ⟨-, identity, rfl, -, hheld⟩ := h
      cases r with
      | profile result =>
        cases result with
        | ok profile =>
          cases hstored
          exact ⟨hheld, rfl⟩
        | _ => cases hstored
      | _ => cases hstored
    | addIdentity identity now =>
      cases r with
      | identity result =>
        cases result with
        | ok row =>
          cases hstored
          exact ⟨h.2, rfl⟩
        | _ => cases hstored
      | _ => cases hstored
    | _ => cases hstored

theorem stored_le_held (q : LinkRequest) (log : Log) (entry : Entry Op.Answer) (x : String)
    (h : Permits q log entry.1) :
    (storedFrom log entry).toList.count x + (heldIds (entry :: log)).count x ≤
      (heldIds log).count x + (drawnUuid entry).toList.count x := by
  have hheld : (heldIds (entry :: log)).count x = (drawnUuid entry).toList.count x +
      ((storedId entry).elim (heldIds log) (heldIds log).erase).count x := by
    rw [heldIds, List.count_append]
  by_cases hirregular : log.any irregular = true
  · have herased : ((storedId entry).elim (heldIds log) (heldIds log).erase).count x ≤
        (heldIds log).count x := by
      cases storedId entry with
      | none => exact le_refl _
      | some id => exact List.Sublist.count_le x List.erase_sublist
    rw [storedFrom, if_pos hirregular, hheld]
    simp only [Option.toList_none, List.count_nil]
    omega
  · have hpermits : LinkPermits log entry.1 := by
      refine h.resolve_left ?_
      rintro ⟨e, he, hone⟩
      exact hirregular (List.any_eq_true.mpr ⟨e, he, hone⟩)
    rw [storedFrom, if_neg hirregular, hheld]
    cases hstored : storedId entry with
    | none =>
      simp only [Option.toList_none, List.count_nil, Option.elim_none]
      omega
    | some id =>
      obtain ⟨hmem, hdrawn⟩ := heldIds_of_stored hpermits hstored
      have hpos : 0 < (heldIds log).count id := List.count_pos_iff.mpr hmem
      simp only [Option.toList_some, Option.elim_some, hdrawn, Option.toList_none, List.count_nil,
        List.count_erase, List.count_singleton]
      by_cases hx : id = x
      · subst hx
        simp only [beq_self_eq_true, if_true]
        omega
      · simp only [beq_eq_false_iff_ne.mpr hx, Bool.false_eq_true, if_false]
        omega

theorem mem_drawn_of_log {sha256 : String → Bytes} {s : Deployment} {steps : List LinkStep}
    {t : LinkThread} (ht : t ∈ ((linking sha256).after s steps).threads) {id : String}
    (hlog : (⟨.ask .newUuid, id⟩ : Entry Op.Answer) ∈ t.log) :
    id ∈ drawnIn drawnUuid ((linking sha256).effects s steps) := by
  obtain ⟨e, he, i, t₀, hreply, -⟩ :=
    System.exists_event_of_mem_log (linking sha256) s steps t ht _ hlog
  refine List.mem_filterMap.mpr ⟨_, List.mem_filterMap.mpr ⟨e, he, hreply⟩, rfl⟩

/-- The id a request is about to store has never been stored. -/
theorem not_known_of_held {sha256 : String → Bytes} {s : Deployment} {steps : List LinkStep}
    (hfresh : FreshUuids s ((linking sha256).effects s steps)) {i : ℕ} {t : LinkThread}
    (hi : ((linking sha256).after s steps).threads[i]? = some t) {id : String}
    (hheld : id ∈ heldIds t.log) : ¬ KnownId s ((linking sha256).effects s steps) id := by
  have hbound := System.used_le_drawn drawnUuid storedFrom (fun x log => (heldIds log).count x)
    (linking_follows sha256) (fun _ => rfl) stored_le_held
    (fun entry hout => by
      obtain ⟨op, r⟩ := entry
      cases op with
      | interaction ix call => rfl
      | user uid call => cases hout
      | ask question => cases hout) s steps id
  have htotal := Config.held_le_total (fun t => (heldIds t.log).count id)
    ((linking sha256).after s steps) hi
  have hpos : 0 < (heldIds t.log).count id := List.count_pos_iff.mpr hheld
  have hone := List.nodup_iff_count_le_one.mp hfresh.distinct id
  rintro (⟨uid, key, hkey, hid⟩ | hused)
  · have hdrawn : id ∈ drawnIn drawnUuid ((linking sha256).effects s steps) := by
      refine List.count_pos_iff.mp ?_
      omega
    exact hfresh.unused id hdrawn uid key hkey hid
  · have hcount := List.count_pos_iff.mpr hused
    omega

/-! ### What a step keeps -/

theorem getElem?_set_cases {τ : Type} {l : List τ} {i j : ℕ} {a b : τ}
    (h : (l.set i a)[j]? = some b) : j = i ∧ b = a ∨ j ≠ i ∧ l[j]? = some b := by
  by_cases hji : j = i
  · subst hji
    rw [List.getElem?_set_self'] at h
    obtain ⟨_, -, rfl⟩ := Option.map_eq_some_iff.mp h
    exact .inl ⟨rfl, rfl⟩
  · rw [List.getElem?_set_ne (Ne.symm hji)] at h
    exact .inr ⟨hji, h⟩

/-- What has a user has a row; a user that is being created has a row, no object, and one
creator. -/
structure Lifecycle (s₀ : Deployment) (c : LinkConfig) : Prop where
  registered : ∀ uid, (c.shared.objects.users uid).tables.user ≠ none →
    Registered c.shared.directory uid
  blank : ∀ uid, (c.shared.objects.users uid).tables.user = none →
    identityKeys (c.shared.objects.users uid) = []
  destroyed : ∀ uid, (c.shared.objects.users uid).destroyed = true →
    (s₀.objects.users uid).destroyed = true
  creating : ∀ (i : ℕ) (t : LinkThread) (uid : String) (pair : Pair), c.threads[i]? = some t →
    stand t.log = some (.creates uid pair) →
    Registered c.shared.directory uid ∧ (c.shared.objects.users uid).tables.user = none ∧
      (c.shared.objects.users uid).destroyed = false
  creator : ∀ (i j : ℕ) (t t' : LinkThread) (uid : String) (pair pair' : Pair),
    c.threads[i]? = some t → c.threads[j]? = some t' → stand t.log = some (.creates uid pair) →
    stand t'.log = some (.creates uid pair') → i = j

/-- The identities listed by requests are those of the objects, as long as these have them. -/
structure Listings (s₀ : Deployment) (c : LinkConfig) (effects : List LinkEffect) : Prop where
  listed : ∀ t ∈ c.threads, ∀ uid id pair, listedPair uid id t.log = some pair →
    ∀ pair', (id, pair') ∈ identityKeys (c.shared.objects.users uid) → pair' = pair
  recorded : ∀ t ∈ c.threads, ∀ uid id pair, listedPair uid id t.log = some pair →
    KnownId s₀ effects id
  known : ∀ uid, ∀ key ∈ identityKeys (c.shared.objects.users uid), KnownId s₀ effects key.1

structure LinkInv (s₀ : Deployment) (c : LinkConfig) (effects : List LinkEffect) : Prop where
  index : (ledger c).Consistent
  lifecycle : Lifecycle s₀ c
  listings : Listings s₀ c effects
  regular : ∀ t ∈ c.threads, ¬ Irregular t.log

section Steps
variable {s₀ s' : Deployment} {c : LinkConfig} {effects : List LinkEffect} {i : ℕ} {t : LinkThread}
  {entry : Entry Op.Answer} {prog : Handler LinkResponse}

theorem ledger_stands (hi : c.threads[i]? = some t) :
    (ledger c).stands i = (stand t.log).map Stand.toLedger := by
  simp [ledger, hi]

theorem ledger_stands_self (hi : c.threads[i]? = some t) :
    (ledger ⟨s', c.threads.set i ⟨t.request, entry :: t.log, prog⟩⟩).stands i =
      (stand (entry :: t.log)).map Stand.toLedger :=
  ledger_stands (t := ⟨t.request, entry :: t.log, prog⟩)
    (List.getElem?_set_self (List.getElem?_eq_some_iff.mp hi).1)

theorem ledger_stands_other {t' : LinkThread} (j : ℕ) (hji : j ≠ i) :
    (ledger ⟨s', c.threads.set i t'⟩).stands j = (ledger c).stands j := by
  simp only [ledger]
  rw [List.getElem?_set_ne (Ne.symm hji)]

theorem Lifecycle.same (h : Lifecycle s₀ c) (hi : c.threads[i]? = some t)
    (huser : ∀ uid, (s'.objects.users uid).tables.user = (c.shared.objects.users uid).tables.user)
    (hdestroyed : ∀ uid, (s'.objects.users uid).destroyed = (c.shared.objects.users uid).destroyed)
    (hblank : ∀ uid, (c.shared.objects.users uid).tables.user = none →
      identityKeys (s'.objects.users uid) = [])
    (hregistered : ∀ uid, Registered c.shared.directory uid → Registered s'.directory uid)
    (hcreates : ∀ uid pair, stand (entry :: t.log) = some (.creates uid pair) →
      stand t.log = some (.creates uid pair)) :
    Lifecycle s₀ ⟨s', c.threads.set i ⟨t.request, entry :: t.log, prog⟩⟩ := by
  have hold : ∀ (j : ℕ) (t₁ : LinkThread) uid pair,
    (c.threads.set i ⟨t.request, entry :: t.log, prog⟩)[j]? = some t₁ →
      stand t₁.log = some (.creates uid pair) →
      ∃ t₂ : LinkThread, c.threads[j]? = some t₂ ∧ stand t₂.log = some (.creates uid pair) := by
    intro j t₁ uid pair hj hstand
    rcases getElem?_set_cases hj with ⟨rfl, rfl⟩ | ⟨-, hj⟩
    · exact ⟨t, hi, hcreates uid pair hstand⟩
    · exact ⟨t₁, hj, hstand⟩
  constructor
  · intro uid hinitialized
    exact hregistered uid (h.registered uid (by rwa [← huser uid]))
  · intro uid hnone
    exact hblank uid ((huser uid).symm.trans hnone)
  · intro uid hgone
    exact h.destroyed uid ((hdestroyed uid).symm.trans hgone)
  · intro j t₁ uid pair hj hstand
    obtain ⟨t₂, hj₂, hstand₂⟩ := hold j t₁ uid pair hj hstand
    obtain ⟨hrow, hnone, halive⟩ := h.creating j t₂ uid pair hj₂ hstand₂
    exact ⟨hregistered uid hrow, (huser uid).trans hnone, (hdestroyed uid).trans halive⟩
  · intro j k t₁ t₂ uid pair pair' hj hk hstand₁ hstand₂
    obtain ⟨t₃, hj₃, hstand₃⟩ := hold j t₁ uid pair hj hstand₁
    obtain ⟨t₄, hk₄, hstand₄⟩ := hold k t₂ uid pair' hk hstand₂
    exact h.creator j k t₃ t₄ uid pair pair' hj₃ hk₄ hstand₃ hstand₄

/-- The claim of a new user. -/
theorem Lifecycle.claimed {d' : Account.Directory} {uid : String} {pair : Pair} (h : Lifecycle s₀ c)
    (hclaimed : ClaimedUser c.shared.directory d' uid pair)
    (halive : (s₀.objects.users uid).destroyed = false)
    (hstand : stand (entry :: t.log) = some (.creates uid pair)) :
    Lifecycle s₀ ⟨{ c.shared with directory := d' },
      c.threads.set i ⟨t.request, entry :: t.log, prog⟩⟩ := by
  -- Every creation under way has a row, and the new user had none.
  have hnew : ∀ (j : ℕ) (t₁ : LinkThread) v pair',
    (c.threads.set i ⟨t.request, entry :: t.log, prog⟩)[j]? = some t₁ →
      stand t₁.log = some (.creates v pair') →
      j = i ∧ v = uid ∨ v ≠ uid ∧ c.threads[j]? = some t₁ := by
    intro j t₁ v pair' hj hstand₁
    rcases getElem?_set_cases hj with ⟨rfl, rfl⟩ | ⟨-, hj⟩
    · rw [hstand] at hstand₁
      cases hstand₁
      exact .inl ⟨rfl, rfl⟩
    · refine .inr ⟨?_, hj⟩
      rintro rfl
      exact hclaimed.unregistered (h.creating j t₁ v pair' hj hstand₁).1
  constructor
  · intro v hinitialized
    exact hclaimed.others v (h.registered v hinitialized)
  · exact h.blank
  · exact h.destroyed
  · intro j t₁ v pair' hj hstand₁
    rcases hnew j t₁ v pair' hj hstand₁ with ⟨-, rfl⟩ | ⟨-, hj⟩
    · refine ⟨hclaimed.registered, ?_, ?_⟩
      · by_contra hinitialized
        exact hclaimed.unregistered (h.registered v hinitialized)
      · refine Bool.eq_false_iff.mpr fun hgone => ?_
        rw [h.destroyed v hgone] at halive
        cases halive
    · obtain ⟨hrow, hrest⟩ := h.creating j t₁ v pair' hj hstand₁
      exact ⟨hclaimed.others v hrow, hrest⟩
  · intro j k t₁ t₂ v pair₁ pair₂ hj hk hstand₁ hstand₂
    rcases hnew j t₁ v pair₁ hj hstand₁ with ⟨rfl, rfl⟩ | ⟨hne, hj⟩
    · rcases hnew k t₂ v pair₂ hk hstand₂ with ⟨rfl, -⟩ | ⟨hne, -⟩
      · rfl
      · exact absurd rfl hne
    · rcases hnew k t₂ v pair₂ hk hstand₂ with ⟨-, rfl⟩ | ⟨-, hk⟩
      · exact absurd rfl hne
      · exact h.creator j k t₁ t₂ v pair₁ pair₂ hj hk hstand₁ hstand₂

/-- The initialization of a user by its creator. -/
theorem Lifecycle.initialized {uid : String} {pair : Pair} (h : Lifecycle s₀ c)
    (hi : c.threads[i]? = some t) (hcreates : stand t.log = some (.creates uid pair))
    (hothers : ∀ v, v ≠ uid → s'.objects.users v = c.shared.objects.users v)
    (hdirectory : s'.directory = c.shared.directory)
    (huser : (s'.objects.users uid).tables.user ≠ none)
    (halive : (s'.objects.users uid).destroyed = false)
    (hstand : stand (entry :: t.log) = none) :
    Lifecycle s₀ ⟨s', c.threads.set i ⟨t.request, entry :: t.log, prog⟩⟩ := by
  have hold : ∀ (j : ℕ) (t₁ : LinkThread) v pair',
    (c.threads.set i ⟨t.request, entry :: t.log, prog⟩)[j]? = some t₁ →
      stand t₁.log = some (.creates v pair') → v ≠ uid ∧ c.threads[j]? = some t₁ := by
    intro j t₁ v pair' hj hstand₁
    rcases getElem?_set_cases hj with ⟨rfl, rfl⟩ | ⟨hji, hj⟩
    · rw [hstand] at hstand₁
      cases hstand₁
    · refine ⟨?_, hj⟩
      rintro rfl
      exact hji (h.creator j i t₁ t v pair' pair hj hi hstand₁ hcreates)
  have hrow := (h.creating i t uid pair hi hcreates).1
  constructor
  · intro v hinitialized
    dsimp only at hinitialized ⊢
    rw [hdirectory]
    by_cases hv : v = uid
    · exact hv ▸ hrow
    · rw [hothers v hv] at hinitialized
      exact h.registered v hinitialized
  · intro v hnone
    dsimp only at hnone ⊢
    by_cases hv : v = uid
    · exact absurd (hv ▸ hnone) huser
    · rw [hothers v hv] at hnone ⊢
      exact h.blank v hnone
  · intro v hgone
    dsimp only at hgone
    by_cases hv : v = uid
    · rw [hv, halive] at hgone
      cases hgone
    · rw [hothers v hv] at hgone
      exact h.destroyed v hgone
  · intro j t₁ v pair' hj hstand₁
    obtain ⟨hne, hj⟩ := hold j t₁ v pair' hj hstand₁
    dsimp only
    rw [hdirectory, hothers v hne]
    exact h.creating j t₁ v pair' hj hstand₁
  · intro j k t₁ t₂ v pair₁ pair₂ hj hk hstand₁ hstand₂
    exact h.creator j k t₁ t₂ v pair₁ pair₂ (hold j t₁ v pair₁ hj hstand₁).2
      (hold k t₂ v pair₂ hk hstand₂).2 hstand₁ hstand₂

/-- A step that adds no identity to an object. -/
theorem Listings.same (h : Listings s₀ c effects) (hi : c.threads[i]? = some t)
    (hkeys : ∀ uid, ∀ key ∈ identityKeys (s'.objects.users uid),
      key ∈ identityKeys (c.shared.objects.users uid))
    (hlist : ∀ uid id pair, listedPair uid id (entry :: t.log) = some pair →
      listedPair uid id t.log = some pair ∨ (id, pair) ∈ identityKeys (c.shared.objects.users uid))
    (effect : LinkEffect) :
    Listings s₀ ⟨s', c.threads.set i ⟨t.request, entry :: t.log, prog⟩⟩ (effect :: effects) := by
  have ht : t ∈ c.threads := List.mem_of_getElem? hi
  constructor
  · intro t₁ ht₁ uid id pair hlisted pair' hkey
    have hkey' := hkeys uid _ hkey
    rcases List.mem_or_eq_of_mem_set ht₁ with ht₁ | rfl
    · exact h.listed t₁ ht₁ uid id pair hlisted pair' hkey'
    · rcases hlist uid id pair hlisted with hlisted | hmem
      · exact h.listed t ht uid id pair hlisted pair' hkey'
      · exact pair_unique hmem hkey'
  · intro t₁ ht₁ uid id pair hlisted
    rcases List.mem_or_eq_of_mem_set ht₁ with ht₁ | rfl
    · exact (h.recorded t₁ ht₁ uid id pair hlisted).cons effect
    · rcases hlist uid id pair hlisted with hlisted | hmem
      · exact (h.recorded t ht uid id pair hlisted).cons effect
      · exact (h.known uid _ hmem).cons effect
  · intro uid key hkey
    exact (h.known uid key (hkeys uid key hkey)).cons effect

/-- A step beside the objects. -/
theorem Listings.beside (h : Listings s₀ c effects) (hi : c.threads[i]? = some t)
    (hobjects : s'.objects = c.shared.objects)
    (hlist : ∀ uid id, listedPair uid id (entry :: t.log) = listedPair uid id t.log)
    (effect : LinkEffect) :
    Listings s₀ ⟨s', c.threads.set i ⟨t.request, entry :: t.log, prog⟩⟩ (effect :: effects) := by
  refine h.same hi (fun uid key hkey => ?_) (fun uid id pair hlisted => ?_) effect
  · rwa [hobjects] at hkey
  · exact .inl ((hlist uid id).symm.trans hlisted)

/-- A step that stores an identity under an id that nobody knew. -/
theorem Listings.stored (h : Listings s₀ c effects) (uid id : String) (pair : Pair)
    (hi : c.threads[i]? = some t) (hnew : ¬ KnownId s₀ effects id)
    (hothers : ∀ v, v ≠ uid → s'.objects.users v = c.shared.objects.users v)
    (hkeys : ∀ key ∈ identityKeys (s'.objects.users uid),
      key ∈ identityKeys (c.shared.objects.users uid) ∨ key = (id, pair))
    (hlist : ∀ uid id, listedPair uid id (entry :: t.log) = listedPair uid id t.log)
    {effect : LinkEffect} (hstored : KnownId s₀ (effect :: effects) id) :
    Listings s₀ ⟨s', c.threads.set i ⟨t.request, entry :: t.log, prog⟩⟩ (effect :: effects) := by
  have hall : ∀ v, ∀ key ∈ identityKeys (s'.objects.users v),
      key ∈ identityKeys (c.shared.objects.users v) ∨ key.1 = id := by
    intro v key hkey
    by_cases hv : v = uid
    · subst hv
      exact (hkeys key hkey).imp_right fun heq => by rw [heq]
    · rw [hothers v hv] at hkey
      exact .inl hkey
  have hthread : ∀ t₁ ∈ c.threads.set i ⟨t.request, entry :: t.log, prog⟩, ∃ t₂ ∈ c.threads,
      ∀ v x, listedPair v x t₁.log = listedPair v x t₂.log := by
    intro t₁ ht₁
    rcases List.mem_or_eq_of_mem_set ht₁ with ht₁ | rfl
    · exact ⟨t₁, ht₁, fun _ _ => rfl⟩
    · exact ⟨t, List.mem_of_getElem? hi, hlist⟩
  constructor
  · intro t₁ ht₁ v x pair₁ hlisted pair₂ hkey
    obtain ⟨t₂, ht₂, hsame⟩ := hthread t₁ ht₁
    rw [hsame] at hlisted
    rcases hall v _ hkey with hkey | rfl
    · exact h.listed t₂ ht₂ v x pair₁ hlisted pair₂ hkey
    · exact absurd (h.recorded t₂ ht₂ v _ pair₁ hlisted) hnew
  · intro t₁ ht₁ v x pair₁ hlisted
    obtain ⟨t₂, ht₂, hsame⟩ := hthread t₁ ht₁
    rw [hsame] at hlisted
    exact (h.recorded t₂ ht₂ v x pair₁ hlisted).cons effect
  · intro v key hkey
    rcases hall v key hkey with hkey | rfl
    · exact (h.known v key hkey).cons effect
    · exact hstored

theorem regular_cons {log : Log} (h : ¬ Irregular log) (hentry : irregular entry = false) :
    ¬ Irregular (entry :: log) := by
  rintro ⟨e, he, hirregular⟩
  rcases List.mem_cons.mp he with rfl | he
  · rw [hentry] at hirregular
    cases hirregular
  · exact h ⟨e, he, hirregular⟩

theorem LinkInv.regular_set (h : LinkInv s₀ c effects) (hi : c.threads[i]? = some t)
    (hentry : irregular entry = false) :
    ∀ t₁ ∈ c.threads.set i ⟨t.request, entry :: t.log, prog⟩, ¬ Irregular t₁.log := by
  intro t₁ ht₁
  rcases List.mem_or_eq_of_mem_set ht₁ with ht₁ | rfl
  · exact h.regular t₁ ht₁
  · exact regular_cons (h.regular t (List.mem_of_getElem? hi)) hentry

theorem holds_of_spares {s : Deployment}
    (h : ∀ uid, SparesPairs (s.objects.users uid) (s'.objects.users uid)) (uid : String)
    (pair : Pair) : s'.holds uid pair = true ↔ s.holds uid pair = true := by
  rw [holds_iff, holds_iff, (h uid).keys]

/-- A step that touches no pair. -/
theorem LinkInv.quiet (h : LinkInv s₀ c effects) (hi : c.threads[i]? = some t)
    (hspares : ∀ uid, SparesPairs (c.shared.objects.users uid) (s'.objects.users uid))
    (howner : ∀ pair, ownerOf s'.directory pair = ownerOf c.shared.directory pair)
    (hregistered : ∀ uid, Registered c.shared.directory uid → Registered s'.directory uid)
    (hstand : stand (entry :: t.log) = stand t.log)
    (hlist : ∀ uid id pair, listedPair uid id (entry :: t.log) = some pair →
      listedPair uid id t.log = some pair ∨ (id, pair) ∈ identityKeys (c.shared.objects.users uid))
    (hentry : irregular entry = false) (effect : LinkEffect) :
    LinkInv s₀ ⟨s', c.threads.set i ⟨t.request, entry :: t.log, prog⟩⟩ (effect :: effects) where
  index := by
    refine h.index.rest (holds_of_spares hspares) howner fun j => ?_
    by_cases hji : j = i
    · subst hji
      rw [ledger_stands_self hi, ledger_stands hi, hstand]
    · exact ledger_stands_other j hji
  lifecycle := by
    refine h.lifecycle.same hi (fun uid => (hspares uid).user) (fun uid => (hspares uid).destroyed)
      (fun uid hnone => ?_) hregistered fun uid pair hcreates => hstand.symm.trans hcreates
    rw [(hspares uid).keys]
    exact h.lifecycle.blank uid hnone
  listings := by
    refine h.listings.same hi (fun uid key hkey => ?_) hlist effect
    rwa [(hspares uid).keys] at hkey
  regular := h.regular_set hi hentry

theorem listedPair_skip {log : Log} {v : String} {call : Call} {r : Reply}
    (h : call ≠ .listIdentities) (uid id : String) :
    listedPair uid id (⟨.user v call, r⟩ :: log) = listedPair uid id log := by
  cases call with
  | listIdentities => exact absurd rfl h
  | _ => rfl

section Calls
variable (sha256 : String → Bytes) (oracle : Oracle)

theorem users_exec (s : Deployment) (uid : String) (call : Call) (v : String) :
    (s.exec sha256 oracle (.user uid call)).1.objects.users v =
      if v = uid then ((s.objects.users uid).call sha256 call).1 else s.objects.users v := by
  by_cases hv : v = uid
  · subst hv
    simp [Deployment.exec, World.exec]
  · simp [Deployment.exec, World.exec, hv]

theorem users_exec_self (s : Deployment) (uid : String) (call : Call) :
    (s.exec sha256 oracle (.user uid call)).1.objects.users uid =
      ((s.objects.users uid).call sha256 call).1 := by
  rw [users_exec, if_pos rfl]

theorem users_exec_other (s : Deployment) (uid : String) (call : Call) (v : String)
    (hv : v ≠ uid) : (s.exec sha256 oracle (.user uid call)).1.objects.users v =
      s.objects.users v := by
  rw [users_exec, if_neg hv]

theorem holds_exec_other (s : Deployment) (uid : String) (call : Call) {v : String}
    (hv : v ≠ uid) (pair : Pair) : (s.exec sha256 oracle (.user uid call)).1.holds v pair =
      s.holds v pair := by
  rw [Deployment.holds, users_exec_other sha256 oracle s uid call v hv, Deployment.holds]

theorem spares_exec {s : Deployment} {uid : String} {call : Call}
    (h : SparesPairs (s.objects.users uid) ((s.objects.users uid).call sha256 call).1)
    (v : String) :
    SparesPairs (s.objects.users v)
      ((s.exec sha256 oracle (.user uid call)).1.objects.users v) := by
  rw [users_exec]
  split
  · next hv =>
    rw [hv]
    exact h
  · exact .refl _

/-- What an object holds after it stored one more identity. -/
theorem holds_stored {s : Deployment} {uid : String} (id : String) {pair : Pair} {call : Call}
    (hkeys : ∀ key, key ∈ identityKeys ((s.objects.users uid).call sha256 call).1 ↔
      key ∈ identityKeys (s.objects.users uid) ∨ key = (id, pair)) (v : String) (x : Pair) :
    (s.exec sha256 oracle (.user uid call)).1.holds v x = true ↔
      s.holds v x = true ∨ v = uid ∧ x = pair := by
  by_cases hv : v = uid
  · subst hv
    rw [holds_iff, holds_iff, users_exec_self]
    simp only [hkeys, Prod.mk.injEq, true_and]
    constructor
    · rintro ⟨id', hmem | ⟨-, hx⟩⟩
      · exact .inl ⟨id', hmem⟩
      · exact .inr hx
    · rintro (⟨id', hmem⟩ | hx)
      · exact ⟨id', .inl hmem⟩
      · exact ⟨id, .inr ⟨rfl, hx⟩⟩
  · rw [holds_exec_other sha256 oracle s uid call hv]
    simp [hv]

end Calls

theorem knownId_stored {id : String} (h : ¬ Irregular t.log) (hstored : storedId entry = some id) :
    KnownId s₀ (.thread i t entry :: effects) id := by
  refine .inr (List.mem_filterMap.mpr ⟨_, List.mem_cons_self, ?_⟩)
  exact (storedFrom_of_regular h entry).trans hstored

/-! ### The steps -/

abbrev KeepsInv (s₀ : Deployment) (sha256 : String → Bytes) (oracle : Oracle) (c : LinkConfig)
    (effects : List LinkEffect) (i : ℕ) (t : LinkThread) (op : Op) (prog : Handler LinkResponse) :
    Prop :=
  LinkInv s₀ ⟨(c.shared.exec sha256 oracle op).1,
      c.threads.set i ⟨t.request, ⟨op, (c.shared.exec sha256 oracle op).2⟩ :: t.log, prog⟩⟩
    (.thread i t ⟨op, (c.shared.exec sha256 oracle op).2⟩ :: effects)

section Calls
variable {sha256 : String → Bytes} {oracle : Oracle}

theorem linkInv_spares {uid : String} {call : Call} (h : LinkInv s₀ c effects)
    (hi : c.threads[i]? = some t) (hspares : sparesPairs call = true) :
    KeepsInv s₀ sha256 oracle c effects i t (.user uid call) prog := by
  have haside : Aside (.user uid call) := hspares
  refine h.quiet hi (spares_exec sha256 oracle (sparesPairs_call sha256 _ hspares)) (fun _ => rfl)
    (fun _ hrow => hrow) (stand_aside haside _) ?_ ?_ _
  · intro v id pair hlisted
    by_cases hcall : call = .listIdentities
    · subst hcall
      have hreply : (c.shared.exec sha256 oracle (.user uid .listIdentities)).2 =
          ((c.shared.objects.users uid).call sha256 .listIdentities).2 := rfl
      rw [hreply] at hlisted
      cases hr : ((c.shared.objects.users uid).call sha256 .listIdentities).2 with
      | identities result =>
        rw [hr] at hlisted
        cases result with
        | ok rows =>
          by_cases huid : uid = v
          · subst huid
            simp only [listedPair, if_true] at hlisted
            obtain ⟨row, hfound, rfl⟩ := Option.map_eq_some_iff.mp hlisted
            have hid : row.id = id := by simpa using List.find?_some hfound
            right
            rw [← hid]
            exact listIdentities_keys sha256 hr row (List.mem_of_find?_eq_some hfound)
          · simp only [listedPair, if_neg huid] at hlisted
            exact .inl hlisted
        | fail e => exact .inl hlisted
        | thrown e => exact .inl hlisted
      | _ =>
        rw [hr] at hlisted
        exact .inl hlisted
    · rw [listedPair_skip hcall] at hlisted
      exact .inl hlisted
  · cases call <;> first | rfl | cases hspares

/-- A user's first call stores the claimed pair. -/
theorem linkInv_init {uid : String} {p : InitProfile} {now : ℤ} {identities : List NewIdentity}
    (h : LinkInv s₀ c effects) (hi : c.threads[i]? = some t)
    (hpermits : LinkPermits t.log (.user uid (.init p now identities)))
    (hnew : ∀ id ∈ heldIds t.log, ¬ KnownId s₀ effects id) :
    KeepsInv s₀ sha256 oracle c effects i t (.user uid (.init p now identities)) prog := by
  obtain ⟨hid, identity, rfl, hcreates, hheld⟩ := hpermits
  obtain ⟨-, hnone, halive⟩ := h.lifecycle.creating i t uid _ hi hcreates
  have hblank := h.lifecycle.blank uid hnone
  obtain ⟨profile, hreply, huser, halive', hkeys⟩ :=
    init_blank sha256 halive hnone hblank p now identity
  have hregular := h.regular t (List.mem_of_getElem? hi)
  have hanswer : (c.shared.exec sha256 oracle (.user uid (.init p now [identity]))).2 =
      .profile (.ok profile) := hreply
  rw [KeepsInv, hanswer]
  have hstand : stand (⟨.user uid (.init p now [identity]), .profile (.ok profile)⟩ :: t.log) =
      none := rfl
  have hknown : KnownId s₀ (.thread i t ⟨.user uid (.init p now [identity]),
      .profile (.ok profile)⟩ :: effects) identity.id := knownId_stored hregular rfl
  constructor
  · refine h.index.step (.store i uid (identityPair identity) ?_ ?_ (fun _ => rfl) ?_
      (ledger_stands_other (i := i)))
    · rw [ledger_stands hi, hcreates]
      rfl
    · refine holds_stored sha256 oracle identity.id fun key => ?_
      rw [hkeys, hblank]
      simp
    · rw [ledger_stands_self hi, hstand]
      rfl
  · refine h.lifecycle.initialized hi hcreates (users_exec_other sha256 oracle _ uid _) rfl ?_ ?_
      hstand
    · rwa [users_exec_self]
    · rwa [users_exec_self]
  · refine h.listings.stored uid identity.id (identityPair identity) hi
      (hnew _ hheld) (users_exec_other sha256 oracle _ uid _) ?_ (fun _ _ => rfl) hknown
    intro key hkey
    rw [users_exec_self, hkeys] at hkey
    exact .inr (List.mem_singleton.mp hkey)
  · exact h.regular_set hi rfl

/-- A linked object stores the claimed pair, or its row is owed. -/
theorem linkInv_addIdentity {uid : String} {identity : NewIdentity} {now : ℤ}
    (h : LinkInv s₀ c effects) (hi : c.threads[i]? = some t)
    (hpermits : LinkPermits t.log (.user uid (.addIdentity identity now)))
    (hnew : ∀ id ∈ heldIds t.log, ¬ KnownId s₀ effects id) :
    KeepsInv s₀ sha256 oracle c effects i t (.user uid (.addIdentity identity now)) prog := by
  obtain ⟨hlinks, hheld⟩ := hpermits
  have hregular := h.regular t (List.mem_of_getElem? hi)
  have hclaims : (ledger c).stands i = some (.claims uid (identityPair identity)) := by
    rw [ledger_stands hi, hlinks]
    rfl
  rcases addIdentity_cases sha256 (c.shared.objects.users uid) identity now with
    ⟨e, hcall⟩ | ⟨row, hreply, huser, hdestroyed, hkeys⟩
  · have hanswer : (c.shared.exec sha256 oracle (.user uid (.addIdentity identity now))).2 =
        .identity (.fail e) := congrArg Prod.snd hcall
    have hkept : SparesPairs (c.shared.objects.users uid)
        ((c.shared.objects.users uid).call sha256 (.addIdentity identity now)).1 := by
      rw [hcall]
      exact .refl _
    have hspares := spares_exec sha256 oracle hkept
    rw [KeepsInv, hanswer]
    have hstand : stand (⟨.user uid (.addIdentity identity now), .identity (.fail e)⟩ :: t.log) =
        some (.owes (identityPair identity)) := rfl
    constructor
    · refine h.index.step (.fail i uid (identityPair identity) hclaims (holds_of_spares hspares)
        (fun _ => rfl) ?_ (ledger_stands_other (i := i)))
      rw [ledger_stands_self hi, hstand]
      rfl
    · refine h.lifecycle.same hi (fun v => (hspares v).user) (fun v => (hspares v).destroyed)
        (fun v hnone => ?_) (fun _ hrow => hrow) ?_
      · rw [(hspares v).keys]
        exact h.lifecycle.blank v hnone
      · intro v pair hcreates
        cases hstand.symm.trans hcreates
    · refine h.listings.same hi (fun v key hkey => ?_) (fun v id pair hlisted => ?_) _
      · rwa [(hspares v).keys] at hkey
      · exact .inl hlisted
    · exact h.regular_set hi rfl
  · have hanswer : (c.shared.exec sha256 oracle (.user uid (.addIdentity identity now))).2 =
        .identity (.ok row) := hreply
    rw [KeepsInv, hanswer]
    have hstand : stand (⟨.user uid (.addIdentity identity now), .identity (.ok row)⟩ :: t.log) =
        none := rfl
    have hknown : KnownId s₀ (.thread i t ⟨.user uid (.addIdentity identity now),
        .identity (.ok row)⟩ :: effects) identity.id := knownId_stored hregular rfl
    have hinitialized : (c.shared.objects.users uid).tables.user ≠ none := by
      intro hnone
      have hrefused : (c.shared.objects.users uid).call sha256 (.addIdentity identity now) =
          (c.shared.objects.users uid, .identity (.fail (if (c.shared.objects.users uid).destroyed
            then .userDestroyed else .userNotInitialized))) := by
        simp only [UserObject.call, answered, UserObject.addIdentity, UserObject.guarded,
          UserObject.guard, hnone]
        cases (c.shared.objects.users uid).destroyed <;> rfl
      rw [hrefused] at hreply
      cases hreply
    constructor
    · refine h.index.step (.store i uid (identityPair identity) hclaims ?_ (fun _ => rfl) ?_
        (ledger_stands_other (i := i)))
      · refine holds_stored sha256 oracle identity.id fun key => ?_
        rw [hkeys]
        simp
      · rw [ledger_stands_self hi, hstand]
        rfl
    · refine h.lifecycle.same hi (fun v => ?_) (fun v => ?_) (fun v hnone => ?_)
        (fun _ hrow => hrow) ?_
      · rw [users_exec]
        split
        · next hv => rw [hv, huser]
        · rfl
      · rw [users_exec]
        split
        · next hv => rw [hv, hdestroyed]
        · rfl
      · have hv : v ≠ uid := fun heq => hinitialized (heq ▸ hnone)
        rw [users_exec_other sha256 oracle _ uid _ v hv]
        exact h.lifecycle.blank v hnone
      · intro v pair hcreates
        cases hstand.symm.trans hcreates
    · refine h.listings.stored uid identity.id (identityPair identity) hi
        (hnew _ hheld) (users_exec_other sha256 oracle _ uid _) ?_ (fun _ _ => rfl) hknown
      intro key hkey
      rw [users_exec_self, hkeys] at hkey
      simpa using hkey
    · exact h.regular_set hi rfl

/-- An object drops the pair under the listed id, and its row is owed. -/
theorem linkInv_removeIdentity {uid id : String} {actor : RemovalActor}
    (h : LinkInv s₀ c effects) (hi : c.threads[i]? = some t)
    (hpermits : LinkPermits t.log (.user uid (.removeIdentity id actor))) :
    KeepsInv s₀ sha256 oracle c effects i t (.user uid (.removeIdentity id actor)) prog := by
  obtain ⟨hidle, hsome⟩ := hpermits
  obtain ⟨pair, hlisted⟩ := Option.isSome_iff_exists.mp hsome
  have ht := List.mem_of_getElem? hi
  rcases removeIdentity_cases sha256 (c.shared.objects.users uid) id actor with
    ⟨hreply, hspares⟩ | ⟨hreply, huser, hdestroyed, hkeys⟩
  · exact h.quiet hi (spares_exec sha256 oracle hspares) (fun _ => rfl) (fun _ hrow => hrow)
      (stand_not_removed hreply) (fun _ _ _ hlisted' => .inl hlisted') rfl _
  · have hanswer : (c.shared.exec sha256 oracle (.user uid (.removeIdentity id actor))).2 =
        .flag (.ok true) := hreply
    rw [KeepsInv, hanswer]
    have hstand := stand_removed actor hlisted
    have hsub : ∀ v, ∀ key ∈ identityKeys
        ((c.shared.exec sha256 oracle (.user uid (.removeIdentity id actor))).1.objects.users v),
        key ∈ identityKeys (c.shared.objects.users v) := by
      intro v key hkey
      rw [users_exec] at hkey
      split at hkey
      · next hv =>
        rw [hkeys] at hkey
        rw [hv]
        exact List.mem_of_mem_filter hkey
      · exact hkey
    constructor
    · refine h.index.step (.drop i uid pair ?_ ?_ ?_ (fun _ => rfl) ?_
        (ledger_stands_other (i := i)))
      · rw [ledger_stands hi, hidle]
        rfl
      · intro v x hv
        obtain ⟨id', hmem⟩ := holds_iff.mp hv
        exact holds_iff.mpr ⟨id', hsub v _ hmem⟩
      · intro v x hv hkept
        obtain ⟨id', hmem⟩ := holds_iff.mp hv
        refine holds_iff.mpr ⟨id', ?_⟩
        rw [users_exec]
        split
        · next hvu =>
          subst hvu
          rw [hkeys]
          refine List.mem_filter.mpr ⟨hmem, ?_⟩
          have hne : id' ≠ id := by
            rintro rfl
            exact hkept ⟨rfl, h.listings.listed t ht v id' pair hlisted x hmem⟩
          simpa using hne
        · exact hmem
      · rw [ledger_stands_self hi, hstand]
        rfl
    · refine h.lifecycle.same hi (fun v => ?_) (fun v => ?_) (fun v hnone => ?_)
        (fun _ hrow => hrow) ?_
      · rw [users_exec]
        split
        · next hv => rw [hv, huser]
        · rfl
      · rw [users_exec]
        split
        · next hv => rw [hv, hdestroyed]
        · rfl
      · have hnil := h.lifecycle.blank v hnone
        refine List.eq_nil_iff_forall_not_mem.mpr fun key hkey => ?_
        have hmem := hsub v key hkey
        rw [hnil] at hmem
        cases hmem
      · intro v pair' hcreates
        cases hstand.symm.trans hcreates
    · refine h.listings.same hi hsub (fun v x pair' hlisted' => ?_) _
      exact .inl hlisted'
    · exact h.regular_set hi rfl

/-! The statements. -/

theorem linkInv_insertIdentity {issuer subject uid : String} {now : ℤ} (h : LinkInv s₀ c effects)
    (hi : c.threads[i]? = some t) (hidle : stand t.log = none) :
    KeepsInv s₀ sha256 oracle c effects i t (.ask (.insertIdentity issuer subject uid now))
      prog := by
  cases hinsert : c.shared.directory.insertIdentity issuer subject uid now with
  | error e =>
    have hexec : c.shared.exec sha256 oracle (.ask (.insertIdentity issuer subject uid now)) =
        (c.shared, false) := by
      simp [Deployment.exec, respond, hinsert]
    rw [KeepsInv, hexec]
    refine h.quiet hi (fun _ => .refl _) (fun _ => rfl) (fun _ hrow => hrow) ?_ ?_ rfl _
    · exact hidle.symm
    · exact fun _ _ _ hlisted => .inl hlisted
  | ok d =>
    have hexec : c.shared.exec sha256 oracle (.ask (.insertIdentity issuer subject uid now)) =
        ({ c.shared with directory := d }, true) := by
      simp [Deployment.exec, respond, hinsert]
    obtain ⟨hfree, husers, howner⟩ := insertIdentity_ok hinsert
    have hstand : stand (⟨.ask (.insertIdentity issuer subject uid now), true⟩ :: t.log) =
        some (.links uid (issuer, subject)) := rfl
    rw [KeepsInv, hexec]
    constructor
    · refine h.index.step (.claim i uid (issuer, subject) ?_ hfree (fun _ _ => .rfl) ?_
        (fun x hx => ?_) ?_ (ledger_stands_other (i := i)))
      · rw [ledger_stands hi, hidle]
        rfl
      · exact (howner _).trans (if_pos rfl)
      · exact (howner x).trans (if_neg hx)
      · rw [ledger_stands_self hi, hstand]
        rfl
    · refine h.lifecycle.same hi (fun _ => rfl) (fun _ => rfl) h.lifecycle.blank
        (fun v hrow => ?_) fun v pair hcreates => ?_
      · unfold Registered
        rwa [husers]
      · cases hstand.symm.trans hcreates
    · refine h.listings.beside hi ?_ ?_ _
      · rfl
      · exact fun _ _ => rfl
    · exact h.regular_set hi rfl

theorem linkInv_claimUser {user : NewUser} {now : ℤ} (h : LinkInv s₀ c effects)
    (hi : c.threads[i]? = some t) (hpermits : LinkPermits t.log (.ask (.claimUser user now)))
    (halive : ∀ id, (⟨.ask .newUuid, id⟩ : Entry Op.Answer) ∈ t.log →
      (s₀.objects.users id).destroyed = false) :
    KeepsInv s₀ sha256 oracle c effects i t (.ask (.claimUser user now)) prog := by
  obtain ⟨hidle, hdrawn, identity, hidentities⟩ := hpermits
  cases hclaim : claimUser c.shared.directory user now with
  | error e =>
    have hexec : c.shared.exec sha256 oracle (.ask (.claimUser user now)) =
        (c.shared, .error e) := by
      simp [Deployment.exec, respond, hclaim]
    rw [KeepsInv, hexec]
    refine h.quiet hi (fun _ => .refl _) (fun _ => rfl) (fun _ hrow => hrow) ?_ ?_ rfl _
    · exact hidle.symm
    · exact fun _ _ _ hlisted => .inl hlisted
  | ok d =>
    have hexec : c.shared.exec sha256 oracle (.ask (.claimUser user now)) =
        ({ c.shared with directory := d }, .ok ()) := by
      simp [Deployment.exec, respond, hclaim]
    have hclaimed := claimUser_ok hidentities hclaim
    have hstand : stand (⟨.ask (.claimUser user now), .ok ()⟩ :: t.log) =
        some (.creates user.id (identityPair identity)) := by
      simp [stand, hidentities]
    rw [KeepsInv, hexec]
    constructor
    · refine h.index.step (.claim i user.id (identityPair identity) ?_ hclaimed.free
        (fun _ _ => .rfl) ?_ (fun x hx => ?_) ?_ (ledger_stands_other (i := i)))
      · rw [ledger_stands hi, hidle]
        rfl
      · exact (hclaimed.owner _).trans (if_pos rfl)
      · exact (hclaimed.owner x).trans (if_neg hx)
      · rw [ledger_stands_self hi, hstand]
        rfl
    · exact h.lifecycle.claimed hclaimed (halive _ hdrawn) hstand
    · refine h.listings.beside hi ?_ ?_ _
      · rfl
      · exact fun _ _ => rfl
    · exact h.regular_set hi rfl

theorem linkInv_releaseIdentity {issuer subject : String} (h : LinkInv s₀ c effects)
    (hi : c.threads[i]? = some t)
    (hpermits : LinkPermits t.log (.ask (.releaseIdentity issuer subject)))
    (hhead : t.prog.head = some (.ask (.releaseIdentity issuer subject)))
    (hsafe : releaseSafe c (.step i oracle) = true) :
    KeepsInv s₀ sha256 oracle c effects i t (.ask (.releaseIdentity issuer subject)) prog := by
  simp only [releaseSafe, hi, Option.bind_some, hhead, Bool.and_eq_true, List.all_eq_true,
    bne_iff_ne, ne_eq] at hsafe
  obtain ⟨hnobody, hunclaimed⟩ := hsafe
  have howner := ownerOf_release c.shared.directory issuer subject
  constructor
  · refine h.index.step (.release i (issuer, subject) ?_ ⟨?_, ?_⟩ (fun _ _ => .rfl) ?_
      (fun x hx => ?_) ?_ (ledger_stands_other (i := i)))
    · intro s hs
      rw [ledger_stands hi] at hs
      rcases hpermits with hidle | howes
      · rw [hidle] at hs
        cases hs
      · rw [howes] at hs
        cases hs
        rfl
    · intro u hu hholds
      have hfree := Option.all_eq_true _ _ |>.mp hnobody u hu
      rw [Bool.not_eq_true'] at hfree
      exact Bool.false_ne_true (hfree.symm.trans hholds)
    · intro j u hj
      simp only [ledger, Option.bind_eq_some_iff, Option.map_eq_some_iff] at hj
      obtain ⟨t₁, ht₁, st, hst, heq⟩ := hj
      refine hunclaimed t₁ (List.mem_of_getElem? ht₁) ?_
      rw [hst]
      cases st <;> cases heq <;> rfl
    · exact (howner _).trans (if_pos rfl)
    · exact (howner x).trans (if_neg hx)
    · rw [ledger_stands_self hi]
      rfl
  · refine h.lifecycle.same hi (fun _ => rfl) (fun _ => rfl) h.lifecycle.blank
      (fun _ hrow => hrow) fun v pair hcreates => ?_
    cases hcreates
  · refine h.listings.beside hi ?_ ?_ _
    · rfl
    · exact fun _ _ => rfl
  · exact h.regular_set hi rfl

/-- One call of a request, when a release is safe. -/
theorem linkInv_thread {op : Op} (h : LinkInv s₀ c effects) (hi : c.threads[i]? = some t)
    (hpermits : LinkPermits t.log op) (hhead : t.prog.head = some op)
    (hsafe : releaseSafe c (.step i oracle) = true)
    (hnew : ∀ id ∈ heldIds t.log, ¬ KnownId s₀ effects id)
    (halive : ∀ id, (⟨.ask .newUuid, id⟩ : Entry Op.Answer) ∈ t.log →
      (s₀.objects.users id).destroyed = false) :
    KeepsInv s₀ sha256 oracle c effects i t op prog := by
  cases op with
  | interaction id call =>
    refine h.quiet hi ?_ ?_ ?_ ?_ ?_ ?_ _
    · exact fun _ => .refl _
    · exact fun _ => rfl
    · exact fun _ hrow => hrow
    · rfl
    · exact fun _ _ _ hlisted => .inl hlisted
    · rfl
  | user uid call =>
    cases call with
    | init p now identities => exact linkInv_init h hi hpermits hnew
    | addIdentity identity now => exact linkInv_addIdentity h hi hpermits hnew
    | removeIdentity id actor => exact linkInv_removeIdentity h hi hpermits
    | getProfile | listGrants _ | verifyAssertion _ _ | resumeAssertion _ _ | listIdentities
    | touchIdentity _ _ _ _ => exact linkInv_spares h hi rfl
    | _ => cases hpermits
  | ask question =>
    have haside : Aside (.ask question) →
        KeepsInv s₀ sha256 oracle c effects i t (.ask question) prog := by
      intro haside
      obtain ⟨howner, hregistered⟩ := respond_aside c.shared.directory oracle haside
      refine h.quiet hi ?_ howner hregistered (stand_aside haside _) ?_ ?_ _
      · exact fun _ => .refl _
      · exact fun _ _ _ hlisted => .inl hlisted
      · rfl
    cases question with
    | insertIdentity issuer subject uid now => exact linkInv_insertIdentity h hi hpermits
    | claimUser user now => exact linkInv_claimUser h hi hpermits halive
    | releaseIdentity issuer subject => exact linkInv_releaseIdentity h hi hpermits hhead hsafe
    | _ => exact haside trivial

end Calls

theorem LinkInv.outside (h : LinkInv s₀ c effects) {id : String} {call : InteractionCall}
    (sha256 : String → Bytes) (oracle : Oracle) (effect : LinkEffect) :
    LinkInv s₀ ⟨(c.shared.exec sha256 oracle (.interaction id call)).1, c.threads⟩
      (effect :: effects) where
  index := h.index.rest (fun _ _ => .rfl) (fun _ => rfl) fun _ => rfl
  lifecycle := ⟨h.lifecycle.registered, h.lifecycle.blank, h.lifecycle.destroyed,
    h.lifecycle.creating, h.lifecycle.creator⟩
  listings := ⟨h.listings.listed,
    fun t ht uid id pair hlisted => (h.listings.recorded t ht uid id pair hlisted).cons effect,
    fun uid key hkey => (h.listings.known uid key hkey).cons effect⟩
  regular := h.regular

theorem LinkInv.spawn (h : LinkInv s₀ c effects) (q : LinkRequest) (prog : Handler LinkResponse) :
    LinkInv s₀ ⟨c.shared, c.threads ++ [⟨q, [], prog⟩]⟩ effects := by
  have hcases : ∀ (j : ℕ) (t₁ : LinkThread), (c.threads ++ [⟨q, [], prog⟩])[j]? = some t₁ →
      c.threads[j]? = some t₁ ∨ t₁.log = [] := by
    intro j t₁ hj
    rw [List.getElem?_append] at hj
    split at hj
    · exact .inl hj
    · have hmem := List.mem_of_getElem? hj
      rw [List.mem_singleton.mp hmem]
      exact .inr rfl
  have hmem : ∀ t₁ ∈ c.threads ++ [(⟨q, [], prog⟩ : LinkThread)], t₁ ∈ c.threads ∨ t₁.log = [] := by
    intro t₁ ht₁
    rcases List.mem_append.mp ht₁ with ht₁ | ht₁
    · exact .inl ht₁
    · rw [List.mem_singleton.mp ht₁]
      exact .inr rfl
  constructor
  · refine h.index.rest (fun _ _ => .rfl) (fun _ => rfl) fun j => ?_
    simp only [ledger]
    rw [List.getElem?_append]
    split
    · rfl
    · next hj =>
      rw [List.getElem?_eq_none (Nat.le_of_not_lt hj)]
      cases hk : j - c.threads.length with
      | zero => rfl
      | succ k => rfl
  · refine ⟨h.lifecycle.registered, h.lifecycle.blank, h.lifecycle.destroyed, ?_, ?_⟩
    · intro j t₁ uid pair hj hstand
      rcases hcases j t₁ hj with hj | hlog
      · exact h.lifecycle.creating j t₁ uid pair hj hstand
      · rw [hlog] at hstand
        cases hstand
    · intro j k t₁ t₂ uid pair pair' hj hk hstand₁ hstand₂
      rcases hcases j t₁ hj with hj | hlog
      · rcases hcases k t₂ hk with hk | hlog
        · exact h.lifecycle.creator j k t₁ t₂ uid pair pair' hj hk hstand₁ hstand₂
        · rw [hlog] at hstand₂
          cases hstand₂
      · rw [hlog] at hstand₁
        cases hstand₁
  · refine ⟨?_, ?_, h.listings.known⟩
    · intro t₁ ht₁ uid id pair hlisted
      rcases hmem t₁ ht₁ with ht₁ | hlog
      · exact h.listings.listed t₁ ht₁ uid id pair hlisted
      · rw [hlog] at hlisted
        cases hlisted
    · intro t₁ ht₁ uid id pair hlisted
      rcases hmem t₁ ht₁ with ht₁ | hlog
      · exact h.listings.recorded t₁ ht₁ uid id pair hlisted
      · rw [hlog] at hlisted
        cases hlisted
  · intro t₁ ht₁
    rcases hmem t₁ ht₁ with ht₁ | hlog
    · exact h.regular t₁ ht₁
    · simp [Irregular, hlog]

end Steps

/-! ### Runs -/

theorem linkInv_start {s : Deployment} (hexact : Exact s) : LinkInv s ⟨s, []⟩ [] := by
  have hnone : ∀ (j : ℕ) (t : LinkThread), ([] : List LinkThread)[j]? ≠ some t := by
    intro j t hj
    cases hj
  constructor
  · refine ⟨?_, nofun, nofun, ?_⟩
    · intro uid pair hholds
      exact (hexact.indexed pair uid).mpr hholds
    · intro pair uid howner
      exact .inl ((hexact.indexed pair uid).mp howner)
  · refine ⟨hexact.registered, hexact.blank, fun _ hgone => hgone, ?_, ?_⟩
    · intro j t _ _ hj
      exact absurd hj (hnone j t)
    · intro j _ t _ _ _ _ hj
      exact absurd hj (hnone j t)
  · refine ⟨?_, ?_, fun uid key hkey => .inl ⟨uid, key, hkey, rfl⟩⟩
    · intro t ht
      cases ht
    · intro t ht
      cases ht
  · intro t ht
    cases ht

theorem linkInv_run {sha256 : String → Bytes} {s : Deployment} {steps : List LinkStep}
    (hexact : Exact s) (hfresh : FreshUuids s ((linking sha256).effects s steps))
    (hsafe : ReleasesSafe sha256 s steps) :
    LinkInv s ((linking sha256).after s steps) ((linking sha256).effects s steps) := by
  refine System.run_invariant (linking_follows sha256)
    (C := fun steps => FreshUuids s ((linking sha256).effects s steps) ∧
      ReleasesSafe sha256 s steps)
    (J := fun c effects => LinkInv s c effects) ?_ ?_ ?_ ?_ ?_ steps ⟨hfresh, hsafe⟩
  · rintro l steps ⟨hfresh, -, hsafe⟩
    rw [System.effects, System.effectsFrom_cons] at hfresh
    exact ⟨hfresh.earlier, hsafe⟩
  · exact linkInv_start hexact
  · intro steps q hinv
    exact hinv.spawn q _
  · rintro steps i t op oracle prog ⟨hfresh, hsafe, -⟩ - hinv hi hhead hpermits
    rw [System.effects, System.effectsFrom_cons] at hfresh
    have hregular := hinv.regular t (List.mem_of_getElem? hi)
    refine linkInv_thread hinv hi (hpermits.resolve_left hregular) hhead hsafe ?_ ?_
    · exact fun id hheld => not_known_of_held hfresh.earlier hi hheld
    · exact fun id hlog => hfresh.earlier.alive id (mem_drawn_of_log (List.mem_of_getElem? hi) hlog)
  · intro steps op oracle hinv hout
    cases op with
    | interaction id call => exact hinv.outside sha256 oracle _
    | user uid call => cases hout
    | ask question => cases hout

/-- At most one user's object holds a pair, and at rest the index names the holder of each. -/
theorem identity_of_one_account_of_safe_releases (sha256 : String → Bytes) (s : Deployment)
    (steps : List LinkStep) (hexact : Exact s)
    (hfresh : FreshUuids s ((linking sha256).effects s steps))
    (hsafe : ReleasesSafe sha256 s steps) :
    (∀ pair u v, ((linking sha256).after s steps).shared.holds u pair = true →
      ((linking sha256).after s steps).shared.holds v pair = true → u = v) ∧
    ((∀ t ∈ ((linking sha256).after s steps).threads, t.prog.result.isSome = true) →
      ∀ pair uid, ownerOf ((linking sha256).after s steps).shared.directory pair = some uid ↔
        ((linking sha256).after s steps).shared.holds uid pair = true) := by
  have hinv := linkInv_run hexact hfresh hsafe
  refine ⟨fun pair u v hu hv => hinv.index.one_owner hu hv, fun hreturned pair uid => ?_⟩
  refine hinv.index.exact fun i => ?_
  cases hi : ((linking sha256).after s steps).threads[i]? with
  | none => simp [ledger, hi]
  | some t =>
    have ht := List.mem_of_getElem? hi
    have hends := System.thread_obeys_to (S := linking sha256) linking_obeys s steps t ht
    have hdone := hreturned t ht
    cases hprog : t.prog with
    | call op next =>
      rw [hprog] at hdone
      cases hdone
    | done a =>
      rw [hprog] at hends
      have hsettled : stand t.log = none := hends.resolve_left (hinv.regular t ht)
      rw [ledger_stands hi, hsettled]
      rfl

/-! ### A release that comes late -/

namespace Sample
open TinyOidc.Interaction.Sample (ix iy settings)

def issuer : String := "https://up.test"

def pair : Pair := (issuer, "p")

def identity (id subject : String) : NewIdentity := ⟨id, issuer, subject, none, none, none⟩

def registered : Account.RegistryUser := ⟨"u1", none, none, false, none, .active, 0, 0⟩

/-- A user with two identities. -/
def linked : Deployment where
  directory :=
    { Account.Directory.empty with
      users := ⟨[registered], by decide⟩
      identities := ⟨[⟨issuer, "p", "u1", 0⟩, ⟨issuer, "q", "u1", 0⟩], by decide⟩
      verifiedEmails := by decide }
  objects :=
    { World.fresh with
      users := Function.update (fun _ => UserObject.fresh) "u1"
        (UserObject.fresh.init ⟨"u1", none, none, false, none, []⟩ 0
          [identity "i1" "p", identity "i2" "q"]).1 }

/-- The upstream names the subject `p`; `uuid` is the next UUID. -/
def oracle (uuid : String) : Oracle
  | .newUuid => uuid
  | .settings => some { settings with registrationMode := .openToAll, autoCreate := true }
  | .upstream upstreamAlias => some (some ⟨upstreamAlias, issuer, true⟩)
  | .upstreamMetadata _ => true
  | .upstreamClaims _ _ _ => .ok ⟨"p", none, false, none⟩
  | question => Interaction.Sample.oracle ix question

def proceed (thread count : ℕ) (uuid : String) : List LinkStep :=
  List.replicate count (.step thread (oracle uuid))

/-- An interaction whose user has gone to the upstream. -/
def sent (id : String) : List LinkStep :=
  [.outside (.interaction id (.create
      { id := id, kind := .authorize, status := .loginRequired
        bindingHash := Util.encodeBase64Url [1], clientId := some "app" } 0 600)) (oracle ""),
    .outside (.interaction id (.patch
      { federation := some (some ⟨"up", Util.encodeBase64Url [1], "n", "v", 300, none⟩) } 0))
      (oracle "")]

def callback (id : String) : LinkStep :=
  .spawn (.callback false (some ⟨id, [1]⟩) (some ⟨id, [1]⟩) none (some "code"))

/-- The user unlinks the identity, and then logs in with it as somebody new. -/
def unlinkedBefore : List LinkStep :=
  (.spawn (.unlink "u1" "i1") :: proceed 0 3 "" ++ sent ix ++ callback ix :: proceed 1 11 "v" ++
    proceed 1 10 "iv").reverse

/-- The login overtakes the release of the unlink, and so does not outlive it. -/
def unlinkedDuring : List LinkStep :=
  (.spawn (.unlink "u1" "i1") :: proceed 0 2 "" ++ sent ix ++ callback ix :: proceed 1 13 "v" ++
    proceed 1 10 "iv" ++ proceed 0 1 "" ++ sent iy ++ callback iy :: proceed 2 11 "w" ++
    proceed 2 10 "iw").reverse

theorem linked_users {uid : String} (h : uid ≠ "u1") :
    linked.objects.users uid = UserObject.fresh := by
  simp [linked, h]

theorem linked_keys : identityKeys (linked.objects.users "u1") =
    [("i1", issuer, "p"), ("i2", issuer, "q")] := by
  decide

theorem linked_owner (pair : Pair) : ownerOf linked.directory pair =
    if pair = (issuer, "p") ∨ pair = (issuer, "q") then some "u1" else none := by
  by_cases hp : pair = (issuer, "p")
  · subst hp
    decide
  · by_cases hq : pair = (issuer, "q")
    · subst hq
      decide
    · rw [if_neg (not_or.mpr ⟨hp, hq⟩)]
      simp [ownerOf, RowTable.Table.find, linked, Account.IdentityIndexRow.pair, Ne.symm hp,
        Ne.symm hq]

theorem linked_exact : Exact linked := by
  constructor
  · intro pair uid
    rw [linked_owner, holds_iff]
    by_cases huid : uid = "u1"
    · subst huid
      rw [linked_keys]
      simp [exists_or]
      tauto
    · rw [linked_users huid]
      simp [identityKeys, Ne.symm huid, UserObject.fresh, Tables.empty]
  · intro uid hinitialized
    by_cases huid : uid = "u1"
    · subst huid
      unfold Registered
      decide
    · rw [linked_users huid] at hinitialized
      exact absurd rfl hinitialized
  · intro uid hnone
    by_cases huid : uid = "u1"
    · subst huid
      exact absurd hnone (by decide)
    · rw [linked_users huid]
      rfl

theorem linked_freshUuids {effects : List LinkEffect}
    (hdrawn : (drawnIn drawnUuid effects).Nodup ∧
      ∀ id ∈ drawnIn drawnUuid effects, id ≠ "u1" ∧ id ≠ "i1" ∧ id ≠ "i2") :
    FreshUuids linked effects := by
  obtain ⟨hdistinct, hnew⟩ := hdrawn
  constructor
  · exact hdistinct
  · intro id hid
    rw [linked_users (hnew id hid).1]
    rfl
  · intro id hid uid key hkey
    by_cases huid : uid = "u1"
    · subst huid
      rw [linked_keys] at hkey
      have hids := hnew id hid
      have hkeys : key.1 = "i1" ∨ key.1 = "i2" := by
        simp only [List.mem_cons, List.not_mem_nil, or_false] at hkey
        rcases hkey with rfl | rfl
        · exact .inl rfl
        · exact .inr rfl
      rintro rfl
      rcases hkeys with hone | htwo
      · exact hids.2.1 hone
      · exact hids.2.2 htwo
    · rw [linked_users huid] at hkey
      cases hkey

end Sample

theorem identity_of_one_account_sample :
    (∀ pair u v,
      ((linking fun _ => []).after Sample.linked Sample.unlinkedBefore).shared.holds u pair =
        true →
      ((linking fun _ => []).after Sample.linked Sample.unlinkedBefore).shared.holds v pair =
        true → u = v) ∧
    ((∀ t ∈ ((linking fun _ => []).after Sample.linked Sample.unlinkedBefore).threads,
      t.prog.result.isSome = true) → ∀ pair uid,
      ownerOf ((linking fun _ => []).after Sample.linked Sample.unlinkedBefore).shared.directory
        pair = some uid ↔
      ((linking fun _ => []).after Sample.linked Sample.unlinkedBefore).shared.holds uid pair =
        true) :=
  identity_of_one_account_of_safe_releases (fun _ => []) Sample.linked Sample.unlinkedBefore
    Sample.linked_exact (Sample.linked_freshUuids (by decide +kernel)) (by decide +kernel)

/-- A release deletes the row of the account that took the identity in the meantime, and the next
login creates another account with it. -/
theorem identity_of_two_accounts :
    ¬ ∀ (sha256 : String → Bytes) (s : Deployment) (steps : List LinkStep), Exact s →
      FreshUuids s ((linking sha256).effects s steps) →
      ∀ pair u v, ((linking sha256).after s steps).shared.holds u pair = true →
        ((linking sha256).after s steps).shared.holds v pair = true → u = v := by
  intro hall
  have hsame := hall (fun _ => []) Sample.linked Sample.unlinkedDuring Sample.linked_exact
    (Sample.linked_freshUuids (by decide +kernel)) Sample.pair "v" "w" (by decide +kernel)
    (by decide +kernel)
  exact absurd hsame (by decide)

end TinyOidc.Identity
