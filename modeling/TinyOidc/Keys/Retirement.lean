import TinyOidc.Keys.Keystore
import TinyOidc.Lib.Machine

/-! Whether a signing key is retired while a token it signed is still valid: any schedule of
rotations, cron runs and requests, over any number of isolates with their own caches. -/
namespace TinyOidc.Keys
open RowTable

/-! ### The system -/

structure IssuedToken where
  kid : String
  exp : ℤ
  deriving DecidableEq, Repr

/-- The table, the cache of each isolate, the keys each request was served, and the tokens. -/
structure KeyWorld where
  table : KeyTable
  caches : ℕ → Option CachedKeys
  served : List CachedKeys
  tokens : List IssuedToken

/-- What happens next. A request takes its keys with `serve`, and signs with them in `issue` at
the time it reads then. -/
inductive KeyInput where
  | rotate (key : GeneratedKey) (now : ℤ) (immediate : Bool)
  | maintain (key : GeneratedKey) (now : ℤ)
  | refreshEarly (isolate : ℕ) (key : GeneratedKey) (now : ℤ) (read : D1Read)
  | invalidate (isolate : ℕ)
  | serve (isolate : ℕ) (key : GeneratedKey) (now : ℤ) (read : D1Read)
  | issue (request : ℕ) (now : ℤ) (client : ClientTtls) (openid : Bool)

/-- The reading of the clock an input takes effect at. -/
def KeyInput.time : KeyInput → Option ℤ
  | rotate _ now _ | maintain _ now | refreshEarly _ _ now _ | serve _ _ now _
  | issue _ now _ _ => some now
  | invalidate _ => none

/-- The access token and, with `openid`, the ID token of `userTokens`. -/
def issuedTokens (s : KeySettings) (keys : LoadedKeys) (client : ClientTtls) (now : ℤ)
    (openid : Bool) : List IssuedToken :=
  ⟨keys.signing, now + accessTtl s client⟩ ::
    if openid then [⟨keys.signing, now + idTtl s client⟩] else []

def step (m : KeyMaterial) (s : KeySettings) (w : KeyWorld) : KeyInput → KeyWorld × Unit
  | .rotate key now immediate =>
      match rotateSigningKey w.table key now s.prepublishSeconds immediate with
      | none => (w, ())
      | some table => ({ w with table := table }, ())
  | .maintain key now => ({ w with table := (maintainSigningKeys w.table key now s).1 }, ())
  | .refreshEarly isolate key now read =>
      let fetched := refresh m w.table (w.caches isolate) key now read
      ({ w with table := fetched.table
                caches := Function.update w.caches isolate fetched.cached }, ())
  | .invalidate isolate => ({ w with caches := Function.update w.caches isolate none }, ())
  | .serve isolate key now read =>
      let fetched := get m w.table (w.caches isolate) key now read
      let served := match fetched.keys with
        | .error _ => w.served
        | .ok keys => w.served ++ [keys]
      ({ w with table := fetched.table
                caches := Function.update w.caches isolate fetched.cached
                served := served }, ())
  | .issue request now client openid =>
      match w.served[request]? with
      | none => (w, ())
      | some keys =>
          ({ w with tokens := w.tokens ++ issuedTokens s keys.loaded client now openid }, ())

/-- The world after a schedule, newest input first, from a table and empty caches. -/
def after (m : KeyMaterial) (s : KeySettings) (t : KeyTable) (inputs : List KeyInput) : KeyWorld :=
  Machine.after (step m s) ⟨t, fun _ => none, [], []⟩ inputs

def times (inputs : List KeyInput) : List ℤ := inputs.filterMap (·.time)

def ClockForward (inputs : List KeyInput) : Prop := (times inputs).Pairwise (· ≥ ·)

instance (inputs : List KeyInput) : Decidable (ClockForward inputs) :=
  inferInstanceAs (Decidable ((times inputs).Pairwise (· ≥ ·)))

/-! ### The table over time -/

/-- What one operation at `now` does to the rows: keep one, add one that activates no earlier,
or retire one that a newer unretired key has superseded for long enough. -/
inductive RowStep (retireAfter now : ℤ) (t : KeyTable) : SigningKeyRow → Prop where
  | kept (r : SigningKeyRow) (hr : r ∈ t.rows) : RowStep retireAfter now t r
  | added (r : SigningKeyRow) (unretired : r.retiredAt = none) (late : now ≤ r.activatesAt) :
      RowStep retireAfter now t r
  | retired (r r' : SigningKeyRow) (hr : r ∈ t.rows) (unretired : r.retiredAt = none)
      (kid : r'.kid = r.kid) (at_now : r'.retiredAt = some now) (signing : SigningKeyRow)
      (hs : signing ∈ t.rows) (live : signing.retiredAt = none)
      (newer : r.activatesAt < signing.activatesAt)
      (long : retireAfter ≤ now - signing.activatesAt) : RowStep retireAfter now t r'

def Advances (retireAfter now : ℤ) (t t' : KeyTable) : Prop :=
  ∀ r ∈ t'.rows, RowStep retireAfter now t r

theorem Advances.refl {retireAfter now : ℤ} (t : KeyTable) : Advances retireAfter now t t :=
  fun r hr => .kept r hr

theorem advances_insert {retireAfter now activatesAt : ℤ} {t t' : KeyTable} {key : GeneratedKey}
    (h : t.insert (newRow key activatesAt now) = some t') (hlate : now ≤ activatesAt) :
    Advances retireAfter now t t' := by
  intro r hr
  rcases (Table.mem_insert h).mp hr with hr | rfl
  · exact .kept r hr
  · exact .added _ rfl hlate

theorem advances_rotate {retireAfter now prepublish : ℤ} {t t' : KeyTable} {key : GeneratedKey}
    {immediate : Bool} (hprepublish : 0 ≤ prepublish)
    (h : rotateSigningKey t key now prepublish immediate = some t') :
    Advances retireAfter now t t' := by
  refine advances_insert h ?_
  split
  · exact le_refl now
  · omega

theorem advances_withFirstKey {retireAfter now : ℤ} (t : KeyTable) (key : GeneratedKey) :
    Advances retireAfter now t (withFirstKey t key now) := by
  unfold withFirstKey insertFirstSigningKey
  split
  · exact .refl t
  · cases h : t.insert (newRow key now now) with
    | none => exact .refl t
    | some t' => exact advances_insert h (le_refl now)

theorem mem_listSigningKeys {t : KeyTable} {r : SigningKeyRow} :
    r ∈ listSigningKeys t ↔ r ∈ t.rows := List.mem_insertionSort rowLe

/-- The signing row is one of the active ones, and none activated later. -/
theorem signingRow_spec {active : List SigningKeyRow} {k : SigningKeyRow}
    (h : signingRow active = some k) :
    k ∈ active ∧ ∀ r ∈ active, r.activatesAt ≤ k.activatesAt := by
  have hfold : ∀ (rows : List SigningKeyRow) (best : Option SigningKeyRow),
      rows.foldl (fun best r => best.elim (some r) fun b =>
        if supersedes r b then some r else some b) best = some k →
      (k ∈ rows ∨ best = some k) ∧ (∀ r ∈ rows, r.activatesAt ≤ k.activatesAt) ∧
        ∀ b, best = some b → b.activatesAt ≤ k.activatesAt := by
    intro rows
    induction rows with
    | nil =>
      intro best hbest
      have hk : best = some k := hbest
      exact ⟨.inr hk, by simp, fun b hb => by cases hb.symm.trans hk; exact le_refl _⟩
    | cons r rows ih =>
      intro best hbest
      rw [List.foldl_cons] at hbest
      obtain ⟨hmem, hrows, hacc⟩ := ih _ hbest
      cases best with
      | none =>
        have hr := hacc r rfl
        refine ⟨.inl ?_, by simpa using ⟨hr, hrows⟩, by simp⟩
        rcases hmem with hmem | heq
        · exact List.mem_cons_of_mem _ hmem
        · cases heq
          exact List.mem_cons_self
      | some b =>
        by_cases hsup : supersedes r b = true
        · simp only [Option.elim_some, hsup, if_true] at hmem hacc
          have hr := hacc r rfl
          have hb : b.activatesAt ≤ r.activatesAt := by
            simp only [supersedes, Bool.or_eq_true, decide_eq_true_eq, Bool.and_eq_true,
              beq_iff_eq] at hsup
            omega
          refine ⟨.inl ?_, by simpa using ⟨hr, hrows⟩, fun b' hb' => by cases hb'; omega⟩
          rcases hmem with hmem | heq
          · exact List.mem_cons_of_mem _ hmem
          · cases heq
            exact List.mem_cons_self
        · simp only [Option.elim_some, hsup, Bool.false_eq_true, if_false] at hmem hacc
          have hb := hacc b rfl
          have hr : r.activatesAt ≤ b.activatesAt := by
            simp only [supersedes, Bool.or_eq_true, decide_eq_true_eq, not_or] at hsup
            omega
          refine ⟨?_, ?_, fun b' hb' => by cases hb'; exact hb⟩
          · rcases hmem with hmem | heq
            · exact .inl (List.mem_cons_of_mem _ hmem)
            · exact .inr heq
          · intro r' hr'
            rcases List.mem_cons.mp hr' with rfl | hr'
            · omega
            · exact hrows r' hr'
  have hsigning : signingRow active = active.foldl (fun best r => best.elim (some r) fun b =>
      if supersedes r b then some r else some b) none := by
    refine congrArg (fun step => active.foldl step none) (funext fun best => funext fun r => ?_)
    cases best <;> rfl
  obtain ⟨hmem, hrows, -⟩ := hfold active none (hsigning.symm.trans h)
  exact ⟨hmem.resolve_right (by simp), hrows⟩

theorem mem_retireSigningKey {t : KeyTable} {kid : String} {now : ℤ} {r' : SigningKeyRow}
    (h : r' ∈ (retireSigningKey t kid now).rows) :
    r' ∈ t.rows ∨ ∃ r ∈ t.rows, r.kid = kid ∧ r.retiredAt = none ∧
      r'.kid = r.kid ∧ r'.retiredAt = some now := by
  obtain ⟨r, hr, ⟨-, rfl⟩ | ⟨hp, rfl⟩⟩ := Table.exists_of_mem_update h
  · exact .inl hr
  · have hp' : r.kid = kid ∧ r.retiredAt = none := by simpa using hp
    exact .inr ⟨r, hr, hp'.1, hp'.2, rfl, rfl⟩

theorem mem_retireAll {kids : List String} {t : KeyTable} {now : ℤ} {r' : SigningKeyRow}
    (h : r' ∈ (kids.foldl (fun t kid => retireSigningKey t kid now) t).rows) :
    r' ∈ t.rows ∨ ∃ r ∈ t.rows, r.kid ∈ kids ∧ r.retiredAt = none ∧
      r'.kid = r.kid ∧ r'.retiredAt = some now := by
  induction kids generalizing t with
  | nil => exact .inl h
  | cons kid kids ih =>
    rw [List.foldl_cons] at h
    rcases ih h with hmem | ⟨r, hr, hkid, hlive, heq, hat⟩
    · rcases mem_retireSigningKey hmem with hr | ⟨r, hr, hkid, hrest⟩
      · exact .inl hr
      · exact .inr ⟨r, hr, by simp [hkid], hrest⟩
    · rcases mem_retireSigningKey hr with hr | ⟨r₀, -, -, -, -, hretired⟩
      · exact .inr ⟨r, hr, by simp [hkid], hlive, heq, hat⟩
      · rw [hlive] at hretired
        cases hretired

theorem mem_verifying {rows : List SigningKeyRow} {now : ℤ} {v : SigningKeyRow}
    (h : v ∈ (deriveRoles rows now).verifying) : v ∈ rows ∧
      ∃ k, (deriveRoles rows now).signing = some k ∧ v.activatesAt < k.activatesAt := by
  simp only [deriveRoles, List.mem_filter, beq_iff_eq] at h
  obtain ⟨hv, hrole⟩ := h
  refine ⟨hv, ?_⟩
  cases hs : signingRow (rows.filter (isActive now)) with
  | none =>
    simp only [roleOf, hs, Option.map_none, Option.any_none] at hrole
    split at hrole
    · cases hrole
    · split at hrole <;> cases hrole
  | some k =>
    simp only [roleOf, hs, Option.map_some, Option.any_some, decide_eq_true_eq] at hrole
    split at hrole
    · cases hrole
    · split at hrole
      · cases hrole
      · split at hrole
        · next hlt => exact ⟨k, hs, hlt⟩
        · cases hrole

/-- The signing key is unretired and active, and no other such key activated later. -/
theorem signing_spec {rows : List SigningKeyRow} {now : ℤ} {k : SigningKeyRow}
    (h : (deriveRoles rows now).signing = some k) :
    k ∈ rows ∧ k.retiredAt = none ∧ k.activatesAt ≤ now ∧
      ∀ r ∈ rows, r.retiredAt = none → r.activatesAt ≤ now → r.activatesAt ≤ k.activatesAt := by
  obtain ⟨hk, hmax⟩ := signingRow_spec h
  have hactive : k.retiredAt = none ∧ k.activatesAt ≤ now := by
    simpa [isActive] using (List.mem_filter.mp hk).2
  refine ⟨(List.mem_filter.mp hk).1, hactive.1, hactive.2, ?_⟩
  intro r hr hlive hact
  exact hmax r (List.mem_filter.mpr ⟨hr, by simp [isActive, hlive, hact]⟩)

/-- What the cron retires has been superseded, by a key that signs for long enough. -/
theorem mem_retirable {rows : List SigningKeyRow} {now retireAfter : ℤ} {v : SigningKeyRow}
    (h : v ∈ retirable (deriveRoles rows now) now retireAfter) : v ∈ rows ∧
      ∃ k ∈ rows, k.retiredAt = none ∧ v.activatesAt < k.activatesAt ∧
        retireAfter ≤ now - k.activatesAt := by
  unfold retirable at h
  split at h
  · next hlong =>
    obtain ⟨hv, k, hk, hlt⟩ := mem_verifying h
    simp only [hk, Option.any_some, decide_eq_true_eq] at hlong
    obtain ⟨hmem, hlive, -, -⟩ := signing_spec hk
    exact ⟨hv, k, hmem, hlive, hlt, hlong⟩
  · cases h

theorem advances_maintain {now : ℤ} (t : KeyTable) (key : GeneratedKey) (s : ResolvedSettings) :
    Advances s.retireAfterSeconds now t (maintainSigningKeys t key now s.toKeySettings).1 := by
  have hprepublish : 0 ≤ s.prepublishSeconds := by
    have hb := s.bounds
    simp only [KeySettings.inBounds, Bool.and_eq_true, decide_eq_true_eq] at hb
    omega
  simp only [maintainSigningKeys]
  split
  · exact .refl t
  · next t₁ ht₁ =>
    -- The created key takes no kid of the table, so a retired kid is still that of its old row.
    have hadv : Advances s.retireAfterSeconds now t t₁ ∧
        ∀ r ∈ t₁.rows, r ∈ t.rows ∨ ∀ r₀ ∈ t.rows, r₀.kid ≠ r.kid := by
      split at ht₁
      · refine ⟨advances_rotate hprepublish ht₁, fun r hr => ?_⟩
        rcases (Table.mem_insert ht₁).mp hr with hr | rfl
        · exact .inl hr
        · exact .inr (Table.key_notMem_of_insert ht₁)
      · cases ht₁
        exact ⟨.refl t, fun r hr => .inl hr⟩
    intro r' hr'
    rcases mem_retireAll (Table.deleteWhere_subset hr') with hr | ⟨r, hr, hkid, hlive, heq, hat⟩
    · exact hadv.1 r' hr
    · obtain ⟨v, hv, hvr⟩ := List.mem_map.mp hkid
      obtain ⟨hvmem, k, hk, hklive, hlt, hlong⟩ := mem_retirable hv
      rw [mem_listSigningKeys] at hvmem hk
      rcases hadv.2 r hr with hrt | hnew
      · cases Table.eq_of_key_eq hvmem hrt hvr
        exact .retired _ r' hrt hlive heq hat k hk hklive hlt hlong
      · exact absurd hvr (hnew v hvmem)

/-! ### Keys that outlive what they sign -/

/-- The rows of `kid` are retired no earlier than `retireAfter` past the load, nor will the cron
do so: an unretired key that activates later activates no earlier than the load. -/
def Safe (retireAfter : ℤ) (t : KeyTable) (kid : String) (loadedAt : ℤ) : Prop :=
  ∀ r ∈ t.rows, r.kid = kid →
    (∀ R, r.retiredAt = some R → loadedAt + retireAfter ≤ R) ∧
    (r.retiredAt = none → ∀ k ∈ t.rows, k.retiredAt = none → r.activatesAt < k.activatesAt →
      loadedAt ≤ k.activatesAt)

theorem safe_advances {retireAfter now loadedAt : ℤ} {t t' : KeyTable} {kid : String}
    (h : Safe retireAfter t kid loadedAt) (hadv : Advances retireAfter now t t')
    (hle : loadedAt ≤ now) : Safe retireAfter t' kid loadedAt := by
  intro r hr hkid
  constructor
  · intro R hR
    cases hadv r hr with
    | kept _ hr => exact (h r hr hkid).1 R hR
    | added _ hlive => rw [hlive] at hR; cases hR
    | retired r₀ _ hr₀ hlive heq hat k hk hklive hlt hlong =>
      have hact := (h r₀ hr₀ (heq.symm.trans hkid)).2 hlive k hk hklive hlt
      rw [hat] at hR
      cases hR
      omega
  · intro hlive k hk hklive hlt
    have hlate : ∀ r' ∈ t'.rows, r'.retiredAt = none → r' ∈ t.rows ∨ loadedAt ≤ r'.activatesAt := by
      intro r' hr' hlive'
      cases hadv r' hr' with
      | kept _ hr => exact .inl hr
      | added _ _ hlate => exact .inr (by omega)
      | retired _ _ _ _ _ hat => rw [hat] at hlive'; cases hlive'
    rcases hlate k hk hklive with hk | hk
    · rcases hlate r hr hlive with hr | hr
      · exact (h r hr hkid).2 hlive k hk hklive hlt
      · omega
    · exact hk

theorem load_safe {m : KeyMaterial} {t : KeyTable} {now retireAfter : ℤ} {loaded : LoadedKeys}
    (h : load m (listSigningKeys t) now = .ok loaded) : Safe retireAfter t loaded.signing now := by
  unfold load at h
  cases hs : (deriveRoles (listSigningKeys t) now).signing with
  | none => simp [hs] at h
  | some k =>
    obtain ⟨hk, hlive, -, hmax⟩ := signing_spec hs
    have hkid : loaded.signing = k.kid := by
      simp only [hs] at h
      split at h
      · cases h
      · split at h
        · cases h
          rfl
        · cases h
    intro r hr hr'
    cases Table.eq_of_key_eq hr (mem_listSigningKeys.mp hk) (hr'.trans hkid)
    constructor
    · intro R hR
      rw [hlive] at hR
      cases hR
    · intro _ s hs hslive hlt
      by_contra hlate
      have hle := hmax s (mem_listSigningKeys.mpr hs) hslive (by omega)
      omega

/-- What a call of the store may do: advance the table, and load keys that are safe as of now. -/
structure Fetches (retireAfter now : ℤ) (t : KeyTable) (cached : Option CachedKeys)
    (f : Fetched) : Prop where
  advances : Advances retireAfter now t f.table
  cache : f.cached = cached ∨ ∃ loaded, f.cached = some ⟨loaded, now⟩ ∧
    Safe retireAfter f.table loaded.signing now
  keys : ∀ c, f.keys = .ok c → cached = some c ∨
    c.loadedAt = now ∧ Safe retireAfter f.table c.loaded.signing now

theorem advances_readRows (retireAfter now : ℤ) (t : KeyTable) (key : GeneratedKey)
    (read : D1Read) : Advances retireAfter now t (readRows t key now read).1 := by
  cases read with
  | answers => exact advances_withFirstKey t key
  | throws inserted =>
    cases inserted with
    | false => exact .refl t
    | true => exact advances_withFirstKey t key

theorem readRows_rows {t : KeyTable} {key : GeneratedKey} {now : ℤ} {read : D1Read}
    {rows : List SigningKeyRow} (h : (readRows t key now read).2 = some rows) :
    rows = listSigningKeys (readRows t key now read).1 := by
  cases read with
  | answers => simpa [readRows] using h.symm
  | throws inserted => cases inserted <;> cases h

theorem refresh_fetches (m : KeyMaterial) (retireAfter now : ℤ) (t : KeyTable)
    (cached : Option CachedKeys) (key : GeneratedKey) (read : D1Read) :
    Fetches retireAfter now t cached (refresh m t cached key now read) := by
  have hadv := advances_readRows retireAfter now t key read
  have hrows : ∀ rows, (readRows t key now read).2 = some rows →
      rows = listSigningKeys (readRows t key now read).1 := fun _ => readRows_rows
  unfold refresh
  generalize readRows t key now read = out at hadv hrows
  obtain ⟨t', rows⟩ := out
  cases rows with
  | none => exact ⟨hadv, .inl rfl, nofun⟩
  | some rows =>
    have heq : rows = listSigningKeys t' := hrows rows rfl
    subst heq
    cases hload : load m (listSigningKeys t') now with
    | error e => simpa [hload] using ⟨hadv, .inl rfl, nofun⟩
    | ok loaded =>
      have hsafe : Safe retireAfter t' loaded.signing now := load_safe hload
      simp only [hload]
      exact ⟨hadv, .inr ⟨loaded, rfl, hsafe⟩, fun c hc => by cases hc; exact .inr ⟨rfl, hsafe⟩⟩

theorem get_fetches (m : KeyMaterial) (retireAfter now : ℤ) (t : KeyTable)
    (cached : Option CachedKeys) (key : GeneratedKey) (read : D1Read) :
    Fetches retireAfter now t cached (get m t cached key now read) := by
  have href := refresh_fetches m retireAfter now t cached key read
  unfold get
  cases cached with
  | none => exact href
  | some c =>
    have hheld : ∀ c', (Except.ok c : Except KeyError CachedKeys) = .ok c' →
        some c = some c' := fun c' hc' => by cases hc'; rfl
    simp only
    split
    · exact ⟨.refl t, .inl rfl, fun c' hc' => .inl (hheld c' hc')⟩
    · cases read with
      | answers => exact href
      | throws inserted =>
        simp only
        split
        · exact ⟨href.advances, href.cache, fun c' hc' => .inl (hheld c' hc')⟩
        · exact href

/-! ### Runs -/

/-- Keys that sign `kid` were loaded at a past reading of the clock, and are safe since. -/
def LoadedAt (retireAfter : ℤ) (past : List ℤ) (t : KeyTable) (kid : String) (loadedAt : ℤ) :
    Prop :=
  loadedAt ∈ past ∧ Safe retireAfter t kid loadedAt

theorem LoadedAt.advances {retireAfter now loadedAt : ℤ} {past : List ℤ} {t t' : KeyTable}
    {kid : String} (h : LoadedAt retireAfter past t kid loadedAt)
    (hadv : Advances retireAfter now t t') (hpast : ∀ τ ∈ past, τ ≤ now) :
    LoadedAt retireAfter (now :: past) t' kid loadedAt :=
  ⟨List.mem_cons_of_mem _ h.1, safe_advances h.2 hadv (hpast _ h.1)⟩

/-- Every cached and every served key is safe since it was loaded, and every token ends within
`retireAfter` of the load of its key. -/
structure KeysOutlive (retireAfter : ℤ) (past : List ℤ) (w : KeyWorld) : Prop where
  caches : ∀ i c, w.caches i = some c →
    LoadedAt retireAfter past w.table c.loaded.signing c.loadedAt
  served : ∀ c ∈ w.served, LoadedAt retireAfter past w.table c.loaded.signing c.loadedAt
  tokens : ∀ tok ∈ w.tokens, ∃ loadedAt, LoadedAt retireAfter past w.table tok.kid loadedAt ∧
    tok.exp ≤ loadedAt + retireAfter

/-- At the signing of a token, the age of the keys and the lifetime of the token together stay
within the time a superseded key is kept. -/
def Timely (s : KeySettings) (w : KeyWorld) : KeyInput → Prop
  | .issue request now client openid => ∀ keys ∈ w.served[request]?,
      now - keys.loadedAt + accessTtl s client ≤ s.retireAfterSeconds ∧
        (openid = true → now - keys.loadedAt + idTtl s client ≤ s.retireAfterSeconds)
  | _ => True

def TimelyRun (m : KeyMaterial) (s : KeySettings) (t : KeyTable) : List KeyInput → Prop
  | [] => True
  | i :: is => Timely s (after m s t is) i ∧ TimelyRun m s t is

theorem forall_le_of_clockForward {i : KeyInput} {is : List KeyInput} {now : ℤ}
    (h : ClockForward (i :: is)) (hi : i.time = some now) : ∀ τ ∈ times is, τ ≤ now := by
  simp only [ClockForward, times, List.filterMap_cons, hi, List.pairwise_cons] at h
  exact h.1

theorem ClockForward.tail {i : KeyInput} {is : List KeyInput} (h : ClockForward (i :: is)) :
    ClockForward is := by
  unfold ClockForward times at h ⊢
  rw [List.filterMap_cons] at h
  split at h
  · exact h
  · exact h.of_cons

/-- A step that only advances the table. -/
theorem KeysOutlive.advances {retireAfter now : ℤ} {past : List ℤ} {w : KeyWorld} {t : KeyTable}
    (h : KeysOutlive retireAfter past w) (hadv : Advances retireAfter now w.table t)
    (hpast : ∀ τ ∈ past, τ ≤ now) :
    KeysOutlive retireAfter (now :: past) { w with table := t } where
  caches i c hc := (h.caches i c hc).advances hadv hpast
  served c hc := (h.served c hc).advances hadv hpast
  tokens tok htok := by
    obtain ⟨loadedAt, hload, hexp⟩ := h.tokens tok htok
    exact ⟨loadedAt, hload.advances hadv hpast, hexp⟩

/-- A step that also caches what a call of the store left in the cache. -/
theorem KeysOutlive.fetched {retireAfter now : ℤ} {past : List ℤ} {w : KeyWorld} {isolate : ℕ}
    {f : Fetched} (h : KeysOutlive retireAfter past w)
    (hf : Fetches retireAfter now w.table (w.caches isolate) f) (hpast : ∀ τ ∈ past, τ ≤ now) :
    KeysOutlive retireAfter (now :: past)
      { w with table := f.table, caches := Function.update w.caches isolate f.cached } := by
  have hadv := h.advances hf.advances hpast
  refine ⟨fun i c hc => ?_, hadv.served, hadv.tokens⟩
  by_cases hi : i = isolate
  · subst hi
    have hc : f.cached = some c := by simpa using hc
    rcases hf.cache with heq | ⟨loaded, heq, hsafe⟩
    · exact hadv.caches i c (heq.symm.trans hc)
    · cases heq.symm.trans hc
      exact ⟨List.mem_cons_self, hsafe⟩
  · exact hadv.caches i c (by simpa [hi] using hc)

theorem mem_issuedTokens {s : KeySettings} {keys : LoadedKeys} {client : ClientTtls} {now : ℤ}
    {openid : Bool} {tok : IssuedToken} (h : tok ∈ issuedTokens s keys client now openid) :
    tok.kid = keys.signing ∧ (tok.exp = now + accessTtl s client ∨
      openid = true ∧ tok.exp = now + idTtl s client) := by
  rcases List.mem_cons.mp h with rfl | h
  · exact ⟨rfl, .inl rfl⟩
  · split at h
    · next hopenid =>
      cases List.mem_singleton.mp h
      exact ⟨rfl, .inr ⟨hopenid, rfl⟩⟩
    · cases h

theorem keysOutlive_step {m : KeyMaterial} {s : ResolvedSettings} {past : List ℤ} {w : KeyWorld}
    (i : KeyInput) (h : KeysOutlive s.retireAfterSeconds past w)
    (hpast : ∀ now, i.time = some now → ∀ τ ∈ past, τ ≤ now)
    (htimely : Timely s.toKeySettings w i) :
    KeysOutlive s.retireAfterSeconds (i.time.toList ++ past) (step m s.toKeySettings w i).1 := by
  have hprepublish : 0 ≤ s.prepublishSeconds := by
    have hb := s.bounds
    simp only [KeySettings.inBounds, Bool.and_eq_true, decide_eq_true_eq] at hb
    omega
  cases i with
  | rotate key now immediate =>
    simp only [step]
    split
    · exact h.advances (.refl w.table) (hpast now rfl)
    · next t ht => exact h.advances (advances_rotate hprepublish ht) (hpast now rfl)
  | maintain key now => exact h.advances (advances_maintain w.table key s) (hpast now rfl)
  | refreshEarly isolate key now read =>
    exact h.fetched (refresh_fetches m _ now w.table _ key read) (hpast now rfl)
  | invalidate isolate =>
    refine ⟨fun i c hc => ?_, h.served, h.tokens⟩
    by_cases hi : i = isolate
    · subst hi
      simp [step] at hc
    · exact h.caches i c (by simpa [step, hi] using hc)
  | serve isolate key now read =>
    have hf := get_fetches m s.retireAfterSeconds now w.table (w.caches isolate) key read
    have hadv := h.fetched hf (hpast now rfl)
    refine ⟨hadv.caches, fun c hc => ?_, hadv.tokens⟩
    simp only [step] at hc
    split at hc
    · exact hadv.served c hc
    · next keys hkeys =>
      rcases List.mem_append.mp hc with hc | hc
      · exact hadv.served c hc
      · cases List.mem_singleton.mp hc
        rcases hf.keys c hkeys with hheld | ⟨hat, hsafe⟩
        · exact (h.caches isolate c hheld).advances hf.advances (hpast now rfl)
        · rw [hat]
          exact ⟨List.mem_cons_self, hsafe⟩
  | issue request now client openid =>
    have hadv := h.advances (.refl w.table) (hpast now rfl)
    simp only [step]
    split
    · exact hadv
    · next keys hkeys =>
      refine ⟨hadv.caches, hadv.served, fun tok htok => ?_⟩
      rcases List.mem_append.mp htok with htok | htok
      · exact hadv.tokens tok htok
      · obtain ⟨haccess, hid⟩ := htimely keys hkeys
        obtain ⟨hkid, hexp⟩ := mem_issuedTokens htok
        have hload := hadv.served keys (List.mem_of_getElem? hkeys)
        refine ⟨keys.loadedAt, hkid ▸ hload, ?_⟩
        rcases hexp with hexp | ⟨hopenid, hexp⟩
        · omega
        · have := hid hopenid
          omega

theorem keysOutlive_run {m : KeyMaterial} {s : ResolvedSettings} {t : KeyTable}
    {inputs : List KeyInput} (hclock : ClockForward inputs)
    (htimely : TimelyRun m s.toKeySettings t inputs) :
    KeysOutlive s.retireAfterSeconds (times inputs) (after m s.toKeySettings t inputs) := by
  induction inputs with
  | nil => exact ⟨nofun, nofun, nofun⟩
  | cons i is ih =>
    have hkept := keysOutlive_step (m := m) i (ih hclock.tail htimely.2)
      (fun _ hi => forall_le_of_clockForward hclock hi) htimely.1
    have htimes : times (i :: is) = i.time.toList ++ times is := by
      cases hi : i.time <;> simp [times, hi]
    rw [htimes]
    exact hkept

/-- No key is retired before a token it signed ends, whatever the schedule, the caches and the
failures of D1. -/
theorem retired_after_exp_of_timely (m : KeyMaterial) (s : ResolvedSettings) (t : KeyTable)
    (inputs : List KeyInput) (hclock : ClockForward inputs)
    (htimely : TimelyRun m s.toKeySettings t inputs) :
    ∀ tok ∈ (after m s.toKeySettings t inputs).tokens,
      ∀ r ∈ (after m s.toKeySettings t inputs).table.rows, r.kid = tok.kid →
        ∀ R, r.retiredAt = some R → tok.exp ≤ R := by
  intro tok htok r hr hkid R hR
  obtain ⟨loadedAt, ⟨-, hsafe⟩, hexp⟩ := (keysOutlive_run hclock htimely).tokens tok htok
  have hretired := (hsafe r hr hkid).1 R hR
  omega

/-- The settings rule covers every token whose lifetime the settings know, signed with keys that
the store may still serve. -/
theorem timely_of_covered {s : ResolvedSettings} {w : KeyWorld} {request : ℕ} {now : ℤ}
    {client : ClientTtls} {openid : Bool}
    (hage : ∀ keys ∈ w.served[request]?, now - keys.loadedAt ≤ keysStaleSeconds)
    (haccess : accessTtl s.toKeySettings client ≤ s.longestToken)
    (hid : idTtl s.toKeySettings client ≤ s.longestToken) :
    Timely s.toKeySettings w (.issue request now client openid) := by
  have hrule : s.longestToken + 3600 < s.retireAfterSeconds := by
    have hvalid := s.valid
    simp only [KeySettings.violations] at hvalid
    split at hvalid
    · cases hvalid
    · omega
  intro keys hkeys
  have hstale := hage keys hkeys
  simp only [keysStaleSeconds] at hstale
  exact ⟨by omega, fun _ => by omega⟩

/-- Keys that `get` serves were loaded less than an hour before. -/
theorem get_fresh {m : KeyMaterial} {t : KeyTable} {cached : Option CachedKeys}
    {key : GeneratedKey} {now : ℤ} {read : D1Read} {c : CachedKeys}
    (h : (get m t cached key now read).keys = .ok c) : now - c.loadedAt < keysStaleSeconds := by
  have hrefresh : ∀ cached, (refresh m t cached key now read).keys = .ok c →
      now - c.loadedAt < keysStaleSeconds := by
    intro cached h
    simp only [refresh] at h
    split at h
    · cases h
    · split at h
      · cases h
      · cases h
        simp [keysStaleSeconds]
  unfold get at h
  split at h
  · exact hrefresh none h
  · next c' =>
    split at h
    · next hfresh =>
      cases h
      simp only [keysTtlSeconds, keysStaleSeconds] at hfresh ⊢
      omega
    · split at h
      · exact hrefresh _ h
      · simp only at h
        split at h
        · next hstale =>
          cases h
          exact hstale
        · exact hrefresh _ h

/-! ### A rotation while an isolate signs with a stale key -/

def sampleKey (kid : String) : GeneratedKey := ⟨kid, "jwk", []⟩

/-- Tokens of one minute: the least retirement the settings rule admits. -/
def sampleSettings : ResolvedSettings where
  accessTtl := 60
  idTtl := 60
  rotationDays := 30
  prepublishSeconds := 0
  retireAfterSeconds := 3721
  bounds := by decide
  valid := by decide

def anyMaterial : KeyMaterial := ⟨fun _ => true, fun _ => true⟩

/-- An isolate loads a first key, a rotation supersedes it at once, D1 fails while the isolate
signs for the client, and the cron retires the first key. Newest first. -/
def rotationRun (client : ClientTtls) : List KeyInput :=
  [.maintain (sampleKey "spare") 4721,
   .issue 1 4500 client true,
   .serve 0 (sampleKey "none") 4500 (.throws false),
   .rotate (sampleKey "second") 1000 true,
   .serve 0 (sampleKey "first") 999 .answers]

theorem retired_after_exp_sample :
    (after anyMaterial sampleSettings.toKeySettings .empty (rotationRun ⟨none, none⟩)).tokens =
      [⟨"first", 4560⟩, ⟨"first", 4560⟩] ∧
    ∀ tok ∈ (after anyMaterial sampleSettings.toKeySettings .empty
        (rotationRun ⟨none, none⟩)).tokens,
      ∀ r ∈ (after anyMaterial sampleSettings.toKeySettings .empty
        (rotationRun ⟨none, none⟩)).table.rows,
        r.kid = tok.kid → ∀ R, r.retiredAt = some R → tok.exp ≤ R :=
  ⟨by decide,
    retired_after_exp_of_timely anyMaterial sampleSettings .empty (rotationRun ⟨none, none⟩)
      (by decide)
      ⟨trivial, timely_of_covered (by decide) (by decide) (by decide), trivial, trivial,
        trivial, trivial⟩⟩

/-- With an hour for the access tokens of a client, its token outlives the key that signed it. -/
theorem key_retired_before_exp :
    ¬ ∀ (m : KeyMaterial) (s : ResolvedSettings) (t : KeyTable) (inputs : List KeyInput),
      ClockForward inputs →
      ∀ tok ∈ (after m s.toKeySettings t inputs).tokens,
        ∀ r ∈ (after m s.toKeySettings t inputs).table.rows, r.kid = tok.kid →
          ∀ R, r.retiredAt = some R → tok.exp ≤ R := by
  intro hall
  have hrun := hall anyMaterial sampleSettings .empty
    (rotationRun ⟨some ⟨3600, by decide⟩, none⟩) (by decide)
  have htoken : (⟨"first", 8100⟩ : IssuedToken) ∈ (after anyMaterial sampleSettings.toKeySettings
      .empty (rotationRun ⟨some ⟨3600, by decide⟩, none⟩)).tokens := by decide
  have hrow : (⟨"first", "jwk", none, 999, 999, some 4721⟩ : SigningKeyRow) ∈
      (after anyMaterial sampleSettings.toKeySettings .empty
        (rotationRun ⟨some ⟨3600, by decide⟩, none⟩)).table.rows := by decide
  have hexp := hrun _ htoken _ hrow rfl 4721 rfl
  exact absurd hexp (by decide)

end TinyOidc.Keys
