import TinyOidc.User.Commits
import TinyOidc.User.Lifecycle

/-! Refresh rotation. Consumption is not stored on a token: it follows from the serials of
the family and its tokens, which every change keeps sound. -/
namespace TinyOidc.User
open RowTable

/-- The stored token a family would accept. -/
def CurrentToken (t : Tables) (f : FamilyRow) (k : TokenRow) : Prop :=
  k ∈ t.refreshTokens.rows ∧ k.familyId = f.id ∧ k.serial = f.currentSerial

/-- Every token has its family and no later serial than it, every family has its current
token, and a serial names one token of a family. -/
structure SerialsSound (t : Tables) : Prop where
  owned : ∀ k ∈ t.refreshTokens.rows,
    ∃ f ∈ t.refreshFamilies.rows, f.id = k.familyId ∧ k.serial ≤ f.currentSerial
  current : ∀ f ∈ t.refreshFamilies.rows, ∃ k, CurrentToken t f k
  unique : ∀ k ∈ t.refreshTokens.rows, ∀ l ∈ t.refreshTokens.rows,
    k.familyId = l.familyId → k.serial = l.serial → k = l

namespace SerialsSound
variable {t t' : Tables}

theorem empty : SerialsSound .empty :=
  ⟨by simp [Tables.empty], by simp [Tables.empty], by simp [Tables.empty]⟩

theorem congr (h : SerialsSound t) (hf : t'.refreshFamilies = t.refreshFamilies)
    (hk : t'.refreshTokens = t.refreshTokens) : SerialsSound t' := by
  refine ⟨?_, ?_, ?_⟩
  · rw [hf, hk]; exact h.owned
  · unfold CurrentToken; rw [hf, hk]; exact h.current
  · rw [hk]; exact h.unique

theorem serial_le (h : SerialsSound t) {f : FamilyRow} {k : TokenRow}
    (hf : f ∈ t.refreshFamilies.rows) (hk : k ∈ t.refreshTokens.rows)
    (hid : k.familyId = f.id) : k.serial ≤ f.currentSerial := by
  obtain ⟨g, hg, hgid, hle⟩ := h.owned k hk
  rwa [Table.eq_of_key_eq hg hf (hgid.trans hid)] at hle

/-- The successor of the current token does not exist, so no purge takes it for consumed. -/
theorem not_consumedBefore (h : SerialsSound t) {f : FamilyRow} {k : TokenRow}
    (hf : f ∈ t.refreshFamilies.rows) (hk : CurrentToken t f k) (limit : ℤ) :
    t.consumedBefore limit k = false := by
  obtain ⟨_, hid, hser⟩ := hk
  simp only [Tables.consumedBefore, List.any_eq_false, Bool.and_eq_true, beq_iff_eq,
    decide_eq_true_eq]
  rintro l hl ⟨⟨hlid, hlser⟩, _⟩
  have hle := h.serial_le hf hl (hlid.trans hid)
  omega

theorem purgeTokens (h : SerialsSound t) (limit : ℤ) : SerialsSound (t.purgeTokens limit) where
  owned k hk := h.owned k (Table.deleteWhere_subset hk)
  current f hf := by
    obtain ⟨k, hk⟩ := h.current f hf
    exact ⟨k, Table.mem_deleteWhere.mpr ⟨hk.1, h.not_consumedBefore hf hk limit⟩, hk.2⟩
  unique k hk l hl := h.unique k (Table.deleteWhere_subset hk) l (Table.deleteWhere_subset hl)

/-- A token survives the deletion of families that spares its own. -/
theorem mem_deleteFamilies {p : FamilyRow → Bool} {f : FamilyRow} {k : TokenRow}
    (hf : f ∈ t.refreshFamilies.rows) (hp : p f = false) (hk : k ∈ t.refreshTokens.rows)
    (hid : k.familyId = f.id) : k ∈ (t.deleteFamilies p).refreshTokens.rows := by
  refine Table.mem_deleteWhere.mpr ⟨hk, ?_⟩
  simp only [List.any_eq_false, Bool.and_eq_true, beq_iff_eq]
  rintro g hg ⟨hpg, hgid⟩
  rw [Table.eq_of_key_eq hg hf (hgid.trans hid), hp] at hpg
  cases hpg

theorem deleteFamilies (h : SerialsSound t) (p : FamilyRow → Bool) :
    SerialsSound (t.deleteFamilies p) where
  owned k hk := by
    obtain ⟨hk, hany⟩ := Table.mem_deleteWhere.mp hk
    obtain ⟨f, hf, hid, hle⟩ := h.owned k hk
    refine ⟨f, Table.mem_deleteWhere.mpr ⟨hf, ?_⟩, hid, hle⟩
    have hnot := List.any_eq_false.mp hany f hf
    simpa [hid] using hnot
  current f hf := by
    obtain ⟨hf, hp⟩ := Table.mem_deleteWhere.mp hf
    obtain ⟨k, hk, hid, hser⟩ := h.current f hf
    exact ⟨k, mem_deleteFamilies hf hp hk hid, hid, hser⟩
  unique k hk l hl := h.unique k (Table.deleteWhere_subset hk) l (Table.deleteWhere_subset hl)

theorem purge (h : SerialsSound t) (now w : ℤ) : SerialsSound (t.purge now w) := by
  have hcodes : SerialsSound (t.purgeCodes now) := h.congr rfl rfl
  have hdel := (hcodes.purgeTokens (now - w)).deleteFamilies
    (Tables.familyGone (now - purgeGraceSeconds))
  exact hdel.congr rfl rfl

theorem revokeFamiliesWhere (h : SerialsSound t) (p : FamilyRow → Bool) (now : ℤ)
    (reason : String) : SerialsSound (t.revokeFamiliesWhere p now reason) where
  owned k hk := by
    obtain ⟨f, hf, hid, hle⟩ := h.owned k hk
    refine ⟨_, List.mem_map.mpr ⟨f, hf, rfl⟩, ?_⟩
    split <;> exact ⟨hid, hle⟩
  current f hf := by
    obtain ⟨g, hg, ⟨_, rfl⟩ | ⟨_, rfl⟩⟩ := Table.exists_of_mem_update hf
    · exact h.current f hg
    · exact h.current g hg
  unique := h.unique

theorem insertFamily (h : SerialsSound t) {family : FamilyRow} {token : TokenRow}
    {families : Table FamilyRow FamilyRow.id}
    {tokens : Table TokenRow (fun r => (r.familyId, r.secretHash))}
    (hf : t.refreshFamilies.insert family = some families)
    (hk : t.refreshTokens.insert token = some tokens) (hid : token.familyId = family.id)
    (hser : token.serial = family.currentSerial) :
    SerialsSound { t with refreshFamilies := families, refreshTokens := tokens } := by
  -- No token of the new family was stored: its owner would have the new family's id.
  have hnew : ∀ l ∈ t.refreshTokens.rows, l.familyId ≠ token.familyId := by
    intro l hl he
    obtain ⟨g, hg, hgid, _⟩ := h.owned l hl
    exact Table.key_notMem_of_insert hf g hg (hgid.trans (he.trans hid))
  have hfam := fun s => Table.mem_insert (s := s) hf
  have htok := fun s => Table.mem_insert (s := s) hk
  refine ⟨?_, ?_, ?_⟩
  · intro k hm
    rcases (htok k).mp hm with hm | rfl
    · obtain ⟨g, hg, hg'⟩ := h.owned k hm
      exact ⟨g, (hfam g).mpr (.inl hg), hg'⟩
    · exact ⟨family, (hfam family).mpr (.inr rfl), hid.symm, hser.le⟩
  · intro f hm
    rcases (hfam f).mp hm with hm | rfl
    · obtain ⟨k, hk', hk''⟩ := h.current f hm
      exact ⟨k, (htok k).mpr (.inl hk'), hk''⟩
    · exact ⟨token, (htok token).mpr (.inr rfl), hid, hser⟩
  · intro k hkm l hlm he hs
    rcases (htok k).mp hkm with hkm | rfl <;> rcases (htok l).mp hlm with hlm | rfl
    · exact h.unique k hkm l hlm he hs
    · exact absurd he (hnew k hkm)
    · exact absurd he.symm (hnew l hlm)
    · rfl

theorem advanceFamily (h : SerialsSound t) {family : FamilyRow} {secret : Bytes}
    {now idleTtl : ℤ} (hm : family ∈ t.refreshFamilies.rows)
    (ha : t.advanceFamily family secret now idleTtl = .ok t') : SerialsSound t' := by
  obtain ⟨tokens, hk, rfl⟩ := advanceFamily_ok ha
  have htok := fun s => Table.mem_insert (s := s) hk
  have hold : ∀ l ∈ t.refreshTokens.rows, l.familyId = family.id →
      l.serial ≤ family.currentSerial := fun l hl hid => h.serial_le hm hl hid
  refine ⟨?_, ?_, ?_⟩
  · intro k hkm
    rcases (htok k).mp hkm with hkm | rfl
    · obtain ⟨g, hg, hgid, hle⟩ := h.owned k hkm
      refine ⟨_, List.mem_map.mpr ⟨g, hg, rfl⟩, ?_⟩
      split
      next hg' =>
        have hk' := hold k hkm (hgid.symm.trans (by simpa using hg'))
        exact ⟨hgid, by dsimp only; omega⟩
      · exact ⟨hgid, hle⟩
    · exact ⟨_, List.mem_map.mpr ⟨family, hm, rfl⟩, by simp, by simp⟩
  · intro f hfm
    obtain ⟨g, hg, ⟨hne, rfl⟩ | ⟨he, rfl⟩⟩ := Table.exists_of_mem_update hfm
    · obtain ⟨k, hk', hk''⟩ := h.current f hg
      exact ⟨k, (htok k).mpr (.inl hk'), hk''⟩
    · exact ⟨_, (htok _).mpr (.inr rfl), (beq_iff_eq.mp he).symm, rfl⟩
  · intro k hkm l hlm he hs
    rcases (htok k).mp hkm with hkm | rfl <;> rcases (htok l).mp hlm with hlm | rfl
    · exact h.unique k hkm l hlm he hs
    · have hle := hold k hkm he
      dsimp only at hs
      omega
    · have hle := hold l hlm he.symm
      dsimp only at hs
      omega
    · rfl

theorem change {e : CallEvent} (h : SerialsSound t) (hc : Change e t t') : SerialsSound t' := by
  cases hc with
  | aside hs => exact h.congr hs.families hs.tokens
  | writeUser _ => exact h.congr rfl rfl
  | clear _ => exact empty
  | purge _ => exact h.purge _ _
  | revokeSessions p now reason => exact h.congr rfl rfl
  | revokeFamilies p now reason => exact h.revokeFamiliesWhere p now reason
  | dropFamily id => exact h.deleteFamilies _
  | createSession hi _ _ =>
    obtain ⟨sessions, _, rfl⟩ := insertSession_ok hi
    exact h.congr rfl rfl
  | rotateSession _ _ hr =>
    rw [rotateSession_ok hr]
    exact h.congr rfl rfl
  | touchSession idleTtl _ _ _ =>
    obtain ⟨_, hf, hk⟩ := touchSession_sameBut t _ _ idleTtl
    exact h.congr hf hk
  | issueCode _ _ _ _ => exact h.congr rfl rfl
  | consumeCode now _ => exact h.congr rfl rfl
  | openFamily hf hk hid hs _ _ _ _ _ => exact h.insertFamily hf hk hid hs
  | advanceFamily hm _ ha _ => exact h.advanceFamily hm ha

theorem after_calls (sha256 : String → Bytes) (calls : List Call) :
    SerialsSound (after sha256 calls).tables :=
  Machine.after_invariant (I := fun o : UserObject => SerialsSound o.tables) _
    (fun o c h => (call_changes sha256 o c).preserves (fun _ _ hc h => h.change hc) h) empty calls

end SerialsSound

/-! ### The token a family accepts is the one stored last -/

/-- The secret hash the latest exchange or rotation of a family stored. -/
def latestToken (h : List CallEvent) (familyId : String) : Option Bytes :=
  ((h.filterMap tokenIssued).find? (fun k => k.1 == familyId)).map (·.2)

theorem latestToken_of_issued {e : CallEvent} {h : List CallEvent} {id : String} {x : Bytes}
    (he : tokenIssued e = some (id, x)) : latestToken (e :: h) id = some x := by
  simp [latestToken, List.filterMap_cons_some he]

theorem latestToken_of_not_issued {e : CallEvent} {h : List CallEvent} {id : String}
    (he : ∀ x, tokenIssued e ≠ some (id, x)) : latestToken (e :: h) id = latestToken h id := by
  cases hi : tokenIssued e with
  | none => simp [latestToken, List.filterMap_cons_none hi]
  | some k =>
    obtain ⟨id', x⟩ := k
    have hne : id' ≠ id := by
      rintro rfl
      exact he x hi
    simp [latestToken, List.filterMap_cons_some hi, hne]

theorem issued_of_latestToken {h : List CallEvent} {id : String} {x : Bytes}
    (hl : latestToken h id = some x) : (id, x) ∈ h.filterMap tokenIssued := by
  unfold latestToken at hl
  obtain ⟨⟨id', x'⟩, hk, rfl⟩ := Option.map_eq_some_iff.mp hl
  have hid : id' = id := by simpa using List.find?_some hk
  exact hid ▸ List.mem_of_find?_eq_some hk

theorem touchBound_sameBut (t bound : Tables) (family : FamilyRow) (now ttl : ℤ) :
    (t.touchBound family now ttl bound).refreshFamilies = bound.refreshFamilies ∧
    (t.touchBound family now ttl bound).refreshTokens = bound.refreshTokens := by
  unfold Tables.touchBound
  split
  · exact ⟨rfl, rfl⟩
  · exact (touchSession_sameBut _ _ _ _).2

/-- A stored family whose current token has the given secret. -/
def Accepts (t : Tables) (id : String) (x : Bytes) : Prop :=
  ∃ f ∈ t.refreshFamilies.rows, f.id = id ∧ ∃ k, CurrentToken t f k ∧ k.secretHash = x

theorem Rotated.accepts {t t' : Tables} {user : UserRow} {input : RotateRefreshInput}
    {family : FamilyRow} {token : TokenRow} (h : Rotated t user input t' family token) :
    Accepts t' input.familyId input.newSecretHash := by
  obtain ⟨advanced, hadv, rfl⟩ := h.written
  obtain ⟨hf, hk⟩ := touchBound_sameBut t advanced family input.now input.sessionIdleTtl
  obtain ⟨tokens, hins, rfl⟩ := advanceFamily_ok hadv
  unfold Accepts CurrentToken
  rw [hf, hk]
  refine ⟨_, List.mem_map.mpr ⟨family, h.presented.family_mem, rfl⟩, ?_, _,
    ⟨(Table.mem_insert hins).mpr (.inr rfl), ?_, ?_⟩, rfl⟩ <;>
  simp [h.presented.family_id]

theorem ExchangeWrote.accepts {t t' : Tables} {input : ExchangeCodeInput} {code : CodeRow}
    {session : SessionRow} {r : RefreshInput} (h : ExchangeWrote t input code session t')
    (hr : input.refresh = some r) : Accepts t' r.familyId r.secretHash := by
  simp only [ExchangeWrote, hr] at h
  obtain ⟨families, tokens, hf, hk, rfl⟩ := openFamily_ok h
  rw [limitFamilies_eq]
  refine ⟨_, List.mem_map.mpr ⟨_, (Table.mem_insert hf).mpr (.inr rfl), rfl⟩, ?_, _,
    ⟨(Table.mem_insert hk).mpr (.inr rfl), ?_, ?_⟩, rfl⟩ <;>
  split <;> rfl

/-- A step that stores a token leaves it the current one of its family. -/
theorem accepts_of_issued {sha256 : String → Bytes} {o : UserObject} {c : Call} {id : String}
    {x : Bytes} (h : tokenIssued (Machine.event (UserObject.call sha256) o c) = some (id, x)) :
    Accepts (o.call sha256 c).1.tables id x := by
  unfold tokenIssued at h
  split at h
  next input hi =>
    cases h
    obtain ⟨_, user, family, token, _, hrot⟩ := rotationSucceeded_commit hi
    exact hrot.accepts
  next =>
    obtain ⟨input, hi, hr⟩ := Option.bind_eq_some_iff.mp h
    obtain ⟨r, href, he⟩ := Option.map_eq_some_iff.mp hr
    cases he
    obtain ⟨user, challenge, code, session, _, _, hw, _⟩ := exchangeSucceeded_commit hi
    exact hw.accepts href

theorem issued_of_familyOpened {e : CallEvent} {id : String} (h : familyOpened e = some id) :
    ∃ x, tokenIssued e = some (id, x) := by
  obtain ⟨input, hi, hr⟩ := Option.bind_eq_some_iff.mp h
  obtain ⟨r, href, rfl⟩ := Option.map_eq_some_iff.mp hr
  have hrot : rotationSucceeded e = none := by
    unfold exchangeSucceeded exchangeOk at hi
    unfold rotationSucceeded
    split
    next hreply => simp [hreply] at hi
    · rfl
  exact ⟨r.secretHash, by simp [tokenIssued, hrot, hi, href]⟩

/-- The current token of a stored family is the last one stored for it. -/
def LatestCurrent (h : List CallEvent) (t : Tables) : Prop :=
  ∀ f ∈ t.refreshFamilies.rows, ∀ k, CurrentToken t f k → latestToken h f.id = some k.secretHash

theorem LatestCurrent.step {sha256 : String → Bytes} {h : List CallEvent} {o : UserObject}
    (c : Call) (hs : SerialsSound (o.call sha256 c).1.tables) (hl : LatestCurrent h o.tables) :
    LatestCurrent (Machine.event (UserObject.call sha256) o c :: h) (o.call sha256 c).1.tables := by
  intro f hf k hk
  have hev := call_evolves sha256 o c
  by_cases hi : ∃ x, tokenIssued (Machine.event (UserObject.call sha256) o c) = some (f.id, x)
  · obtain ⟨x, hx⟩ := hi
    obtain ⟨g, hg, hgid, l, hl', rfl⟩ := accepts_of_issued hx
    obtain rfl := Table.eq_of_key_eq hg hf hgid
    rw [latestToken_of_issued hx, hs.unique k hk.1 l hl'.1 (hk.2.1.trans hl'.2.1.symm)
      (hk.2.2.trans hl'.2.2.symm)]
  · rw [not_exists] at hi
    rw [latestToken_of_not_issued hi]
    rcases hev.families f hf with ⟨g, hg, hlater⟩ | hnew
    · rcases hlater.serial with hser | ⟨x, hx⟩
      · rcases hev.tokens k hk.1 with ⟨l, hl', rfl⟩ | hnew
        · rw [hlater.id]
          exact hl g hg l ⟨hl', hk.2.1.trans hlater.id, hk.2.2.trans hser⟩
        · exact absurd (hk.2.1 ▸ hnew) (hi _)
      · exact absurd (hlater.id ▸ hx) (hi x)
    · obtain ⟨x, hx⟩ := issued_of_familyOpened hnew.1
      exact absurd hx (hi x)

theorem latestCurrent_after (sha256 : String → Bytes) (calls : List Call) :
    LatestCurrent (history sha256 calls) (after sha256 calls).tables := by
  induction calls with
  | nil => exact fun f hf => absurd hf (by simp [UserObject.fresh, Tables.empty])
  | cons c calls ih => exact ih.step c (SerialsSound.after_calls sha256 (c :: calls))

/-- A rotation redeems the last token stored for its family. -/
theorem latestToken_of_rotated {sha256 : String → Bytes} {h : List CallEvent} {o : UserObject}
    {c : Call} {input : RotateRefreshInput} (hl : LatestCurrent h o.tables)
    (hr : rotationSucceeded (Machine.event (UserObject.call sha256) o c) = some input) :
    latestToken h input.familyId = some input.secretHash := by
  obtain ⟨_, user, family, token, _, hrot⟩ := rotationSucceeded_commit hr
  have hp := hrot.presented
  have hk : CurrentToken o.tables family token :=
    ⟨purgedTables_tokens_subset hp.token_mem, hp.token_family, hrot.current⟩
  have hlatest := hl family (purgedTables_families_subset hp.family_mem) token hk
  rwa [hp.family_id, hp.secret] at hlatest

/-! ### At most one redemption -/

/-- Every redeemed token was stored, and is no longer the last of its family. -/
def RedeemedSpent (h : List CallEvent) : Prop :=
  ∀ id x, (id, x) ∈ h.filterMap tokenRedeemed →
    (id, x) ∈ h.filterMap tokenIssued ∧ latestToken h id ≠ some x

/-- A stored token that is not the last of its family never becomes it again. -/
theorem latestToken_ne_cons {e : CallEvent} {h : List CallEvent} {id : String} {x : Bytes}
    (hf : Fresh (e :: h)) (hi : (id, x) ∈ h.filterMap tokenIssued)
    (hl : latestToken h id ≠ some x) : latestToken (e :: h) id ≠ some x := by
  by_cases he : ∃ y, tokenIssued e = some (id, y)
  · obtain ⟨y, hy⟩ := he
    rw [latestToken_of_issued hy]
    rintro ⟨rfl⟩
    exact notMem_of_nodup hf.tokens hy hi
  · rw [not_exists] at he
    rwa [latestToken_of_not_issued he]

theorem redeemed_once_step {e : CallEvent} {h : List CallEvent} (hf : Fresh (e :: h))
    (hlatest : ∀ input, rotationSucceeded e = some input →
      latestToken h input.familyId = some input.secretHash)
    (hs : RedeemedSpent h) (hn : (h.filterMap tokenRedeemed).Nodup) :
    RedeemedSpent (e :: h) ∧ ((e :: h).filterMap tokenRedeemed).Nodup := by
  have hold : ∀ id x, (id, x) ∈ h.filterMap tokenRedeemed →
      (id, x) ∈ (e :: h).filterMap tokenIssued ∧ latestToken (e :: h) id ≠ some x := by
    intro id x hm
    obtain ⟨hi, hl⟩ := hs id x hm
    exact ⟨mem_filterMap_cons.mpr (.inr hi), latestToken_ne_cons hf hi hl⟩
  cases hr : rotationSucceeded e with
  | none =>
    have he : tokenRedeemed e = none := by simp [tokenRedeemed, hr]
    rw [List.filterMap_cons_none he]
    refine ⟨?_, hn⟩
    intro id x hm
    rw [List.filterMap_cons_none he] at hm
    exact hold id x hm
  | some input =>
    have he : tokenRedeemed e = some (input.familyId, input.secretHash) := by
      simp [tokenRedeemed, hr]
    have hissue : tokenIssued e = some (input.familyId, input.newSecretHash) := by
      simp [tokenIssued, hr]
    have hi := issued_of_latestToken (hlatest input hr)
    have hne : input.newSecretHash ≠ input.secretHash := by
      intro heq
      rw [← heq] at hi
      exact notMem_of_nodup hf.tokens hissue hi
    rw [List.filterMap_cons_some he]
    constructor
    · intro id x hm
      rw [List.filterMap_cons_some he] at hm
      rcases List.mem_cons.mp hm with heq | hm
      · obtain ⟨rfl, rfl⟩ := Prod.mk.inj heq
        refine ⟨mem_filterMap_cons.mpr (.inr hi), ?_⟩
        rw [latestToken_of_issued hissue]
        exact fun hx => hne (Option.some.inj hx)
      · exact hold id x hm
    · refine List.nodup_cons.mpr ⟨fun hm => ?_, hn⟩
      exact (hs _ _ hm).2 (hlatest input hr)

theorem redeemed_once_after (sha256 : String → Bytes) (calls : List Call)
    (hf : Fresh (history sha256 calls)) :
    RedeemedSpent (history sha256 calls) ∧
      ((history sha256 calls).filterMap tokenRedeemed).Nodup := by
  induction calls with
  | nil => exact ⟨by simp [RedeemedSpent], by simp⟩
  | cons c calls ih =>
    obtain ⟨hs, hn⟩ := ih hf.tail
    exact redeemed_once_step hf
      (fun input hr => latestToken_of_rotated (latestCurrent_after sha256 calls) hr) hs hn

/-! ### Reuse -/

theorem rotateTransaction_reused {t : Tables} (user : UserRow) {input : RotateRefreshInput}
    {family : FamilyRow} {token : TokenRow} (h : Presented t input family token)
    (hlt : token.serial < family.currentSerial) :
    t.rotateTransaction user input = .ok (t.revokeReused family input.now) := by
  have hf : t.refreshFamilies.find input.familyId = some family :=
    Table.find_eq_some.mpr ⟨h.family_mem, h.family_id⟩
  have hk : t.refreshTokens.find (family.id, input.secretHash) = some token :=
    Table.find_eq_some.mpr ⟨h.token_mem, by rw [h.token_family, h.secret]⟩
  have hexp : ¬ (family.absoluteExpiresAt ≤ input.now ∨ family.idleExpiresAt ≤ input.now) := by
    rw [not_or, not_le, not_le]
    exact ⟨h.absolute, h.idle⟩
  simp [Tables.rotateTransaction, hf, hk, h.unrevoked, hexp, h.client, h.incarnation, hlt]

/-- A token presented again after its family moved on, as the call's own purge left it. -/
def ReusePresented (o : UserObject) (input : RotateRefreshInput) (family : FamilyRow) : Prop :=
  ∃ token, Presented (purgedTables o input.now input.reuseWindow) input family token ∧
    token.serial < family.currentSerial

theorem ReusePresented.call {o : UserObject} {input : RotateRefreshInput} {family : FamilyRow}
    (h : ReusePresented o input family) (hd : DormantEmpty o) (sha256 : String → Bytes) :
    (o.call sha256 (.rotateRefreshToken input)).1.tables =
        ((purgedTables o input.now input.reuseWindow).revokeReused family input.now).1 ∧
      (o.call sha256 (.rotateRefreshToken input)).2 =
        .rotate ((purgedTables o input.now input.reuseWindow).revokeReused family input.now).2 := by
  obtain ⟨token, hp, hlt⟩ := h
  have hne : ¬ CoreEmpty o.tables := by
    intro hc
    have hm := purgedTables_families_subset hp.family_mem
    rw [hc.families] at hm
    simp at hm
  obtain ⟨user, hg, _⟩ := guard_of_not_coreEmpty hd hne
  have ht := rotateTransaction_reused user hp hlt
  unfold purgedTables at ht ⊢
  simp [UserObject.call, answered, UserObject.rotateRefreshToken, UserObject.guarded, hg,
    UserObject.purging, ht, UserObject.store]

theorem revokeReused_familyDead (t : Tables) (family : FamilyRow) (now : ℤ) :
    FamilyDead family.id (t.revokeReused family now).1 := by
  have hf : FamilyDead family.id (t.revokeFamily family.id now "reuse") :=
    familyDead_revokeFamiliesWhere fun f hf => by simp [hf]
  unfold Tables.revokeReused
  dsimp only
  split
  · exact hf
  · exact hf.revokeSessionRows _ now _

theorem revokeReused_sessionDead {t : Tables} {family : FamilyRow} {sid : String} (now : ℤ)
    (h : family.sid = some sid) : SessionDead sid (t.revokeReused family now).1 := by
  unfold Tables.revokeReused
  simp only [h]
  exact sessionDead_revokeSessionRows _ sid now _

/-- The row of a reused family is left revoked at the time of the reuse. -/
theorem revokeReused_mem {t : Tables} {family : FamilyRow} {now : ℤ}
    (hm : family ∈ t.refreshFamilies.rows) (hu : family.revokedAt = none) :
    { family with revokedAt := some now, revokeReason := some "reuse" } ∈
      (t.revokeReused family now).1.refreshFamilies.rows := by
  have hrow : { family with revokedAt := some now, revokeReason := some "reuse" } ∈
      (t.revokeFamily family.id now "reuse").refreshFamilies.rows :=
    List.mem_map.mpr ⟨family, hm, by simp [hu]⟩
  unfold Tables.revokeReused
  dsimp only
  split
  · exact hrow
  · exact List.mem_map.mpr ⟨_, hrow, by simp⟩

/-- Refresh rotation is exactly-once: in every run with fresh ids a family has one token of its
current serial and none beyond, which no purge separates from it; only the token stored last for
the family is redeemed, no token twice; and an earlier token presented again kills the family,
and its session, for the rest of the run. -/
theorem refresh_rotation_exactly_once (sha256 : String → Bytes) (calls : List Call)
    (hf : Fresh (history sha256 calls)) :
    (∀ f ∈ (after sha256 calls).tables.refreshFamilies.rows,
      (∃! k, CurrentToken (after sha256 calls).tables f k) ∧
      (∀ k ∈ (after sha256 calls).tables.refreshTokens.rows,
        k.familyId = f.id → k.serial ≤ f.currentSerial) ∧
      ∀ now w k, CurrentToken (after sha256 calls).tables f k →
        CurrentToken ((after sha256 calls).tables.purgeTokens (now - w)) f k ∧
        (f ∈ ((after sha256 calls).tables.purge now w).refreshFamilies.rows →
          CurrentToken ((after sha256 calls).tables.purge now w) f k)) ∧
    (∀ later c earlier input, calls = later ++ c :: earlier →
      rotationSucceeded (Machine.event (UserObject.call sha256) (after sha256 earlier) c) =
        some input →
      latestToken (history sha256 earlier) input.familyId = some input.secretHash) ∧
    ((history sha256 calls).filterMap tokenRedeemed).Nodup ∧
    ∀ later input earlier family, calls = later ++ .rotateRefreshToken input :: earlier →
      ReusePresented (after sha256 earlier) input family →
      (∃ clients, ((after sha256 earlier).call sha256 (.rotateRefreshToken input)).2 =
        .rotate (.fail .invalidGrant true clients)) ∧
      { family with revokedAt := some input.now, revokeReason := some "reuse" } ∈
        (after sha256 (.rotateRefreshToken input :: earlier)).tables.refreshFamilies.rows ∧
      FamilyDead family.id (after sha256 calls).tables ∧
      ∀ sid, family.sid = some sid → SessionDead sid (after sha256 calls).tables := by
  refine ⟨?_, ?_, (redeemed_once_after sha256 calls hf).2, ?_⟩
  · intro f hm
    have hs := SerialsSound.after_calls sha256 calls
    obtain ⟨k, hk⟩ := hs.current f hm
    refine ⟨⟨k, hk, fun l hl => ?_⟩, fun l hl hid => hs.serial_le hm hl hid, ?_⟩
    · exact hs.unique l hl.1 k hk.1 (hl.2.1.trans hk.2.1.symm) (hl.2.2.trans hk.2.2.symm)
    · intro now w l hl
      have htok : CurrentToken ((after sha256 calls).tables.purgeTokens (now - w)) f l :=
        ⟨Table.mem_deleteWhere.mpr ⟨hl.1, hs.not_consumedBefore hm hl (now - w)⟩, hl.2⟩
      refine ⟨htok, fun hf' => ⟨?_, hl.2⟩⟩
      obtain ⟨_, hgone⟩ := Table.mem_deleteWhere.mp hf'
      exact SerialsSound.mem_deleteFamilies
        (t := ((after sha256 calls).tables.purgeCodes now).purgeTokens (now - w)) hm hgone htok.1
        hl.2.1
  · rintro later c earlier input rfl hr
    exact latestToken_of_rotated (latestCurrent_after sha256 earlier) hr
  · rintro later input earlier family rfl hreuse
    obtain ⟨htables, hreply⟩ := hreuse.call (dormantEmpty_after sha256 earlier) sha256
    obtain ⟨token, hp, _⟩ := hreuse
    obtain ⟨clients, hcl⟩ := revokeReused_reply
      (purgedTables (after sha256 earlier) input.now input.reuseWindow) family input.now
    have hmem := purgedTables_families_subset hp.family_mem
    refine ⟨⟨clients, by rw [hreply, hcl]⟩, ?_, ?_, ?_⟩
    · rw [after, Machine.after_cons, htables]
      exact revokeReused_mem hp.family_mem hp.unrevoked
    · refine familyDead_rest later hf ?_ ?_
      · exact mem_filterMap_cons.mpr (.inr ((stored_after sha256 earlier).families family hmem))
      · rw [after, Machine.after_cons, htables]
        exact revokeReused_familyDead _ family input.now
    · intro sid hsid
      refine sessionDead_rest later hf ?_ ?_
      · exact mem_filterMap_cons.mpr
          (.inr ((sidsIn_after sha256 earlier).families family hmem sid hsid))
      · rw [after, Machine.after_cons, htables]
        exact revokeReused_sessionDead input.now hsid

/-- A run up to the first rotation of a family bound to a session. -/
def Sample.rotatedOnce : List Call :=
  [Sample.rotate "f1" [5] [6] 20 86400,
    Sample.exchange [1] 10 (some (Sample.refresh "f1" [5] false)),
    Sample.login "s1" [2] 0 (some (Sample.code [1])), Sample.init]

/-- The first token presented again, after which the second one no longer rotates. -/
theorem refresh_rotation_exactly_once_sample :
    Fresh (history Sample.sha256
      (Sample.rotate "f1" [6] [8] 40 86400 :: Sample.rotate "f1" [5] [7] 30 86400 ::
        Sample.rotatedOnce)) ∧
    FamilyDead "f1" (after Sample.sha256
      (Sample.rotate "f1" [6] [8] 40 86400 :: Sample.rotate "f1" [5] [7] 30 86400 ::
        Sample.rotatedOnce)).tables := by
  have hf : Fresh (history Sample.sha256
      (Sample.rotate "f1" [6] [8] 40 86400 :: Sample.rotate "f1" [5] [7] 30 86400 ::
        Sample.rotatedOnce)) := by decide
  obtain ⟨_, _, _, hreuse⟩ := refresh_rotation_exactly_once Sample.sha256 _ hf
  have hp : ReusePresented (after Sample.sha256 Sample.rotatedOnce)
      (Sample.rotation "f1" [5] [7] 30 86400)
      { id := "f1", clientId := "app", clientCreatedAt := 5, codeSecretHash := some [1]
        kind := .session, sid := some "s1", scope := ["openid", "offline_access"], authTime := 0
        amr := ["user", "hwk"], acr := "urn:tinyoidc:acr:passkey", createdAt := 10
        absoluteExpiresAt := 86400, idleExpiresAt := 86400, currentSerial := 2, revokedAt := none
        revokeReason := none } :=
    ⟨⟨"f1", [5], 1, 10⟩, ⟨by decide, by decide, by decide, by decide, by decide, by decide,
      by decide, by decide, by decide, by decide⟩, by decide⟩
  exact ⟨hf, (hreuse [_] _ _ _ rfl hp).2.2.1⟩

end TinyOidc.User
