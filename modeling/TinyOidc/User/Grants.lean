import TinyOidc.User.Beside

/-! What a call does to the consent grants: every call but five leaves them alone, and those
five delete rows or write the one of the client they name. -/
namespace TinyOidc.User
open RowTable TinyOidc.Util

theorem insertIdentity_grants {t t' : Tables} {identity : NewIdentity} {now : ℤ}
    (h : UserObject.insertIdentity t identity now = .ok t') : t'.grants = t.grants := by
  unfold UserObject.insertIdentity at h
  split at h
  · cases h
  · split at h <;> cases h
    rfl

theorem insertIdentities_grants {now : ℤ} {t t' : Tables} {identities : List NewIdentity}
    (h : UserObject.insertIdentities now t identities = .ok t') : t'.grants = t.grants := by
  induction identities generalizing t with
  | nil =>
    cases h
    rfl
  | cons identity rest ih =>
    unfold UserObject.insertIdentities at h
    split at h
    · cases h
    · next t₁ h₁ => exact (ih h).trans (insertIdentity_grants h₁)

def touchesGrants : Call → Bool
  | .destroy | .authorizeWithSession _ | .grantConsent _ _ _ | .listGrants _ | .revokeGrant _ _ =>
      true
  | _ => false

theorem call_grants_kept (sha256 : String → Bytes) (o : UserObject) {c : Call}
    (h : touchesGrants c = false) : (o.call sha256 c).1.tables.grants = o.tables.grants := by
  cases hbeside : touchesBeside c with
  | false => exact (call_beside sha256 o hbeside).grants
  | true =>
    cases c with
    | init p now identities =>
      unfold UserObject.call UserObject.init answered
      dsimp only
      repeat' split
      all_goals first | rfl | next hinsert => exact (insertIdentities_grants hinsert).trans rfl
    | resumeAssertion call verified =>
      unfold UserObject.call UserObject.resumeAssertion UserObject.commitAssertion answered
      dsimp only
      repeat' split
      all_goals rfl
    | addPasskey p now maxPerUser =>
      unfold UserObject.call UserObject.addPasskey UserObject.guarded answered
      dsimp only
      repeat' split
      all_goals rfl
    | addIdentity identity now =>
      unfold UserObject.call UserObject.addIdentity UserObject.guarded answered
      dsimp only
      repeat' split
      all_goals first | rfl | next hinsert => exact insertIdentity_grants hinsert
    | removePasskey id actor =>
      unfold UserObject.call UserObject.removePasskey UserObject.guarded answered
      dsimp only
      repeat' split
      all_goals rfl
    | removeIdentity id actor =>
      unfold UserObject.call UserObject.removeIdentity UserObject.guarded answered
      dsimp only
      repeat' split
      all_goals rfl
    | renamePasskey id name =>
      unfold UserObject.call UserObject.renamePasskey UserObject.guarded answered
      dsimp only
      split <;> rfl
    | touchIdentity issuer subject claims now =>
      unfold UserObject.call UserObject.touchIdentity UserObject.guarded answered
      dsimp only
      split <;> rfl
    | _ => simp [touchesGrants, touchesBeside] at h hbeside

/-! ### What the others do -/

/-- Whether a call may take the grant away or rewrite it: it deletes the user, revokes or
extends the grant, or names another record of its client, or none where it lists them all. -/
def disturbs (g : GrantRow) : Call → Bool
  | .destroy => true
  | .authorizeWithSession input =>
      input.client.clientId == g.clientId && input.client.createdAt != g.clientCreatedAt
  | .grantConsent client _ _ => client.clientId == g.clientId
  | .listGrants clients => !UserObject.grantCurrent clients g
  | .revokeGrant clientId _ => clientId == g.clientId
  | _ => false

/-- The grant `grantConsent` leaves for a client adds its scopes to those of the same record. -/
def Extends (t : Tables) (client : ClientRef) (scopes : List String) (g : GrantRow) : Prop :=
  g.clientCreatedAt = client.createdAt ∧
    ∀ s ∈ g.scopes, s ∈ scopes ∨ ∃ g₀ ∈ t.grants.rows, g₀.clientId = client.clientId ∧
      g₀.clientCreatedAt = client.createdAt ∧ s ∈ g₀.scopes

/-- Everything a call does to the grants: it deletes some, or writes the one of a client. -/
inductive GrantsAfter (t : Tables) (grants : Table GrantRow GrantRow.clientId) :
    Call → Reply → Prop where
  | deleted (c : Call) (r : Reply) (subset : ∀ g ∈ grants.rows, g ∈ t.grants.rows)
      (kept : ∀ g ∈ t.grants.rows, disturbs g c = false → g ∈ grants.rows) :
      GrantsAfter t grants c r
  | granted (client : ClientRef) (scopes : List String) (now : ℤ) (record : GrantRecord)
      (others : ∀ g : GrantRow, g.clientId ≠ client.clientId →
        (g ∈ grants.rows ↔ g ∈ t.grants.rows))
      (own : ∀ g ∈ grants.rows, g.clientId = client.clientId → Extends t client scopes g) :
      GrantsAfter t grants (.grantConsent client scopes now) (.grant (.ok record))

theorem GrantsAfter.refl {t : Tables} {grants : Table GrantRow GrantRow.clientId} {c : Call}
    {r : Reply} (h : grants = t.grants) : GrantsAfter t grants c r := by
  subst h
  exact .deleted c r (fun _ hg => hg) (fun _ hg _ => hg)

theorem grantFor_some {t : Tables} {client : ClientRef} {row : GrantRow}
    (h : (t.grantFor client).2 = some row) :
    row ∈ t.grants.rows ∧ row.clientId = client.clientId ∧
      row.clientCreatedAt = client.createdAt := by
  unfold Tables.grantFor at h
  split at h
  · cases h
  · next found hfind =>
    split_ifs at h with hfound
    cases h
    obtain ⟨hmem, hkey⟩ := Table.find_eq_some.mp hfind
    exact ⟨hmem, hkey, not_not.mp hfound⟩

/-- Reading a client's grant leaves the others, and of its own only one of the same record. -/
theorem mem_grantFor {t : Tables} {client : ClientRef} {g : GrantRow} :
    g ∈ (t.grantFor client).1.grants.rows ↔
      g ∈ t.grants.rows ∧ (g.clientId = client.clientId →
        g.clientCreatedAt = client.createdAt) := by
  unfold Tables.grantFor
  split
  · next hfind =>
    have habsent := Table.find_eq_none.mp hfind
    exact ⟨fun hg => ⟨hg, fun hkey => absurd hkey (habsent g hg)⟩, And.left⟩
  · next row hfind =>
    obtain ⟨hmem, hkey⟩ := Table.find_eq_some.mp hfind
    have hown : ∀ g ∈ t.grants.rows, g.clientId = client.clientId → g = row :=
      fun g hg hg' => Table.eq_of_key_eq hg hmem (hg'.trans hkey.symm)
    split_ifs with hrow
    · simp only [Table.mem_deleteWhere, beq_eq_false_iff_ne]
      constructor
      · rintro ⟨hg, hne⟩
        exact ⟨hg, fun h => absurd h hne⟩
      · rintro ⟨hg, himp⟩
        exact ⟨hg, fun h => hrow (hown g hg h ▸ himp h)⟩
    · exact ⟨fun hg => ⟨hg, fun h => hown g hg h ▸ not_not.mp hrow⟩, And.left⟩

theorem mem_upsertGrant_of_ne {t : Tables} {row g : GrantRow} (hne : g.clientId ≠ row.clientId) :
    g ∈ (UserObject.upsertGrant t row).grants.rows ↔ g ∈ t.grants.rows := by
  unfold UserObject.upsertGrant
  cases hinsert : t.grants.insert row with
  | some inserted =>
    have hrow : g ≠ row := fun h => hne (h ▸ rfl)
    simp [Table.mem_insert hinsert, hrow]
  | none =>
    simp only [Table.updateWhere, List.mem_map]
    constructor
    · rintro ⟨g₀, hg₀, rfl⟩
      by_cases hkey : g₀.clientId = row.clientId
      · simp [hkey] at hne
      · simpa [hkey] using hg₀
    · intro hg
      exact ⟨g, hg, by simp [hne]⟩

/-- The client's own row after the upsert: the new scopes under the record it had before. -/
theorem mem_upsertGrant_own {t : Tables} {row g : GrantRow}
    (h : g ∈ (UserObject.upsertGrant t row).grants.rows) (hkey : g.clientId = row.clientId) :
    g.scopes = row.scopes ∧ (g.clientCreatedAt = row.clientCreatedAt ∨
      ∃ g₀ ∈ t.grants.rows, g₀.clientId = row.clientId ∧
        g.clientCreatedAt = g₀.clientCreatedAt) := by
  unfold UserObject.upsertGrant at h
  cases hinsert : t.grants.insert row with
  | some inserted =>
    simp only [hinsert, Table.mem_insert hinsert] at h
    rcases h with h | rfl
    · exact absurd hkey (Table.key_notMem_of_insert hinsert g h)
    · exact ⟨rfl, .inl rfl⟩
  | none =>
    simp only [hinsert, Table.updateWhere, List.mem_map] at h
    obtain ⟨g₀, hg₀, rfl⟩ := h
    by_cases hkey₀ : g₀.clientId = row.clientId
    · simp only [hkey₀, beq_self_eq_true, if_true]
      exact ⟨trivial, .inr ⟨g₀, hg₀, hkey₀, rfl⟩⟩
    · simp [hkey₀] at hkey

theorem grantConsent_grants {o o' : UserObject} {client : ClientRef} {scopes : List String}
    {now : ℤ} {r : Outcome GrantRecord} (h : o.grantConsent client scopes now = (o', r)) :
    GrantsAfter o.tables o'.tables.grants (.grantConsent client scopes now) (.grant r) := by
  unfold UserObject.grantConsent at h
  obtain ⟨rfl, err, rfl⟩ | ⟨user, -, h⟩ := guarded_cases h
  · exact .refl rfl
  obtain ⟨rfl, rfl⟩ := Prod.mk.inj h
  refine .granted client scopes now _ ?_ ?_
  · intro g hne
    refine (mem_upsertGrant_of_ne hne).trans (mem_grantFor.trans ?_)
    exact ⟨And.left, fun hg => ⟨hg, fun hkey => absurd hkey hne⟩⟩
  · intro g hg hkey
    obtain ⟨hscopes, hcreated⟩ := mem_upsertGrant_own hg hkey
    constructor
    · rcases hcreated with hcreated | ⟨g₀, hg₀, hkey₀, hcreated⟩
      · exact hcreated
      · exact hcreated.trans ((mem_grantFor.mp hg₀).2 hkey₀)
    · intro s hs
      rw [hscopes] at hs
      simp only [UserObject.grantRow, mem_sortTexts, mem_uniqueTexts, List.mem_append] at hs
      rcases hs with hs | hs
      · cases hexisting : (o.tables.grantFor client).2 with
        | none => simp [hexisting] at hs
        | some row =>
          obtain ⟨hmem, hclient, hrecord⟩ := grantFor_some hexisting
          exact .inr ⟨row, hmem, hclient, hrecord, by simpa [hexisting] using hs⟩
      · exact .inl hs

theorem consentCovered_grants (o : UserObject) (input : AuthorizeWithSessionInput) (r : Reply) :
    GrantsAfter o.tables (UserObject.consentCovered o.tables input).1.grants
      (.authorizeWithSession input) r := by
  unfold UserObject.consentCovered
  split_ifs
  · exact .refl rfl
  · refine .deleted _ _ (fun g hg => (mem_grantFor.mp hg).1) fun g hg hkept => ?_
    refine mem_grantFor.mpr ⟨hg, fun hkey => ?_⟩
    simp only [disturbs, hkey, beq_self_eq_true, Bool.true_and, bne_eq_false_iff_eq] at hkept
    exact hkept.symm

theorem authorizeWithSession_grants (o : UserObject) (input : AuthorizeWithSessionInput)
    (r : Reply) :
    GrantsAfter o.tables (o.authorizeWithSession input).1.tables.grants
      (.authorizeWithSession input) r := by
  have hconsent := consentCovered_grants o input r
  unfold UserObject.authorizeWithSession UserObject.guarded
  split
  · exact .refl rfl
  dsimp only
  split
  · exact .refl rfl
  split_ifs
  · exact .refl rfl
  · exact .refl rfl
  · exact .refl rfl
  · exact .refl rfl
  · exact hconsent
  split
  · exact hconsent
  · split
    · exact .refl rfl
    · next t hissued =>
      have hgrants : t.grants = (UserObject.consentCovered o.tables input).1.grants :=
        (Tables.issueCodeRows_beside hissued).grants.trans (purgeIfDue_beside _ _ _).grants
      rw [UserObject.store, hgrants]
      exact hconsent

/-- What a call does to the grants of a user. -/
theorem call_grants (sha256 : String → Bytes) (o : UserObject) (c : Call) :
    GrantsAfter o.tables (o.call sha256 c).1.tables.grants c (o.call sha256 c).2 := by
  cases htouches : touchesGrants c with
  | false => exact .refl (call_grants_kept sha256 o htouches)
  | true =>
    cases c with
    | destroy =>
      exact .deleted _ _ (by simp [UserObject.call, UserObject.destroy, Tables.empty])
        (by simp [disturbs])
    | authorizeWithSession input => exact authorizeWithSession_grants o input _
    | grantConsent client scopes now => exact grantConsent_grants rfl
    | listGrants clients =>
      unfold UserObject.call UserObject.listGrants UserObject.guarded answered
      dsimp only
      split
      · exact .refl rfl
      · refine .deleted _ _ (fun g hg => Table.deleteWhere_subset hg) fun g hg hkept => ?_
        exact Table.mem_deleteWhere.mpr ⟨hg, hkept⟩
    | revokeGrant clientId now =>
      unfold UserObject.call UserObject.revokeGrant UserObject.guarded answered
      dsimp only
      split
      · exact .refl rfl
      · refine .deleted _ _ (fun g hg => Table.deleteWhere_subset hg) fun g hg hkept => ?_
        rw [disturbs, beq_eq_false_iff_ne] at hkept
        exact Table.mem_deleteWhere.mpr ⟨hg, beq_eq_false_iff_ne.mpr hkept.symm⟩
    | _ => cases htouches

/-- The frame of the grants: a call that does not disturb a grant leaves it as it is. -/
theorem mem_grants_of_not_disturbs (sha256 : String → Bytes) {o : UserObject} {c : Call}
    {g : GrantRow} (hg : g ∈ o.tables.grants.rows) (hc : disturbs g c = false) :
    g ∈ (o.call sha256 c).1.tables.grants.rows := by
  have hafter := call_grants sha256 o c
  generalize (o.call sha256 c).2 = r at hafter
  cases hafter with
  | deleted _ _ _ kept => exact kept g hg hc
  | granted client scopes now record others _ =>
    refine (others g fun hkey => ?_).mpr hg
    simp [disturbs, hkey] at hc

/-- A listed grant is a stored one of the record the caller confirmed. -/
theorem exists_of_listGrants {o : UserObject} {clients : List ClientRef} {grants : List GrantRecord}
    (h : (o.listGrants clients).2 = .ok grants) {record : GrantRecord} (hr : record ∈ grants) :
    ∃ g ∈ o.tables.grants.rows, UserObject.grantCurrent clients g = true ∧
      record.scopes = g.scopes := by
  unfold UserObject.listGrants UserObject.guarded at h
  split at h
  · cases h
  · cases h
    obtain ⟨g, hg, rfl⟩ := List.mem_map.mp hr
    obtain ⟨hmem, hcurrent⟩ := List.mem_filter.mp hg
    exact ⟨g, (List.mem_insertionSort _).mp hmem, hcurrent, rfl⟩

/-- The session-hit path issues codes to a client that skips consent, or for granted scopes. -/
theorem scope_granted_of_authorized {o : UserObject} {input : AuthorizeWithSessionInput}
    {a : Authorized} {code : CodeInput} (h : (o.authorizeWithSession input).2 = .ok a)
    (ha : a.outcome = .authorized) (hcode : input.code = some code)
    (hskip : input.client.skipConsent = false) :
    ∀ s ∈ input.scope, ∃ g ∈ o.tables.grants.rows, g.clientId = input.client.clientId ∧
      g.clientCreatedAt = input.client.createdAt ∧ s ∈ g.scopes := by
  obtain ⟨-, hnone⟩ | ⟨user, session, code', a', hissued, -, -⟩ :=
    authorizeWithSession_cases (Prod.eta (o.authorizeWithSession input)).symm
  · rw [hnone a h ha] at hcode
    cases hcode
  · have hcovered := hissued.consent
    simp only [UserObject.consentCovered, hskip, Bool.false_eq_true, if_false, Bool.and_eq_true,
      List.all_eq_true, List.contains_iff_mem] at hcovered
    intro s hs
    have hgranted := hcovered.2 s hs
    cases hgrant : (o.tables.grantFor input.client).2 with
    | none => simp [hgrant] at hgranted
    | some row =>
      obtain ⟨hmem, hclient, hrecord⟩ := grantFor_some hgrant
      exact ⟨row, hmem, hclient, hrecord, by simpa [hgrant] using hgranted⟩

end TinyOidc.User
