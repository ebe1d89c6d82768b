import TinyOidc.User.Changes

/-! The tables beside the sessions: the grants, the passkeys and the identities. The statements on
sessions, codes and families leave them alone. -/
namespace TinyOidc.User
open RowTable TinyOidc.Util

structure SameBeside (t t' : Tables) : Prop where
  grants : t'.grants = t.grants
  passkeys : t'.passkeys = t.passkeys
  identities : t'.identities = t.identities

theorem SameBeside.refl (t : Tables) : SameBeside t t := ⟨rfl, rfl, rfl⟩

theorem SameBeside.trans {t t' t'' : Tables} (h : SameBeside t t') (h' : SameBeside t' t'') :
    SameBeside t t'' :=
  ⟨h'.grants.trans h.grants, h'.passkeys.trans h.passkeys, h'.identities.trans h.identities⟩

/-- As `SameBeside`, with the user's row. -/
structure SameAccount (t t' : Tables) : Prop extends SameBeside t t' where
  user : t'.user = t.user

theorem SameAccount.refl (t : Tables) : SameAccount t t := ⟨.refl t, rfl⟩

theorem SameAccount.trans {t t' t'' : Tables} (h : SameAccount t t') (h' : SameAccount t' t'') :
    SameAccount t t'' := ⟨h.toSameBeside.trans h'.toSameBeside, h'.user.trans h.user⟩

/-! ### Statements -/

namespace Tables

theorem purge_beside (t : Tables) (now w : ℤ) : SameAccount t (t.purge now w) :=
  ⟨⟨rfl, rfl, rfl⟩, rfl⟩

theorem revokeEach_beside (now : ℤ) (reason : String) (t : Tables) (sids : List String) :
    SameAccount t (revokeEach now reason t sids).1 := by
  induction sids generalizing t with
  | nil => exact .refl t
  | cons sid sids ih =>
    have hone : SameAccount t (t.revokeSessionRows sid now reason).1 := ⟨⟨rfl, rfl, rfl⟩, rfl⟩
    exact hone.trans (ih _)

theorem touchSession_beside (t : Tables) (row : SessionRow) (now idleTtl : ℤ) :
    SameAccount t (t.touchSession row now idleTtl) := by
  unfold touchSession
  split <;> exact ⟨⟨rfl, rfl, rfl⟩, rfl⟩

theorem issueCodeRows_beside {t t' : Tables} {code : CodeInput} {session : SessionRow}
    {now idleTtl : ℤ} (h : t.issueCodeRows code session now idleTtl = .ok t') :
    SameAccount t t' := by
  unfold issueCodeRows at h
  split at h
  · cases h
  · cases h
    refine SameAccount.trans ?_ (touchSession_beside _ _ _ _)
    exact ⟨⟨rfl, rfl, rfl⟩, rfl⟩

theorem insertSession_beside {t t' : Tables} {input : NewSession} {now : ℤ}
    (h : t.insertSession input now = .ok t') : SameAccount t t' := by
  unfold insertSession at h
  split at h
  · cases h
  · split at h <;> cases h
    exact ⟨⟨rfl, rfl, rfl⟩, rfl⟩

theorem rotateSession_beside {t t' : Tables} {existing : SessionRow} {secretHash : Bytes}
    {auth : AuthContext} {now idleTtl : ℤ}
    (h : t.rotateSession existing secretHash auth now idleTtl = .ok t') : SameAccount t t' := by
  unfold rotateSession at h
  split at h <;> cases h
  exact ⟨⟨rfl, rfl, rfl⟩, rfl⟩

theorem openFamily_beside {t t' : Tables} {input : ExchangeCodeInput} {r : RefreshInput}
    {code : CodeRow} {session : SessionRow} (h : t.openFamily input r code session = .ok t') :
    SameAccount t t' := by
  unfold openFamily at h
  split at h
  · cases h
  · split at h <;> cases h
    exact ⟨⟨rfl, rfl, rfl⟩, rfl⟩

theorem exchangeTransaction_beside {t t' : Tables} {user : UserRow} {challenge : Option String}
    {input : ExchangeCodeInput} {r : ExchangeOutcome}
    (h : t.exchangeTransaction user challenge input = .ok (t', r)) : SameAccount t t' := by
  obtain ⟨rfl, -⟩ | ⟨_, -, -, -, rfl, -⟩ | ⟨code, session, _, _, _, -, hwrote, -⟩ :=
    exchangeTransaction_cases h
  · exact .refl _
  · exact ⟨⟨rfl, rfl, rfl⟩, rfl⟩
  · unfold ExchangeWrote at hwrote
    split at hwrote
    · rw [hwrote]
      exact ⟨⟨rfl, rfl, rfl⟩, rfl⟩
    · refine SameAccount.trans ?_ (openFamily_beside hwrote)
      exact ⟨⟨rfl, rfl, rfl⟩, rfl⟩

theorem revokeReused_beside (t : Tables) (family : FamilyRow) (now : ℤ) :
    SameAccount t (t.revokeReused family now).1 := by
  unfold revokeReused
  dsimp only
  split <;> exact ⟨⟨rfl, rfl, rfl⟩, rfl⟩

theorem touchBound_beside (t : Tables) (family : FamilyRow) (now idleTtl : ℤ) (bound : Tables) :
    SameAccount bound (t.touchBound family now idleTtl bound) := by
  unfold touchBound
  split
  · exact .refl bound
  · exact touchSession_beside _ _ _ _

theorem advanceFamily_beside {t t' : Tables} {family : FamilyRow} {newSecretHash : Bytes}
    {now idleTtl : ℤ} (h : t.advanceFamily family newSecretHash now idleTtl = .ok t') :
    SameAccount t t' := by
  unfold advanceFamily at h
  split at h <;> cases h
  exact ⟨⟨rfl, rfl, rfl⟩, rfl⟩

theorem rotateTransaction_beside {t t' : Tables} {user : UserRow} {input : RotateRefreshInput}
    {r : RotateOutcome} (h : t.rotateTransaction user input = .ok (t', r)) :
    SameAccount t t' := by
  obtain ⟨rfl, -⟩ | ⟨-, rfl, -⟩ | ⟨family, _, -, -, hreused⟩ | ⟨family, _, _, hrotated, -⟩ :=
    rotateTransaction_cases h
  · exact .refl _
  · exact ⟨⟨rfl, rfl, rfl⟩, rfl⟩
  · have hbeside := revokeReused_beside t family input.now
    rwa [hreused] at hbeside
  · obtain ⟨advanced, hadvanced, rfl⟩ := hrotated.written
    exact (advanceFamily_beside hadvanced).trans (touchBound_beside _ _ _ _ _)

end Tables

theorem loginTransaction_beside {t t' : Tables} {user : UserRow} {input : FinalizeLoginInput}
    {r : Outcome Finalized} (h : UserObject.loginTransaction t user input = .ok (t', r)) :
    SameAccount t t' := by
  have hfinish : ∀ {t₁ : Tables} {sid : String},
      UserObject.finishLogin t₁ user sid input = .ok (t', r) → SameAccount t₁ t' := by
    intro t₁ sid h
    unfold UserObject.finishLogin UserObject.issueOptional at h
    split at h
    · cases h
      exact .refl _
    · split at h
      · cases h
      · next issued hissued =>
        cases h
        split at hissued
        · cases hissued
          exact .refl _
        · exact Tables.issueCodeRows_beside hissued
  unfold UserObject.loginTransaction at h
  split at h
  · split at h
    · cases h
    · next created hcreated =>
      exact (Tables.insertSession_beside hcreated).trans (hfinish h)
  · split at h
    · cases h
      exact .refl _
    · split at h
      · cases h
        exact .refl _
      · split at h
        · cases h
        · next rotated hrotated =>
          exact (Tables.rotateSession_beside hrotated).trans (hfinish h)

/-! ### Calls -/

section Kept

variable {α : Type} {o : UserObject}

theorem purgeIfDue_beside (o : UserObject) (now w : ℤ) :
    SameAccount o.tables (o.purgeIfDue now w).tables := by
  unfold UserObject.purgeIfDue
  split
  · exact .refl _
  · exact Tables.purge_beside _ now w

theorem guarded_beside {fail : UserDoError → α} {body : UserRow → UserObject × α}
    (h : ∀ user, SameBeside o.tables (body user).1.tables) :
    SameBeside o.tables (o.guarded fail body).1.tables := by
  unfold UserObject.guarded
  split
  · exact .refl _
  · exact h _

theorem guarded_account {fail : UserDoError → α} {body : UserRow → UserObject × α}
    (h : ∀ user, SameAccount o.tables (body user).1.tables) :
    SameAccount o.tables (o.guarded fail body).1.tables := by
  unfold UserObject.guarded
  split
  · exact .refl _
  · exact h _

theorem purging_beside {now w : ℤ} {thrown : SqlError → α}
    {body : Tables → Except SqlError (Tables × α)}
    (h : ∀ t t' a, body t = .ok (t', a) → SameAccount t t') :
    SameAccount o.tables (o.purging now w thrown body).1.tables := by
  obtain ⟨t, a, hbody, heq⟩ | ⟨err, -, heq⟩ := purging_cases o now w thrown body
  · rw [heq]
    exact (purgeIfDue_beside o now w).trans (h _ _ _ hbody)
  · rw [heq]
    exact .refl _

end Kept

/-- The calls that write the grants, the passkeys or the identities. -/
def touchesBeside : Call → Bool
  | .init _ _ _ | .destroy | .authorizeWithSession _ | .grantConsent _ _ _ | .listGrants _
  | .revokeGrant _ _ | .addPasskey _ _ _ | .resumeAssertion _ _ | .removePasskey _ _
  | .renamePasskey _ _ | .addIdentity _ _ | .touchIdentity _ _ _ _ | .removeIdentity _ _ => true
  | _ => false

/-- The calls that write the user's row. -/
def touchesUser : Call → Bool
  | .init _ _ _ | .destroy | .setGroups _ _ | .setDisabled _ _ | .updateProfile _ _ => true
  | _ => false

theorem call_account (sha256 : String → Bytes) (o : UserObject) {c : Call}
    (hbeside : touchesBeside c = false) (huser : touchesUser c = false) :
    SameAccount o.tables (o.call sha256 c).1.tables := by
  cases c with
  | init _ _ _ | destroy | authorizeWithSession _ | grantConsent _ _ _ | listGrants _
  | revokeGrant _ _ | addPasskey _ _ _ | resumeAssertion _ _ | removePasskey _ _
  | renamePasskey _ _ | addIdentity _ _ | touchIdentity _ _ _ _ | removeIdentity _ _ =>
    cases hbeside
  | setGroups _ _ | setDisabled _ _ | updateProfile _ _ => cases huser
  | evict => exact .refl _
  | touch now w => exact guarded_account fun _ => purgeIfDue_beside o now w
  | finalizeLogin input =>
    refine guarded_account fun user => ?_
    split_ifs
    · exact .refl _
    · exact .refl _
    · exact .refl _
    · exact purging_beside fun t t' r hbody => loginTransaction_beside hbody
  | revokeSession sid now reason =>
    refine guarded_account fun user => purging_beside fun t t' r hbody => ?_
    repeat' split at hbody
    all_goals cases hbody; exact ⟨⟨rfl, rfl, rfl⟩, rfl⟩
  | revokeSessions except now reason =>
    refine guarded_account fun user => purging_beside fun t t' r hbody => ?_
    cases hbody
    exact Tables.revokeEach_beside _ _ _ _
  | rotateRefreshToken input =>
    exact guarded_account fun user => purging_beside fun t t' r hbody =>
      Tables.rotateTransaction_beside hbody
  | exchangeCode input =>
    unfold UserObject.call UserObject.exchangeCode answered
    dsimp only
    split
    · exact .refl _
    · split
      · exact .refl _
      · exact purging_beside fun t t' r hbody => Tables.exchangeTransaction_beside hbody
  | resumeExchange call =>
    unfold UserObject.call UserObject.resumeExchange answered
    dsimp only
    split
    · split
      · exact .refl _
      · next input user expected _ _ =>
        have hrest : SameAccount o.tables (UserObject.commitExchange
            { o with suspended := o.suspended.filter (fun c => c.1 != call) } user (some expected)
            input).1.tables :=
          purging_beside (o := { o with suspended := o.suspended.filter (fun c => c.1 != call) })
            fun t t' r hbody => Tables.exchangeTransaction_beside hbody
        exact hrest
    · exact .refl _
  | verifyAssertion credentialId now =>
    refine guarded_account fun user => ?_
    split <;> exact .refl _
  | revokeAll now reason =>
    refine guarded_account fun user => ?_
    have hended := Tables.revokeEach_beside now reason o.tables o.tables.unrevokedSids
    exact ⟨⟨hended.grants, hended.passkeys, hended.identities⟩, hended.user⟩
  | getSession _ _ _ | revokeFamilyById _ _ _ _ =>
    refine guarded_account fun user => ?_
    repeat' split
    all_goals exact ⟨⟨rfl, rfl, rfl⟩, rfl⟩
  | countPasskeyAttempt _ =>
    refine guarded_account fun user => ?_
    dsimp only
    repeat' split
    all_goals exact ⟨⟨rfl, rfl, rfl⟩, rfl⟩
  | getProfile | listSessions _ | putChallenge _ _ _ | takeChallenge _ _
  | revokeSessionFamiliesOfClient _ _ _ | revokeFamiliesOfClient _ _ _ | listFamilies _
  | grantClientIds | listPasskeys | listIdentities =>
    exact guarded_account fun _ => ⟨⟨rfl, rfl, rfl⟩, rfl⟩

theorem call_beside (sha256 : String → Bytes) (o : UserObject) {c : Call}
    (h : touchesBeside c = false) : SameBeside o.tables (o.call sha256 c).1.tables := by
  cases huser : touchesUser c with
  | false => exact (call_account sha256 o h huser).toSameBeside
  | true =>
    cases c with
    | setGroups _ _ | updateProfile _ _ => exact guarded_beside fun _ => ⟨rfl, rfl, rfl⟩
    | setDisabled disabledAt now =>
      refine guarded_beside fun user => ?_
      cases disabledAt with
      | none => exact ⟨rfl, rfl, rfl⟩
      | some at' =>
        let t := { o.tables with
          user := some { user with disabledAt := some at', updatedAt := now } }
        have hended := Tables.revokeEach_beside now "disabled" t t.unrevokedSids
        exact ⟨hended.grants, hended.passkeys, hended.identities⟩
    | init _ _ _ | destroy => cases h
    | _ => cases huser

end TinyOidc.User
