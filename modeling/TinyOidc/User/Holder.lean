import TinyOidc.User.Commits
import TinyOidc.User.Lifecycle

/-! Whose an object is: an object that is only ever initialized for one user answers grants for
that user alone, also from the exchanges it has suspended. -/
namespace TinyOidc.User
open RowTable

/-- The row an object stores, and those its suspended exchanges have read, are of user `uid`. -/
structure HeldBy (uid : String) (o : UserObject) : Prop where
  user : ∀ row, o.tables.user = some row → row.id = uid
  suspended : ∀ n input row challenge, (n, .exchange input row challenge) ∈ o.suspended →
    row.id = uid

theorem heldBy_fresh (uid : String) : HeldBy uid .fresh where
  user _ h := by cases h
  suspended _ _ _ _ h := by simp [UserObject.fresh] at h

theorem HeldBy.of_guard {uid : String} {o : UserObject} (h : HeldBy uid o) {row : UserRow}
    (hguard : o.guard = .ok row) : row.id = uid := h.user row (guard_ok hguard).2

/-- The call initializes the object for its own user, if it initializes it. -/
def InitsFor (uid : String) (c : Call) : Prop :=
  ∀ p now identities, c = .init p now identities → p.id = uid

/-- A change rewrites the row of a user under the same id. -/
theorem Change.user_id {e : CallEvent} {t t' : Tables} {uid : String} (h : Change e t t')
    (hinit : InitsFor uid e.input) (hu : ∀ row, t.user = some row → row.id = uid) :
    ∀ row, t'.user = some row → row.id = uid := by
  cases h with
  | aside h => rwa [h.user]
  | writeUser h =>
    rintro _ ⟨⟩
    unfold UserWritten at h
    split at h
    · next p now identities hinput => exact h.2.1.trans (hinit p now identities hinput)
    · obtain ⟨old, hold, hid, -⟩ := h
      exact hid.trans (hu old hold)
    · obtain ⟨old, hold, hid, -⟩ := h
      exact hid.trans (hu old hold)
    · obtain ⟨old, hold, hid, -⟩ := h
      exact hid.trans (hu old hold)
    · exact h.elim
  | clear _ => intro row h; cases h
  | createSession h _ _ =>
    obtain ⟨sessions, _, rfl⟩ := insertSession_ok h
    exact hu
  | rotateSession _ _ h =>
    rw [rotateSession_ok h]
    exact hu
  | touchSession idleTtl _ _ _ =>
    unfold Tables.touchSession
    split <;> exact hu
  | advanceFamily _ _ h _ =>
    obtain ⟨tokens, _, rfl⟩ := advanceFamily_ok h
    exact hu
  | purge _ | revokeSessions _ _ _ | revokeFamilies _ _ _ | dropFamily _ | issueCode _ _ _ _
  | consumeCode _ _ | openFamily _ _ _ _ _ _ _ _ _ => exact hu

theorem HeldBy.step {uid : String} {o : UserObject} (sha256 : String → Bytes) (h : HeldBy uid o)
    {c : Call} (hinit : InitsFor uid c) : HeldBy uid (o.call sha256 c).1 := by
  constructor
  · exact (call_changes sha256 o c).preserves
      (P := fun t => ∀ row, t.user = some row → row.id = uid)
      (fun t t' hchange hu => hchange.user_id hinit hu) h.user
  · intro n input row challenge hm
    rcases (call_fields sha256 o c).suspended n _ hm with hold | ⟨-, hstarts⟩
    · exact h.suspended n input row challenge hold
    · unfold Starts at hstarts
      split at hstarts
      · obtain ⟨user, verifier, hguard, -, -, heq⟩ := hstarts
        cases heq
        exact h.of_guard hguard
      · cases hstarts
      · exact hstarts.elim

/-! ### Grants -/

def grantIssued : Reply → Option GrantContext
  | .exchange (.done (.ok issued _ _ _)) => some issued
  | .rotate (.ok issued _ _) => some issued
  | _ => none

theorem exchangeTransaction_sub {t t' : Tables} {user : UserRow} {challenge : Option String}
    {input : ExchangeCodeInput} {grant : GrantContext} {nonce familyId : Option String}
    {kind : Option FamilyKind}
    (h : t.exchangeTransaction user challenge input = .ok (t', .ok grant nonce familyId kind)) :
    grant.sub = user.id := by
  obtain ⟨-, _, hr⟩ | ⟨_, -, -, -, -, hr⟩ | ⟨code, session, _, _, _, -, -, hr⟩ :=
    exchangeTransaction_cases h
  · cases hr
  · cases hr
  · cases hr
    rfl

theorem rotateTransaction_sub {t t' : Tables} {user : UserRow} {input : RotateRefreshInput}
    {grant : GrantContext} {serial : ℕ} {kind : FamilyKind}
    (h : t.rotateTransaction user input = .ok (t', .ok grant serial kind)) :
    grant.sub = user.id := by
  obtain ⟨-, _, hr⟩ | ⟨-, -, hr⟩ | ⟨family, _, -, -, hreused⟩ | ⟨family, _, _, -, hr⟩ :=
    rotateTransaction_cases h
  · cases hr
  · cases hr
  · obtain ⟨clients, hfail⟩ := revokeReused_reply t family input.now
    rw [hreused] at hfail
    cases hfail
  · cases hr
    rfl

theorem commitExchange_sub {o : UserObject} {user : UserRow} {challenge : Option String}
    {input : ExchangeCodeInput} {grant : GrantContext} {nonce familyId : Option String}
    {kind : Option FamilyKind}
    (h : (o.commitExchange user challenge input).2 = .ok grant nonce familyId kind) :
    grant.sub = user.id := by
  obtain ⟨t, r, hbody, heq⟩ | ⟨err, -, heq⟩ := purging_cases o input.now purgeGraceSeconds
    ExchangeOutcome.thrown fun t => t.exchangeTransaction user challenge input
  · rw [UserObject.commitExchange, heq] at h
    dsimp only at h
    rw [h] at hbody
    exact exchangeTransaction_sub hbody
  · rw [UserObject.commitExchange, heq] at h
    cases h

theorem rotateRefreshToken_sub {o : UserObject} {input : RotateRefreshInput}
    {grant : GrantContext} {serial : ℕ} {kind : FamilyKind} {uid : String} (hheld : HeldBy uid o)
    (h : (o.rotateRefreshToken input).2 = .ok grant serial kind) : grant.sub = uid := by
  unfold UserObject.rotateRefreshToken UserObject.guarded at h
  split at h
  · cases h
  · next user hguard =>
    obtain ⟨t, r, hbody, heq⟩ | ⟨err, -, heq⟩ := purging_cases o input.now input.reuseWindow
      RotateOutcome.thrown fun t => t.rotateTransaction user input
    · dsimp only at h
      rw [heq] at h
      dsimp only at h
      rw [h] at hbody
      exact (rotateTransaction_sub hbody).trans (hheld.of_guard hguard)
    · dsimp only at h
      rw [heq] at h
      cases h

theorem exchangeCode_sub {sha256 : String → Bytes} {o : UserObject} {input : ExchangeCodeInput}
    {grant : GrantContext} {nonce familyId : Option String} {kind : Option FamilyKind}
    {uid : String} (hheld : HeldBy uid o)
    (h : (o.exchangeCode sha256 input).2 = .done (.ok grant nonce familyId kind)) :
    grant.sub = uid := by
  unfold UserObject.exchangeCode at h
  split at h
  · cases h
  · next user hguard =>
    split at h
    · cases h
    · have hcommit := Started.done.inj h
      exact (commitExchange_sub hcommit).trans (hheld.of_guard hguard)

theorem resumeExchange_sub {o : UserObject} {call : ℕ} {grant : GrantContext}
    {nonce familyId : Option String} {kind : Option FamilyKind} {uid : String}
    (hheld : HeldBy uid o)
    (h : (o.resumeExchange call).2 = some (.ok grant nonce familyId kind)) : grant.sub = uid := by
  unfold UserObject.resumeExchange at h
  split at h
  · next input user challenge hlookup =>
    dsimp only at h
    split at h
    · cases h
    · have hcommit := Option.some.inj h
      exact (commitExchange_sub hcommit).trans
        (hheld.suspended call input user challenge (mem_of_lookup hlookup))
  · cases h

/-- Every grant an object answers with is one of its own user. -/
theorem HeldBy.grant {uid : String} {o : UserObject} (sha256 : String → Bytes) (h : HeldBy uid o)
    {c : Call} {grant : GrantContext} (hgrant : grantIssued (o.call sha256 c).2 = some grant) :
    grant.sub = uid := by
  cases c with
  | exchangeCode input =>
    have hreply : (o.call sha256 (.exchangeCode input)).2 =
        .exchange (o.exchangeCode sha256 input).2 := rfl
    rw [hreply] at hgrant
    cases hresult : (o.exchangeCode sha256 input).2 with
    | suspended n => simp [hresult, grantIssued] at hgrant
    | done outcome =>
      rw [hresult] at hgrant
      cases outcome with
      | ok grant' nonce familyId kind =>
        cases hgrant
        exact exchangeCode_sub h hresult
      | fail _ _ => cases hgrant
      | thrown _ => cases hgrant
  | resumeExchange call =>
    have hreply : (o.call sha256 (.resumeExchange call)).2 =
        exchangeReply (o.resumeExchange call).2 := rfl
    rw [hreply] at hgrant
    cases hresult : (o.resumeExchange call).2 with
    | none => simp [hresult, exchangeReply, grantIssued] at hgrant
    | some outcome =>
      rw [hresult] at hgrant
      cases outcome with
      | ok grant' nonce familyId kind =>
        cases hgrant
        exact resumeExchange_sub h hresult
      | fail _ _ => cases hgrant
      | thrown _ => cases hgrant
  | rotateRefreshToken input =>
    have hreply : (o.call sha256 (.rotateRefreshToken input)).2 =
        .rotate (o.rotateRefreshToken input).2 := rfl
    rw [hreply] at hgrant
    cases hresult : (o.rotateRefreshToken input).2 with
    | ok grant' serial kind =>
      rw [hresult] at hgrant
      cases hgrant
      exact rotateRefreshToken_sub h hresult
    | fail _ _ _ => simp [hresult, grantIssued] at hgrant
    | thrown _ => simp [hresult, grantIssued] at hgrant
  | resumeAssertion call verified =>
    have hreply : (o.call sha256 (.resumeAssertion call verified)).2 =
        assertionReply (o.resumeAssertion call verified).2 := rfl
    rw [hreply] at hgrant
    cases hresult : (o.resumeAssertion call verified).2 <;> rw [hresult] at hgrant <;> cases hgrant
  | _ => cases hgrant

end TinyOidc.User
