import TinyOidc.User.Codes

/-! What a stored authorization code says: the redirect URI, the scopes and the challenge that
the call which issued it was given. -/
namespace TinyOidc.User
open RowTable

def requestedCode : Call → Option CodeInput
  | .finalizeLogin input => input.code
  | .authorizeWithSession input => input.code
  | _ => none

/-- The rows after a transaction: those before it, and one for the code that was asked for. -/
def CodesFrom (code : Option CodeInput) (t t' : Tables) : Prop :=
  ∀ row ∈ t'.authCodes.rows, row ∈ t.authCodes.rows ∨
    ∃ asked session now, code = some asked ∧ row = Tables.codeRow asked session now

theorem CodesFrom.trans {code : Option CodeInput} {t t' t'' : Tables} (h : CodesFrom code t t')
    (h' : CodesFrom code t' t'') : CodesFrom code t t'' := by
  intro row hrow
  rcases h' row hrow with hold | hnew
  · exact h row hold
  · exact .inr hnew

theorem CodesFrom.of_subset {code : Option CodeInput} {t t' : Tables}
    (h : t'.authCodes.rows ⊆ t.authCodes.rows) : CodesFrom code t t' :=
  fun _ hrow => .inl (h hrow)

theorem CodesFrom.of_eq {code : Option CodeInput} {t t' : Tables}
    (h : t'.authCodes = t.authCodes) : CodesFrom code t t' := by
  apply CodesFrom.of_subset
  rw [h]
  exact List.Subset.refl _

theorem issueCodeRows_codesFrom {t t' : Tables} {code : CodeInput} {session : SessionRow}
    {now ttl : ℤ} (h : t.issueCodeRows code session now ttl = .ok t') :
    CodesFrom (some code) t t' := by
  obtain ⟨codes, hcodes, rfl⟩ := issueCodeRows_ok h
  intro row hrow
  rw [(touchSession_sameBut _ session now ttl).1] at hrow
  rcases (Table.mem_insert hcodes).mp hrow with hold | rfl
  · exact .inl hold
  · exact .inr ⟨code, session, now, rfl, rfl⟩

theorem finishLogin_codesFrom {t t' : Tables} {user : UserRow} {sid : String}
    {input : FinalizeLoginInput} {r : Outcome Finalized}
    (h : UserObject.finishLogin t user sid input = .ok (t', r)) :
    CodesFrom input.code t t' := by
  unfold UserObject.finishLogin at h
  split at h
  · cases h
    exact .of_eq rfl
  · split at h
    · cases h
    · next issued hissued =>
      cases h
      cases hcode : input.code with
      | none =>
        rw [hcode] at hissued
        cases hissued
        exact .of_eq rfl
      | some code =>
        rw [hcode] at hissued
        exact issueCodeRows_codesFrom hissued

theorem loginTransaction_codesFrom {t t' : Tables} {user : UserRow} {input : FinalizeLoginInput}
    {r : Outcome Finalized} (h : UserObject.loginTransaction t user input = .ok (t', r)) :
    CodesFrom input.code t t' := by
  unfold UserObject.loginTransaction at h
  split at h
  · split at h
    · cases h
    · next created hcreated =>
      obtain ⟨sessions, -, heq⟩ := insertSession_ok hcreated
      have hsame : created.authCodes = t.authCodes := by rw [heq]
      exact (CodesFrom.of_eq hsame).trans (finishLogin_codesFrom h)
  · split at h
    · cases h
      exact .of_eq rfl
    · split_ifs at h with hlive
      · cases h
        exact .of_eq rfl
      · split at h
        · cases h
        · next rotated hrotated =>
          have hsame : rotated.authCodes = t.authCodes := by rw [rotateSession_ok hrotated]
          exact (CodesFrom.of_eq hsame).trans (finishLogin_codesFrom h)

theorem finalizeLogin_codesFrom (o : UserObject) (input : FinalizeLoginInput) :
    CodesFrom input.code o.tables (o.finalizeLogin input).1.tables := by
  generalize hx : o.finalizeLogin input = x
  obtain ⟨o', r⟩ := x
  obtain ⟨rfl, -⟩ | ⟨user, -, hbody⟩ := guarded_cases hx
  · exact .of_eq rfl
  split_ifs at hbody with hdisabled hallowed hadmin
  · cases hbody
    exact .of_eq rfl
  · cases hbody
    exact .of_eq rfl
  · cases hbody
    exact .of_eq rfl
  · obtain ⟨t, a, hran, heq⟩ | ⟨err, -, heq⟩ := purging_cases o input.now purgeGraceSeconds
      Outcome.thrown fun t => UserObject.loginTransaction t user input
    · rw [heq] at hbody
      cases hbody
      exact (CodesFrom.of_subset purgedTables_codes_subset).trans (loginTransaction_codesFrom hran)
    · rw [heq] at hbody
      cases hbody
      exact .of_eq rfl

theorem authorizeWithSession_codesFrom (o : UserObject) (input : AuthorizeWithSessionInput) :
    CodesFrom input.code o.tables (o.authorizeWithSession input).1.tables := by
  generalize hx : o.authorizeWithSession input = x
  obtain ⟨o', r⟩ := x
  obtain ⟨hsame, -⟩ | ⟨user, session, code, a, hcommit, rfl, -⟩ := authorizeWithSession_cases hx
  · exact .of_eq hsame.codes
  · have hconsent : (UserObject.consentCovered o.tables input).1.authCodes = o.tables.authCodes :=
      (consentCovered_sameCore o.tables input).codes
    have hpurged : CodesFrom input.code o.tables (authorizeTables o input) :=
      (CodesFrom.of_eq hconsent).trans (.of_subset purgedTables_codes_subset)
    rw [hcommit.requested] at hpurged ⊢
    exact hpurged.trans (issueCodeRows_codesFrom hcommit.written)

/-- A code row after a call is a later version of one before it, or the row of the code the
call was to issue. -/
theorem call_codes (sha256 : String → Bytes) (o : UserObject) (c : Call) :
    ∀ row ∈ (o.call sha256 c).1.tables.authCodes.rows,
      (∃ old ∈ o.tables.authCodes.rows, old.Later row) ∨
        ∃ asked session now, requestedCode c = some asked ∧
          row = Tables.codeRow asked session now := by
  have hevolves := (call_evolves sha256 o c).codes
  have hlater : ∀ {code : Option CodeInput},
      CodesFrom code o.tables (o.call sha256 c).1.tables → code = requestedCode c →
      ∀ row ∈ (o.call sha256 c).1.tables.authCodes.rows,
        (∃ old ∈ o.tables.authCodes.rows, old.Later row) ∨
          ∃ asked session now, requestedCode c = some asked ∧
            row = Tables.codeRow asked session now := by
    rintro code hfrom rfl row hrow
    exact (hfrom row hrow).imp_left fun hold => ⟨row, hold, .refl row⟩
  cases c with
  | finalizeLogin input => exact hlater (finalizeLogin_codesFrom o input) rfl
  | authorizeWithSession input => exact hlater (authorizeWithSession_codesFrom o input) rfl
  | _ =>
    intro row hrow
    rcases hevolves row hrow with hold | hissued
    · exact .inl hold
    · cases hissued

/-- A code row after some calls was there before them, or one of them issued it as it was asked
to. -/
theorem codes_since (sha256 : String → Bytes) (o : UserObject) (calls : List Call) :
    ∀ row ∈ (Machine.after (UserObject.call sha256) o calls).tables.authCodes.rows,
      (∃ old ∈ o.tables.authCodes.rows, old.Later row) ∨
        ∃ e ∈ Machine.events (UserObject.call sha256) o calls,
          codeIssued e = some row.secretHash ∧
          ∃ asked ∈ requestedCode e.input, asked.clientId = row.clientId := by
  induction calls with
  | nil => exact fun row hrow => .inl ⟨row, hrow, .refl row⟩
  | cons c calls ih =>
    intro row hrow
    -- A row that is there before the last call was there at the start or is one of `calls`.
    have hearlier : ∀ old ∈ (Machine.after (UserObject.call sha256) o calls).tables.authCodes.rows,
        old.Later row → (∃ old ∈ o.tables.authCodes.rows, old.Later row) ∨
          ∃ e ∈ Machine.events (UserObject.call sha256) o (c :: calls),
            codeIssued e = some row.secretHash ∧
            ∃ asked ∈ requestedCode e.input, asked.clientId = row.clientId := by
      intro old hold hlater
      rcases ih old hold with ⟨first, hfirst, hthen⟩ | ⟨e, he, hissued, asked, hasked, hclient⟩
      · exact .inl ⟨first, hfirst, hthen.trans hlater⟩
      · have hsame := hlater.row
        refine .inr ⟨e, List.mem_cons_of_mem _ he, ?_, asked, hasked, ?_⟩
        · rw [hissued, hsame]
        · rw [hclient, hsame]
    rcases call_codes sha256 _ c row hrow with ⟨old, hold, hlater⟩ | ⟨asked, session, now, hasked,
      hrow'⟩
    · exact hearlier old hold hlater
    · rcases (call_evolves sha256 _ c).codes row hrow with ⟨old, hold, hlater⟩ | hissued
      · exact hearlier old hold hlater
      · exact .inr ⟨_, List.mem_cons_self, hissued, asked, hasked, by rw [hrow']; rfl⟩

end TinyOidc.User
