import TinyOidc.Logout.Backchannel
import TinyOidc.Logout.Forwarding

/-! When every ended session is notified: as long as no refresh token is presented that was used
before, no import disables a user who is signed in, and no call throws between the end of a session
and the notifier. -/
namespace TinyOidc.Logout
open TinyOidc.User TinyOidc.Account RowTable
open Threads (Prog Entry System)

/-! ### The condition -/

/-- A rotation presents a used token of a family that is bound to a session, both unrevoked. -/
def presentsUsed (t : Tables) (input : RotateRefreshInput) : Bool :=
  t.refreshFamilies.rows.any fun family =>
    family.id == input.familyId && family.revokedAt.isNone &&
      (t.sessions.rows.any fun s => family.sid == some s.sid && s.revokedAt.isNone) &&
      t.refreshTokens.rows.any fun token =>
        token.familyId == family.id && token.secretHash == input.secretHash &&
          decide (token.serial < family.currentSerial)

def signedIn (o : UserObject) : Bool := o.tables.sessions.rows.any (·.revokedAt.isNone)

def EndingRequest.isImport : EndingRequest → Bool
  | .importDisabled _ _ => true
  | _ => false

abbrev EndingThread := Threads.Thread EndingRequest Op.Answer EndingResponse

abbrev EndingConfig := Threads.Config EndingRequest World Op.Answer EndingResponse

/-- The thread has sessions in hand that the notifier is still to be given. -/
def inHand (t : EndingThread) : Bool :=
  t.log.flatMap announcedIn != t.log.flatMap notifiedIn

def reuses (w : World) : Op → Bool
  | .account (.user uid (.rotateRefreshToken input)) => presentsUsed (w.objects uid).tables input
  | _ => false

/-- The call ends sessions of a user who is signed in. -/
def signsOut (w : World) : Op → Bool
  | .account (.user uid call) => announces call && signedIn (w.objects uid)
  | _ => false

/-- The condition on the next step of a run. -/
def keepsWord (c : EndingConfig) : Threads.Label EndingRequest Op Fault → Bool
  | .spawn _ => true
  | .outside op _ => !reuses c.shared op
  | .step i fault =>
      match c.threads[i]? with
      | none => true
      | some t => t.prog.head.all fun op =>
          !reuses c.shared op &&
            !(signsOut c.shared op && (fault == .after || t.request.isImport)) &&
            (fault == .none || !inHand t)

section Runs
variable (sha256 : String → Bytes) (w : World)

def KeepsWord : List EndingLabel → Prop
  | [] => True
  | l :: labels => keepsWord ((endings sha256).after w labels) l = true ∧ KeepsWord labels

instance decidableKeepsWord : (labels : List EndingLabel) → Decidable (KeepsWord sha256 w labels)
  | [] => isTrue trivial
  | _ :: labels =>
      have := decidableKeepsWord labels
      inferInstanceAs (Decidable (_ ∧ _))

end Runs

/-! ### What a step ends -/

/-- A rotation that detects a reuse was presented a used token. -/
theorem presented_of_reuse {o : UserObject} {input : RotateRefreshInput} {err : UserDoError}
    {clients : Option (List String)}
    (h : (o.rotateRefreshToken input).2 = .fail err true clients) :
    ∃ family token, Presented (purgedTables o input.now input.reuseWindow) input family token ∧
      token.serial < family.currentSerial := by
  generalize hx : o.rotateRefreshToken input = x at h
  obtain ⟨o', r⟩ := x
  dsimp only at h
  subst h
  obtain ⟨-, err', herr⟩ | ⟨user, -, hbody⟩ := guarded_cases hx
  · cases herr
  obtain ⟨t, r, ht, heq⟩ | ⟨err', -, heq⟩ := purging_cases o input.now input.reuseWindow
    RotateOutcome.thrown fun t => t.rotateTransaction user input
  · rw [heq] at hbody
    cases hbody
    obtain ⟨-, e, he⟩ | ⟨-, -, he⟩ | ⟨family, token, hpresented, hused, -⟩ |
      ⟨family, token, scope, -, he⟩ := rotateTransaction_cases ht
    · cases he
    · cases he
    · exact ⟨family, token, hpresented, hused⟩
    · cases he
  · rw [heq] at hbody
    cases hbody

/-- A reuse that ends a session. -/
theorem presentsUsed_of_reused {w w' : World} {uid sid : String} (hending : Ending w w' uid sid)
    {input : RotateRefreshInput} {err : UserDoError} {clients : Option (List String)}
    (hreply : ((w.objects uid).rotateRefreshToken input).2 = .fail err true clients)
    (hfamily : ((w.objects uid).tables.refreshFamilies.find input.familyId).bind (·.sid) =
      some sid) :
    presentsUsed (w.objects uid).tables input = true := by
  obtain ⟨s, hs, hsid, hopen⟩ := hending.before
  obtain ⟨family, token, hpresented, hused⟩ := presented_of_reuse hreply
  obtain ⟨found, hfind, hbound⟩ := Option.bind_eq_some_iff.mp hfamily
  obtain ⟨hfound, hid⟩ := Table.find_eq_some.mp hfind
  have hmem := purgedTables_families_subset hpresented.family_mem
  have hsame : family = found :=
    Table.eq_of_key_eq hmem hfound (hpresented.family_id.trans hid.symm)
  subst hsame
  simp only [presentsUsed, List.any_eq_true, Bool.and_eq_true, beq_iff_eq, decide_eq_true_eq,
    Option.isNone_iff_eq_none]
  exact ⟨family, hmem, ⟨⟨hid, hpresented.unrevoked⟩, s, hs, hbound.trans (congrArg some hsid.symm),
    hopen⟩, token, purgedTables_tokens_subset hpresented.token_mem,
    ⟨hpresented.token_family, hpresented.secret⟩, hused⟩

/-- What ends a session: the reuse of a refresh token, or a call that is to announce it and does
so, unless its reply is lost. -/
theorem ending_cases (sha256 : String → Bytes) {w : World} {fault : Fault} {op : Op}
    {uid sid : String} (h : Ending w ((endings sha256).exec w fault op).1 uid sid) :
    reuses w op = true ∨ signsOut w op = true ∧ (fault = .none →
      endedIn ((endings sha256).exec w fault op).1 uid sid ∈
        announcedIn ⟨op, ((endings sha256).exec w fault op).2⟩) := by
  have hopen : signedIn (w.objects uid) = true := by
    obtain ⟨s, hs, -, hnone⟩ := h.before
    exact List.any_eq_true.mpr ⟨s, hs, by simp [hnone]⟩
  have hcall : ∀ call, Ending w (w.setObject uid ((w.objects uid).call sha256 call).1) uid sid →
      reuses w (.account (.user uid call)) = true ∨
        signsOut w (.account (.user uid call)) = true ∧
          endedIn (w.setObject uid ((w.objects uid).call sha256 call).1) uid sid ∈
            announcedIn ⟨.account (.user uid call),
              some ((w.objects uid).call sha256 call).2⟩ := by
    intro call hending
    generalize hreply : ((w.objects uid).call sha256 call).2 = reply
    have hcases := call_ending sha256 w uid sid call hending
    rw [hreply] at hcases
    rcases hcases with hsilent | hannounced
    · cases hsilent with
      | reused input err clients hfamily =>
        left
        exact presentsUsed_of_reused hending (Reply.rotate.inj hreply) hfamily
    · right
      refine ⟨?_, hannounced⟩
      have hannounces : announces call = true := by
        by_contra hother
        rw [announcedIn_other (by simpa using hother)] at hannounced
        cases hannounced
      simp [signsOut, hannounces, hopen]
  cases op with
  | notify ended => exact absurd rfl h.changed
  | account op =>
    cases op with
    | d1 statement => cases fault <;> exact absurd rfl h.changed
    | user v call =>
      by_cases hv : v = uid
      · subst hv
        cases fault with
        | before => exact absurd rfl h.changed
        | none => exact (hcall call h).imp_right fun hended => ⟨hended.1, fun _ => hended.2⟩
        | after => exact (hcall call h).imp_right fun hended => ⟨hended.1, nofun⟩
      · have hother := Ne.symm hv
        cases fault with
        | before => exact absurd rfl h.changed
        | none | after => exact absurd (Function.update_of_ne hother _ _) h.changed

/-- What others call ends no session that a reply is to announce. -/
theorem signsOut_outside {sha256 : String → Bytes} {w : World} {op : Op}
    (h : (endings sha256).isOutside op = true) : signsOut w op = false := by
  cases op with
  | notify ended => rfl
  | account op =>
    cases op with
    | d1 statement => rfl
    | user uid call =>
      have hquiet : announces call = false := Bool.not_eq_true' _ ▸ h
      simp only [signsOut, hquiet, Bool.false_and]

/-! ### What a throw leaves -/

/-- No call of the thread threw while sessions were in hand. -/
def ThrowsNothingAway (t : EndingThread) : Prop :=
  ∀ entry older, t.log = entry :: older → threw entry = true →
    older.flatMap announcedIn = older.flatMap notifiedIn

theorem fault_of_threw (sha256 : String → Bytes) {w : World} {fault : Fault} {op : Op}
    (h : threw ⟨op, ((endings sha256).exec w fault op).2⟩ = true) : fault ≠ .none := by
  rintro rfl
  cases op with
  | notify ended => cases h
  | account op =>
    cases op with
    | user uid call => cases h
    | d1 statement => cases statement <;> cases h

theorem announcedIn_threw {entry : Entry Op.Answer} (h : threw entry = true) :
    announcedIn entry = [] := by
  unfold threw at h
  split at h
  · rfl
  · rfl
  · cases h

theorem notifiedIn_threw {entry : Entry Op.Answer} (h : threw entry = true) :
    notifiedIn entry = [] := by
  unfold threw at h
  split at h
  · rfl
  · rfl
  · cases h

section Runs
variable {sha256 : String → Bytes} {w : World} {labels : List EndingLabel}

theorem endings_follow (sha256 : String → Bytes) : (endings sha256).Follows fun _ _ _ => True :=
  fun q => unrestricted_obeys q.run []

theorem throwsNothingAway_run (hkeeps : KeepsWord sha256 w labels) :
    ∀ t ∈ ((endings sha256).after w labels).threads, ThrowsNothingAway t := by
  refine System.run_invariant (endings_follow sha256) (C := KeepsWord sha256 w) (fun _ _ h => h.2)
    (J := fun c _ => ∀ t ∈ c.threads, ThrowsNothingAway t) (by simp) ?_ ?_ (fun _ _ _ h _ => h)
    labels hkeeps
  · intro labels q hbefore t ht
    rcases List.mem_append.mp ht with hold | hnew
    · exact hbefore t hold
    · rw [List.mem_singleton.mp hnew]
      exact fun entry older hlog => by cases hlog
  · intro labels i t op fault prog hkeeps _ hbefore hi hhead _ t' ht'
    rcases List.mem_or_eq_of_mem_set ht' with hold | rfl
    · exact hbefore t' hold
    · -- A step that throws finds nothing in hand.
      intro entry older hlog hthrew
      cases hlog
      have hkeep := hkeeps.1
      simp only [keepsWord, hi, hhead, Option.all_some, Bool.and_eq_true, Bool.or_eq_true,
        beq_iff_eq, Bool.not_eq_true'] at hkeep
      have hnone := hkeep.2.resolve_left (fault_of_threw sha256 hthrew)
      simpa [inHand] using hnone

/-- A finished request that is not an import has handed on all that its calls ended. -/
theorem finished_notified (hkeeps : KeepsWord sha256 w labels) {t : EndingThread}
    (ht : t ∈ ((endings sha256).after w labels).threads) {response : EndingResponse}
    (hresult : t.prog.result = some response) (himport : t.request.isImport = false) :
    t.log.flatMap announcedIn = t.log.flatMap notifiedIn := by
  have hother : ∀ id now, t.request ≠ .importDisabled id now := by
    intro id now heq
    rw [heq] at himport
    cases himport
  have hobeys := System.thread_obeys_to request_forwards w labels t ht
  rw [Prog.result_eq_some.mp hresult] at hobeys
  have hforwarded : Forwarded t.log response := hobeys hother
  rcases hforwarded with howes | ⟨-, entry, older, hlog, hthrew⟩
  · exact howes (threads_genuine sha256 w labels t ht)
  · rw [hlog, List.flatMap_cons, List.flatMap_cons, announcedIn_threw hthrew,
      notifiedIn_threw hthrew, List.nil_append, List.nil_append]
    exact throwsNothingAway_run hkeeps t ht entry older hlog hthrew

/-! ### Whole runs -/

/-- A request knows of an ended session, and hands it to the notifier before it finishes. -/
structure HandsOn (ended : EndedSession) (t : EndingThread) : Prop where
  known : ended ∈ t.log.flatMap announcedIn
  notified : t.prog.result ≠ none → ended ∈ t.log.flatMap notifiedIn

/-- Each client of the session that the registry finds with a `backchannel_logout_uri` is posted a
logout token. -/
def Mints (ended : EndedSession) : Prop :=
  ∀ (issuer : String) (keys : Keys.LoadedKeys) (now : ℤ) (clients : List SessionClient)
    (s : Deliveries), clients.map (·.clientId) = ended.clients →
    ∀ c ∈ clients, ∀ uri, c.answer = .found (some uri) →
      .posted uri (mintLogoutToken keys ⟨issuer, c.clientId, ended.uid, ended.sid, c.jti, now⟩) ∈
        (notifyClients issuer keys now ended.uid ended.sid clients s).2

theorem mints (ended : EndedSession) : Mints ended := by
  intro issuer keys now clients s _ c hc uri hanswer
  have hnotice : (⟨ended.uid, ended.sid, c.clientId, uri, c.jti⟩ : Notice) ∈
      noticesOf ended.uid ended.sid clients :=
    List.mem_filterMap.mpr ⟨c, hc, by simp [ClientAnswer.uri, hanswer]⟩
  exact List.mem_flatMap.mpr ⟨_, hnotice, List.mem_cons_of_mem _ List.mem_cons_self⟩

/-- The thread of the step that ended a session has it in its log. -/
theorem known_of_ending {l : EndingLabel} {earlier : List EndingLabel} {uid sid : String}
    (hkeep : keepsWord ((endings sha256).after w earlier) l = true)
    (h : Ending ((endings sha256).after w earlier).shared
      ((endings sha256).after w (l :: earlier)).shared uid sid) :
    ∃ t ∈ ((endings sha256).after w (l :: earlier)).threads, t.request.isImport = false ∧
      endedIn ((endings sha256).after w (l :: earlier)).shared uid sid ∈
        t.log.flatMap announcedIn := by
  have hnext : (endings sha256).after w (l :: earlier) =
      ((endings sha256).step ((endings sha256).after w earlier) l).1 := Machine.after_cons ..
  rw [hnext] at h ⊢
  generalize (endings sha256).after w earlier = c at hkeep h ⊢
  cases l with
  | spawn q => exact absurd rfl h.changed
  | step i fault =>
    rcases (endings sha256).step_turn c i fault with ⟨hidle, -⟩ | ⟨t, op, next, hi, hp, hstep⟩
    · rw [hidle] at h
      exact absurd rfl h.changed
    · rw [hstep] at h ⊢
      have hhead : t.prog.head = some op := by
        rw [hp]
        rfl
      simp only [keepsWord, hi, hhead, Option.all_some, Bool.and_eq_true, Bool.not_eq_true']
        at hkeep
      obtain ⟨⟨hfirst, hloses⟩, -⟩ := hkeep
      rcases ending_cases sha256 h with hreused | ⟨hsignsOut, hannounced⟩
      · rw [hfirst] at hreused
        cases hreused
      · simp only [hsignsOut, Bool.true_and, Bool.or_eq_false_iff, beq_eq_false_iff_ne] at hloses
        have hanswered : fault = .none := by
          cases fault with
          | none => rfl
          | before =>
            have hsame : ((endings sha256).exec c.shared .before op).1 = c.shared := by
              cases op <;> rfl
            rw [hsame] at h
            exact absurd rfl h.changed
          | after => exact absurd rfl hloses.1
        have hi' := (List.getElem?_eq_some_iff.mp hi).1
        refine ⟨_, List.mem_of_getElem? (List.getElem?_set_self hi'), hloses.2, ?_⟩
        exact List.mem_flatMap.mpr ⟨_, List.mem_cons_self, hannounced hanswered⟩
  | outside op fault =>
    simp only [System.step] at h
    split at h
    · next hop =>
      rcases ending_cases sha256 h with hreused | ⟨hsignsOut, -⟩
      · simp [keepsWord, hreused] at hkeep
      · rw [signsOut_outside hop] at hsignsOut
        cases hsignsOut
    · exact absurd rfl h.changed

end Runs

/-- In every run whose steps keep their word, whatever ends a session of a user is a call of a
request that hands the session, with the clients recorded under it, to the notifier before it
finishes; and the notifier posts a logout token to each of them that registered for it. -/
theorem ended_sessions_notified (sha256 : String → Bytes) (w : World) (labels : List EndingLabel)
    (hkeeps : KeepsWord sha256 w labels) :
    (∀ later l earlier, labels = later ++ l :: earlier → ∀ uid sid,
      Ending ((endings sha256).after w earlier).shared
        ((endings sha256).after w (l :: earlier)).shared uid sid →
      ∃ t ∈ ((endings sha256).after w labels).threads,
        HandsOn (endedIn ((endings sha256).after w (l :: earlier)).shared uid sid) t) ∧
    ∀ t ∈ ((endings sha256).after w labels).threads, ∀ ended ∈ t.log.flatMap notifiedIn,
      Mints ended := by
  refine ⟨?_, fun t _ ended _ => mints ended⟩
  rintro later l earlier rfl uid sid hending
  have hkeep : keepsWord ((endings sha256).after w earlier) l = true := by
    induction later with
    | nil => exact hkeeps.1
    | cons l' later ih => exact ih hkeeps.2
  obtain ⟨t, ht, himport, hknown⟩ := known_of_ending hkeep hending
  obtain ⟨i, hi⟩ := List.mem_iff_getElem?.mp ht
  obtain ⟨t', hi', hrequest, hgrown⟩ := (endings sha256).thread_grows w later (l :: earlier) hi
  have ht' := List.mem_of_getElem? hi'
  have hsub : t.log ⊆ t'.log := by
    rcases hgrown with rfl | ⟨op, next, r, -, hsuffix⟩
    · exact List.Subset.refl _
    · exact List.Subset.trans (List.subset_cons_self _ _) hsuffix.subset
  obtain ⟨entry, hentry, hnamed⟩ := List.mem_flatMap.mp hknown
  have hknown' := List.mem_flatMap.mpr ⟨entry, hsub hentry, hnamed⟩
  refine ⟨t', ht', hknown', fun hfinished => ?_⟩
  obtain ⟨response, hresult⟩ := Option.ne_none_iff_exists'.mp hfinished
  rw [← finished_notified hkeeps ht' hresult (by rw [hrequest]; exact himport)]
  exact hknown'

namespace Sample
open TinyOidc.User.Sample (init login code exchange refresh rotate rotation)

/-- A client's refresh token is rotated, and the used one is presented again. -/
def reusedLabels : List EndingLabel :=
  [.step 0 .none, .spawn (.refresh "u1" (rotation "f1" [5] [7] 30 86400)),
    .outside (.account (.user "u1" (rotate "f1" [5] [6] 20 86400))) .none,
    .outside (.account (.user "u1" (exchange [1] 10 (some (refresh "f1" [5] false))))) .none,
    .outside (.account (.user "u1" (login "s1" [2] 0 (some (code [1]))))) .none,
    .outside (.account (.user "u1" init)) .none]

end Sample

theorem ended_sessions_notified_sample : KeepsWord User.Sample.sha256 .fresh Sample.endingLabels ∧
    (∃ t ∈ ((endings User.Sample.sha256).after .fresh Sample.endingLabels).threads,
      HandsOn ⟨"u1", "s1", ["app"]⟩ t ∧ t.prog.result ≠ none) := by
  have hkeeps : KeepsWord User.Sample.sha256 .fresh Sample.endingLabels := by decide
  obtain ⟨hhanded, -⟩ :=
    ended_sessions_notified User.Sample.sha256 .fresh Sample.endingLabels hkeeps
  obtain ⟨t, ht, hhands⟩ := hhanded [.step 0 .none] (.step 0 .none) (Sample.endingLabels.drop 2) rfl
    "u1" "s1" ⟨by decide, by decide⟩
  refine ⟨hkeeps, t, ht, hhands, ?_⟩
  have hone : ∀ t ∈ ((endings User.Sample.sha256).after .fresh Sample.endingLabels).threads,
      t.prog.result ≠ none := by
    simp only [← Option.isSome_iff_ne_none]
    decide
  exact hone t ht

/-- The reuse ends the session, and no request tells the notifier. -/
theorem session_ended_unnotified :
    ¬ ∀ labels : List EndingLabel, ∀ later l earlier, labels = later ++ l :: earlier →
      ∀ uid sid, Ending ((endings User.Sample.sha256).after .fresh earlier).shared
        ((endings User.Sample.sha256).after .fresh (l :: earlier)).shared uid sid →
      ∃ t ∈ ((endings User.Sample.sha256).after .fresh labels).threads, HandsOn
        (endedIn ((endings User.Sample.sha256).after .fresh (l :: earlier)).shared uid sid) t := by
  intro hall
  obtain ⟨t, ht, hhands⟩ := hall Sample.reusedLabels [] _ _ rfl "u1" "s1" ⟨by decide, by decide⟩
  have hnone : ∀ t ∈ ((endings User.Sample.sha256).after .fresh Sample.reusedLabels).threads,
      t.log.flatMap announcedIn = [] := by decide
  have hknown := hhands.known
  rw [hnone t ht] at hknown
  cases hknown

end TinyOidc.Logout
