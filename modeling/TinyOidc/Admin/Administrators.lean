import TinyOidc.Admin.Auth
import TinyOidc.User.Holder

/-! Who passes as an administrator. A token minted for a user names its user as the subject, and
the gate of the Admin API asks that user's object, unless the client the token was minted for is
registered under the user's own id. -/
namespace TinyOidc.Admin
open TinyOidc.User TinyOidc.Token
open TinyOidc.Util (isUuid)
open TinyOidc.Client (ClientRecord)
open Threads (Prog Entry Thread System)
open Threads.Prog (Obeys)

abbrev Log := List (Entry Op.Answer)

def keepsHolder (_log : Log) : Op → Prop
  | .user uid (.init p _ _) => p.id = uid
  | _ => True

/-! ### Minting -/

/-- The user whose handle a request presents. -/
def handleUid (form : TokenForm) : Option String :=
  if form.grantType = some "authorization_code" then form.code.map (·.uid)
  else if form.grantType = some "refresh_token" then form.refreshToken.map (·.uid)
  else none

def clientEntry (form : TokenForm) (client : ClientRecord) : Entry Op.Answer :=
  ⟨.ask (.authenticateFormClient form), .ok client⟩

/-- What the log of a request shows of the token it is answered with: a client's own, or one on
a grant that the user's object has answered. -/
inductive Minted (form : TokenForm) (client : ClientRecord) (log : Log) :
    AccessTokenClaims → Prop where
  | ofClient (claims : AccessTokenClaims) (clientId : claims.clientId = client.clientId)
      (sub : claims.sub = client.clientId)
      (grantType : form.grantType = some "client_credentials") : Minted form client log claims
  | ofUser (claims : AccessTokenClaims) (clientId : claims.clientId = client.clientId)
      (uid : String) (named : handleUid form = some uid) (call : Call) (reply : Reply)
      (grant : GrantContext) (answered : ⟨.user uid call, some reply⟩ ∈ log)
      (issued : grantIssued reply = some grant) (sub : claims.sub = grant.sub) :
      Minted form client log claims

def MintsTo (form : TokenForm) (client : ClientRecord) (log : Log) (response : Response) : Prop :=
  ∀ body, response = .tokens body → Minted form client log body.accessToken.claims

section Walk

variable {config : TokenConfig} {form : TokenForm} {client : ClientRecord} {log : Log}

theorem mintsTo_error {status : ℕ} {error description : String} :
    MintsTo form client log (.error status error description) := by
  intro body h
  cases h

theorem userTokens_minted {issuance : Issuance} (hclient : issuance.client = client)
    {uid : String} (named : handleUid form = some uid) {call : Call} {reply : Reply}
    {grant : GrantContext} (issued : grantIssued reply = some grant) (kind : Option FamilyKind)
    (nonce : Option String) (refreshToken : Option RefreshRef) :
    MintsTo form client (⟨.user uid call, some reply⟩ :: log)
      (.tokens (userTokens config issuance grant kind nonce refreshToken)) := by
  rintro _ ⟨⟩
  subst hclient
  exact .ofUser _ rfl uid named call reply grant List.mem_cons_self issued rfl

theorem exchangeCode_replied (uid : String) (input : ExchangeCodeInput) :
    Obeys keepsHolder (fun log' reply => ∀ r, reply = some r →
      ∃ call older, log' = ⟨.user uid call, some r⟩ :: older) log (exchangeCode uid input) := by
  unfold exchangeCode
  refine Obeys.perform trivial fun reply => ?_
  split
  · refine ⟨trivial, fun resumed => ?_⟩
    rintro r rfl
    exact ⟨_, _, rfl⟩
  · rintro r rfl
    exact ⟨_, _, rfl⟩

theorem authorizationCode_mints {issuance : Issuance} (hclient : issuance.client = client)
    (hgrant : form.grantType = some "authorization_code") :
    Obeys keepsHolder (MintsTo form client) log (authorizationCode config issuance form) := by
  unfold authorizationCode
  cases hcode : form.code with
  | none => exact mintsTo_error
  | some code =>
    have hnamed : handleUid form = some code.uid := by simp [handleUid, hgrant, hcode]
    cases form.redirectUri with
    | none => exact mintsTo_error
    | some redirectUri =>
      dsimp only
      split
      · exact mintsTo_error
      refine Obeys.perform trivial fun secret => Obeys.perform trivial fun familyId => ?_
      refine Obeys.bind ((exchangeCode_replied code.uid _).mono ?_)
      intro log' reply hreplied
      split
      · obtain ⟨call, older, rfl⟩ := hreplied _ rfl
        exact userTokens_minted hclient hnamed rfl _ _ _
      · exact mintsTo_error
      · exact mintsTo_error

theorem refreshGrant_mints {issuance : Issuance} (hclient : issuance.client = client)
    (hgrant : form.grantType = some "refresh_token") :
    Obeys keepsHolder (MintsTo form client) log (refreshGrant config issuance form) := by
  unfold refreshGrant
  cases hrefresh : form.refreshToken with
  | none => exact mintsTo_error
  | some refresh =>
    have hnamed : handleUid form = some refresh.uid := by simp [handleUid, hgrant, hrefresh]
    dsimp only
    split
    · exact mintsTo_error
    refine Obeys.perform trivial fun secret => Obeys.perform trivial fun reply => ?_
    split
    · exact userTokens_minted hclient hnamed rfl _ _ _
    · exact mintsTo_error
    · exact mintsTo_error
    · exact mintsTo_error

theorem clientCredentials_mints {issuance : Issuance} (hclient : issuance.client = client)
    (hgrant : form.grantType = some "client_credentials") :
    MintsTo form client log (clientCredentials config issuance form) := by
  unfold clientCredentials
  split
  · exact mintsTo_error
  · split
    · exact mintsTo_error
    · rintro _ ⟨⟩
      subst hclient
      exact .ofClient _ rfl rfl hgrant

theorem supported_cases {grantType : String} (h : grantTypesSupported.contains grantType = true) :
    grantType = "authorization_code" ∨ grantType = "refresh_token" ∨
      grantType = "client_credentials" := by
  simpa [grantTypesSupported, grantTypeText] using h

theorem grantTokens_mints :
    Obeys keepsHolder (MintsTo form client) log (grantTokens config client form) := by
  unfold grantTokens
  refine Obeys.perform trivial fun limited => ?_
  split
  · exact mintsTo_error
  dsimp only
  split
  · exact mintsTo_error
  next hsupported =>
  split
  · exact mintsTo_error
  refine Obeys.perform trivial fun keys => ?_
  cases keys with
  | none => exact mintsTo_error
  | some keys =>
    refine Obeys.perform trivial fun settings => ?_
    cases settings with
    | none => exact mintsTo_error
    | some settings =>
      refine Obeys.perform trivial fun now => Obeys.perform trivial fun jti => ?_
      cases hgrant : form.grantType with
      | none => simp [hgrant, grantTypesSupported, grantTypeText] at hsupported
      | some grantType =>
        simp only [hgrant, Option.getD_some, Bool.not_eq_true', Bool.not_eq_false] at hsupported ⊢
        obtain rfl | rfl | rfl := supported_cases hsupported
        · exact authorizationCode_mints rfl hgrant
        · exact refreshGrant_mints rfl hgrant
        · exact clientCredentials_mints rfl hgrant

theorem disabledClientRefresh_mints_none (clientId : String) :
    Obeys keepsHolder (fun _ response => ∀ body, response ≠ .tokens body) log
      (disabledClientRefresh form clientId) := by
  unfold disabledClientRefresh
  split
  · intro body h
    cases h
  · refine Obeys.perform trivial fun now => Obeys.perform trivial fun reply => ?_
    split <;> intro body h <;> cases h

end Walk

/-! ### Admission -/

/-- What the log of a request shows of the actor it lets through: the current record of a service
client, or the profile the object of a user has answered. -/
inductive Admitted (presented : Option BearerToken) (log : Log) (actor : AdminActor) : Prop where
  | asClient (jwt : AccessJwt) (bearer : presented = some (.signed jwt))
      (same : jwt.claims.sub = jwt.claims.clientId) (subject : actor.subject = .client)
      (record : ClientRecord)
      (answered : ⟨.ask (.client jwt.claims.clientId), some (some record)⟩ ∈ log)
      (enabled : record.disabledAt = none) (scope : .admin ∈ record.scopesAllowed)
      (unasked : ∀ entry ∈ log, ∃ question, entry.1 = .ask question)
  | asUser (jwt : AccessJwt) (bearer : presented = some (.signed jwt))
      (differs : jwt.claims.sub ≠ jwt.claims.clientId) (subject : actor.subject = .user)
      (profile : UserProfile)
      (answered : ⟨.user jwt.claims.sub .getProfile, some (.profile (.ok profile))⟩ ∈ log)
      (enabled : profile.disabledAt = none) (member : adminsGroup ∈ profile.groups)

def AdmitsTo (presented : Option BearerToken) (log : Log) (response : Response) : Prop :=
  ∀ actor, response = .admitted actor → Admitted presented log actor

theorem admitsTo_error {presented : Option BearerToken} {log : Log} {status : ℕ}
    {error description : String} :
    AdmitsTo presented log (.error status error description) := by
  intro actor h
  cases h

theorem admitClient_admits {presented : Option BearerToken} {log : Log} {token : AccessToken}
    {jwt : AccessJwt} (bearer : presented = some (.signed jwt))
    (hclientId : token.clientId = jwt.claims.clientId)
    (same : jwt.claims.sub = jwt.claims.clientId)
    (unasked : ∀ entry ∈ log, ∃ question, entry.1 = .ask question) :
    Obeys keepsHolder (AdmitsTo presented) log (admitClient token) := by
  unfold admitClient
  rw [hclientId]
  refine Obeys.perform trivial fun answer => ?_
  split
  · exact admitsTo_error
  · exact admitsTo_error
  · next record =>
    split
    · exact admitsTo_error
    next henabled =>
    split
    · exact admitsTo_error
    next hscope =>
    rintro _ ⟨⟩
    refine .asClient jwt bearer same rfl record List.mem_cons_self (by simpa using henabled)
      (by simpa using hscope) ?_
    intro entry hentry
    rcases List.mem_cons.mp hentry with rfl | hentry
    · exact ⟨_, rfl⟩
    · exact unasked entry hentry

theorem admitUser_admits {presented : Option BearerToken} {log : Log} {token : AccessToken}
    {jwt : AccessJwt} (bearer : presented = some (.signed jwt))
    (hsub : token.sub = jwt.claims.sub) (differs : jwt.claims.sub ≠ jwt.claims.clientId) :
    Obeys keepsHolder (AdmitsTo presented) log (admitUser token) := by
  unfold admitUser
  rw [hsub]
  refine Obeys.perform trivial fun reply => ?_
  split
  · next profile =>
    split
    · exact admitsTo_error
    next henabled =>
    split
    · exact admitsTo_error
    next hmember =>
    rintro _ ⟨⟩
    exact .asUser jwt bearer differs rfl profile List.mem_cons_self (by simpa using henabled)
      (by simpa using hmember)
  · exact admitsTo_error
  · exact admitsTo_error

theorem requireAdmin_admits (issuer : String) (presented : Option BearerToken) :
    Obeys keepsHolder (AdmitsTo presented) [] (requireAdmin issuer presented) := by
  unfold requireAdmin
  cases presented with
  | none => exact admitsTo_error
  | some bearer =>
    refine Obeys.perform trivial fun keys => ?_
    cases keys with
    | none => exact admitsTo_error
    | some keys =>
      refine Obeys.perform trivial fun now => ?_
      cases hverified : verifyAccessToken keys bearer issuer now false with
      | none =>
        exact admitsTo_error
      | some token =>
        obtain ⟨jwt, rfl, -, hsub, hclientId⟩ := verifyAccessToken_some hverified
        dsimp only
        split
        · exact admitsTo_error
        refine Obeys.perform trivial fun limited => ?_
        split
        · exact admitsTo_error
        rw [hsub, hclientId]
        split
        · next hsame =>
          exact admitClient_admits rfl hclientId hsame (by simp)
        · next hdiffers => exact admitUser_admits rfl hsub hdiffers

/-! ### Runs -/

def Answered : Request → Log → Response → Prop
  | .token (.error _), _, response => ∀ body, response ≠ .tokens body
  | .token (.ok form), log, response => ∀ body, response = .tokens body →
      ∃ client, clientEntry form client ∈ log ∧ Minted form client log body.accessToken.claims
  | .admin presented, log, response => AdmitsTo presented log response

theorem handle_answers (config : TokenConfig) (q : Request) :
    Obeys keepsHolder (Answered q) [] (handle config q) := by
  cases q with
  | admin presented => exact requireAdmin_admits config.issuer presented
  | token form =>
    cases form with
    | error reason =>
      intro body h
      cases h
    | ok form =>
      refine Obeys.perform trivial fun authenticated => ?_
      cases authenticated with
      | ok client =>
        have hmints : Obeys keepsHolder (MintsTo form client) [clientEntry form client]
            (grantTokens config client form) := grantTokens_mints
        refine hmints.growing.mono ?_
        rintro log response ⟨hsub, hmints⟩ body hbody
        exact ⟨client, hsub List.mem_cons_self, hmints body hbody⟩
      | error refused =>
        have hrefused : Obeys keepsHolder (Answered (.token (.ok form)))
            [⟨.ask (.authenticateFormClient form), .error refused⟩]
            (pure refused.response : Handler Response) := by
          intro body h
          cases h
        dsimp only
        split
        · split
          · exact (disabledClientRefresh_mints_none _).mono fun _ _ hnone body hbody =>
              absurd hbody (hnone body)
          · exact hrefused
        · exact hrefused

def OwnGrant : Entry Op.Answer → Prop
  | ⟨.user uid _, some reply⟩ => ∀ grant, grantIssued reply = some grant → grant.sub = uid
  | _ => True

theorem exec_held {config : TokenConfig} {w : World} (hw : ∀ uid, HeldBy uid (w uid))
    (outside : Outside) {op : Op} (hop : keepsHolder [] op) :
    (∀ uid, HeldBy uid ((w.exec config.sha256 outside op).1 uid)) ∧
      OwnGrant ⟨op, (w.exec config.sha256 outside op).2⟩ := by
  cases op with
  | ask question => exact ⟨hw, trivial⟩
  | user uid call =>
    have hinit : InitsFor uid call := by
      rintro p now identities rfl
      exact hop
    have hupdated : ∀ v, HeldBy v
      (Function.update w uid ((w uid).call config.sha256 call).1 v) := by
      intro v
      by_cases hv : v = uid
      · subst hv
        rw [Function.update_self]
        exact (hw v).step config.sha256 hinit
      · rw [Function.update_of_ne hv]
        exact hw v
    unfold World.exec
    dsimp only
    cases outside.fault with
    | none => exact ⟨hupdated, fun grant hgrant => (hw uid).grant config.sha256 hgrant⟩
    | before => exact ⟨hw, trivial⟩
    | after => exact ⟨hupdated, trivial⟩

theorem own_grants (config : TokenConfig) (labels : List (Threads.Label Request Op Outside)) :
    ∀ t ∈ ((deployment config).after .fresh labels).threads, ∀ entry ∈ t.log, OwnGrant entry := by
  have hfollows : (deployment config).Follows fun _ => keepsHolder := fun q =>
    (handle_answers config q).mono fun _ _ _ => trivial
  refine (System.shared_invariant hfollows (I := fun w => ∀ uid, HeldBy uid (w uid))
    (E := OwnGrant) heldBy_fresh ?_ labels).2
  rintro w outside op hw (houtside | ⟨q, log, hpermitted⟩)
  · refine exec_held hw outside ?_
    cases op with
    | ask question => cases houtside
    | user uid call =>
      cases call with
      | init p now identities => exact beq_iff_eq.mp houtside
      | _ => trivial
  · exact exec_held hw outside hpermitted

/-- The user is enabled and lists `admins` in its object. -/
def Administers (w : World) (uid : String) : Prop :=
  ∃ row, (w uid).guard = .ok row ∧ row.disabledAt = none ∧ adminsGroup ∈ row.groups

theorem administers_of_answer {config : TokenConfig} {w : World} {outside : Outside}
    {uid : String} {profile : UserProfile}
    (h : (w.exec config.sha256 outside (.user uid .getProfile)).2 = some (.profile (.ok profile)))
    (enabled : profile.disabledAt = none) (member : adminsGroup ∈ profile.groups) :
    Administers w uid := by
  have hprofile : (w uid).getProfile.2 = .ok profile := by
    unfold World.exec at h
    cases hfault : outside.fault with
    | none =>
      rw [hfault] at h
      exact Reply.profile.inj (Option.some.inj h)
    | before =>
      rw [hfault] at h
      cases h
    | after =>
      rw [hfault] at h
      cases h
  unfold UserObject.getProfile UserObject.guarded at hprofile
  split at hprofile
  · cases hprofile
  · next row hguard =>
    cases hprofile
    exact ⟨row, hguard, enabled, member⟩

/-- The user's object shows an administrator at a step of the request. -/
def AdministersDuring (config : TokenConfig)
    (labels : List (Threads.Label Request Op Outside)) (j : ℕ) (uid : String) : Prop :=
  ∃ e ∈ (deployment config).history .fresh labels, ∃ a entry,
    e.reply = some (.thread j a entry) ∧ Administers e.pre.shared uid

theorem administers_of_asked {config : TokenConfig}
    {labels : List (Threads.Label Request Op Outside)} {j : ℕ}
    {a : Thread Request Op.Answer Response}
    (ha : ((deployment config).after .fresh labels).threads[j]? = some a) {uid : String}
    {profile : UserProfile}
    (answered : ⟨.user uid .getProfile, some (.profile (.ok profile))⟩ ∈ a.log)
    (enabled : profile.disabledAt = none) (member : adminsGroup ∈ profile.groups) :
    AdministersDuring config labels j uid := by
  obtain ⟨e, he, a₀, hreply, -⟩ :=
    (deployment config).exists_event_of_log .fresh labels ha answered
  obtain ⟨op, outside, hentry⟩ := (deployment config).entry_of_mem_history he hreply
  rw [Threads.Effect.entry_thread] at hentry
  obtain ⟨rfl, hanswer⟩ := Sigma.mk.inj hentry
  exact ⟨e, he, a₀, _, hreply, administers_of_answer (eq_of_heq hanswer).symm enabled member⟩

/-- A token minted on a code or a refresh token names its user as the subject. Whoever presents
it is let through by the user's own object, unless the token's client is registered under the
user's id: then no object is asked. -/
theorem issued_to_user_administers (config : TokenConfig)
    (labels : List (Threads.Label Request Op Outside)) {i : ℕ}
    {t : Thread Request Op.Answer Response} {form : TokenForm} {body : TokenResponse}
    (ht : ((deployment config).after .fresh labels).threads[i]? = some t)
    (hform : t.request = .token (.ok form)) (hbody : t.prog.result = some (.tokens body))
    (huser : form.grantType ≠ some "client_credentials") :
    ∃ client uid, clientEntry form client ∈ t.log ∧ handleUid form = some uid ∧
      body.accessToken.claims.clientId = client.clientId ∧ body.accessToken.claims.sub = uid ∧
      ∀ j a actor, ((deployment config).after .fresh labels).threads[j]? = some a →
        a.request = .admin (some (.signed body.accessToken)) →
        a.prog.result = some (.admitted actor) →
        (uid ≠ client.clientId → AdministersDuring config labels j uid) ∧
        (uid = client.clientId → ∀ entry ∈ a.log, ∃ question, entry.1 = .ask question) := by
  have hanswers :=
    System.thread_obeys_to (S := deployment config) (handle_answers config) .fresh labels
  have hminted := hanswers t (List.mem_of_getElem? ht)
  rw [hform, Prog.result_eq_some.mp hbody] at hminted
  obtain ⟨client, hclient, hminted⟩ := hminted body rfl
  cases hminted with
  | ofClient _ _ hgrant => exact absurd hgrant huser
  | ofUser hclientId uid hnamed call reply grant hanswered hissued hsub =>
    have hown : grant.sub = uid :=
      own_grants config labels t (List.mem_of_getElem? ht) _ hanswered grant hissued
    rw [hown] at hsub
    refine ⟨client, uid, hclient, hnamed, hclientId, hsub, fun j a actor ha hrequest hdone => ?_⟩
    have hadmits := hanswers a (List.mem_of_getElem? ha)
    rw [hrequest, Prog.result_eq_some.mp hdone] at hadmits
    have hadmitted : Admitted (some (.signed body.accessToken)) a.log actor := hadmits actor rfl
    cases hadmitted with
    | asClient jwt bearer same _ record _ _ _ unasked =>
      cases bearer
      rw [hsub, hclientId] at same
      exact ⟨fun hne => absurd same hne, fun _ => unasked⟩
    | asUser jwt bearer differs _ profile answered enabled member =>
      cases bearer
      rw [hsub, hclientId] at differs
      rw [hsub] at answered
      exact ⟨fun _ => administers_of_asked ha answered enabled member,
        fun heq => absurd heq differs⟩

/-! ### A client under a user's id -/

namespace Sample

def uid : String := "0198c0de-0000-7000-8000-000000000001"

def config : TokenConfig := ⟨fun _ => [], fun _ => "", "https://op.test"⟩

def input (clientId : String) : Client.ClientInput :=
  { Client.Sample.input with
    clientId := some clientId
    grantTypes := [.authorizationCode]
    scopesAllowed := [.openid, .admin]
    offlineAccess := false
    skipConsent := true }

def context : Client.ValidationContext := ⟨"https://op.test", true, []⟩

def urls : Client.UrlRules := ⟨fun _ => true, fun _ => true, fun _ => true⟩

def client (clientId : String) : ClientRecord :=
  Client.clientFromInput (input clientId) clientId (some [9]) 5

def keys : Keys.LoadedKeys := ⟨"k1", ["k1"]⟩

def settings : TokenSettings := ⟨300, 300, 3600, 86400, 0, 900⟩

def outside (clientId : String) : Outside where
  fault := .none
  oracle
    | .authenticateFormClient _ => .ok (client clientId)
    | .limited _ _ => false
    | .keys => some keys
    | .settings => some settings
    | .now => 10
    | .newUuid => "0198c0de-0000-7000-8000-0000000000ff"
    | .newSecret => [7]
    | .client _ => some (some (client clientId))

def init : Call := .init ⟨uid, none, none, false, none, [adminsGroup]⟩ 0 []

def login (clientId : String) : Call :=
  .finalizeLogin
    { now := 0
      session := .create ⟨"s1", [1], User.Sample.auth, ⟨none, none, none⟩, 900, 86400⟩
      code := some ⟨[2], clientId, "https://app.test/cb", ["openid", adminScope], none, none⟩
      client := some (Client.clientRef (client clientId))
      sessionIdleTtl := 900 }

def form : TokenForm where
  grantType := some "authorization_code"
  scope := none
  redirectUri := some "https://app.test/cb"
  codeVerifier := none
  code := some ⟨uid, [2]⟩
  refreshToken := none

def grant : GrantContext where
  sub := uid
  scope := ["openid", adminScope]
  sid := some "s1"
  authTime := 0
  amr := ["user", "hwk"]
  acr := "urn:tinyoidc:acr:passkey"
  profile := ⟨uid, none, none, false, none, [adminsGroup], none, 0, 0⟩

def minted (clientId : String) : TokenResponse :=
  userTokens config ⟨keys, settings, client clientId, 10, "0198c0de-0000-7000-8000-0000000000ff"⟩
    grant none none none

/-- The user mints a token and presents it, with what happens in between. -/
def labels (clientId : String) (between : List (Threads.Label Request Op Outside)) :
    List (Threads.Label Request Op Outside) :=
  List.replicate 4 (.step 1 (outside clientId)) ++
  .spawn (.admin (some (.signed (minted clientId).accessToken))) :: between ++
  List.replicate 9 (.step 0 (outside clientId)) ++
  [.spawn (.token (.ok form)), .outside (.user uid (login clientId)) (outside clientId),
    .outside (.user uid init) (outside clientId)]

/-- The user leaves `admins`. -/
def leaves : Threads.Label Request Op Outside :=
  .outside (.user uid (.setGroups [] 20)) (outside uid)

def actor (clientId : String) (subject : AdminSubject) : AdminActor where
  id := uid
  subject := subject
  token :=
    { payload := (minted clientId).accessToken.claims
      sub := uid
      clientId := clientId
      scopes := ["openid", adminScope]
      authTime := some 0
      sid := some "s1" }

/-- At the steps of the request that presents the token, the user is in no group. -/
def listsNoAdmin (e : (deployment config).Event) : Bool :=
  match e.reply with
  | some (.thread 1 _ _) =>
      (e.pre.shared uid).tables.user.all fun row => !row.groups.contains adminsGroup
  | _ => true

end Sample

theorem issued_to_user_administers_sample :
    ∃ t, ((deployment Sample.config).after .fresh (Sample.labels "app" [])).threads[0]? = some t ∧
      ∃ client uid, clientEntry Sample.form client ∈ t.log ∧
        handleUid Sample.form = some uid ∧
        (Sample.minted "app").accessToken.claims.clientId = client.clientId ∧
        (Sample.minted "app").accessToken.claims.sub = uid ∧
        ∀ j a actor, ((deployment Sample.config).after .fresh
            (Sample.labels "app" [])).threads[j]? = some a →
          a.request = .admin (some (.signed (Sample.minted "app").accessToken)) →
          a.prog.result = some (.admitted actor) →
          (uid ≠ client.clientId →
            AdministersDuring Sample.config (Sample.labels "app" []) j uid) ∧
          (uid = client.clientId → ∀ entry ∈ a.log, ∃ question, entry.1 = .ask question) := by
  have hrun : ((deployment Sample.config).after .fresh (Sample.labels "app" [])).threads.map
      (fun t => (t.request, t.prog.result)) =
        [(.token (.ok Sample.form), some (.tokens (Sample.minted "app"))),
          (.admin (some (.signed (Sample.minted "app").accessToken)),
            some (.admitted (Sample.actor "app" .user)))] := by
    decide
  obtain ⟨t, ht, heq⟩ := Option.map_eq_some_iff.mp
    ((List.getElem?_map ..).symm.trans (congrArg (·[0]?) hrun))
  obtain ⟨hrequest, hresult⟩ := Prod.mk.inj heq
  exact ⟨t, ht, issued_to_user_administers Sample.config (Sample.labels "app" []) ht hrequest
    hresult
    (by decide)⟩

/-- A client registered under a user's id, which its rules allow, gets a token for that user; it
still passes as an administrator's when the user has left the group. -/
theorem former_administrator_admitted :
    isUuid Sample.uid = true ∧ Client.isClientId Sample.uid = true ∧
      Client.validateClientInput Sample.urls (Sample.input Sample.uid) Sample.context = [] ∧
      (∃ t a, ((deployment Sample.config).after .fresh
          (Sample.labels Sample.uid [Sample.leaves])).threads = [t, a] ∧
        t.request = .token (.ok Sample.form) ∧
        t.prog.result = some (.tokens (Sample.minted Sample.uid)) ∧
        (Sample.minted Sample.uid).accessToken.claims.sub =
          (Sample.minted Sample.uid).accessToken.claims.clientId ∧
        a.request = .admin (some (.signed (Sample.minted Sample.uid).accessToken)) ∧
        a.prog.result = some (.admitted (Sample.actor Sample.uid .client))) ∧
      ¬ AdministersDuring Sample.config (Sample.labels Sample.uid [Sample.leaves]) 1
        Sample.uid := by
  have hrun : ((deployment Sample.config).after .fresh
      (Sample.labels Sample.uid [Sample.leaves])).threads.map
        (fun t => (t.request, t.prog.result)) =
        [(.token (.ok Sample.form), some (.tokens (Sample.minted Sample.uid))),
          (.admin (some (.signed (Sample.minted Sample.uid).accessToken)),
            some (.admitted (Sample.actor Sample.uid .client)))] := by
    decide
  have hleft : ((deployment Sample.config).history .fresh
      (Sample.labels Sample.uid [Sample.leaves])).all Sample.listsNoAdmin = true := by
    decide
  refine ⟨by decide, by decide, by decide, ?_, ?_⟩
  · obtain ⟨t, rest, hthreads, ht, hrest⟩ := List.map_eq_cons_iff.mp hrun
    obtain ⟨a, rest, rfl, ha, hnil⟩ := List.map_eq_cons_iff.mp hrest
    cases List.map_eq_nil_iff.mp hnil
    obtain ⟨htoken, hminted⟩ := Prod.mk.inj ht
    obtain ⟨hadmin, hadmitted⟩ := Prod.mk.inj ha
    exact ⟨t, a, hthreads, htoken, hminted, rfl, hadmin, hadmitted⟩
  · rintro ⟨e, he, a, entry, hreply, row, hguard, -, hmember⟩
    have hnone := List.all_eq_true.mp hleft e he
    simp [Sample.listsNoAdmin, hreply, (guard_ok hguard).2, hmember] at hnone

end TinyOidc.Admin
