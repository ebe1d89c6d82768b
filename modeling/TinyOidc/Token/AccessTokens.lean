import TinyOidc.Oidc.Authorize

/-! Access tokens from minting to verification (`src/oidc/tokens.ts`, `src/oidc/bearer.ts`): the
audience of a token and the audiences a client may be registered with (`src/oidc/clients.ts`). -/
namespace TinyOidc.Token
open TinyOidc.User TinyOidc.Util
open TinyOidc.Client (Scope ClientRecord UrlRules ValidationContext inputOf isClientId
  isClientIdChar
  validateClientInput violationIf)
open TinyOidc.Keys (LoadedKeys)
open TinyOidc.Oidc (UrlParser)

/-! ### Registered audiences -/

/-- `/^urn:[a-z0-9][a-z0-9-]{0,31}:\S+$/i`. -/
def isUrn (value : String) : Bool :=
  let namespaced := value.toList.drop 4
  let nid := (namespaced.takeWhile (· ≠ ':')).map Char.toLower
  let nss := (namespaced.dropWhile (· ≠ ':')).drop 1
  (value.toList.take 4).map Char.toLower == "urn:".toList &&
    nid.head?.any isClientIdChar && nid.length ≤ 32 &&
    nid.all (fun c => isClientIdChar c || c == '-') &&
    namespaced.contains ':' && !nss.isEmpty && nss.all (!isSpace ·)

def isAudience (parse : UrlParser) (value : String) : Bool :=
  !value.toList.contains '#' &&
    (isUrn value || (parse value).any fun url =>
      url.protocol == "https:" && url.hostname != "" &&
        (url.href == value || url.href == value ++ "/"))

example : isUrn "URN:example-1:a/b" = true ∧ isUrn "urn::x" = false := by decide

theorem colon_of_isUrn {value : String} (h : isUrn value = true) : ':' ∈ value.toList := by
  unfold isUrn at h
  simp only [Bool.and_eq_true, List.contains_iff_mem] at h
  exact List.mem_of_mem_drop h.1.1.2

theorem colon_of_isAudience {parse : UrlParser}
    (hparse : ∀ text url, parse text = some url → ':' ∈ text.toList) {value : String}
    (h : isAudience parse value = true) : ':' ∈ value.toList := by
  unfold isAudience at h
  simp only [Bool.and_eq_true, Bool.or_eq_true] at h
  rcases h.2 with hurn | hurl
  · exact colon_of_isUrn hurn
  · cases hparsed : parse value with
    | none =>
      rw [hparsed] at hurl
      cases hurl
    | some url => exact hparse value url hparsed

/-- A client id has no colon, so it is neither an audience nor an issuer. -/
theorem not_colon_of_isClientId {id : String} (h : isClientId id = true) : ':' ∉ id.toList := by
  have hcolon : isClientIdChar ':' = false := by decide
  unfold isClientId at h
  split at h
  · cases h
  · next first rest hchars =>
    simp only [Bool.and_eq_true, List.all_eq_true] at h
    obtain ⟨⟨⟨hfirst, -⟩, -⟩, hrest⟩ := h
    rw [hchars]
    intro hmem
    rcases List.mem_cons.mp hmem with rfl | hmem
    · rw [hcolon] at hfirst
      cases hfirst
    · have hrest := hrest ':' hmem
      rw [hcolon] at hrest
      cases hrest

/-- The rules let through no audience but an `isAudience` that is not the issuer. -/
theorem audience_of_valid {urls : UrlRules} {client : ClientRecord} {context : ValidationContext}
    (h : validateClientInput urls (inputOf client) context = []) {audience : String}
    (hmem : audience ∈ client.audiences) :
    urls.audience audience = true ∧ audience ≠ context.issuer := by
  unfold validateClientInput at h
  simp only [List.append_eq_nil_iff, List.flatMap_eq_nil_iff] at h
  have haudience := h.1.2 audience hmem
  split at haudience
  · next haccepted =>
    refine ⟨haccepted, ?_⟩
    intro heq
    simp [violationIf, heq] at haudience
  · cases haudience

/-! ### Scopes -/

theorem scopeText_chars (scope : Scope) :
    ' ' ∉ (scopeText scope).toList ∧ 0 < (scopeText scope).length := by
  cases scope <;> decide

theorem scopeText_injective : Function.Injective scopeText := by
  intro a b h
  cases a <;> cases b <;> first | rfl | (exact absurd h (by decide))

/-- The scopes of a token read back in order. -/
theorem splitSpaces_joinWords (scopes : List Scope) :
    (splitSpaces (joinWords (scopes.map scopeText))).filter (fun s => 0 < s.length) =
      scopes.map scopeText := by
  by_cases hnil : scopes = []
  · subst hnil
    decide
  · have hsplit : splitSpaces (joinWords (scopes.map scopeText)) = scopes.map scopeText := by
      unfold splitSpaces joinWords
      rw [String.toList_ofList, List.splitOn_intercalate]
      · simp [List.map_map, Function.comp_def]
      · intro word hword
        simp only [List.map_map, List.mem_map, Function.comp_apply] at hword
        obtain ⟨scope, -, rfl⟩ := hword
        exact (scopeText_chars scope).1
      · simpa using hnil
    rw [hsplit, List.filter_eq_self]
    intro word hword
    obtain ⟨scope, -, rfl⟩ := List.mem_map.mp hword
    exact decide_eq_true (scopeText_chars scope).2

theorem contains_scopeText {scopes : List Scope} {scope : Scope} :
    (scopes.map scopeText).contains (scopeText scope) = true ↔ scope ∈ scopes := by
  rw [List.contains_iff_mem, List.mem_map_of_injective scopeText_injective]

/-! ### The audience -/

/-- Who a token is for: the registered audiences or the client, and the issuer by scope. -/
def namedAudience (clientId : String) (audiences : List String) : List String :=
  if 0 < audiences.length then audiences else [clientId]

theorem accessTokenAudience_values (issuer clientId : String) (audiences scopes : List String) :
    (accessTokenAudience issuer clientId audiences scopes).values =
      if (scopes.contains "account" || scopes.contains "admin") &&
          !(namedAudience clientId audiences).contains issuer then
        namedAudience clientId audiences ++ [issuer]
      else namedAudience clientId audiences := by
  unfold accessTokenAudience
  dsimp only
  split
  · next value heq =>
    exact heq.symm
  · rfl

theorem mem_accessTokenAudience {issuer clientId : String} {audiences scopes : List String}
    (h : issuer ∉ namedAudience clientId audiences) {a : String} :
    a ∈ (accessTokenAudience issuer clientId audiences scopes).values ↔
      a ∈ namedAudience clientId audiences ∨
        a = issuer ∧ (scopes.contains "account" || scopes.contains "admin") = true := by
  rw [accessTokenAudience_values]
  have hnamed : (namedAudience clientId audiences).contains issuer = false := by simpa using h
  rw [hnamed]
  cases scopes.contains "account" || scopes.contains "admin" <;> simp

/-- Whether a token is taken: its audience names one of those accepted. -/
theorem verifyAccessToken_isSome {keys : LoadedKeys} {token : BearerToken} {issuer : String}
    {now : ℤ} {payload : AccessTokenClaims}
    (h : verifyOwnJwt keys token issuer now = some payload) (acceptClient : Bool) :
    (verifyAccessToken keys token issuer now acceptClient).isSome = true ↔
      issuer ∈ payload.aud.values ∨
        acceptClient = true ∧ payload.clientId ∈ payload.aud.values := by
  have htaken : (verifyAccessToken keys token issuer now acceptClient).isSome = true ↔
      ∃ a ∈ payload.aud.values,
        a ∈ if acceptClient then [issuer, payload.clientId] else [issuer] := by
    unfold verifyAccessToken
    rw [h]
    simp only [Bool.not_eq_true', List.any_eq_false, List.contains_iff_mem]
    simp
  rw [htaken]
  cases acceptClient with
  | false => simp
  | true =>
    constructor
    · rintro ⟨a, ha, haccepted⟩
      rcases List.mem_cons.mp haccepted with rfl | haccepted
      · exact .inl ha
      · exact .inr ⟨rfl, List.mem_singleton.mp haccepted ▸ ha⟩
    · intro hmem
      rcases hmem with hmem | ⟨-, hmem⟩
      · exact ⟨issuer, hmem, by simp⟩
      · exact ⟨payload.clientId, hmem, by simp⟩

theorem verifyAccessToken_reads {keys : LoadedKeys} {token : BearerToken} {issuer : String}
    {now : ℤ} {acceptClient : Bool} {payload : AccessTokenClaims} {verified : AccessToken}
    (hown : verifyOwnJwt keys token issuer now = some payload)
    (h : verifyAccessToken keys token issuer now acceptClient = some verified) :
    verified.scopes = (splitSpaces payload.scope).filter (fun s => 0 < s.length) ∧
      verified.sub = payload.sub ∧ verified.clientId = payload.clientId ∧
      verified.authTime = payload.authTime ∧ verified.sid = payload.sid := by
  unfold verifyAccessToken at h
  rw [hown] at h
  obtain ⟨-, heq⟩ := Option.ite_none_left_eq_some.mp h
  cases heq
  exact ⟨rfl, rfl, rfl, rfl, rfl⟩

section Minted
variable {parse : UrlParser} {urls : UrlRules} {context : ValidationContext}
  {client : ClientRecord}

/-- What the client registers names neither the issuer nor, unless it registers nothing, the
client. -/
theorem namedAudience_of_valid (hparse : ∀ text url, parse text = some url → ':' ∈ text.toList)
    (hurls : urls.audience = isAudience parse) (hissuer : (parse context.issuer).isSome = true)
    (hid : isClientId client.clientId = true)
    (hvalid : validateClientInput urls (inputOf client) context = []) :
    context.issuer ∉ namedAudience client.clientId client.audiences ∧
      (client.clientId ∈ namedAudience client.clientId client.audiences ↔
        client.audiences = []) := by
  obtain ⟨url, hurl⟩ := Option.isSome_iff_exists.mp hissuer
  have hcolon := hparse context.issuer url hurl
  have hclient := not_colon_of_isClientId hid
  unfold namedAudience
  by_cases hnone : client.audiences = []
  · have hne : context.issuer ≠ client.clientId := by
      intro heq
      rw [heq] at hcolon
      exact hclient hcolon
    simp [hnone, hne]
  · have hpos : 0 < client.audiences.length := List.length_pos_iff.mpr hnone
    rw [if_pos hpos]
    constructor
    · intro hmem
      exact (audience_of_valid hvalid hmem).2 rfl
    · constructor
      · intro hmem
        have haudience := (audience_of_valid hvalid hmem).1
        rw [hurls] at haudience
        exact absurd (colon_of_isAudience hparse haudience) hclient
      · intro h
        exact absurd h hnone

/-- A token minted for a registered client reads back as it was minted, and is taken for the
provider's own APIs by scope, and where the client is taken too, also when it registers no
audience. -/
theorem minted_token_verifies (hparse : ∀ text url, parse text = some url → ':' ∈ text.toList)
    (hurls : urls.audience = isAudience parse) (hissuer : (parse context.issuer).isSome = true)
    (hid : isClientId client.clientId = true)
    (hvalid : validateClientInput urls (inputOf client) context = [])
    (keys keys' : LoadedKeys) (hkey : keys.signing ∈ keys'.jwks) (minted ttl now : ℤ)
    (hnow : now < minted + ttl) (jti : String) (scopes : List Scope) (user : Option UserContext)
    (groups : List String) :
    let claims := accessTokenClaims ⟨context.issuer, client.clientId, minted, ttl, jti,
      scopes.map scopeText, client.audiences, user, groups⟩
    let verify := verifyAccessToken keys' (.signed (signJwt keys .accessToken claims))
      context.issuer now
    (∀ acceptClient verified, verify acceptClient = some verified →
      verified.sub = (user.map (·.sub)).getD client.clientId ∧
      verified.clientId = client.clientId ∧ verified.scopes = scopes.map scopeText ∧
      verified.authTime = user.map (·.authTime) ∧ verified.sid = user.bind (·.sid)) ∧
    ((verify false).isSome = true ↔ .account ∈ scopes ∨ .admin ∈ scopes) ∧
    ((verify true).isSome = true ↔
      client.audiences = [] ∨ .account ∈ scopes ∨ .admin ∈ scopes) := by
  intro claims verify
  obtain ⟨hissuerNamed, hclientNamed⟩ := namedAudience_of_valid hparse hurls hissuer hid hvalid
  have hne : context.issuer ≠ client.clientId := by
    obtain ⟨url, hurl⟩ := Option.isSome_iff_exists.mp hissuer
    intro heq
    have hcolon := hparse context.issuer url hurl
    rw [heq] at hcolon
    exact not_colon_of_isClientId hid hcolon
  have hown : verifyOwnJwt keys' (.signed (signJwt keys .accessToken claims)) context.issuer now =
      some claims := if_pos ⟨rfl, hkey, rfl, hnow⟩
  have hscopes : ((scopes.map scopeText).contains "account" ||
      (scopes.map scopeText).contains "admin") = true ↔ .account ∈ scopes ∨ .admin ∈ scopes := by
    rw [Bool.or_eq_true]
    exact or_congr (@contains_scopeText scopes .account) (@contains_scopeText scopes .admin)
  have hmember : ∀ a, a ∈ claims.aud.values ↔
      a ∈ namedAudience client.clientId client.audiences ∨
        a = context.issuer ∧ (.account ∈ scopes ∨ .admin ∈ scopes) := by
    intro a
    rw [← hscopes]
    exact mem_accessTokenAudience hissuerNamed
  have hissuerMember : context.issuer ∈ claims.aud.values ↔
      .account ∈ scopes ∨ .admin ∈ scopes := by
    simp [hmember, hissuerNamed]
  have hclientMember : client.clientId ∈ claims.aud.values ↔ client.audiences = [] := by
    rw [hmember, hclientNamed]
    simp [hne.symm]
  refine ⟨?_, ?_, ?_⟩
  · intro acceptClient verified hverified
    have hread : verified.scopes = (splitSpaces claims.scope).filter (fun s => 0 < s.length) ∧
        verified.sub = claims.sub ∧ verified.clientId = claims.clientId ∧
        verified.authTime = claims.authTime ∧ verified.sid = claims.sid :=
      verifyAccessToken_reads hown hverified
    obtain ⟨hscope, hsub, hclient, htime, hsid⟩ := hread
    refine ⟨hsub, hclient, ?_, htime, hsid⟩
    rw [hscope]
    exact splitSpaces_joinWords scopes
  · show (verifyAccessToken keys' _ context.issuer now false).isSome = true ↔ _
    rw [verifyAccessToken_isSome hown, hissuerMember]
    simp
  · show (verifyAccessToken keys' _ context.issuer now true).isSome = true ↔ _
    rw [verifyAccessToken_isSome hown, hissuerMember]
    show _ ∨ _ ∧ client.clientId ∈ claims.aud.values ↔ _
    rw [hclientMember]
    simp only [true_and]
    exact or_comm

end Minted

namespace Sample

/-- The parser on the issuer and one resource. -/
def parse : UrlParser := fun text =>
  if text = "https://op.test" ∨ text = "https://api.test" then
    some ⟨text ++ "/", text, "https:", (text.drop 8).toString, "", "", "/", "", ""⟩
  else none

theorem colon_of_parse (text : String) (url : Url) (h : parse text = some url) :
    ':' ∈ text.toList := by
  obtain ⟨hknown, -⟩ := Option.ite_none_right_eq_some.mp h
  rcases hknown with rfl | rfl <;> decide

def urls : UrlRules := ⟨fun _ => true, isAudience parse, fun _ => true⟩

def context : ValidationContext := ⟨"https://op.test", false, []⟩

def client : ClientRecord :=
  Client.clientFromInput { Client.Sample.input with audiences := ["https://api.test"] } "app"
    none 5

def keys : LoadedKeys := ⟨"k1", ["k1"]⟩

end Sample

theorem minted_token_verifies_sample :
    (verifyAccessToken Sample.keys (.signed (signJwt Sample.keys .accessToken
      (accessTokenClaims ⟨"https://op.test", "app", 10, 300, "j1",
        [Scope.openid, .account].map scopeText, ["https://api.test"], none, []⟩)))
      "https://op.test" 20 false).isSome = true :=
  (@minted_token_verifies Sample.parse Sample.urls Sample.context Sample.client
    Sample.colon_of_parse rfl (by decide) (by decide) (by decide) Sample.keys Sample.keys
    (by decide) 10 300 20 (by decide) "j1" [.openid, .account] none []).2.1.mpr (.inl (by decide))

end TinyOidc.Token
