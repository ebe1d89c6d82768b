import TinyOidc.Util.Text

/-! The runtime settings (`src/config/schema.ts`, `resolveSettings` of `src/env.ts`,
`src/util/domain.ts`): what each key takes, and the rules across keys. A rule carries the keys it
reads. URL parsing and the texts of schema issues are the platform's. -/
namespace TinyOidc.Env
open TinyOidc.Util

/-- A decoded JSON value. What no setting takes (objects, mixed arrays, fractions) stays text. -/
inductive Json where
  | null
  | bool (b : Bool)
  | int (n : ℤ)
  | string (s : String)
  | strings (items : List String)
  | other (text : String)
  deriving DecidableEq, Repr

/-- `Record<string, unknown>`. -/
abbrev Record := List (String × Json)

/-! ### The schema -/

inductive Schema where
  | string
  | strings
  | boolean
  | int (min max : ℤ)
  | enum (options : List String)
  | nullable (inner : Schema)

def Schema.accepts : Schema → Json → Bool
  | .string, .string _ => true
  | .strings, .strings _ => true
  | .boolean, .bool _ => true
  | .int min max, .int n => min ≤ n && n ≤ max
  | .enum options, .string s => options.contains s
  | .nullable inner, v => v == .null || inner.accepts v
  | _, _ => false

structure SettingSpec where
  key : String
  schema : Schema
  default : Json

def seconds (key : String) (min max fallback : ℤ) : SettingSpec :=
  ⟨key, .int min max, .int fallback⟩

def maxSafeInteger : ℤ := 9007199254740991

def SettingsSchema : List SettingSpec :=
  [⟨"login_url", .nullable .string, .null⟩,
    ⟨"login_origins", .nullable .strings, .null⟩,
    ⟨"webauthn_origins", .nullable .strings, .null⟩,
    ⟨"logout_landing_url", .nullable .string, .null⟩,
    ⟨"registration.mode", .enum ["closed", "invite", "open"], .string "invite"⟩,
    ⟨"federation.auto_create", .boolean, .bool false⟩,
    ⟨"federation.link_by_verified_email", .enum ["never", "reauth"], .string "reauth"⟩,
    ⟨"passkeys.max_per_user", .int 1 50, .int 20⟩,
    ⟨"passkeys.attestation_policy", .enum ["ignore"], .string "ignore"⟩,
    seconds "interaction_ttl" 60 900 600,
    seconds "session.idle_ttl" 900 2592000 86400,
    seconds "session.absolute_ttl" 3600 31536000 2592000,
    seconds "tokens.access_ttl" 60 3600 600,
    seconds "tokens.id_ttl" 60 3600 600,
    seconds "tokens.refresh_idle_ttl" 3600 2592000 1209600,
    seconds "tokens.refresh_absolute_ttl" 86400 7776000 2592000,
    seconds "tokens.refresh_reuse_window" 3600 259200 86400,
    ⟨"keys.rotation_days", .int 0 365, .int 90⟩,
    seconds "keys.prepublish_seconds" 0 2592000 86400,
    seconds "keys.retire_after_seconds" 3600 7776000 604800,
    ⟨"audit.hot_retention_days", .int 1 365, .int 14⟩,
    ⟨"me.allow_email_change", .boolean, .bool false⟩,
    seconds "me.passkey_add_max_auth_age" 0 86400 900,
    ⟨"bootstrapped_at", .nullable (.int (-maxSafeInteger) maxSafeInteger), .null⟩,
    ⟨"do_jurisdiction", .nullable (.enum ["", "eu", "fedramp"]), .null⟩]

/-- Every default passes its own check. -/
theorem default_accepted : ∀ spec ∈ SettingsSchema, spec.schema.accepts spec.default = true := by
  decide

/-- The settings of a record, with the schema's default for a key it lacks. -/
abbrev Parsed := String → Json

def defaultOf (key : String) : Json :=
  ((SettingsSchema.find? (·.key == key)).map (·.default)).getD .null

def parsed (stored : Record) : Parsed := fun key => (stored.lookup key).getD (defaultOf key)

def SettingSpec.passes (spec : SettingSpec) (stored : Record) : Bool :=
  (stored.lookup spec.key).all spec.schema.accepts

namespace Json

def text : Json → Option String
  | string s => some s
  | _ => none

def texts : Json → Option (List String)
  | strings items => some items
  | _ => none

def number : Json → Option ℤ
  | int n => some n
  | _ => none

end Json

/-! ### URLs and sites -/

/-- `new URL`, `none` when it throws, and how zod describes a value its schema refuses. -/
structure Platform where
  safeUrl : String → Option Url
  issues : SettingSpec → Json → List String

def isAllowedScheme (url : Url) : Bool :=
  url.protocol == "https:" || (url.protocol == "http:" &&
    (url.hostname == "localhost" || url.hostname == "127.0.0.1" || url.hostname == "[::1]"))

def secondLevelSuffixes : List String :=
  ["co", "com", "org", "net", "gov", "edu", "ac", "or", "ne", "gob", "mil"]

/-- A hostname in lower case, without a final dot. -/
def hostOf (hostname : String) : List Char :=
  let host := hostname.toList.map Char.toLower
  if host.getLast? = some '.' then host.dropLast else host

/-- The last two labels, or three under a second-level suffix. Loopback hosts and addresses are
their own site. -/
def registrableDomain (hostname : String) : List Char :=
  let host := hostOf hostname
  if host = "localhost".toList || (host ≠ [] && host.all fun c => c.isDigit || c == '.') ||
      host.head? = some '[' then host
  else
    let labels := host.splitOn '.'
    if labels.length ≤ 2 then host
    else
      let secondLevel := labels.getD (labels.length - 2) []
      let tld := labels.getD (labels.length - 1) []
      let take := if secondLevelSuffixes.contains (String.ofList secondLevel) && tld.length == 2
        then 3 else 2
      ['.'].intercalate (labels.drop (labels.length - take))

def sameSite (hostA hostB : String) : Bool := registrableDomain hostA == registrableDomain hostB

/-- What the deployment's environment fixes. -/
structure Config where
  issuer : Url
  issuerUrl : String
  bundledLoginApp : Bool
  doJurisdiction : String

def isOrigin (platform : Platform) (value : String) : Bool :=
  (platform.safeUrl value).any fun url => url.origin == value && isAllowedScheme url

/-! ### The rules across keys -/

/-- What a rule finds depends on the keys it reads. -/
structure Rule where
  reads : List String
  violations : Parsed → List String
  congr : ∀ s s' : Parsed, (∀ key ∈ reads, s key = s' key) → violations s = violations s'

section Rules
variable (platform : Platform) (config : Config)

def loginUrlOf (s : Parsed) : Option String :=
  match (s "login_url").text with
  | some url => some url
  | none => if config.bundledLoginApp then some (config.issuerUrl ++ "/login/") else none

def loginUrlRule : Rule where
  reads := ["login_url"]
  violations s :=
    match loginUrlOf config s with
    | none => []
    | some loginUrl =>
      match platform.safeUrl loginUrl with
      | none => ["login_url: must be an absolute https URL without a fragment"]
      | some url =>
        if !isAllowedScheme url || url.hash != "" then
          ["login_url: must be an absolute https URL without a fragment"]
        else if !sameSite url.hostname config.issuer.hostname then
          ["login_url: must be same-site with ISSUER"]
        else []
  congr s s' h := by
    have hkey : s "login_url" = s' "login_url" := h _ (by simp)
    simp only [loginUrlOf, hkey]

def loginOriginsOf (s : Parsed) : Option (List String) :=
  match (s "login_origins").texts with
  | some origins => some origins
  | none => if config.bundledLoginApp then some [config.issuer.origin] else none

def hostnameOf (origin : String) : String :=
  ((platform.safeUrl origin).map (·.hostname)).getD ""

def originViolations (origin : String) : List String :=
  if !isOrigin platform origin then
    ["login_origins: \"" ++ origin ++ "\" is not an https origin"]
  else if !sameSite (hostnameOf platform origin) config.issuer.hostname then
    ["login_origins: \"" ++ origin ++ "\" is not same-site with ISSUER"]
  else []

def loginOriginsRule : Rule where
  reads := ["login_origins"]
  violations s :=
    match loginOriginsOf config s with
    | none => []
    | some origins =>
      (if origins.isEmpty then ["login_origins: must not be empty"] else []) ++
        origins.flatMap (originViolations platform config)
  congr s s' h := by
    have hkey : s "login_origins" = s' "login_origins" := h _ (by simp)
    simp only [loginOriginsOf, hkey]

def webauthnOriginsOf (s : Parsed) : List String :=
  match (s "webauthn_origins").texts with
  | some origins => origins
  | none => (loginOriginsOf config s).getD []

/-- At most five registrable labels. An origin derived from the login origins has been reported
there. -/
def webauthnViolations (own : Bool) (origins : List String) : List String :=
  let labels := uniqueTexts ((origins.filter (isOrigin platform)).map fun origin =>
    String.ofList (registrableDomain (hostnameOf platform origin)))
  (if own then
      (origins.filter (!isOrigin platform ·)).map fun origin =>
        "webauthn_origins: \"" ++ origin ++ "\" is not an https origin"
    else []) ++
    if labels.length > 5 then
      ["webauthn_origins: at most 5 distinct registrable domains are allowed"] else []

def webauthnOriginsRule : Rule where
  reads := ["webauthn_origins", "login_origins"]
  violations s :=
    webauthnViolations platform (s "webauthn_origins").texts.isSome (webauthnOriginsOf config s)
  congr s s' h := by
    have hown : s "webauthn_origins" = s' "webauthn_origins" := h _ (by simp)
    have hlogin : s "login_origins" = s' "login_origins" := h _ (by simp)
    simp only [webauthnOriginsOf, loginOriginsOf, hown, hlogin]

def landingOf (s : Parsed) : Option String :=
  match (s "logout_landing_url").text with
  | some landing => some landing
  | none => (loginUrlOf config s).map fun loginUrl =>
      loginUrl ++ (if loginUrl.toList.contains '?' then "&" else "?") ++ "event=logged_out"

def landingRule : Rule where
  reads := ["logout_landing_url"]
  violations s :=
    match (s "logout_landing_url").text with
    | none => []
    | some landing =>
      if (platform.safeUrl landing).any isAllowedScheme then []
      else ["logout_landing_url: must be an absolute https URL"]
  congr s s' h := by
    have hkey : s "logout_landing_url" = s' "logout_landing_url" := h _ (by simp)
    simp only [hkey]

def logoutTokenTtl : ℤ := 120

def numberOf (s : Parsed) (key : String) : ℤ := (s key).number.getD 0

theorem numberOf_congr {s s' : Parsed} {key : String} (h : s key = s' key) :
    numberOf s key = numberOf s' key := by rw [numberOf, numberOf, h]

/-- Retirement outlives every token that the superseded key has signed. -/
def retireAfterRule : Rule where
  reads := ["tokens.access_ttl", "tokens.id_ttl", "keys.retire_after_seconds"]
  violations s :=
    let longestToken :=
      max (max (numberOf s "tokens.access_ttl") (numberOf s "tokens.id_ttl")) logoutTokenTtl
    if numberOf s "keys.retire_after_seconds" ≤ longestToken + 3600 then
      ["keys.retire_after_seconds: must exceed the longest token lifetime plus 3600 seconds"]
    else []
  congr s s' h := by
    have haccess := numberOf_congr (h "tokens.access_ttl" (by simp))
    have hid := numberOf_congr (h "tokens.id_ttl" (by simp))
    have hretire := numberOf_congr (h "keys.retire_after_seconds" (by simp))
    simp only
    rw [haccess, hid, hretire]

/-- One lifetime within another. -/
def withinRule (key bound : String) : Rule where
  reads := [key, bound]
  violations s :=
    if numberOf s key > numberOf s bound then [key ++ ": must not exceed " ++ bound] else []
  congr s s' h := by
    have hkey := numberOf_congr (h key (by simp))
    have hbound := numberOf_congr (h bound (by simp))
    rw [hkey, hbound]

def refreshIdleRule : Rule := withinRule "tokens.refresh_idle_ttl" "tokens.refresh_absolute_ttl"

def sessionIdleRule : Rule := withinRule "session.idle_ttl" "session.absolute_ttl"

def jurisdictionName (j : String) : String :=
  if j = "" then "no jurisdiction" else "jurisdiction \"" ++ j ++ "\""

/-- The jurisdiction the accounts were created under; none before bootstrap. -/
def recordedJurisdiction (s : Parsed) : Option String :=
  match (s "do_jurisdiction").text with
  | some j => some j
  | none => if s "bootstrapped_at" = .null then none else some ""

def jurisdictionRule : Rule where
  reads := ["do_jurisdiction", "bootstrapped_at"]
  violations s :=
    match recordedJurisdiction s with
    | none => []
    | some recorded =>
      if recorded = config.doJurisdiction then []
      else ["do_jurisdiction: the accounts were created under " ++ jurisdictionName recorded ++
        " but DO_JURISDICTION asks for " ++ jurisdictionName config.doJurisdiction ++
        "; every existing account would be unreachable, so the setting must match"]
  congr s s' h := by
    have hown : s "do_jurisdiction" = s' "do_jurisdiction" := h _ (by simp)
    have hbootstrap : s "bootstrapped_at" = s' "bootstrapped_at" := h _ (by simp)
    simp only [recordedJurisdiction]
    rw [hown, hbootstrap]

/-- The rules in the order they report. -/
def rules : List Rule :=
  [loginUrlRule platform config, loginOriginsRule platform config,
    webauthnOriginsRule platform config, landingRule platform, retireAfterRule, refreshIdleRule,
    sessionIdleRule, jurisdictionRule config]

/-! ### Resolution -/

inductive Source where
  | default | setting
  deriving DecidableEq, Repr

structure Settings where
  stored : Parsed
  loginUrl : Option String
  loginOrigins : Option (List String)
  webauthnOrigins : List String
  logoutLandingUrl : Option String
  sources : List (String × Source)

def sourcesOf (stored : Record) : List (String × Source) :=
  SettingsSchema.map fun spec =>
    (spec.key, if (stored.lookup spec.key).isSome then .setting else .default)

def settingsOf (stored : Record) : Settings where
  stored := parsed stored
  loginUrl := loginUrlOf config (parsed stored)
  loginOrigins := loginOriginsOf config (parsed stored)
  webauthnOrigins := webauthnOriginsOf config (parsed stored)
  logoutLandingUrl := landingOf config (parsed stored)
  sources := sourcesOf stored

def schemaViolations (stored : Record) : List String :=
  (SettingsSchema.filter (!·.passes stored)).flatMap fun spec =>
    (platform.issues spec ((stored.lookup spec.key).getD .null)).map
      fun message => spec.key ++ ": " ++ message

def violationsOf (stored : Record) : List String :=
  (rules platform config).flatMap fun rule => rule.violations (parsed stored)

/-- The stored settings as a whole: the schema first, then the rules across keys. -/
def resolveSettings (stored : Record) : Except (List String) Settings :=
  if SettingsSchema.all (·.passes stored) then
    if (violationsOf platform config stored).isEmpty then .ok (settingsOf config stored)
    else .error (violationsOf platform config stored)
  else .error (schemaViolations platform stored)

def Accepted (stored : Record) : Prop := (resolveSettings platform config stored).isOk = true

instance (stored : Record) : Decidable (Accepted platform config stored) :=
  inferInstanceAs (Decidable (_ = true))

end Rules

variable {platform : Platform} {config : Config}

theorem accepted_iff {stored : Record} : Accepted platform config stored ↔
    (∀ spec ∈ SettingsSchema, spec.passes stored = true) ∧
      ∀ rule ∈ rules platform config, rule.violations (parsed stored) = [] := by
  have hrules : (violationsOf platform config stored).isEmpty = true ↔
      ∀ rule ∈ rules platform config, rule.violations (parsed stored) = [] := by
    rw [List.isEmpty_iff, violationsOf, List.flatMap_eq_nil_iff]
  rw [Accepted, resolveSettings, ← hrules, ← List.all_eq_true]
  by_cases hschema : SettingsSchema.all (·.passes stored) = true
  · by_cases hempty : (violationsOf platform config stored).isEmpty = true
    · simp [hschema, hempty, Except.isOk, Except.toBool]
    · simp [hschema, hempty, Except.isOk, Except.toBool]
  · simp [hschema, Except.isOk, Except.toBool]

theorem accepted_settings {stored : Record} (h : Accepted platform config stored) :
    resolveSettings platform config stored = .ok (settingsOf config stored) := by
  obtain ⟨hschema, hrules⟩ := accepted_iff.mp h
  have hempty : violationsOf platform config stored = [] := List.flatMap_eq_nil_iff.mpr hrules
  simp only [resolveSettings, List.all_eq_true.mpr hschema, hempty, List.isEmpty_nil, if_true]

/-! ### Records that agree -/

def AgreeOn (keys : List String) (a b : Record) : Prop := ∀ key ∈ keys, a.lookup key = b.lookup key

theorem Rule.congr_of_agreeOn (rule : Rule) {a b : Record} (h : AgreeOn rule.reads a b) :
    rule.violations (parsed a) = rule.violations (parsed b) := by
  apply rule.congr
  intro key hkey
  simp only [parsed, h key hkey]

/-- A record is accepted when each key, and the keys of each rule together, are those of one of
two accepted records. -/
theorem accepted_of_agreeOn {a b written : Record} (ha : Accepted platform config a)
    (hb : Accepted platform config b)
    (hkeys : ∀ key, written.lookup key = a.lookup key ∨ written.lookup key = b.lookup key)
    (hrules : ∀ rule ∈ rules platform config,
      AgreeOn rule.reads written a ∨ AgreeOn rule.reads written b) :
    Accepted platform config written := by
  obtain ⟨haSchema, haRules⟩ := accepted_iff.mp ha
  obtain ⟨hbSchema, hbRules⟩ := accepted_iff.mp hb
  apply accepted_iff.mpr
  constructor
  · intro spec hspec
    have hpasses := haSchema spec hspec
    have hpasses' := hbSchema spec hspec
    unfold SettingSpec.passes at *
    rcases hkeys spec.key with hkey | hkey
    · rwa [hkey]
    · rwa [hkey]
  · intro rule hrule
    rcases hrules rule hrule with hagree | hagree
    · rw [rule.congr_of_agreeOn hagree]
      exact haRules rule hrule
    · rw [rule.congr_of_agreeOn hagree]
      exact hbRules rule hrule

end TinyOidc.Env
