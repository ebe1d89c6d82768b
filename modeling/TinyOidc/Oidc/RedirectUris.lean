import TinyOidc.Lib.UriText
import TinyOidc.Oidc.Authorize

/-! Redirect URIs as texts (`src/oidc/redirect-uri.ts`): what may be registered, what a request may
name, and the parameters that go back on it (`withQuery` of `src/oidc/interactions.ts`). -/
namespace TinyOidc.Oidc
open TinyOidc.Util UriText

/-! ### Registration -/

/-- `/^\d{1,3}(\.\d{1,3}){3}$/`, or in brackets. -/
def isIpLiteral (hostname : String) : Bool :=
  let groups := hostname.toList.splitOn '.'
  (groups.length == 4 &&
      groups.all fun g => 1 ≤ g.length && g.length ≤ 3 && g.all Char.isDigit) ||
    hostname.toList.head? == some '['

/-- `/^[a-z][a-z0-9+.-]*$/i`. -/
def isScheme (scheme : List Char) : Bool :=
  scheme.head?.any Char.isAlpha &&
    scheme.all fun c => c.isAlphanum || c == '+' || c == '.' || c == '-'

/-- The canonical form, of `https`, of the loopback interface or of a private-use scheme. -/
def isRegistrableRedirectUri (parse : UrlParser) (value : String) : Bool :=
  if value.toList.any fun c => c == '*' || c == '#' || isSpace c then false
  else
    match parse value with
    | none => false
    | some url =>
      if url.href ≠ value ∧ url.href ≠ value ++ "/" then false
      else if url.username ≠ "" ∨ url.password ≠ "" then false
      else if url.protocol = "https:" then url.hostname != "" && !isIpLiteral url.hostname
      else if url.protocol = "http:" then loopbackHosts.contains url.hostname
      else url.protocol.toList.dropLast.contains '.' && isScheme url.protocol.toList.dropLast

/-! ### Parameters on a URI -/

def upperHexDigit (n : ℕ) : Char := "0123456789ABCDEF".toList.getD n '0'

/-- A byte of a component, in `application/x-www-form-urlencoded`. -/
def formByte (b : UInt8) : List Char :=
  let c := Char.ofNat b.toNat
  if c = ' ' then ['+']
  else if c.isAlphanum || "*-._".toList.contains c then [c]
  else ['%', upperHexDigit (b.toNat / 16), upperHexDigit (b.toNat % 16)]

def formText (text : String) : List Char := text.toUTF8.toList.flatMap formByte

/-- `new URLSearchParams(params).toString()`. -/
def urlSearchParams (params : List (String × String)) : List Char :=
  ['&'].intercalate (params.map fun p => formText p.1 ++ '=' :: formText p.2)

def withQuery (url : String) (params : List (String × String)) : String :=
  String.ofList (url.toList ++
    (if url.toList.contains '?' then '&' else '?') :: urlSearchParams params)

/-- Where the browser goes after logout (`src/logout/rp-logout.ts`). -/
def postLogoutDestination (landingUrl : String) (registered state : Option String) : String :=
  match registered, state with
  | none, _ => landingUrl
  | some uri, none => uri
  | some uri, some state => withQuery uri [("state", state)]

theorem formByte_chars (b : UInt8) : '#' ∉ formByte b := by
  have hall : ∀ n : Fin 256, '#' ∉ formByte (UInt8.ofNat n) := by decide +kernel
  have hb := hall ⟨b.toNat, b.toNat_lt⟩
  rwa [UInt8.ofNat_toNat] at hb

theorem urlSearchParams_chars (params : List (String × String)) :
    '#' ∉ urlSearchParams params := by
  have htext : ∀ text, '#' ∉ formText text := by
    intro text hmem
    obtain ⟨b, -, hb⟩ := List.mem_flatMap.mp hmem
    exact formByte_chars b hb
  unfold urlSearchParams
  induction params with
  | nil => simp
  | cons p rest ih =>
    cases rest with
    | nil => simp [htext]
    | cons q rest =>
      rw [List.map_cons] at ih
      rw [List.map_cons, List.map_cons, List.intercalate_cons_cons]
      simp only [List.mem_append, List.mem_cons, not_or]
      exact ⟨⟨⟨htext p.1, by decide, htext p.2⟩, by decide⟩, ih⟩

/-- The URI with the parameters in its query, all else as it was. -/
def InQuery (url : String) (params : List (String × String)) (made : String) : Prop :=
  parts made.toList = { parts url.toList with
    query := some (addToQuery (urlSearchParams params) (parts url.toList).query) }

instance (url : String) (params : List (String × String)) (made : String) :
    Decidable (InQuery url params made) := inferInstanceAs (Decidable (_ = _))

/-- Without a fragment, the parameters go to the query. -/
theorem withQuery_inQuery {url : String} (h : '#' ∉ url.toList)
    (params : List (String × String)) : InQuery url params (withQuery url params) := by
  unfold InQuery
  rw [withQuery, String.toList_ofList]
  exact parts_append_query h (urlSearchParams_chars params)

/-! ### Loopback URIs -/

/-- What stands after a port, which may be absent, empty, or of any number of digits. -/
def afterPort : List Char → Option (List Char)
  | ':' :: rest =>
    if Nat.ofDigitChars 10 (rest.takeWhile Char.isDigit) 0 ≤ 65535 then
      some (rest.dropWhile Char.isDigit)
    else none
  | rest => some rest

def endsAuthority (tail : List Char) : Bool :=
  tail.head?.all fun c => c == '/' || c == '?' || c == '#'

def hostTail (host : String) (text : List Char) : Option (List Char) :=
  if ("http://" ++ host).toList.isPrefixOf text then
    (afterPort (text.drop ("http://" ++ host).toList.length)).filter endsAuthority
  else none

/-- The host of a loopback URI and what stands after its port. -/
def loopbackText (text : String) : Option (String × List Char) :=
  loopbackHosts.findSome? fun host => (hostTail host text.toList).map (host, ·)

/-- A port added, removed or replaced. -/
def differsInPort (registered requested : String) : Bool :=
  (loopbackText registered).isSome && loopbackText requested == loopbackText registered

/-- The path, the query and the fragment, where an omitted root slash, an empty query and an
empty fragment make no difference. -/
def components (tail : List Char) : List Char × List Char × List Char :=
  let p := parts (if tail.head? = some '/' then tail else '/' :: tail)
  (p.hier, p.query.getD [], p.fragment.getD [])

/-- The same but for the port, the root slash, and an empty query or fragment. -/
def agreesButPort (registered requested : String) : Bool :=
  match loopbackText registered, loopbackText requested with
  | some (host, tail), some (host', tail') =>
    host == host' && components tail == components tail'
  | _, _ => false

theorem agrees_of_differsInPort {registered requested : String}
    (h : differsInPort registered requested = true) :
    agreesButPort registered requested = true := by
  obtain ⟨hsome, heq⟩ := Bool.and_eq_true_iff.mp h
  obtain ⟨⟨host, tail⟩, hregistered⟩ := Option.isSome_iff_exists.mp hsome
  have hrequested : loopbackText requested = some (host, tail) := by
    rw [eq_of_beq heq, hregistered]
  unfold agreesButPort
  rw [hregistered, hrequested]
  simp

example : loopbackText "http://[::1]:080?x" = some ("[::1]", "?x".toList) := by decide

/-! ### What the parser gives -/

/-- The port as it is serialized. -/
def portText : Option ℕ → List Char
  | none => []
  | some n => ':' :: Nat.toDigits 10 n

/-- `search` and `hash`, which do not tell an empty component from an absent one. -/
def getter (c : Char) : Option (List Char) → String
  | none | some [] => ""
  | some text => String.ofList (c :: text)

/-- A parsed URL of the loopback interface, without credentials. -/
structure LoopbackUrl where
  host : String
  host_mem : host ∈ loopbackHosts
  port : Option ℕ
  port_le : ∀ n, port = some n → n ≤ 65535
  tail : Parts
  rooted : tail.hier.head? = some '/'
  delimited : tail.Delimited

namespace LoopbackUrl

def href (u : LoopbackUrl) : String :=
  String.ofList (("http://" ++ u.host).toList ++ (portText u.port ++ u.tail.text))

def url (u : LoopbackUrl) : Url where
  href := u.href
  origin := String.ofList (("http://" ++ u.host).toList ++ portText u.port)
  protocol := "http:"
  hostname := u.host
  username := ""
  password := ""
  pathname := String.ofList u.tail.hier
  search := getter '?' u.tail.query
  hash := getter '#' u.tail.fragment

end LoopbackUrl

/-- What the URL standard says of loopback URLs: they are records whose text is their `href`, and
the parser adds a slash at the end only where there is no path. -/
structure Standard (parse : UrlParser) : Prop where
  record : ∀ text url, parse text = some url → url.protocol = "http:" →
    url.hostname ∈ loopbackHosts → url.username = "" → url.password = "" →
    ∃ u : LoopbackUrl, url = u.url
  text : ∀ text url, parse text = some url → (loopbackText text).isSome = true →
    ∃ u : LoopbackUrl, url = u.url
  slash : ∀ text (u : LoopbackUrl), parse text = some u.url → u.href = text ++ "/" →
    u.tail = ⟨['/'], none, none⟩

section Texts
variable {u v : LoopbackUrl}

theorem afterPort_portText {port : Option ℕ} (hport : ∀ n, port = some n → n ≤ 65535)
    {tail : List Char} (htail : ∀ c, tail.head? = some c → c = '/' ) :
    afterPort (portText port ++ tail) = some tail := by
  cases port with
  | none =>
    cases tail with
    | nil => rfl
    | cons c rest =>
      have hc := htail c rfl
      subst hc
      rfl
  | some n =>
    have hdigits : ∀ c ∈ Nat.toDigits 10 n, c.isDigit = true := fun c hc =>
      Nat.isDigit_of_mem_toDigits (by omega) (by omega) hc
    have hstop : tail.takeWhile Char.isDigit = [] ∧ tail.dropWhile Char.isDigit = tail := by
      cases tail with
      | nil => exact ⟨rfl, rfl⟩
      | cons c rest =>
        have hc := htail c rfl
        subst hc
        exact ⟨rfl, rfl⟩
    show afterPort (':' :: (Nat.toDigits 10 n ++ tail)) = _
    rw [afterPort, List.takeWhile_append_of_pos hdigits, List.dropWhile_append_of_pos hdigits,
      hstop.1, hstop.2, List.append_nil, Nat.ofDigitChars_ten_toDigits, if_pos (hport n rfl)]

/-- A text of a host, a port and a tail is read as such. -/
theorem loopbackText_of {host : String} (hhost : host ∈ loopbackHosts) {port : Option ℕ}
    (hport : ∀ n, port = some n → n ≤ 65535) {tail : List Char}
    (htail : ∀ c, tail.head? = some c → c = '/') :
    loopbackText (String.ofList (("http://" ++ host).toList ++ (portText port ++ tail))) =
      some (host, tail) := by
  have hafter := afterPort_portText hport htail
  have hends : endsAuthority tail = true := by
    unfold endsAuthority
    cases hhead : tail.head? with
    | none => rfl
    | some c =>
      rw [htail c hhead]
      rfl
  have hhostTail : hostTail host (("http://" ++ host).toList ++ (portText port ++ tail)) =
      some tail := by
    unfold hostTail
    rw [if_pos (by simp), List.drop_left, hafter]
    simp [hends]
  unfold loopbackText
  rw [String.toList_ofList]
  simp only [loopbackHosts, List.mem_cons, List.not_mem_nil, or_false] at hhost
  rcases hhost with rfl | rfl
  · simp only [loopbackHosts, List.findSome?_cons, hhostTail]
    rfl
  · have hother : hostTail "127.0.0.1" (("http://" ++ "[::1]").toList ++
        (portText port ++ tail)) = none := by
      unfold hostTail
      rw [if_neg (by simp)]
    simp only [loopbackHosts, List.findSome?_cons, hhostTail, hother]
    rfl

theorem head_of_text (u : LoopbackUrl) : u.tail.text.head? = some '/' := by
  have hrooted := u.rooted
  unfold Parts.text
  cases hhier : u.tail.hier with
  | nil => simp [hhier] at hrooted
  | cons c rest =>
    rw [hhier] at hrooted
    simpa using hrooted

theorem loopbackText_href (u : LoopbackUrl) :
    loopbackText u.href = some (u.host, u.tail.text) := by
  apply loopbackText_of u.host_mem u.port_le
  intro c hc
  rw [head_of_text] at hc
  exact (Option.some.inj hc).symm

/-- The text of a URL without a path, before the slash that the parser adds. -/
theorem loopbackText_unslashed {text : String} (htail : u.tail = ⟨['/'], none, none⟩)
    (h : u.href = text ++ "/") : loopbackText text = some (u.host, []) := by
  have htext : text = String.ofList (("http://" ++ u.host).toList ++ (portText u.port ++ [])) := by
    apply String.toList_injective
    have hlist := congrArg String.toList h
    rw [LoopbackUrl.href, htail, String.toList_ofList, String.toList_append] at hlist
    have hsame : (("http://" ++ u.host).toList ++ portText u.port) ++ ['/'] =
        text.toList ++ ['/'] := by
      simpa [Parts.text, delimited] using hlist
    rw [String.toList_ofList, List.append_nil]
    exact (List.append_cancel_right hsame).symm
  rw [htext]
  exact loopbackText_of u.host_mem u.port_le (by simp)

theorem components_text (u : LoopbackUrl) : components u.tail.text =
    (u.tail.hier, u.tail.query.getD [], u.tail.fragment.getD []) := by
  unfold components
  rw [if_pos (head_of_text u), parts_text u.delimited]

theorem components_nil : components [] = (['/'], [], []) := by decide

theorem getter_eq_iff {c : Char} {a b : Option (List Char)} :
    getter c a = getter c b ↔ a.getD [] = b.getD [] := by
  have hread : ∀ o : Option (List Char), (getter c o).toList =
      if o.getD [] = [] then [] else c :: o.getD [] := by
    intro o
    match o with
    | none => rfl
    | some [] => rfl
    | some (x :: rest) => simp [getter]
  constructor
  · intro h
    have hlists := congrArg String.toList h
    rw [hread, hread] at hlists
    by_cases ha : a.getD [] = []
    · by_cases hb : b.getD [] = []
      · rw [ha, hb]
      · simp [ha, hb] at hlists
    · by_cases hb : b.getD [] = []
      · simp [ha, hb] at hlists
      · simpa [ha, hb] using hlists
  · intro h
    apply String.toList_injective
    rw [hread, hread, h]

/-- Two loopback URLs are the same except for the port, as the source compares them. -/
theorem sameExceptPort_iff {parse : UrlParser} {registered requested : String}
    (hu : parse registered = some u.url) (hv : parse requested = some v.url) :
    sameExceptPort parse registered requested = true ↔
      v.href = requested ∧ u.host = v.host ∧
        components u.tail.text = components v.tail.text := by
  have hpath : (String.ofList u.tail.hier = String.ofList v.tail.hier) ↔
      u.tail.hier = v.tail.hier := by
    constructor
    · intro h
      simpa using congrArg String.toList h
    · intro h
      rw [h]
  unfold sameExceptPort
  rw [hu, hv, components_text, components_text]
  simp only [LoopbackUrl.url, Bool.and_eq_true, beq_iff_eq, getter_eq_iff, hpath, Prod.mk.injEq]
  tauto

end Texts

/-- A registrable URI has no fragment, and is what the parser prints of it, but for the slash. -/
theorem registrable_ok {parse : UrlParser} {registered : String}
    (h : isRegistrableRedirectUri parse registered = true) :
    '#' ∉ registered.toList ∧ ∃ url, parse registered = some url ∧
      (url.href = registered ∨ url.href = registered ++ "/") ∧ url.username = "" ∧
        url.password = "" := by
  unfold isRegistrableRedirectUri at h
  split at h
  · cases h
  next hchars =>
    have hhash : '#' ∉ registered.toList := by
      intro hmem
      exact hchars (List.any_eq_true.mpr ⟨'#', hmem, by decide⟩)
    split at h
    · cases h
    next url hurl =>
      by_cases hcanonical : url.href ≠ registered ∧ url.href ≠ registered ++ "/"
      · rw [if_pos hcanonical] at h
        cases h
      · rw [if_neg hcanonical] at h
        by_cases hcredentials : url.username ≠ "" ∨ url.password ≠ ""
        · rw [if_pos hcredentials] at h
          cases h
        · push Not at hcredentials
          refine ⟨hhash, url, hurl, ?_, hcredentials⟩
          tauto

/-- The requested string is spelled as the parser prints it. -/
def isCanonical (parse : UrlParser) (requested : String) : Bool :=
  (parse requested).any (·.href == requested)

/-- A registered string, or a registered loopback URI on another port. -/
def Allowed (parse : UrlParser) (registered : List String) (requested : String) : Prop :=
  requested ∈ registered ∨ ∃ r ∈ registered, isLoopbackRedirectUri parse r = true ∧
    differsInPort r requested = true

/-- A string that is not registered names, when canonical, no loopback URI that differs in a root
slash or in an empty query or fragment, unless it names one that differs in the port only; and when
it is not canonical, none that differs in the port only. -/
def SpelledAsRegistered (parse : UrlParser) (registered : List String) (requested : String) :
    Prop :=
  requested ∈ registered ∨
    if isCanonical parse requested = true then
      registered.any (agreesButPort · requested) = true →
        registered.any (differsInPort · requested) = true
    else ¬ registered.any (differsInPort · requested) = true

theorem afterPort_mem {rest tail : List Char} (h : afterPort rest = some tail) :
    (∀ c ∈ tail, c ∈ rest) ∧ ('#' ∈ rest → '#' ∈ tail) := by
  unfold afterPort at h
  split at h
  · next digits =>
    obtain ⟨-, h⟩ := Option.ite_none_right_eq_some.mp h
    cases h
    constructor
    · intro c hc
      exact List.mem_cons_of_mem _ ((List.dropWhile_sublist _).subset hc)
    · intro hmem
      have hdigits : '#' ∈ digits := by simpa using hmem
      rw [← List.takeWhile_append_dropWhile (p := Char.isDigit) (l := digits)] at hdigits
      rcases List.mem_append.mp hdigits with hdigit | hrest
      · have hkept := List.mem_takeWhile_imp hdigit
        exact absurd hkept (by decide)
      · exact hrest
  · cases h
    exact ⟨fun _ hc => hc, id⟩

/-- The tail is of the text, and a fragment stands in it. -/
theorem loopbackText_mem {text host : String} {tail : List Char}
    (h : loopbackText text = some (host, tail)) :
    (∀ c ∈ tail, c ∈ text.toList) ∧ ('#' ∈ text.toList → '#' ∈ tail) := by
  obtain ⟨host', hhost', hfound⟩ := List.exists_of_findSome?_eq_some h
  obtain ⟨tail', htail, heq⟩ := Option.map_eq_some_iff.mp hfound
  cases heq
  unfold hostTail at htail
  obtain ⟨hbegins, htail⟩ := Option.ite_none_right_eq_some.mp htail
  obtain ⟨hafter, -⟩ := Option.filter_eq_some_iff.mp htail
  obtain ⟨rest, hrest⟩ := List.isPrefixOf_iff_prefix.mp hbegins
  rw [← hrest, List.drop_left] at hafter
  obtain ⟨hsub, hhash⟩ := afterPort_mem hafter
  rw [← hrest]
  constructor
  · intro c hc
    exact List.mem_append_right _ (hsub c hc)
  · intro hmem
    have hnone : ∀ host ∈ loopbackHosts, '#' ∉ ("http://" ++ host).toList := by decide
    rcases List.mem_append.mp hmem with hmem | hmem
    · exact absurd hmem (hnone _ hhost')
    · exact hhash hmem

theorem hash_of_allowed {parse : UrlParser} {registered : List String}
    (hregistrable : ∀ r ∈ registered, isRegistrableRedirectUri parse r = true)
    {requested : String} (h : Allowed parse registered requested) : '#' ∉ requested.toList := by
  rcases h with hmem | ⟨r, hr, -, hdiffers⟩
  · exact (registrable_ok (hregistrable requested hmem)).1
  · obtain ⟨hsome, heq⟩ := Bool.and_eq_true_iff.mp hdiffers
    obtain ⟨⟨host, tail⟩, htext⟩ := Option.isSome_iff_exists.mp hsome
    have hrequested : loopbackText requested = some (host, tail) := by
      rw [eq_of_beq heq, htext]
    intro hmem
    have htail := (loopbackText_mem hrequested).2 hmem
    exact (registrable_ok (hregistrable r hr)).1 ((loopbackText_mem htext).1 '#' htail)

section Matching
variable {parse : UrlParser} (hparse : Standard parse)
include hparse

/-- A registered URI that parses to a loopback URL is its text, but for the slash. -/
theorem registered_text {registered : String} {u : LoopbackUrl}
    (hregistrable : isRegistrableRedirectUri parse registered = true)
    (hu : parse registered = some u.url) :
    ∃ tail, loopbackText registered = some (u.host, tail) ∧
      components u.tail.text = components tail := by
  obtain ⟨-, url, hurl, hhref, -⟩ := registrable_ok hregistrable
  rw [hu] at hurl
  cases hurl
  rcases hhref with hhref | hhref
  · have hhref : u.href = registered := hhref
    refine ⟨u.tail.text, ?_, rfl⟩
    rw [← hhref]
    exact loopbackText_href u
  · have htail := hparse.slash registered u hu hhref
    refine ⟨[], loopbackText_unslashed htail hhref, ?_⟩
    rw [components_text, htail, components_nil]
    rfl

/-- For a registered URI, the loopback interface is read off its text. -/
theorem registered_loopback {registered : String}
    (hregistrable : isRegistrableRedirectUri parse registered = true) :
    (isLoopbackRedirectUri parse registered = true ↔
      (loopbackText registered).isSome = true) ∧
    ∀ host tail, loopbackText registered = some (host, tail) →
      ∃ u : LoopbackUrl, parse registered = some u.url ∧ u.host = host ∧
        components u.tail.text = components tail := by
  obtain ⟨-, url, hurl, -, husername, hpassword⟩ := registrable_ok hregistrable
  have hsome : ∀ host tail, loopbackText registered = some (host, tail) →
      ∃ u : LoopbackUrl, parse registered = some u.url ∧ u.host = host ∧
        components u.tail.text = components tail := by
    intro host tail htext
    obtain ⟨u, rfl⟩ := hparse.text registered url hurl (by rw [htext]; rfl)
    obtain ⟨tail', htext', hcomponents⟩ := registered_text hparse hregistrable hurl
    rw [htext] at htext'
    cases htext'
    exact ⟨u, hurl, rfl, hcomponents⟩
  refine ⟨?_, hsome⟩
  constructor
  · intro hloopback
    have hhost : url.protocol = "http:" ∧ url.hostname ∈ loopbackHosts := by
      simpa [isLoopbackRedirectUri, hurl] using hloopback
    obtain ⟨u, rfl⟩ := hparse.record registered url hurl hhost.1 hhost.2 husername hpassword
    obtain ⟨tail, htext, -⟩ := registered_text hparse hregistrable hurl
    rw [htext]
    rfl
  · intro htext
    obtain ⟨⟨host, tail⟩, htext⟩ := Option.isSome_iff_exists.mp htext
    obtain ⟨u, hu, -⟩ := hsome host tail htext
    simp [isLoopbackRedirectUri, hu, LoopbackUrl.url, u.host_mem]

/-- What the source accepts by the loopback exception. -/
theorem loopback_match_iff {registered requested : String}
    (hregistrable : isRegistrableRedirectUri parse registered = true) :
    (isLoopbackRedirectUri parse registered = true ∧
        sameExceptPort parse registered requested = true) ↔
      isCanonical parse requested = true ∧ agreesButPort registered requested = true := by
  obtain ⟨hloopback, hrecord⟩ := registered_loopback hparse hregistrable
  constructor
  · rintro ⟨htext, hsame⟩
    obtain ⟨⟨host, tail⟩, htext⟩ := Option.isSome_iff_exists.mp (hloopback.mp htext)
    obtain ⟨u, hu, rfl, hcomponents⟩ := hrecord host tail htext
    obtain ⟨b, hb⟩ : ∃ b, parse requested = some b := by
      unfold sameExceptPort at hsame
      split at hsame
      · next hb => exact ⟨_, hb⟩
      · cases hsame
    have hparts := hsame
    unfold sameExceptPort at hparts
    rw [hu, hb] at hparts
    simp only [LoopbackUrl.url, Bool.and_eq_true, beq_iff_eq] at hparts
    obtain ⟨⟨⟨⟨⟨⟨⟨-, hprotocol⟩, hhost⟩, husername⟩, hpassword⟩, -⟩, -⟩, -⟩ := hparts
    obtain ⟨v, rfl⟩ := hparse.record requested b hb hprotocol.symm (hhost ▸ u.host_mem)
      husername.symm hpassword.symm
    obtain ⟨hhref, hhosts, hagree⟩ := (sameExceptPort_iff hu hb).mp hsame
    have hrequested : loopbackText requested = some (v.host, v.tail.text) := by
      rw [← hhref]
      exact loopbackText_href v
    constructor
    · simp [isCanonical, hb, LoopbackUrl.url, hhref]
    · simp [agreesButPort, htext, hrequested, hhosts, ← hcomponents, hagree]
  · rintro ⟨hcanonical, hagree⟩
    unfold agreesButPort at hagree
    split at hagree
    · next host tail host' tail' htext hrequested =>
      simp only [Bool.and_eq_true, beq_iff_eq] at hagree
      obtain ⟨u, hu, rfl, hcomponents⟩ := hrecord host tail htext
      refine ⟨hloopback.mpr (by rw [htext]; rfl), ?_⟩
      obtain ⟨b, hb, hhref⟩ : ∃ b, parse requested = some b ∧ b.href = requested := by
        unfold isCanonical at hcanonical
        cases hb : parse requested with
        | none =>
          rw [hb] at hcanonical
          cases hcanonical
        | some b =>
          rw [hb] at hcanonical
          exact ⟨b, rfl, eq_of_beq hcanonical⟩
      obtain ⟨v, rfl⟩ := hparse.text requested b hb (by rw [hrequested]; rfl)
      have hv : loopbackText requested = some (v.host, v.tail.text) := by
        have hhref : v.href = requested := hhref
        rw [← hhref]
        exact loopbackText_href v
      rw [hrequested] at hv
      cases hv
      apply (sameExceptPort_iff hu hb).mpr
      exact ⟨hhref, hagree.1, hcomponents.trans hagree.2⟩
    · cases hagree

/-- What the source accepts. -/
theorem matchRedirectUri_iff {registered : List String}
    (hregistrable : ∀ r ∈ registered, isRegistrableRedirectUri parse r = true)
    (requested : String) :
    (matchRedirectUri parse registered requested).isSome = true ↔
      requested ∈ registered ∨ isCanonical parse requested = true ∧
        registered.any (agreesButPort · requested) = true := by
  unfold matchRedirectUri
  rw [List.find?_isSome]
  constructor
  · rintro ⟨r, hr, hmatch⟩
    rcases Bool.or_eq_true_iff.mp hmatch with heq | hloopback
    · exact .inl (eq_of_beq heq ▸ hr)
    · have hboth := (loopback_match_iff hparse (hregistrable r hr)).mp
        (Bool.and_eq_true_iff.mp hloopback)
      exact .inr ⟨hboth.1, List.any_eq_true.mpr ⟨r, hr, hboth.2⟩⟩
  · intro haccepted
    rcases haccepted with hmem | ⟨hcanonical, hany⟩
    · exact ⟨requested, hmem, by simp⟩
    · obtain ⟨r, hr, hagree⟩ := List.any_eq_true.mp hany
      have hboth := (loopback_match_iff hparse (hregistrable r hr)).mpr ⟨hcanonical, hagree⟩
      exact ⟨r, hr, by simp [hboth.1, hboth.2]⟩

theorem allowed_iff {registered : List String}
    (hregistrable : ∀ r ∈ registered, isRegistrableRedirectUri parse r = true)
    (requested : String) :
    Allowed parse registered requested ↔
      requested ∈ registered ∨ registered.any (differsInPort · requested) = true := by
  unfold Allowed
  rw [List.any_eq_true]
  apply or_congr_right
  constructor
  · rintro ⟨r, hr, -, hdiffers⟩
    exact ⟨r, hr, hdiffers⟩
  · rintro ⟨r, hr, hdiffers⟩
    obtain ⟨hloopback, -⟩ := registered_loopback hparse (hregistrable r hr)
    exact ⟨r, hr, hloopback.mpr (Bool.and_eq_true_iff.mp hdiffers).1, hdiffers⟩

/-- The source accepts exactly what it is to accept, and parameters then go to the query, exactly
when the request is spelled as registered. -/
theorem redirect_uri_matching {registered : List String}
    (hregistrable : ∀ r ∈ registered, isRegistrableRedirectUri parse r = true)
    (requested : String) :
    (((matchRedirectUri parse registered requested).isSome = true ↔
        Allowed parse registered requested) ∧
      ((matchRedirectUri parse registered requested).isSome = true →
        ∀ params, InQuery requested params (withQuery requested params))) ↔
      SpelledAsRegistered parse registered requested := by
  have haccepts := matchRedirectUri_iff hparse hregistrable requested
  have hallowed := allowed_iff hparse hregistrable requested
  have hquery : Allowed parse registered requested →
      ∀ params, InQuery requested params (withQuery requested params) := by
    intro hallowed params
    exact withQuery_inQuery (hash_of_allowed hregistrable hallowed) params
  have hwider : registered.any (differsInPort · requested) = true →
      registered.any (agreesButPort · requested) = true := by
    intro hany
    obtain ⟨r, hr, hdiffers⟩ := List.any_eq_true.mp hany
    exact List.any_eq_true.mpr ⟨r, hr, agrees_of_differsInPort hdiffers⟩
  unfold SpelledAsRegistered
  by_cases hmem : requested ∈ registered
  · simp only [hmem, true_or, iff_true] at haccepts hallowed ⊢
    exact ⟨by simp [haccepts, hallowed], fun _ => hquery hallowed⟩
  · simp only [hmem, false_or] at haccepts hallowed ⊢
    rw [haccepts, hallowed]
    by_cases hcanonical : isCanonical parse requested = true
    · simp only [hcanonical, true_and, if_true]
      constructor
      · intro hboth
        exact hboth.1.mp
      · intro himplies
        refine ⟨⟨himplies, hwider⟩, fun hany => hquery (hallowed.mpr (himplies hany))⟩
    · simp [hcanonical]

end Matching

/-! ### A request with an empty fragment -/

namespace Sample

def callback (port : Option ℕ) (hport : ∀ n, port = some n → n ≤ 65535)
    (fragment : Option (List Char)) : LoopbackUrl where
  host := "127.0.0.1"
  host_mem := by decide
  port := port
  port_le := hport
  tail := ⟨"/cb".toList, none, fragment⟩
  rooted := by
    show "/cb".toList.head? = some '/'
    decide
  delimited := by
    constructor
    · show '?' ∉ "/cb".toList ∧ '#' ∉ "/cb".toList
      decide
    · simp

def plainCallback : LoopbackUrl := callback none (by simp) none

def portCallback : LoopbackUrl := callback (some 9) (by simp) none

def fragmentCallback : LoopbackUrl := callback (some 9) (by simp) (some [])

/-- The parser on the three URIs. -/
def callbackParser : UrlParser := fun text =>
  if text = plainCallback.href then some plainCallback.url
  else if text = portCallback.href then some portCallback.url
  else if text = fragmentCallback.href then some fragmentCallback.url
  else none

theorem callbackParser_standard : Standard callbackParser := by
  have hknown : ∀ text url, callbackParser text = some url →
      ∃ u ∈ [plainCallback, portCallback, fragmentCallback], url = u.url ∧ text = u.href := by
    intro text url hparsed
    unfold callbackParser at hparsed
    split at hparsed
    · next heq =>
      cases hparsed
      exact ⟨plainCallback, by simp, rfl, heq⟩
    · split at hparsed
      · next heq =>
        cases hparsed
        exact ⟨portCallback, by simp, rfl, heq⟩
      · obtain ⟨heq, hparsed⟩ := Option.ite_none_right_eq_some.mp hparsed
        cases hparsed
        exact ⟨fragmentCallback, by simp, rfl, heq⟩
  constructor
  · intro text url hparsed _ _ _ _
    obtain ⟨u, -, hurl, -⟩ := hknown text url hparsed
    exact ⟨u, hurl⟩
  · intro text url hparsed _
    obtain ⟨u, -, hurl, -⟩ := hknown text url hparsed
    exact ⟨u, hurl⟩
  · intro text u hparsed hslash
    obtain ⟨v, -, hurl, htext⟩ := hknown text u.url hparsed
    have hhref : u.href = v.href := congrArg Url.href hurl
    have hlengths := congrArg String.length hslash
    rw [htext, hhref, String.length_append] at hlengths
    simp at hlengths

end Sample

theorem redirect_uri_matching_sample :
    ((matchRedirectUri Sample.callbackParser ["http://127.0.0.1/cb"]
        "http://127.0.0.1:9/cb").isSome = true ↔
      Allowed Sample.callbackParser ["http://127.0.0.1/cb"] "http://127.0.0.1:9/cb") ∧
    ((matchRedirectUri Sample.callbackParser ["http://127.0.0.1/cb"]
        "http://127.0.0.1:9/cb").isSome = true →
      ∀ params, InQuery "http://127.0.0.1:9/cb" params
        (withQuery "http://127.0.0.1:9/cb" params)) :=
  (redirect_uri_matching Sample.callbackParser_standard (by decide +kernel)
    "http://127.0.0.1:9/cb").mpr (.inr (by decide +kernel))

/-- A fragment that the registered URI does not have is let through, for its `hash` is empty; the
code and the state then go to the fragment. -/
theorem empty_fragment_matches :
    ¬ ∀ (parse : UrlParser), Standard parse → ∀ (registered : List String),
      (∀ r ∈ registered, isRegistrableRedirectUri parse r = true) → ∀ requested : String,
      ((matchRedirectUri parse registered requested).isSome = true ↔
        Allowed parse registered requested) ∧
      ((matchRedirectUri parse registered requested).isSome = true →
        ∀ params, InQuery requested params (withQuery requested params)) := by
  intro hall
  have hmatch := (hall Sample.callbackParser Sample.callbackParser_standard
    ["http://127.0.0.1/cb"] (by decide +kernel) "http://127.0.0.1:9/cb#").2 (by decide +kernel)
    [("code", "c1")]
  exact absurd hmatch (by decide +kernel)

end TinyOidc.Oidc
