import TinyOidc.Audit.Catalog
import TinyOidc.Lib.Patterns
import TinyOidc.Util.Text

/-! Redaction of audit payloads (`src/audit/redact.ts`), and `maskEmail` of `src/users/email.ts`. -/
namespace TinyOidc.Audit
open JsonValues
open Patterns (Regex)
open Patterns.Regex (letter seq star anywhere atLeast between times sequence oneOf word)

def redacted : Text := ascii "[redacted]"

/-- Keys whose values are secrets by name, wherever they appear. -/
def secretKeys : List Text :=
  ["token", "tokens", "access_token", "refresh_token", "id_token", "logout_token", "code",
    "secret", "client_secret", "secret_hash", "hash", "challenge", "password", "response",
    "assertion", "client_assertion", "private_jwk", "private_key", "cookie", "authorization",
    "state", "nonce", "code_verifier", "user_agent", "ip", "error_description"].map ascii

def isSecretKey (key : Text) : Bool := secretKeys.contains key

/-! ### The patterns -/

def inRange (first last : Char) (u : UInt16) : Bool :=
  first.toNat ≤ u.toNat && u.toNat ≤ last.toNat

def isUnit (c : Char) (u : UInt16) : Bool := u.toNat == c.toNat

/-- `[a-z]` -/
def isLower : UInt16 → Bool := inRange 'a' 'z'

/-- `\d` -/
def isDigit : UInt16 → Bool := inRange '0' '9'

/-- `[A-Za-z0-9_-]` -/
def isOpaque (u : UInt16) : Bool :=
  inRange 'A' 'Z' u || isLower u || isDigit u || isUnit '_' u || isUnit '-' u

/-- `[0-9a-f]` under the `i` flag. -/
def isHex (u : UInt16) : Bool := isDigit u || inRange 'a' 'f' u || inRange 'A' 'F' u

/-- `\s` -/
def isSpace (u : UInt16) : Bool := Util.isSpaceCode u.toNat

/-- `.`: no line terminator. -/
def isDot (u : UInt16) : Bool := u != 10 && u != 13 && u != 0x2028 && u != 0x2029

/-- `[^\s@]` -/
def isAddress (u : UInt16) : Bool := !isSpace u && !isUnit '@' u

abbrev Pattern := Regex UInt16

def unit (c : Char) : Pattern := letter (isUnit c)

/-- `/tio_[a-z]{2}_/` -/
def handle : Pattern := sequence [word (ascii "tio_"), times (letter isLower) 2, unit '_']

/-- `/^[A-Za-z0-9_-]{8,}\.[A-Za-z0-9_-]{8,}\.[A-Za-z0-9_-]*$/` -/
def jwt : Pattern :=
  sequence [atLeast 8 (letter isOpaque), unit '.', atLeast 8 (letter isOpaque), unit '.',
    star (letter isOpaque)]

/-- `/^[0-9a-f]{8}-[0-9a-f]{4}-[0-9a-f]{4}-[0-9a-f]{4}-[0-9a-f]{12}$/i` -/
def uuid : Pattern :=
  sequence [times (letter isHex) 8, unit '-', times (letter isHex) 4, unit '-',
    times (letter isHex) 4, unit '-', times (letter isHex) 4, unit '-', times (letter isHex) 12]

/-- `/^[A-Za-z0-9_-]{32,}$/` -/
def opaqueText : Pattern := atLeast 32 (letter isOpaque)

/-- `/^(?:\d{1,3}\.){3}\d{1,3}$/` -/
def ipv4 : Pattern :=
  seq (times (seq (between 1 3 (letter isDigit)) (unit '.')) 3) (between 1 3 (letter isDigit))

/-- `(?=.*[0-9a-f])` of `IPV6`, and anything behind. -/
def ipv6Lookahead : Pattern :=
  sequence [star (letter isDot), letter isHex, star Regex.any]

/-- `[0-9a-f]*(?::[0-9a-f]*){2,7}` of `IPV6`. -/
def ipv6Body : Pattern :=
  seq (star (letter isHex)) (between 2 7 (seq (unit ':') (star (letter isHex))))

/-- `/Mozilla\/|AppleWebKit|Chrome\/|Safari\/|Firefox\//` -/
def userAgent : Pattern :=
  oneOf (["Mozilla/", "AppleWebKit", "Chrome/", "Safari/", "Firefox/"].map fun s => word (ascii s))

/-- `/^[^\s@]+@[^\s@]+\.[^\s@]+$/` -/
def email : Pattern :=
  sequence [atLeast 1 (letter isAddress), unit '@', atLeast 1 (letter isAddress), unit '.',
    atLeast 1 (letter isAddress)]

def isHandle (value : Text) : Bool := handle.anywhere.accepts value

def isJwt (value : Text) : Bool := jwt.accepts value

def isUserAgent (value : Text) : Bool := userAgent.anywhere.accepts value

/-- A bare opaque string is a secret whatever its key. -/
def isOpaqueSecret (value : Text) : Bool := !uuid.accepts value && opaqueText.accepts value

def isIpv4 (value : Text) : Bool := ipv4.accepts value

def isIpv6 (value : Text) : Bool := ipv6Lookahead.accepts value && ipv6Body.accepts value

def isEmail (value : Text) : Bool := email.accepts value

/-! ### Masking -/

/-- `lastIndexOf`, and `none` for -1. -/
def lastIndexOf (u : UInt16) : Text → Option ℕ
  | [] => none
  | v :: rest =>
    match lastIndexOf u rest with
    | some i => some (i + 1)
    | none => if v = u then some 0 else none

def atSign : UInt16 := 0x40

/-- The first character of the local part, `***`, and the full domain. -/
def maskEmail (email : Text) : Text :=
  match lastIndexOf atSign email with
  | none | some 0 => ascii "***"
  | some i => email.take 1 ++ ascii "***" ++ email.drop i

/-! ### Scrubbing -/

def scrubString (value : Text) : Text :=
  if isHandle value || isJwt value || isUserAgent value then redacted
  else if isOpaqueSecret value then redacted
  else if isIpv4 value || isIpv6 value then redacted
  else if isEmail value then maskEmail value
  else value

mutual

def scrub : Json → Json
  | .string text => .string (scrubString text)
  | .array items => .array (scrubItems items)
  | .object entries => .object (scrubEntries [] entries)
  | .null => .null
  | .bool value => .bool value
  | .number text => .number text

def scrubItems : List Json → List Json
  | [] => []
  | item :: items => scrub item :: scrubItems items

/-- The entries, assigned one after another. -/
def scrubEntries (out : List Entry) : List Entry → List Entry
  | [] => out
  | (key, value) :: entries =>
      scrubEntries (assign out key (if isSecretKey key then .string redacted else scrub value))
        entries

end

/-- A `reason` is a machine-readable word; anything that looks like more is replaced. -/
def redactReason (reason : Option Text) : Option Text := reason.map scrubString

end TinyOidc.Audit
