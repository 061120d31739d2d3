import SearchFilter.Connection.Address
import SearchFilter.Connection.Ip
import SearchFilter.Text.Letter
import SearchFilter.Text.Percent

/-!
# Addresses of PostgreSQL databases

An address is a URL: a scheme and a colon; behind two slashes, if they are there, a user, a host and
a port; a path; and parameters behind a question mark. It is checked part by part, first the URL as
such and then what its parts say.
-/

namespace SearchFilter.Connection

/-- The characters of a URL: without spaces and control characters around it, and without tabs and
line ends in it. -/
def urlCharacters (s : String) : List Char :=
  let isOuter := fun (c : Char) => c.toNat ≤ 0x20
  (((s.toList.dropWhile isOuter).reverse.dropWhile isOuter).reverse).filter fun c =>
    c ≠ '\t' ∧ c ≠ '\n' ∧ c ≠ '\r'

/-- The scheme in front of a colon, and what stands behind that. -/
def readScheme : List Char → Except AddressFault (List Char × List Char)
  | [] => .error .noScheme
  | c :: rest =>
    if c.isAlpha then
      match rest.dropWhile continuesScheme with
      | ':' :: after => .ok (c :: rest.takeWhile continuesScheme, after)
      | _ => .error .noScheme
    else .error .noScheme
where
  continuesScheme (c : Char) : Bool := c.isAlphanum || c = '+' || c = '-' || c = '.'

def endsAuthority (c : Char) : Bool := c = '/' || c = '?' || c = '#'

/-- Who is to be connected, and where. -/
structure Authority where
  user : List Char
  password : List Char
  host : List Char
deriving DecidableEq, Repr

/-- What stands before the last at sign, and what stands behind it. -/
def cutAtLast (cs : List Char) : Option (List Char) × List Char :=
  match Text.cutAt '@' cs.reverse with
  | (host, some user) => (some user.reverse, host.reverse)
  | (_, none) => (none, cs)

/-- The host, up to a colon that is not between brackets, and what stands behind it. -/
def cutHost : (inBrackets : Bool) → List Char → List Char × List Char
  | _, [] => ([], [])
  | inBrackets, c :: rest =>
    if c = ':' ∧ inBrackets = false then ([], c :: rest)
    else
      let (host, after) := cutHost (if c = '[' then true else if c = ']' then false else inBrackets)
        rest
      (c :: host, after)

/-- The characters that no host may have. -/
def hostForbids (c : Char) : Bool := c.toNat = 0 || c ∈ " #/:<>?@[\\]^|".toList

def checkHost (host : List Char) : Except AddressFault Unit :=
  match host with
  | '[' :: rest =>
    if rest.getLast? = some ']' ∧ isIpv6 rest.dropLast then .ok () else .error .badIpv6
  | _ => if host.any hostForbids then .error .badHostCharacter else .ok ()

def checkPort (port : List Char) : Except AddressFault Unit :=
  let digits := port.takeWhile Char.isDigit
  match Numeric.readDigits (UInt16.size - 1) 0 digits, port.dropWhile Char.isDigit with
  | .ok _, [] | .ok _, '\\' :: _ => .ok ()
  | _, _ => .error .badPort

/-- Reads what stands between two slashes and the path; `isLast` when nothing stands behind it. -/
def Authority.read (isLast : Bool) (cs : List Char) : Except AddressFault Authority := do
  let (login, place) := cutAtLast cs
  if login = some [] ∧ place = [] ∧ isLast = false then throw .emptyHost
  let (user, password) := Text.cutAt ':' (login.getD [])
  let password := password.getD []
  let (host, after) := cutHost false place
  checkHost host
  match after with
  | [] => pure ()
  | _ :: port =>
    if host = [] then throw .emptyHost
    checkPort port
  if host = [] ∧ (user ≠ [] ∨ password ≠ []) then throw .emptyHost
  return { user, password, host }

/-- The parts of a URL that say something about a database. -/
structure Url where
  authority : Authority
  path : List Char
  query : List Char
deriving DecidableEq, Repr

def Url.read (s : String) : Except AddressFault Url := do
  let (_, rest) ← readScheme (urlCharacters s)
  let (authority, rest) ←
    match rest with
    | '/' :: '/' :: rest => do
      let after := rest.dropWhile (! endsAuthority ·)
      let authority ← Authority.read after.isEmpty (rest.takeWhile (! endsAuthority ·))
      pure (authority, after)
    | rest => pure (⟨[], [], []⟩, rest)
  let (path, query) := Text.cutAt '?' (Text.cutAt '#' rest).1
  return { authority, path, query := query.getD [] }

/-- Checks that what is percent-encoded is text. -/
def checkEncoded (cs : List Char) : Except AddressFault Unit :=
  match Text.decodeBytes (Text.percentDecode cs) with
  | .ok _ => .ok ()
  | .error fault => .error (.bytes fault)

def sslModes : List String := ["disable", "allow", "prefer", "require", "verify-ca", "verify-full"]

def checkNumber (max : Nat) (value : String) : Except AddressFault Unit :=
  match Numeric.readUnsigned max value with
  | .ok _ => .ok ()
  | .error fault => .error (.number fault)

def checkParameter (parameter : String × String) : Except AddressFault Unit :=
  let (name, value) := parameter
  if name = "sslmode" ∨ name = "ssl-mode" then
    if sslModes.any fun mode => Text.SameFolded value mode then .ok () else .error (.sslMode value)
  else if name = "statement-cache-capacity" then checkNumber (UInt64.size - 1) value
  else if name = "port" then checkNumber (UInt16.size - 1) value
  else if name = "hostaddr" then
    if isIpv4 value.toList || isIpv6 value.toList then .ok () else .error .badIp
  else .ok ()

def checkPostgresAddress (url : String) : Except AddressFault Unit := do
  let u ← Url.read url
  let a := u.authority
  if (Text.percentDecode a.host).head? = some '/'.toNat then checkEncoded a.host
  checkEncoded a.user
  checkEncoded a.password
  checkEncoded (u.path.dropWhile (· = '/'))
  (Text.formPairs u.query).forM checkParameter

end SearchFilter.Connection
