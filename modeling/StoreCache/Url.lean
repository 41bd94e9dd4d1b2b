import StoreCache.Url.Host
import StoreCache.Url.Path

/-!
# URLs

The address of a service is an absolute `http` or `https` URL. Reading one is lenient: blanks around
it and tabs and line ends inside are dropped, a backslash is a slash, the slashes before the host
may be more or fewer than two, and name and password are skipped. **What is read has one written
form**, so two URLs are the same address exactly when they render alike.

URLs of other schemes are not kept, but they are still checked, because a fault in one is reported
before its scheme is.
-/

namespace StoreCache

/-- An absolute URL of a service. -/
structure Url where
  /-- Whether the scheme is `https`. -/
  secure : Bool
  host : Url.Host
  /-- The port, if it is not the one of the scheme. -/
  port : Option Nat
  path : Url.Path
  /-- The query in its encoded form. -/
  query : Option String
  /-- The fragment in its encoded form. -/
  fragment : Option String
  deriving DecidableEq, Repr

namespace Url

/-! ### Schemes -/

/-- How the text behind a scheme is read. -/
inductive Scheme
  /-- A scheme of services. -/
  | http (secure : Bool)
  /-- Another scheme that calls for a host. -/
  | hosted
  /-- The scheme of local files, which may name a host. -/
  | file
  /-- A scheme with rules of its own. -/
  | other
  deriving DecidableEq, Repr

/-- The scheme with a name in lower case. -/
def Scheme.ofName (name : String) : Scheme :=
  if name = "http" then .http false
  else if name = "https" then .http true
  else if ["ws", "wss", "ftp"].contains name then .hosted
  else if name = "file" then .file
  else .other

/-- The port of a service scheme. -/
def defaultPort (secure : Bool) : Nat := if secure then 443 else 80

/-- Whether a character may stand in a scheme behind its first letter. -/
def isSchemeChar (c : Char) : Bool := c.isAlphanum || c = '+' || c = '-' || c = '.'

/-- Cut off the scheme and the colon behind it. -/
def scheme? (s : List Char) : Option (Scheme × List Char) :=
  let name := s.takeWhile isSchemeChar
  match s.drop name.length with
  | ':' :: rest =>
    if name.head?.any Char.isAlpha then
      some (Scheme.ofName (String.ofList (name.map Char.toLower)), rest)
    else none
  | _ => none

/-! ### Host and port -/

/-- Whether a character ends the part of a URL that names the host; a backslash does where it is a
slash. -/
def endsAuthority (backslash : Bool) (c : Char) : Bool :=
  c = '/' || c = '?' || c = '#' || (backslash && c = '\\')

/-- Drop the name and the password, up to the last sign that ends them. -/
def withoutCredentials (authority : List Char) : List Char :=
  (authority.reverse.takeWhile (· ≠ '@')).reverse

/-- Cut a host from the port behind it; a colon in brackets belongs to the host. -/
def cutHost (inBrackets : Bool) : List Char → List Char × List Char
  | [] => ([], [])
  | c :: rest =>
    if c = ':' ∧ !inBrackets then ([], c :: rest)
    else
      let inBrackets := if c = '[' then true else if c = ']' then false else inBrackets
      let (host, port) := cutHost inBrackets rest
      (c :: host, port)

/-- Read the port behind a host; nothing behind the colon is no port. -/
def port? : List Char → Except Fault (Option Nat)
  | [] | [':'] => .ok none
  | _ :: digits =>
    match natOfDigits? 10 digits with
    | some n => if n < UInt16.size then .ok (some n) else .error .badPort
    | none => .error .badPort

/-- Cut off what names the host. -/
def cutAuthority (backslash : Bool) (s : List Char) : List Char × List Char :=
  (s.takeWhile (!endsAuthority backslash ·), s.dropWhile (!endsAuthority backslash ·))

/-- Read host and port of a scheme with domain names. -/
def authority? (authority : List Char) : Except Fault (Host × Option Nat) := do
  let (host, port) := cutHost false (withoutCredentials authority)
  if host.isEmpty then throw .emptyHost
  let host ← Host.ofText? host
  let port ← port? port
  return (host, port)

/-- Check name, password, host and port of a scheme without domain names. The host may be empty, but
then neither a name nor a port may stand beside it; `last` says that nothing follows. -/
def checkAuthority (authority : List Char) (last : Bool) : Except Fault Unit := do
  let named := withoutCredentials authority
  let credentials := authority.take (authority.length - named.length - 1)
  if authority.head? = some '@' ∧ authority.length = 1 ∧ !last then throw .emptyHost
  let (host, port) := cutHost false named
  Host.check host
  if host.isEmpty ∧ !port.isEmpty then throw .emptyHost
  discard (port? (port.takeWhile (· ≠ '\\')))
  if host.isEmpty ∧ !credentials.isEmpty ∧ credentials ≠ [':'] then throw .emptyHost

/-- Check the host of a file; a drive in its place is none. -/
def checkFile (s : List Char) : Except Fault Unit :=
  match s with
  | a :: b :: rest =>
    if Path.isSeparator a ∧ Path.isSeparator b then
      let host := (cutAuthority true rest).1
      if host.isEmpty ∨ isDrive (String.ofList host) then .ok ()
      else discard (Host.ofText? host)
    else .ok ()
  | _ => .ok ()

/-! ### Reading -/

/-- Cut off the part behind the first occurrence of a character. -/
def cutAt (mark : Char) (s : List Char) : List Char × Option (List Char) :=
  (s.takeWhile (· ≠ mark), (s.dropWhile (· ≠ mark)).tail?)

/-- Read what follows the scheme of a service. -/
def ofHttp? (secure : Bool) (s : List Char) : Except Fault Url := do
  let (authority, rest) := cutAuthority true (s.dropWhile Path.isSeparator)
  let (host, port) ← authority? authority
  let (rest, fragment) := cutAt '#' rest
  let (path, query) := cutAt '?' rest
  return {
    secure, host
    port := port.filter (· ≠ defaultPort secure)
    path := Path.ofText path
    query := query.map fun q ↦ String.ofList (encode isQueryChar q)
    fragment := fragment.map fun f ↦ String.ofList (encode isFragmentChar f) }

/-- Check what follows another scheme. -/
def checkOther (scheme : Scheme) (s : List Char) : Except Fault Unit :=
  match scheme with
  | .http _ | .hosted =>
    discard (authority? (cutAuthority true (s.dropWhile Path.isSeparator)).1)
  | .file => checkFile s
  | .other =>
    match s with
    | '/' :: '/' :: rest =>
      let (authority, rest) := cutAuthority false rest
      checkAuthority authority rest.isEmpty
    | _ => .ok ()

/-- Drop the controls and blanks around a URL, and the tabs and line ends inside it. -/
def clean (s : List Char) : List Char :=
  let isOuter (c : Char) : Bool := c ≤ ' '
  (((s.dropWhile isOuter).reverse.dropWhile isOuter).reverse).filter (!isDropped ·)

/-- Read the URL of a service. -/
def parse? (text : String) : Except Fault Url :=
  match scheme? (clean text.toList) with
  | none => .error .relative
  | some (.http secure, rest) => ofHttp? secure rest
  | some (scheme, rest) => do
    checkOther scheme rest
    throw .otherScheme

/-! ### Writing -/

/-- Write a URL. -/
def render (u : Url) : String :=
  (if u.secure then "https://" else "http://") ++ u.host.render ++
    (match u.port with
      | some n => ":" ++ toString n
      | none => "") ++
    u.path.render ++
    (match u.query with
      | some q => "?" ++ q
      | none => "") ++
    (match u.fragment with
      | some f => "#" ++ f
      | none => "")

/-! ### Building on a URL -/

/-- The URL of a place below this one, by the names on the way. -/
def below (u : Url) (names : List String) : Url :=
  { u with path := names.foldl Path.append u.path.withoutTrailingSlash }

/-- Add a name with a value to the query. -/
def withParameter (u : Url) (name value : String) : Url :=
  let parameter := String.ofList (encodeForm name.toList ++ ['='] ++ encodeForm value.toList)
  let query := match u.query with
    | none | some "" => parameter
    | some q => q ++ "&" ++ parameter
  { u with query := some query }

end Url

end StoreCache
