import Telemetry.Url.Host
/-!
# Addresses

An address is a scheme, a host, a path and a query. Blanks at its ends and line breaks anywhere in
it are dropped, and a path is kept without dot segments and percent-encoded. Some schemes are known
to name hosts; for these a backslash is as good as a slash and there is always a path.

## Main definitions

* `Telemetry.Url`, `Telemetry.Url.parse`
* `Telemetry.Url.extend`: the address with names added to its path.
* `Telemetry.Url.target`: what a request for the address asks for.
-/

namespace Telemetry

/-- An address that names lie under. The path is the encoded names behind its slashes. -/
structure Url where
  scheme : String
  host : String
  /-- The number behind the host. -/
  socket : Option Nat
  path : List String
  query : Option String
  deriving DecidableEq, Repr

namespace Url

/-! ### What is encoded where -/

/-- What is encoded in the path of an address. -/
def reservedInPath : List Char := " \"<>`#?\x7b\x7d".toList

/-- What is encoded in a name that is added to a path. -/
def reservedInName (known : Bool) : List Char :=
  reservedInPath ++ ['/', '%'] ++ (if known then ['\\'] else [])

/-- What is encoded in a query. -/
def reservedInQuery (known : Bool) : List Char :=
  " \"#<>".toList ++ (if known then ['\''] else [])

/-! ### Schemes -/

/-- The schemes that are known to name hosts. -/
def isKnown (scheme : String) : Bool :=
  ["http", "https", "ws", "wss", "ftp", "file"].contains scheme

/-- May the character stand in a scheme behind the first one? -/
def isSchemeChar (c : Char) : Bool := c.isAlphanum || c = '+' || c = '-' || c = '.'

/-- The scheme of an address in lower case, and what comes behind its colon. -/
def splitScheme (cs : List Char) : Option (String × List Char) :=
  match cs.head?.any Char.isAlpha, cs.dropWhile isSchemeChar with
  | true, ':' :: rest => some (String.ofList ((cs.takeWhile isSchemeChar).map Char.toLower), rest)
  | _, _ => none

/-! ### Paths -/

/-- Is a name the directory it stands in? -/
def isHere (name : String) : Bool := [".", "%2e", "%2E"].contains name

/-- Is a name the directory above? -/
def isAbove (name : String) : Bool :=
  ["..", ".%2e", ".%2E", "%2e.", "%2E.", "%2e%2e", "%2e%2E", "%2E%2e", "%2E%2E"].contains name

/-- Resolves the dot segments of a path; `above` are the names so far, last one first. -/
def resolve (above : List String) : List String → List String
  | [] => above.reverse
  | [n] =>
    if isAbove n then (("" :: above.tail).reverse)
    else if isHere n then ("" :: above).reverse
    else (n :: above).reverse
  | n :: ns =>
    if isAbove n then resolve above.tail ns
    else if isHere n then resolve above ns
    else resolve (n :: above) ns

/-- The names of a path. -/
def names (known : Bool) (cs : List Char) : List String :=
  let cs := if known then cs.map fun c => if c = '\\' then '/' else c else cs
  let cs := match cs with
    | '/' :: rest => rest
    | _ => cs
  resolve [] ((Text.splitChars '/' cs).map (Percent.encode reservedInPath))

/-- The path and the query at the end of an address. -/
def pathAndQuery (known : Bool) (cs : List Char) : List String × Option String :=
  let path := cs.takeWhile fun c => c ≠ '?' && c ≠ '#'
  let query := match cs.dropWhile fun c => c ≠ '?' && c ≠ '#' with
    | '?' :: rest => some (Percent.encode (reservedInQuery known) (rest.takeWhile (· ≠ '#')))
    | _ => none
  (if path.isEmpty && !known then [] else names known path, query)

/-! ### Authorities -/

/-- Does the character end a host and its socket number? -/
def endsAuthority (known : Bool) (c : Char) : Bool :=
  c = '/' || c = '?' || c = '#' || (known && c = '\\')

/-- What comes behind the last at sign, if there is one, and whether anything comes before it. -/
def behindUser (cs : List Char) : Option (Bool × List Char) :=
  if cs.contains '@' then
    let host := (cs.reverse.takeWhile (· ≠ '@')).reverse
    some (cs.length ≠ host.length + 1, host)
  else none

/-- The host in front of a socket number: up to the first colon outside of brackets. -/
def hostPart (inside : Bool) : List Char → List Char
  | [] => []
  | c :: cs =>
    if c = ':' && !inside then []
    else c :: hostPart (if c = '[' then true else if c = ']' then false else inside) cs

/-- Reads a socket number up to the end of the authority, which a backslash is in every case. -/
def readSocket (acc : Option Nat) : List Char → Except Fault (Option Nat)
  | [] => .ok acc
  | c :: cs =>
    if c.isDigit then
      let n := 10 * acc.getD 0 + (c.toNat - 48)
      if 65535 < n then .error .badSocket else readSocket (some n) cs
    else if c = '\\' then .ok acc
    else .error .badSocket

/-- Reads an address from its authority on. -/
def authority (scheme : String) (cs : List Char) : Except Fault Url := do
  let known := isKnown scheme
  let part := cs.takeWhile fun c => !endsAuthority known c
  let (user, part) := (behindUser part).getD (false, part)
  let name := hostPart false part
  let behind := part.drop name.length
  if known && name.isEmpty then throw .emptyHost
  let host ← if known then readHost name else readOpaqueHost name
  if host = "" && !behind.isEmpty then throw .emptyHost
  let socket ← readSocket none behind.tail
  if host = "" && user then throw .emptyHost
  let rest := behind.dropWhile (· ≠ '\\') ++ cs.dropWhile fun c => !endsAuthority known c
  let (path, query) := pathAndQuery known rest
  return { scheme, host, socket, path, query }

/-- Reads an address of a file. Its host, if any, has no socket number. -/
def fileAddress (cs : List Char) : Except Fault Url := do
  let isSlash (c : Char) : Bool := c = '/' || c = '\\'
  let (name, rest) := match cs with
    | a :: b :: rest =>
      if isSlash a && isSlash b then
        (rest.takeWhile fun c => !endsAuthority true c,
          rest.dropWhile fun c => !endsAuthority true c)
      else ([], cs)
    | _ => ([], cs)
  let host ← if name.isEmpty then pure "" else readHost name
  let (path, query) := pathAndQuery true rest
  return { scheme := "file", host, socket := none, path, query }

/-- Reads an address under which names can lie. -/
def parse (s : String) : Except Fault Url :=
  let isControl (c : Char) : Bool := c.toNat ≤ 32
  let cs := ((s.toList.dropWhile isControl).reverse.dropWhile isControl).reverse
  let cs := cs.filter fun c => c ≠ '\t' && c ≠ '\n' && c ≠ '\r'
  match splitScheme cs with
  | none => .error .relative
  | some ("file", rest) => fileAddress rest
  | some (scheme, rest) =>
    if isKnown scheme then authority scheme (rest.dropWhile fun c => c = '/' || c = '\\')
    else match rest with
      | '/' :: '/' :: rest => authority scheme rest
      | '/' :: _ =>
        let (path, query) := pathAndQuery false rest
        .ok { scheme, host := "", socket := none, path, query }
      | _ => .error .notABase

/-! ### Adding names -/

/-- The path without an empty name at its end, unless that is all there is. -/
def dropEmptyEnd (path : List String) : List String :=
  if 1 < path.length && path.getLast? == some "" then path.dropLast else path

/-- The path with a name added. Dots are skipped. An empty path is filled before it grows. A name
that turns out to be dots when its line breaks are dropped is resolved. -/
def addName (known : Bool) (path : List String) (name : String) : List String :=
  if name = "." || name = ".." then path
  else
    let above := if path = [""] then [] else path
    let name := Percent.encode (reservedInName known)
      (name.toList.filter fun c => c ≠ '\t' && c ≠ '\n' && c ≠ '\r')
    if name = ".." then above.dropLast ++ [""]
    else if name = "." then above ++ [""]
    else above ++ [name]

/-- The address with names added to its path. -/
def extend (u : Url) (more : List String) : Url :=
  { u with path := more.foldl (addName (isKnown u.scheme)) (dropEmptyEnd u.path) }

/-- The path of an address. -/
def pathText (u : Url) : String := String.join (u.path.map fun n => "/" ++ n)

/-- What a request for the address asks for. -/
def target (u : Url) : String :=
  u.pathText ++ match u.query with
    | none => ""
    | some q => "?" ++ q

end Url
end Telemetry
