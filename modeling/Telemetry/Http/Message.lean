import Telemetry.Text.Bytes
import Telemetry.Text.Split
/-!
# Requests and responses

Messages as a server sees them: the method, the target, header lines whose names are in lower
case, and a body. Header values are bytes; they are text if all of them are visible ASCII, blanks
or tabs.

## Main definitions

* `Telemetry.Http.Method`, `Telemetry.Http.Headers`
* `Telemetry.Http.Request`, `Telemetry.Http.Response`
* `Telemetry.Http.targetPath`: the path of a request's target.
-/

namespace Telemetry.Http

/-- The methods that are told apart. -/
inductive Method where
  | get
  | head
  | post
  | options
  | other (name : String)
  deriving DecidableEq, Repr

/-- The name of a method. -/
def Method.name : Method → String
  | .get => "GET"
  | .head => "HEAD"
  | .post => "POST"
  | .options => "OPTIONS"
  | .other n => n

/-- The method of a name. -/
def Method.ofName (s : String) : Method :=
  if s = "GET" then .get
  else if s = "HEAD" then .head
  else if s = "POST" then .post
  else if s = "OPTIONS" then .options
  else .other s

/-- Header lines, with names in lower case. -/
abbrev Headers := List (String × Bytes)

namespace Headers

/-- The first value of a name. -/
def first? (h : Headers) (name : String) : Option Bytes := h.lookup name

/-- All values of a name. -/
def values (h : Headers) (name : String) : List Bytes :=
  (h.filter fun line => line.1 = name).map Prod.snd

/-- The one value of a name from now on. -/
def set (h : Headers) (name : String) (value : String) : Headers :=
  h.filter (fun line => line.1 ≠ name) ++ [(name, Bytes.ofText value)]

end Headers

/-- May the byte stand in a header value that is text? -/
def isTextByte (b : UInt8) : Bool := (32 ≤ b && b < 127) || b == 9

/-- The text of a header value. -/
def valueText? (v : Bytes) : Option String := if v.all isTextByte then Bytes.text? v else none

/-- The name of a header in lower case. -/
def headerName (s : String) : String := String.ofList (s.toList.map Char.toLower)

/-- A request. -/
structure Request where
  method : Method
  target : String
  headers : Headers := []
  body : Bytes := []
  deriving DecidableEq, Repr

/-- A response. -/
structure Response where
  status : Nat
  headers : Headers := []
  body : Bytes := []
  deriving DecidableEq, Repr

/-- The value of the content type of plain text. -/
def plainText : String := "text/plain; charset=utf-8"

namespace Response

/-- A response without a body. -/
def empty (status : Nat) : Response := { status }

/-- A response with a body of a type. -/
def typed (status : Nat) (type : String) (body : Bytes) : Response :=
  { status, headers := [("content-type", Bytes.ofText type)], body }

/-- A response in plain text. -/
def text (status : Nat) (s : String) : Response := typed status plainText (Bytes.ofText s)

/-- The response with a header set. -/
def withHeader (r : Response) (name value : String) : Response :=
  { r with headers := r.headers.set name value }

/-- Is the status one of success? -/
def isSuccess (r : Response) : Bool := 200 ≤ r.status && r.status < 300

end Response

/-! ### Targets -/

/-- The characters behind the first pair of slashes of a target that names a host, that is, one
which does not begin with a slash. -/
def behindScheme : List Char → Option (List Char)
  | ':' :: '/' :: '/' :: rest => some rest
  | _ :: rest => behindScheme rest
  | [] => none

/-- The path of a target, without host and query. -/
def targetPath (target : String) : String :=
  let cs := target.toList
  let cs :=
    match cs with
    | '/' :: _ => cs
    | _ =>
      match behindScheme cs with
      | none => cs
      | some rest => rest.dropWhile fun c => c ≠ '/' && c ≠ '?' && c ≠ '#'
  let path := cs.takeWhile fun c => c ≠ '?' && c ≠ '#'
  String.ofList (if path.isEmpty then ['/'] else path)

end Telemetry.Http
