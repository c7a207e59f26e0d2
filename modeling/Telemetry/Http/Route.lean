import Telemetry.Http.Message
import Telemetry.Text.Percent
/-!
# Routes

A path is taken apart at its slashes and compared with the routes, name by name. Where a route has
a variable it matches one name whatever it is, except that the last name of a path may not be
empty. Variables are decoded only after a route has been found, so an encoded slash does not
separate names.

## Main definitions

* `Telemetry.Http.Call`: what a request may ask for.
* `Telemetry.Http.route`: what a method and a path ask for.
-/

namespace Telemetry.Http

/-- What a request may ask for. -/
inductive Call where
  | index
  | ping
  | updateOne
  | updateMany
  | value
  | updateByPath (type id raw : String)
  | valueByPath (type id : String)
  deriving DecidableEq, Repr

/-- What becomes of a method and a path. -/
inductive Routing where
  | found (call : Call)
  /-- A variable is not text. -/
  | badVariable (name : String)
  /-- There is such a path, but not with this method. -/
  | wrongMethod (allowed : String)
  | nowhere
  deriving DecidableEq, Repr

/-- The routes of the paths, with the variables as they stand in the path. -/
def callOf : List String → Option Call
  | [""] => some .index
  | ["ping"] => some .ping
  | ["update", ""] => some .updateOne
  | ["updates", ""] => some .updateMany
  | ["value", ""] => some .value
  | ["update", type, id, raw] => if raw = "" then none else some (.updateByPath type id raw)
  | ["value", type, id] => if id = "" then none else some (.valueByPath type id)
  | _ => none

/-- Does a call only read? Such calls are made with GET, the others with POST. -/
def Call.isGet : Call → Bool
  | .index | .ping | .valueByPath .. => true
  | _ => false

/-- The methods that a call is made with. -/
def Call.allowed (c : Call) : String := if c.isGet then "GET,HEAD" else "POST"

/-- Is the call made with this method? -/
def Call.accepts (c : Call) (m : Method) : Bool :=
  if c.isGet then m = .get || m = .head else m = .post

/-- The text of a variable, or its name if it has none. -/
def textOf (name raw : String) : Except String String :=
  match Percent.decodeText? raw with
  | some s => .ok s
  | none => .error name

/-- The call with its variables decoded. -/
def Call.decode : Call → Except String Call
  | .updateByPath type id raw => do
    return .updateByPath (← textOf "kind" type) (← textOf "id" id) (← textOf "value" raw)
  | .valueByPath type id => do
    return .valueByPath (← textOf "kind" type) (← textOf "id" id)
  | c => .ok c

/-- The names of a path; a path that does not begin with a slash has none. -/
def pathNames (path : String) : List String :=
  match path.toList with
  | '/' :: rest => (Text.splitChars '/' rest).map String.ofList
  | _ => []

/-- What a method and a path ask for. -/
def route (m : Method) (path : String) : Routing :=
  match callOf (pathNames path) with
  | none => .nowhere
  | some c =>
    if c.accepts m then
      match c.decode with
      | .ok c => .found c
      | .error name => .badVariable name
    else .wrongMethod c.allowed

end Telemetry.Http
