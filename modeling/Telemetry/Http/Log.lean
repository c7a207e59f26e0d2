import Telemetry.Binary64.Rounding
import Telemetry.Http.Message
import Telemetry.Text.Boundary
import Telemetry.Text.Integer
/-!
# The log of requests

Every request that reaches the server's own logic leaves two lines in the log, one before it is
answered and one after. A line shows only the beginning of a body, cut between two characters.

## Main definitions

* `Telemetry.Http.excerpt`: the beginning of a body.
* `Telemetry.Http.elapsedText`: a duration.
* `Telemetry.Http.isTextual`: which bodies are shown.
* `Telemetry.Http.LogLine`

## Main results

* `Telemetry.Http.isSome_excerpt?`: there is an excerpt of every body.
-/

namespace Telemetry.Http

/-- A body as far as `max` bytes show it, with dots for the rest, or nothing if the cut would go
through a character. -/
def excerpt? (body : Bytes) (max : Nat) : Option String :=
  match Bytes.text? body with
  | none => some "<non-utf8 body>"
  | some s =>
    if body.length ≤ max then some s
    else (Bytes.cut? body (Bytes.lastBoundary body max)).map (· ++ "...")

/-- The cut never goes through a character. -/
theorem isSome_excerpt? (body : Bytes) (max : Nat) : (excerpt? body max).isSome = true := by
  rw [excerpt?]
  split
  · rfl
  · rename_i s hs
    obtain rfl := Bytes.ofText_of_text? hs
    split
    · rfl
    · obtain ⟨p, -, -, hcut⟩ := Bytes.exists_cut?_lastBoundary s max
      rw [hcut]
      rfl

/-- A body as far as `max` bytes show it; dots stand for the rest. -/
def excerpt (body : Bytes) (max : Nat) : String :=
  (excerpt? body max).get (isSome_excerpt? body max)

/-- How much of a body a line shows. -/
def excerptLength : Nat := 200

/-- The number of tenths nearest to a number that is finite and not negative. -/
def tenths (x : Binary64) : Nat :=
  let (num, den) := Binary64.shiftRatio (10 * x.significand) 1 (-x.exponent)
  Binary64.roundHalfEven num den

/-- A duration given in microseconds, shown in a fitting unit. -/
def elapsedText (micros : Nat) : String :=
  if micros < 1000 then Integer.text micros ++ "µs"
  else if micros < 1000000 then Integer.text (micros / 1000 : Nat) ++ "ms"
  else
    let n := tenths ((Binary64.ofNat micros).div (Binary64.ofNat 1000000))
    Integer.text (n / 10 : Nat) ++ "." ++ Integer.text (n % 10 : Nat) ++ "s"

/-- Does a text begin with another one? -/
def beginsWith (start cs : List Char) : Bool := start.isPrefixOf cs

/-- Does a text occur in another one? -/
def occursIn (part : List Char) : List Char → Bool
  | [] => part.isEmpty
  | c :: cs => part.isPrefixOf (c :: cs) || occursIn part cs

/-- Is a body of this content type shown? -/
def isTextual (type : Option Bytes) : Bool :=
  match type.bind valueText? with
  | none => false
  | some s => occursIn "json".toList s.toList || beginsWith "text/plain".toList s.toList

/-- The importance of a line. -/
inductive Level where
  | info
  | warn
  | error
  deriving DecidableEq, Repr

/-- The word for an importance. -/
def Level.word : Level → String
  | .info => "INFO"
  | .warn => "WARN"
  | .error => "ERROR"

/-- A line of the log. -/
inductive LogLine where
  | request (trace : String) (method : String) (path : String) (body : Option String)
  | response (trace : String) (status : Nat) (elapsed : String) (body : Option String)
  deriving DecidableEq, Repr

namespace LogLine

/-- Responses are as important as the failures they report. -/
def level : LogLine → Level
  | .request .. => .info
  | .response _ status .. => if 500 ≤ status then .error else if 400 ≤ status then .warn else .info

/-- The text in front of the fields. -/
def message : LogLine → String
  | .request .. => "--> request"
  | .response .. => "<-- response"

/-- The line of a request; an empty body is not shown. -/
def ofRequest (trace : String) (r : Request) (body : Bytes) : LogLine :=
  .request trace r.method.name (targetPath r.target)
    (if body.isEmpty then none else some (excerpt body excerptLength))

/-- The line of a response; only failures show their body, if it is text. -/
def ofResponse (trace : String) (elapsed : Nat) (r : Response) : LogLine :=
  let body :=
    if r.status < 400 then none
    else if isTextual (r.headers.first? "content-type") then some (excerpt r.body excerptLength)
    else some ""
  .response trace r.status (elapsedText elapsed) body

end LogLine
end Telemetry.Http
