import Telemetry.Gzip.Member
import Telemetry.Http.Message
import Telemetry.Text.Trim
/-!
# Encoded bodies

A body may travel compressed. A request that is coded in another way is refused before anything
else is done about it. A response is compressed if the client would rather have it so and if it is
long enough to be worth it.

## Main definitions

* `Telemetry.Http.Incoming`: the body of a request as far as it can be read.
* `Telemetry.Http.Incoming.collect`: the whole of it, up to a limit.
* `Telemetry.Http.decodeRequest`, `Telemetry.Http.encodeResponse`
-/

namespace Telemetry.Http

/-! ### Requests -/

/-- The body of a request: what can be read of it, and whether that is all. -/
structure Incoming where
  content : Bytes
  whole : Bool
  deriving DecidableEq, Repr

/-- Why a body cannot be had. -/
inductive BodyFault where
  | tooLong
  | broken
  deriving DecidableEq, Repr

/-- The whole body if it is no longer than a limit. A body that is too long is given up before its
end is seen. -/
def Incoming.collect (b : Incoming) (limit : Nat) : Except BodyFault Bytes :=
  if limit < b.content.length then .error .tooLong
  else if b.whole then .ok b.content
  else .error .broken

/-- The body of a request, decompressed if it came compressed; nothing if it is coded in another
way. -/
def decodeRequest (r : Request) : Option Incoming :=
  match r.headers.first? "content-encoding" with
  | none => some ⟨r.body, true⟩
  | some coding =>
    if coding = Bytes.ofText "gzip" then
      let (content, whole) := Gzip.readAll r.body
      some ⟨content, whole⟩
    else if coding = Bytes.ofText "identity" then some ⟨r.body, true⟩
    else none

/-- The response to a request that is coded in another way. -/
def unsupportedCoding : Response := (Response.empty 415).withHeader "accept-encoding" "gzip"

/-! ### Responses -/

/-- The codings of a response, the better one last. -/
inductive Coding where
  | identity
  | gzip
  deriving DecidableEq, Repr

/-- The coding of a name. -/
def Coding.ofName? (s : String) : Option Coding :=
  let name := s.toList.map Char.toLower
  if name = "gzip".toList || name = "x-gzip".toList then some .gzip
  else if name = "identity".toList then some .identity
  else none

/-- Reads up to three decimals; each counts a tenth of the one before. -/
def decimals : Nat → Nat → List Char → Option Nat
  | _, acc, [] => some acc
  | factor, acc, c :: cs =>
    if c.isDigit && factor ≠ 0 then decimals (factor / 10) (acc + factor * (c.toNat - 48)) cs
    else none

/-- Reads a weight between zero and one, in thousandths. -/
def weight : List Char → Option Nat
  | q :: '=' :: d :: rest =>
    if (q = 'q' || q = 'Q') && (d = '0' || d = '1') then
      let units := if d = '1' then 1000 else 0
      match rest with
      | [] => some units
      | '.' :: ds => (decimals 100 units ds).filter (· ≤ 1000)
      | _ => none
    else none
  | _ => none

/-- Reads one of the codings that a client accepts, with its weight. -/
def acceptedCoding (item : List Char) : Option (Coding × Nat) :=
  let (name, parameter) := Text.splitFirst ';' item
  match Coding.ofName? (Text.trim (String.ofList name)), parameter with
  | none, _ => none
  | some c, none => some (c, 1000)
  | some c, some p => (weight (Text.trimChars p)).map (c, ·)

/-- The codings that a client accepts, with their weights. -/
def acceptedCodings (h : Headers) : List (Coding × Nat) :=
  ((h.values "accept-encoding").filterMap valueText?).flatMap fun s =>
    (Text.splitChars ',' s.toList).filterMap acceptedCoding

/-- Would the client rather have the body compressed? With equal weights it would. -/
def prefersGzip (h : Headers) : Bool :=
  let weightOf (c : Coding) : Nat :=
    ((acceptedCodings h).filter fun a => a.1 = c).foldl (fun w a => max w a.2) 0
  weightOf .gzip ≠ 0 && weightOf .identity ≤ weightOf .gzip

/-- How long a body has to be that is compressed. -/
def compressionThreshold : Nat := 32

/-- The response, compressed if the client prefers that and the body is long enough. Where no
encoder is named it is stored. -/
def encodeResponse (request : Headers) (r : Response) (compress : Bytes → Bytes := Gzip.compress) :
    Response :=
  if compressionThreshold ≤ r.body.length && prefersGzip request then
    { r.withHeader "content-encoding" "gzip" with body := compress r.body }
  else r

end Telemetry.Http
