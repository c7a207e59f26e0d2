import Telemetry.Http.Server
import Telemetry.Text.Integer
import Telemetry.Text.Trim
/-!
# Messages on a connection

Requests come in one after the other as bytes: a line with the method and the target, header lines,
an empty line, and a body whose length a header gives. Responses go out in the same form.

## Main definitions

* `Telemetry.Http.takeRequest`: the first request of some bytes.
* `Telemetry.Http.writeResponse`, `Telemetry.Http.writeRequest`
* `Telemetry.Http.takeStatus`: the status of a response.
-/

namespace Telemetry.Http

/-- The end of a line. -/
def lineEnd : Bytes := [13, 10]

/-- The first line of some bytes and what comes behind it, if the line has an end. -/
def takeLine : Bytes → Option (Bytes × Bytes)
  | 13 :: 10 :: rest => some ([], rest)
  | b :: rest => (takeLine rest).map fun (line, rest) => (b :: line, rest)
  | [] => none

/-- The lines up to an empty one, and what comes behind it. -/
def takeHead : Nat → Bytes → Option (List Bytes × Bytes)
  | 0, _ => none
  | n + 1, s =>
    match takeLine s with
    | none => none
    | some ([], rest) => some ([], rest)
    | some (line, rest) => (takeHead n rest).map fun (lines, rest) => (line :: lines, rest)

/-- A header line, taken apart at its first colon. -/
def headerLine (line : Bytes) : String × Bytes :=
  let name := line.takeWhile (· ≠ 58)
  let value := (line.drop (name.length + 1)).dropWhile Bytes.isBlank
  (headerName ((Bytes.text? name).getD ""), value)

/-- The length that the headers of a message give its body. -/
def bodyLength (h : Headers) : Nat :=
  match (h.first? "content-length").bind valueText? with
  | none => 0
  | some s => ((Integer.readU64 (Text.trim s)).toOption).getD 0

/-- A message: its first line, its headers and its body, and what comes behind it. -/
def takeMessage (s : Bytes) : Option (String × Headers × Bytes × Bytes) :=
  match takeHead (s.length + 1) s with
  | some (first :: lines, rest) =>
    let headers := lines.map headerLine
    let n := bodyLength headers
    if rest.length < n then none
    else some ((Bytes.text? first).getD "", headers, rest.take n, rest.drop n)
  | _ => none

/-- The first request of some bytes, and what comes behind it. -/
def takeRequest (s : Bytes) : Option (Request × Bytes) :=
  (takeMessage s).map fun (first, headers, body, rest) =>
    match Text.split ' ' first with
    | method :: target :: _ => ({ method := .ofName method, target, headers, body }, rest)
    | _ => ({ method := .other first, target := "/", headers, body }, rest)

/-- The status and the body of the first response of some bytes, and what comes behind it. -/
def takeStatus (s : Bytes) : Option (Nat × Bytes × Bytes) :=
  (takeMessage s).map fun (first, _, body, rest) =>
    match Text.split ' ' first with
    | _ :: status :: _ => (((Integer.readU64 status).toOption).getD 0, body, rest)
    | _ => (0, body, rest)

/-- A message of a first line, headers and a body. -/
def writeMessage (first : String) (h : Headers) (body : Bytes) : Bytes :=
  let line (l : String × Bytes) : Bytes := Bytes.ofText (l.1 ++ ": ") ++ l.2 ++ lineEnd
  let length := ("content-length", Bytes.ofText (Integer.text body.length))
  Bytes.ofText first ++ lineEnd ++ (h ++ [length]).flatMap line ++ lineEnd ++ body

/-- A response as bytes. -/
def writeResponse (r : Response) : Bytes :=
  writeMessage ("HTTP/1.1 " ++ Integer.text r.status) r.headers r.body

/-- A request with POST as bytes. -/
def writeRequest (host target : String) (h : List (String × String)) (body : Bytes) : Bytes :=
  writeMessage ("POST " ++ target ++ " HTTP/1.1")
    (("host", Bytes.ofText host) :: h.map fun l => (l.1, Bytes.ofText l.2)) body

end Telemetry.Http
