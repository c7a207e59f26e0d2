import Telemetry.Http.Coding
import Telemetry.Http.Handler
import Telemetry.Http.Log
import Telemetry.Signature
/-!
# The server

A request passes through layers on its way to a handler, and the response through the same layers
on its way back. From the outside in: requests for permission to send requests are answered at
once; a request may take only so long; responses are compressed; requests are decompressed;
requests are logged and given an identity; signatures are checked and made. The handler comes
last.

A server is a value. Answering a request makes a response, lines of the log and another server.

## Main definitions

* `Telemetry.Http.Server`, `Telemetry.Http.Occasion`, `Telemetry.Http.Reply`
* `Telemetry.Http.Server.signing`, `Telemetry.Http.Server.logging`: the inner layers.
* `Telemetry.Http.Server.respond`: all of them.
-/

namespace Telemetry.Http

/-- A server. -/
structure Server where
  store : Store
  key : Option SigningKey := none
  /-- How many seconds a request may take. -/
  timeout : Nat := 10
  /-- May the database be asked whether it is there? -/
  askable : Bool := false

/-- What a request meets with: the identity it is given, and how many microseconds its answer
takes. -/
structure Occasion where
  trace : String
  micros : Nat := 0
  /-- If its time runs out while it waits in front of a file: how many steps are done by then. -/
  cutOff : Option Nat := none
  deriving DecidableEq, Repr

/-- What comes of a request. -/
structure Reply where
  response : Response
  log : List LogLine
  server : Server

/-- The longest body that is read at all. -/
def bodyLimit : Nat := 4194304

/-- The response to a body that cannot be read. -/
def unreadableBody (trace : String) : Response :=
  failure 400 trace "invalid_body" "request body could not be read"

/-- The response to a body that is too long. -/
def bodyTooLong (trace : String) : Response :=
  failure 413 trace "payload_too_large"
    ("request body exceeds " ++ Integer.text bodyLimit ++ " bytes")

/-- The response to a signature that is no good. -/
def badSignature (trace : String) (f : SignatureFault) : Response :=
  failure 400 trace "signature_mismatch" f.message

/-- The signature that comes with a request, if it is a text that is not empty. -/
def givenSignature (h : Headers) : Option String :=
  ((h.first? (headerName SigningKey.header)).bind valueText?).filter (· ≠ "")

/-- The response with its signature. -/
def sign (key : SigningKey) (r : Response) : Response :=
  r.withHeader (headerName SigningKey.header) (key.sign r.body)

/-- The response with the identity of its request. -/
def tag (trace : String) (r : Response) : Response := r.withHeader "x-trace-id" trace

namespace Server

/-- The moment at which a request has taken too long, from its arrival on. -/
def deadline (s : Server) (o : Occasion) : Deadline := ⟨1000 * s.timeout, o.cutOff⟩

/-- The handler. -/
def handling (s : Server) (o : Occasion) (r : Request) (body : Bytes) : Answer :=
  dispatch s.store s.askable (some (s.deadline o)) o.trace r.method (targetPath r.target) body

/-- The layer of signatures: without a key it does nothing. With a key, a signature that comes
with the request has to be good, and the response gets one; the responses of this layer itself do
not. -/
def signing (s : Server) (o : Occasion) (r : Request) (body : Incoming) : Answer :=
  match s.key with
  | none => s.handling o r body.content
  | some key =>
    match body.collect bodyLimit with
    | .error _ => (some (unreadableBody o.trace), s.store)
    | .ok bytes =>
      match (givenSignature r.headers).map (key.verify bytes) with
      | some (.error f) => (some (badSignature o.trace f), s.store)
      | _ =>
        let (response, b) := s.handling o r bytes
        (response.map (sign key), b)

/-- The layer of the log between a body that has been read and the next layer. -/
def logged (s : Server) (o : Occasion) (r : Request) (shown : Bytes) (body : Incoming) :
    Answer × List LogLine :=
  let before := LogLine.ofRequest o.trace r shown
  match s.signing o r body with
  | (none, b) => ((none, b), [before])
  | (some response, b) =>
    ((some (tag o.trace response), b), [before, .ofResponse o.trace o.micros response])

/-- The layer of the log. It reads the bodies of POST requests, and only those. -/
def logging (s : Server) (o : Occasion) (r : Request) (body : Incoming) : Answer × List LogLine :=
  if r.method = .post then
    match body.collect bodyLimit with
    | .error .tooLong => ((some (tag o.trace (bodyTooLong o.trace)), s.store), [])
    | .error .broken => ((some (tag o.trace (unreadableBody o.trace)), s.store), [])
    | .ok bytes => s.logged o r bytes ⟨bytes, true⟩
  else s.logged o r [] body

/-- The layers of codings and of time: a request that takes too long is answered by a timeout. -/
def timed (s : Server) (o : Occasion) (r : Request) : Reply :=
  match decodeRequest r with
  | none => ⟨unsupportedCoding, [], s⟩
  | some body =>
    let ((response, b), log) := s.logging o r body
    let response :=
      match response with
      | none => .empty 408
      | some response => encodeResponse r.headers response
    ⟨response, log, { s with store := b }⟩

/-- The response to a request for permission. -/
def permission : Response :=
  { status := 200
    headers :=
      [("access-control-allow-origin", Bytes.ofText "*"),
        ("access-control-allow-methods", Bytes.ofText "*"),
        ("access-control-allow-headers", Bytes.ofText "*")] }

/-- What comes of a request. The response to a HEAD request has lost its body in the end. -/
def respond (s : Server) (o : Occasion) (r : Request) : Reply :=
  if r.method = .options then ⟨permission, [], s⟩
  else
    let reply := s.timed o r
    let response := reply.response.withHeader "access-control-allow-origin" "*"
    { reply with response := if r.method = .head then { response with body := [] } else response }

end Server
end Telemetry.Http
