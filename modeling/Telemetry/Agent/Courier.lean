import Telemetry.Agent.Report
import Telemetry.Backoff
import Telemetry.Gzip.Member
import Telemetry.Metric.Wire
import Telemetry.Signature
import Telemetry.Url.Basic
/-!
# Delivering

A delivery is one request, made once and sent until it is accepted or the delays have run out.
Documents are compressed and, with a key, signed as they were before. Any response of success
counts as accepted; any other response may pass, and so may the lack of one.

How documents are compressed is up to the courier, as long as they can be had again. Where no
encoder is named they are stored.

## Main definitions

* `Telemetry.Agent.Courier`, `Telemetry.Agent.Courier.connect`
* `Telemetry.Agent.Outgoing`, `Telemetry.Agent.Courier.request`: the request of a delivery.
* `Telemetry.Agent.Peer`: whoever answers.
* `Telemetry.Agent.Courier.deliver`
-/

namespace Telemetry.Agent

/-- Where deliveries go and how. -/
structure Courier where
  base : Url
  key : Option SigningKey
  backoff : Backoff

/-- Why nothing can be delivered to an address. -/
structure AddressFault where
  address : String
  reason : Url.Fault
  deriving DecidableEq, Repr

/-- The wording of a fault. -/
def AddressFault.message (f : AddressFault) : String :=
  "invalid server address " ++ f.address ++ ": " ++ f.reason.message

/-- A request to be sent with POST. Header names are in lower case. -/
structure Outgoing where
  target : String
  headers : List (String × String)
  body : Bytes
  deriving DecidableEq, Repr

/-- A response, as far as it matters: its status and its body. -/
structure Answer where
  status : Nat
  body : Bytes
  deriving DecidableEq, Repr

/-- Is the request accepted? -/
def Answer.isSuccess (a : Answer) : Bool := 200 ≤ a.status && a.status < 300

/-- Whoever answers: what becomes of a request that is sent for the first, second, … time at a
moment. Nothing comes back when the connection fails. -/
abbrev Peer := Nat → Nat → Outgoing → Option Answer

/-- Why a delivery failed. -/
inductive DeliveryFault where
  | unanswered
  | refused (answer : Answer)
  deriving DecidableEq, Repr

namespace Courier

/-- A courier to an address. -/
def connect (address : String) (key : Option SigningKey) (backoff : Backoff) :
    Except AddressFault Courier :=
  match Url.parse address with
  | .error reason => .error ⟨address, reason⟩
  | .ok base => .ok ⟨base, key, backoff⟩

/-- The request with a document under a path. -/
def document (t : Courier) (names : List String) (json : Bytes)
    (compress : Bytes → Bytes := Gzip.compress) : Outgoing :=
  { target := (t.base.extend names).target
    headers := [("content-type", "application/json"), ("content-encoding", "gzip")] ++
      (t.key.map fun k => ("hashsha256", k.sign json)).toList
    body := compress json }

/-- The request of a delivery. -/
def request (t : Courier) (d : Delivery) (compress : Bytes → Bytes := Gzip.compress) : Outgoing :=
  match d with
  | .document m => t.document ["update", ""] (Wire.encode m) compress
  | .batch ms => t.document ["updates", ""] (Wire.encodeAll ms) compress
  | .path m =>
    { target := (t.base.extend ["update", m.kind.word, m.id, m.value.display]).target
      headers := [("content-type", "text/plain")]
      body := [] }

/-- One attempt at a request. -/
def attempt (peer : Peer) (r : Outgoing) (now made : Nat) : Except DeliveryFault Bytes × Nat :=
  match peer made now r with
  | none => (.error .unanswered, made + 1)
  | some a => (if a.isSuccess then .ok a.body else .error (.refused a), made + 1)

/-- A delivery that begins at a moment. It ends with the body of the response that accepted it or
with the last failure, after a number of attempts and some time. -/
def deliver (t : Courier) (peer : Peer) (start : Nat) (d : Delivery)
    (compress : Bytes → Bytes := Gzip.compress) : Ended DeliveryFault Bytes Nat :=
  t.backoff.run (fun _ => true) (fun now => attempt peer (t.request d compress) (start + now)) 0

/-- Was the delivery accepted? -/
def accepted (e : Ended DeliveryFault Bytes Nat) : Bool :=
  match e.ending with
  | .returned (.ok _) => true
  | _ => false

end Courier
end Telemetry.Agent
