import Telemetry.Json.Reader
import Telemetry.Json.Writer
import Telemetry.Metric.Draft
/-!
# Metrics on the wire

A draft is written as an object with the members `id`, `type`, `delta`, `value` and `hash`, of
which the last three are left out when they are missing. It is read from such an object, in which
every member may be missing and unknown ones are skipped, or from an array of the members in their
order. A metric is a draft that passes the checks, made as soon as the draft has been read.

## Main definitions

* `Telemetry.Wire.writeDraft`, `Telemetry.Wire.encode`, `Telemetry.Wire.encodeAll`
* `Telemetry.Wire.draft`, `Telemetry.Wire.metric`: the readers.
* `Telemetry.Wire.decode`, `Telemetry.Wire.decodeAll`, `Telemetry.Wire.decodeDraft`,
  `Telemetry.Wire.decodeDrafts`, `Telemetry.Wire.decodeKind`
-/

namespace Telemetry.Wire

open Json

/-! ### Writing -/

/-- The members of a draft that are written. -/
def members (d : Draft) : List (String × Bytes) :=
  [("id", quote d.id), ("type", quote d.type)] ++
  (d.delta.map fun n => ("delta", integer n)).toList ++
  (d.value.map fun x => ("value", number x)).toList ++
  (d.hash.map fun h => ("hash", quote h)).toList

/-- A draft as an object. -/
def writeDraft (l : Layout) (depth : Nat) (d : Draft) : Bytes := writeObject l depth (members d)

/-- A metric on one line. -/
def encode (m : Metric) : Bytes := writeDraft .compact 0 m.draft

/-- A list of metrics in a layout. -/
def encodeList (l : Layout) (ms : List Metric) : Bytes :=
  writeArray l 0 (ms.map fun m => writeDraft l 1 m.draft)

/-- A list of metrics on one line. -/
def encodeAll (ms : List Metric) : Bytes := encodeList .compact ms

/-! ### Reading -/

variable {ε : Type}

/-- The members of a draft. -/
inductive Member where
  | id
  | type
  | delta
  | value
  | hash
  deriving DecidableEq, Repr

/-- The members in the order in which an array gives them. -/
def Member.all : List Member := [.id, .type, .delta, .value, .hash]

/-- The member that a key names. -/
def Member.ofKey? (s : String) : Option Member :=
  if s = "id" then some .id
  else if s = "type" then some .type
  else if s = "delta" then some .delta
  else if s = "value" then some .value
  else if s = "hash" then some .hash
  else none

/-- Reads the value of a member into a draft. -/
def Member.read (m : Member) (d : Draft) : Reader ε Draft := fun s =>
  match m with
  | .id => (text s).map fun (x, s) => ({ d with id := x }, s)
  | .type => (text s).map fun (x, s) => ({ d with type := x }, s)
  | .delta => (optional int64 s).map fun (x, s) => ({ d with delta := x }, s)
  | .value => (optional binary64 s).map fun (x, s) => ({ d with value := x }, s)
  | .hash => (optional text s).map fun (x, s) => ({ d with hash := x }, s)

/-- Members up to the closing brace. `seen` are those that were given already. -/
def draftMembers (fuel : Nat) : Nat → Bool → List Member → Draft → Reader ε Draft
  | 0, _, _, _, _ => .error .ended
  | n + 1, first, seen, d, s =>
    match nextKey first s with
    | .error f => .error f
    | .ok (none, s) => .ok (d, s.tail)
    | .ok (some k, s) =>
      match Member.ofKey? k with
      | none =>
        match colon s with
        | .error f => .error f
        | .ok s =>
          match skipValue fuel s with
          | .error f => .error f
          | .ok s => draftMembers fuel n false seen d s
      | some m =>
        if m ∈ seen then .error .unfit
        else match colon s with
          | .error f => .error f
          | .ok s =>
            match m.read d s with
            | .error f => .error f
            | .ok (d, s) => draftMembers fuel n false (m :: seen) d s

/-- Values of the given members, as many as there are. -/
def draftItems : List Member → Bool → Draft → Reader ε Draft
  | [], _, d, s => .ok (d, s)
  | m :: ms, first, d, s =>
    match nextItem first s with
    | .error f => .error f
    | .ok (false, s) => .ok (d, s)
    | .ok (true, s) =>
      match m.read d s with
      | .error f => .error f
      | .ok (d, s) => draftItems ms false d s

/-- Reads a draft. -/
def draft (fuel : Nat) : Reader ε Draft := fun s =>
  match skipSpace s with
  | [] => .error .ended
  | b :: s =>
    if b = 123 then draftMembers fuel fuel true [] {} s
    else if b = 91 then
      match draftItems Member.all true {} s with
      | .error f => .error f
      | .ok (d, s) => (endArray s).map (d, ·)
    else .error (unexpected (b :: s))

/-- Reads a metric: a draft that passes the checks. -/
def metric (fuel : Nat) : Reader Refusal Metric := fun s =>
  match draft fuel s with
  | .error f => .error f
  | .ok (d, s) =>
    match d.metric? with
    | .error r => .error (.rejected r)
    | .ok m => .ok (m, s)

/-- A kind behind the start of a string or of an object with that kind as its only key. -/
def kindRest (inObject : Bool) : Reader ε Kind := fun s =>
  let word := if inObject then text s else stringRest s
  match word with
  | .error f => .error f
  | .ok (w, s) =>
    match Kind.ofWord? w with
    | none => .error .unfit
    | some k => .ok (k, s)

/-- Reads a kind: its word, or an object with the word as its only key and null under it. -/
def kind : Reader ε Kind := fun s =>
  match skipSpace s with
  | [] => .error .ended
  | b :: s =>
    if b = 34 then kindRest false s
    else if b = 123 then
      match kindRest true s with
      | .error f => .error f
      | .ok (k, s) =>
        match colon s with
        | .error f => .error f
        | .ok s =>
          match skipSpace s with
          | [] => .error .ended
          | b :: s =>
            if b ≠ 110 then .error (unexpected (b :: s))
            else match keyword [117, 108, 108] s with
              | .error f => .error f
              | .ok s =>
                match skipSpace s with
                | [] => .error .ended
                | b :: s => if b = 125 then .ok (k, s) else .error .malformed
    else .error .malformed

/-- The metric that a document holds. -/
def decode (b : Bytes) : Except (Fault Refusal) Metric := document metric b

/-- The metrics that a document holds, each checked before the next one is read. -/
def decodeAll (b : Bytes) : Except (Fault Refusal) (List Metric) :=
  document (fun fuel => readArray fuel (metric fuel)) b

/-- The draft that a document holds. -/
def decodeDraft (b : Bytes) : Except (Fault Empty) Draft := document draft b

/-- The drafts that a document holds. -/
def decodeDrafts (b : Bytes) : Except (Fault Empty) (List Draft) :=
  document (fun fuel => readArray fuel (draft fuel)) b

/-- The kind that a document holds. -/
def decodeKind (b : Bytes) : Except (Fault Empty) Kind := document (fun _ => kind) b

end Telemetry.Wire
