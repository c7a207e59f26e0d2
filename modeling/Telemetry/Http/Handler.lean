import Telemetry.Http.Listing
import Telemetry.Http.Route
import Telemetry.Store
/-!
# Answering calls

Calls with a document in their body are answered by a document, those that say everything in their
path by plain text. What was wrong with a request is told to the client; what was wrong with the
store is not, except that a counter overflowed.

## Main definitions

* `Telemetry.Http.failure`: a failure as a document.
* `Telemetry.Http.checked`: what is in a document.
* `Telemetry.Http.keyOfPath`: the key that a path asks for.
* `Telemetry.Http.answer`: the response to a call.
-/

namespace Telemetry.Http

/-! ### Responses -/

/-- A response with a document. -/
def json (status : Nat) (document : Bytes) : Response := .typed status "application/json" document

/-- A failure as a document; it carries the identity of the request. -/
def failure (status : Nat) (trace code message : String) : Response :=
  json status (Json.writeObject .compact 0
    [("err_code", Json.quote code), ("err_msg", Json.quote message),
      ("trace_id", Json.quote trace)])

/-- The failure of a store as a document. -/
def storeFailure (trace : String) : StoreError → Response
  | .overflow id => failure 400 trace "counter_overflow" (StoreError.overflow id).message
  | _ => failure 500 trace "storage_error" "storage unavailable"

/-- The failure of a store as text. -/
def plainStoreFailure : StoreError → Response
  | .overflow id => .text 400 (StoreError.overflow id).message
  | _ => .text 500 "storage unavailable"

/-- The failure of a document that holds no metric. -/
def refusal (trace : String) (r : Refusal) : Response :=
  failure 400 trace "invalid_metric" r.message

/-- Why a document could not be read. -/
def documentFault : Json.Fault Empty → String
  | .ended => "the document is not complete"
  | .malformed => "the document is malformed"
  | .unfit => "the document holds something else"

/-- The failure of a body that is no document of the wanted form. -/
def badDocument (trace : String) (f : Json.Fault Empty) : Response :=
  failure 400 trace "invalid_json" (documentFault f)

/-! ### Calls -/

/-- What a call comes to: nothing if its time ran out, and the store it left. -/
abbrev Answer := Option Response × Store

/-- The response made of the outcome of an operation. -/
def conclude {α : Type} (f : Store.Finished α) (good : α → Response)
    (bad : StoreError → Response) : Answer :=
  match f with
  | (.abandoned, b) => (none, b)
  | (.returned (.ok a), b) => (some (good a), b)
  | (.returned (.error e), b) => (some (bad e), b)

/-- How long a body may be that is read as a document. -/
def documentLimit : Nat := 2097152

section

variable {δ α : Type} {trace : String} {document : Except (Json.Fault Empty) δ}
  {check : δ → Except Refusal α}

/-- What is in a document, if it could be read and passes a check. -/
def checked (trace : String) (document : Except (Json.Fault Empty) δ)
    (check : δ → Except Refusal α) : Except Response α :=
  match document with
  | .error f => .error (badDocument trace f)
  | .ok d => (check d).mapError (refusal trace)

theorem checked_eq_ok_iff {a : α} :
    checked trace document check = .ok a ↔ ∃ d, document = .ok d ∧ check d = .ok a := by
  constructor
  · intro h
    cases document with
    | error f => cases h
    | ok d =>
      rw [checked] at h
      cases hcheck : check d with
      | error e =>
        rw [hcheck] at h
        cases h
      | ok b =>
        rw [hcheck] at h
        cases h
        exact ⟨d, rfl, hcheck⟩
  · rintro ⟨d, rfl, hcheck⟩
    rw [checked, hcheck]
    rfl

/-- What is wrong with a document, or with what is in it, is told in one way. -/
theorem checked_error {r : Response} (h : checked trace document check = .error r) :
    (∃ f, r = badDocument trace f) ∨ ∃ e, r = refusal trace e := by
  cases document with
  | error f =>
    cases h
    exact .inl ⟨f, rfl⟩
  | ok d =>
    rw [checked] at h
    cases hcheck : check d with
    | error e =>
      rw [hcheck] at h
      cases h
      exact .inr ⟨e, rfl⟩
    | ok b =>
      rw [hcheck] at h
      cases h

end

/-- The metric in a body. -/
def metricOf (trace : String) (body : Bytes) : Except Response Metric :=
  checked trace (Wire.decodeDraft body) Draft.metric?

/-- The metrics in a body. All of them are read before the first is checked. -/
def metricsOf (trace : String) (body : Bytes) : Except Response (List Metric) :=
  checked trace (Wire.decodeDrafts body) fun ds => ds.mapM Draft.metric?

/-- The key in a body. -/
def keyOf (trace : String) (body : Bytes) : Except Response Key :=
  checked trace (Wire.decodeDraft body) Draft.key?

/-- The key that a path asks for. A path without a name leads nowhere. -/
def keyOfPath (type id : String) : Except (Nat × String) Key :=
  ({ id, type : Draft }).key?.mapError fun r =>
    (if r = .emptyId then 404 else 400, r.message)

/-- That there is no metric of a key. -/
def notFound (k : Key) : String := "metric " ++ k.text ++ " not found"

/-- Merges the metric in a body. -/
def updateOne (b : Store) (deadline : Option Deadline) (trace : String) (body : Bytes) : Answer :=
  match metricOf trace body with
  | .error r => (some r, b)
  | .ok m => conclude (b.save deadline m) (fun m => json 200 (Wire.encode m))
      (storeFailure trace)

/-- Merges the metrics in a body. -/
def updateMany (b : Store) (deadline : Option Deadline) (trace : String) (body : Bytes) : Answer :=
  match metricsOf trace body with
  | .error r => (some r, b)
  | .ok ms => conclude (b.saveAll deadline ms) (fun ms => json 200 (Wire.encodeAll ms))
      (storeFailure trace)

/-- Looks up the metric that a body asks for. -/
def value (b : Store) (deadline : Option Deadline) (trace : String) (body : Bytes) : Answer :=
  match keyOf trace body with
  | .error r => (some r, b)
  | .ok k => conclude (b.get deadline k)
      (fun
        | some m => json 200 (Wire.encode m)
        | none => failure 404 trace "metric_not_found" (notFound k))
      (storeFailure trace)

/-- Merges the metric in a path. -/
def updateByPath (b : Store) (deadline : Option Deadline) (type id raw : String) : Answer :=
  match keyOfPath type id with
  | .error (status, message) => (some (.text status message), b)
  | .ok k =>
    match Value.read k.kind raw with
    | .error r => (some (.text 400 r.message), b)
    | .ok v => conclude (b.save deadline ⟨k.id, v⟩) (fun _ => .empty 200) plainStoreFailure

/-- Looks up the metric that a path asks for. -/
def valueByPath (b : Store) (deadline : Option Deadline) (type id : String) : Answer :=
  match keyOfPath type id with
  | .error (status, message) => (some (.text status message), b)
  | .ok k => conclude (b.get deadline k)
      (fun
        | some m => .text 200 m.value.display
        | none => .text 404 (notFound k))
      plainStoreFailure

/-- Lists all metrics. -/
def index (b : Store) (deadline : Option Deadline) : Answer :=
  conclude (b.getAll deadline)
    (fun ms => .typed 200 "text/html; charset=utf-8" (Bytes.ofText (listing ms))) plainStoreFailure

/-- Asks whether the database is there. A store that is none, or one that may not be asked, is no
database. -/
def ping (b : Store) (askable : Bool) : Answer :=
  match askable, b with
  | true, .database d =>
    match d.ping with
    | (.ok (), d) => (some (.typed 200 "text/plain" (Bytes.ofText "OK")), .database d)
    | (.error _, d) => (some (.text 500 "database unreachable"), .database d)
  | _, _ => (some (.text 500 "database not configured"), b)

/-- Reads a body as a document, unless it is too long. -/
def withDocument (body : Bytes) (b : Store) (use : Bytes → Answer) : Answer :=
  if body.length ≤ documentLimit then use body
  else (some (.text 413 "Failed to buffer the request body: length limit exceeded"), b)

/-- The response to a call. -/
def answer (b : Store) (askable : Bool) (deadline : Option Deadline) (trace : String)
    (body : Bytes) : Call → Answer
  | .index => index b deadline
  | .ping => ping b askable
  | .updateOne => withDocument body b (updateOne b deadline trace)
  | .updateMany => withDocument body b (updateMany b deadline trace)
  | .value => withDocument body b (value b deadline trace)
  | .updateByPath type id raw => updateByPath b deadline type id raw
  | .valueByPath type id => valueByPath b deadline type id

/-- The response to a method and a path. -/
def dispatch (b : Store) (askable : Bool) (deadline : Option Deadline) (trace : String)
    (m : Method) (path : String) (body : Bytes) : Answer :=
  match route m path with
  | .found call => answer b askable deadline trace body call
  | .badVariable name => (some (.text 400 ("Invalid URL: Invalid UTF-8 in `" ++ name ++ "`")), b)
  | .wrongMethod allowed => (some ((Response.empty 405).withHeader "allow" allowed), b)
  | .nowhere => (some (.empty 404), b)

end Telemetry.Http
