import Telemetry.Store.Failure
import Telemetry.Metric.Draft
/-!
# The relation of metrics

In the database a metric is a row with a name, a type and two columns of which the type needs one;
either column may be null. An upsert inserts a row or, if there is one with its name and type,
replaces the value and adds to the delta, by the rules of SQL: a sum with null is null, and a sum
out of range is an error that changes nothing.

## Main definitions

* `Telemetry.Row`, `Telemetry.Row.metric`: a row and the metric it describes.
* `Telemetry.Relation`: rows with distinct names and types.
* `Telemetry.Relation.upsert`, `Telemetry.Relation.select?`, `Telemetry.Relation.selectAll`
-/

namespace Telemetry

/-- A row of the table. -/
structure Row where
  id : String
  type : String
  delta : Option Int64
  value : Option Binary64
  deriving DecidableEq, Repr

namespace Row

/-- The row that a draft fills. -/
def ofDraft (d : Draft) : Row := ⟨d.id, d.type, d.delta, d.value⟩

/-- The row of a metric. -/
def ofMetric (m : Metric) : Row := ofDraft m.draft

/-- A row read as a draft. -/
def draft (r : Row) : Draft := { id := r.id, type := r.type, delta := r.delta, value := r.value }

/-- The metric that a row describes. -/
def metric (r : Row) : Except StoreError Metric :=
  match r.draft.metric? with
  | .ok m => .ok m
  | .error e => .error (.invalidRow r.id e.message)

/-- Do two rows have the same name and type? -/
def sameKey (r s : Row) : Bool := r.id == s.id && r.type == s.type

end Row

/-- Rows with distinct names and types. -/
structure Relation where
  rows : List Row := []
  deriving DecidableEq, Repr

namespace Relation

/-- The sum of two columns: null if either is, and nothing if it is out of range. -/
def sum? : Option Int64 → Option Int64 → Option (Option Int64)
  | some a, some b => (Integer.int64? (a.toInt + b.toInt)).map some
  | _, _ => some none

/-- The stored row with a name and a type. -/
def select? (t : Relation) (id type : String) : Option Row :=
  t.rows.find? fun r => r.id == id && r.type == type

/-- The rows in the order of their names. -/
def selectAll (t : Relation) : List Row := t.rows.mergeSort fun a b => (compare a.id b.id).isLE

/-- Puts a row in the place of the one with its name and type, or behind all others. -/
def replace (r : Row) : List Row → List Row
  | [] => [r]
  | s :: rows => if r.sameKey s then r :: rows else s :: replace r rows

/-- Inserts a row or updates the one with its name and type. -/
def upsert (t : Relation) (r : Row) : Except DbFailure (Row × Relation) :=
  match t.select? r.id r.type with
  | none => .ok (r, ⟨replace r t.rows⟩)
  | some old =>
    match sum? old.delta r.delta with
    | none => .error (.runtime .query (.server (some outOfRange)))
    | some delta =>
      let updated := { r with delta }
      .ok (updated, ⟨replace updated t.rows⟩)

end Relation
end Telemetry
