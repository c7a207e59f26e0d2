import Telemetry.Store.Database
import Telemetry.Store.Persistent
/-!
# Stores

A store is one of three: a table in memory, a table kept in a snapshot file as well, or a database.
Which one it is follows from the settings: a database if one is named, else a file if one is named,
else memory. All three answer the same operations.

An operation on a table in memory returns at once. One on a database may wait between two attempts,
and one that saves metrics to a file waits for its turn and for the disk; both may be abandoned.

## Main definitions

* `Telemetry.StoreSettings`, `Telemetry.Store.openWith`
* `Telemetry.Deadline`: how long an operation is waited for.
* `Telemetry.Store.save`, `Telemetry.Store.saveAll`, `Telemetry.Store.get`,
  `Telemetry.Store.getAll`
-/

namespace Telemetry

/-- What a store is opened from. -/
structure StoreSettings where
  dsn : Option String := none
  filePath : Option String := none
  restore : Bool := false
  policy : Option SavePolicy := none
  backoff : Backoff := .standard
  deriving DecidableEq, Repr

/-- A store. -/
inductive Store where
  | memory (table : Table)
  | persistent (table : PersistentTable)
  | database (db : Database)

/-- The end of the time that an operation is waited for. -/
structure Deadline where
  /-- In milliseconds from the beginning. Only the delays of a database move the time. -/
  moment : Nat
  /-- The number of steps that are done by then of a change that is saved at once in a file, if it
  has not returned. A step that is under way at the deadline is done by then or never. -/
  steps : Option Nat := none
  deriving DecidableEq, Repr

namespace Store

/-- Opens a store. `connect` tells what comes of connecting to a database of a given name. -/
def openWith (settings : StoreSettings) (disk : Disk)
    (connect : String → Except DbFailure Session) : Except StoreError Store :=
  match settings.dsn.filter (· ≠ "") with
  | some dsn =>
    match connect dsn with
    | .ok session => .ok (.database ⟨session, settings.backoff⟩)
    | .error e => .error (.database e)
  | none =>
    match settings.filePath with
    | none => .ok (.memory .empty)
    | some path =>
      match SnapshotFile.create (Path.ofText path) disk with
      | .error e => .error e
      | .ok file =>
        let empty := PersistentTable.create file (settings.policy.getD .immediate)
        if settings.restore then
          match empty.restore with
          | (.error e, _) => .error e
          | (.ok _, restored) => .ok (.persistent restored)
        else .ok (.persistent empty)

variable {α : Type}

/-- An operation that ended: its outcome and the store it left. -/
abbrev Finished (α : Type) := Ending StoreError α × Store

/-- Merges one metric. -/
def save (b : Store) (deadline : Option Deadline) (m : Metric) : Finished Metric :=
  match b with
  | .memory t =>
    let (r, t) := t.apply m
    (.returned r, .memory t)
  | .persistent s =>
    let (e, s) := s.writeFor (deadline.bind Deadline.steps) fun t => t.apply m
    (e, .persistent s)
  | .database d =>
    let f := d.save (deadline.map Deadline.moment) m
    (f.ending, .database f.store)

/-- Merges metrics in order. -/
def saveAll (b : Store) (deadline : Option Deadline) (ms : List Metric) : Finished (List Metric) :=
  match b with
  | .memory t =>
    let (r, t) := t.applyAll ms
    (.returned r, .memory t)
  | .persistent s =>
    let (e, s) := s.writeFor (deadline.bind Deadline.steps) fun t => t.applyAll ms
    (e, .persistent s)
  | .database d =>
    let f := d.saveAll (deadline.map Deadline.moment) ms
    (f.ending, .database f.store)

/-- The metric with a key. -/
def get (b : Store) (deadline : Option Deadline) (k : Key) : Finished (Option Metric) :=
  match b with
  | .memory t => (.returned (.ok (t.get? k)), b)
  | .persistent s => (.returned (.ok (s.get? k)), b)
  | .database d =>
    let f := d.get (deadline.map Deadline.moment) k
    (f.ending, .database f.store)

/-- All metrics in the order of their keys. -/
def getAll (b : Store) (deadline : Option Deadline) : Finished (List Metric) :=
  match b with
  | .memory t => (.returned (.ok t.entries), b)
  | .persistent s => (.returned (.ok s.getAll), b)
  | .database d =>
    let f := d.getAll (deadline.map Deadline.moment)
    (f.ending, .database f.store)

end Store
end Telemetry
