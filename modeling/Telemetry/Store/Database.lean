import Telemetry.Backoff
import Telemetry.Store.Relation
/-!
# Stores in a database

A store in a database sends statements and believes what comes back. Each operation is attempted
again when it failed in a way that may pass. This is safe although an upsert adds up, because a
statement that fails changes nothing and a batch is one transaction.

What the server does beyond its rules is a script: the next statements are answered as the script
says, by an error or by rows that have nothing to do with the table, and so are the beginnings and
ends of transactions. Behind the end of a script all goes well.

## Main definitions

* `Telemetry.Session`: the table, the script and the statements sent so far.
* `Telemetry.Statement`: what is sent.
* `Telemetry.Database`: a session and the delays of its retries.
* `Telemetry.Database.save`, `Telemetry.Database.saveAll`, `Telemetry.Database.get`,
  `Telemetry.Database.getAll`, `Telemetry.Database.ping`
-/

namespace Telemetry

/-- What is sent to a database. -/
inductive Statement where
  | begin
  | commit
  | rollback
  | upsert (row : Row)
  | select (key : Key)
  | selectAll
  deriving DecidableEq, Repr

/-- A column as text. -/
def columnText {α : Type} (text : α → String) : Option α → String
  | none => "null"
  | some a => text a

/-- A statement as a line of a log. -/
def Statement.text : Statement → String
  | .begin => "begin"
  | .commit => "commit"
  | .rollback => "rollback"
  | .upsert r =>
    " ".intercalate ["upsert", r.id, r.type, columnText (fun d => Integer.text d.toInt) r.delta,
      columnText Binary64.display r.value]
  | .select k => "select " ++ k.id ++ " " ++ k.kind.word
  | .selectAll => "select_all"

/-- How the server answers a statement. -/
inductive Reply where
  /-- By its rules. -/
  | proper
  | failure (e : DbFailure)
  /-- With rows from nowhere, leaving the table alone. -/
  | rows (rows : List Row)
  deriving DecidableEq, Repr

/-- The server as one client sees it. -/
structure Session where
  table : Relation := {}
  /-- The answers to the next statements. -/
  script : List Reply := []
  /-- The answers to the next beginnings and ends of transactions. -/
  control : List (Option DbFailure) := []
  /-- What has been sent, last one first. -/
  log : List Statement := []

namespace Session

/-- Notes a statement and takes the answer to it. -/
def reply (s : Session) (q : Statement) : Reply × Session :=
  match s.script with
  | [] => (.proper, { s with log := q :: s.log })
  | r :: rs => (r, { s with script := rs, log := q :: s.log })

/-- Notes the beginning or end of a transaction and takes the answer to it. -/
def controlReply (s : Session) (q : Statement) : Option DbFailure × Session :=
  match s.control with
  | [] => (none, { s with log := q :: s.log })
  | r :: rs => (r, { s with control := rs, log := q :: s.log })

/-- Sends an upsert; the answer is the stored row. -/
def upsert (s : Session) (row : Row) : Except DbFailure (Option Row) × Session :=
  match s.reply (.upsert row) with
  | (.failure e, s) => (.error e, s)
  | (.rows rs, s) => (.ok rs.head?, s)
  | (.proper, s) =>
    match s.table.upsert row with
    | .error e => (.error e, s)
    | .ok (stored, table) => (.ok (some stored), { s with table })

/-- Asks for the row of a key. -/
def select (s : Session) (k : Key) : Except DbFailure (Option Row) × Session :=
  match s.reply (.select k) with
  | (.failure e, s) => (.error e, s)
  | (.rows rs, s) => (.ok rs.head?, s)
  | (.proper, s) => (.ok (s.table.select? k.id k.kind.word), s)

/-- Asks for all rows. -/
def selectAll (s : Session) : Except DbFailure (List Row) × Session :=
  match s.reply .selectAll with
  | (.failure e, s) => (.error e, s)
  | (.rows rs, s) => (.ok rs, s)
  | (.proper, s) => (.ok s.table.selectAll, s)

end Session

/-- A store in a database. -/
structure Database where
  session : Session := {}
  backoff : Backoff := .standard

namespace Database

/-- The error of an upsert: a result out of range is the overflow of a counter. -/
def upsertError (id : String) (e : DbFailure) : StoreError :=
  if e.code? = some outOfRange then .overflow id else .database e

/-- Merges one metric by one statement. -/
def upsert (s : Session) (m : Metric) : Except StoreError Metric × Session :=
  match s.upsert (.ofMetric m) with
  | (.error e, s) => (.error (upsertError m.id e), s)
  | (.ok none, s) => (.error (.database .notInserted), s)
  | (.ok (some row), s) => (row.metric, s)

/-- Merges metrics one after the other, up to the first failure. -/
def upsertAll (s : Session) : List Metric → Except StoreError (List Metric) × Session
  | [] => (.ok [], s)
  | m :: ms =>
    match upsert s m with
    | (.error e, s) => (.error e, s)
    | (.ok saved, s) =>
      match upsertAll s ms with
      | (.error e, s) => (.error e, s)
      | (.ok rest, s) => (.ok (saved :: rest), s)

/-- Undoes what a transaction did to a table. -/
def undo (before : Relation) (s : Session) : Session :=
  { s with table := before, log := .rollback :: s.log }

/-- Merges metrics in one transaction. -/
def transaction (s : Session) (ms : List Metric) : Except StoreError (List Metric) × Session :=
  match s.controlReply .begin with
  | (some e, s) => (.error (.database e), s)
  | (none, s) =>
    match upsertAll s ms with
    | (.error e, t) => (.error e, undo s.table t)
    | (.ok saved, t) =>
      match t.controlReply .commit with
      | (some e, t) => (.error (.database e), undo s.table t)
      | (none, t) => (.ok saved, t)

variable {α : Type}

/-- An operation that ended: its outcome, the store it left, and the time its delays took. -/
structure Finished (α : Type) where
  ending : Ending StoreError α
  store : Database
  time : Nat

/-- An operation on the session, attempted again after failures that may pass. -/
def attempt (d : Database) (deadline : Option Nat)
    (op : Session → Except StoreError α × Session) : Finished α :=
  let e := d.backoff.runUntil deadline StoreError.isTransient (fun _ => op) d.session
  ⟨e.ending, { d with session := e.state }, e.time⟩

/-- An operation that is not attempted at all. -/
def idle (d : Database) (a : α) : Finished α := ⟨.returned (.ok a), d, 0⟩

/-- Works on the result of an operation. -/
def Finished.bind {β : Type} (f : Finished α) (g : α → Except StoreError β) : Finished β :=
  { f with ending := match f.ending with
    | .abandoned => .abandoned
    | .returned (.error e) => .returned (.error e)
    | .returned (.ok a) => .returned (g a) }

/-- Merges one metric. -/
def save (d : Database) (deadline : Option Nat) (m : Metric) : Finished Metric :=
  d.attempt deadline fun s => upsert s m

/-- Merges metrics, all of them or none. -/
def saveAll (d : Database) (deadline : Option Nat) (ms : List Metric) : Finished (List Metric) :=
  if ms.isEmpty then d.idle [] else d.attempt deadline fun s => transaction s ms

/-- The metric with a key. -/
def get (d : Database) (deadline : Option Nat) (k : Key) : Finished (Option Metric) :=
  (d.attempt deadline fun s =>
    match s.select k with
    | (.error e, s) => (.error (.database e), s)
    | (.ok row, s) => (.ok row, s)).bind fun
      | none => .ok none
      | some row => row.metric.map some

/-- All metrics in the order of their keys. -/
def getAll (d : Database) (deadline : Option Nat) : Finished (List Metric) :=
  (d.attempt deadline fun s =>
    match s.selectAll with
    | (.error e, s) => (.error (.database e), s)
    | (.ok rows, s) => (.ok rows, s)).bind fun rows =>
      (rows.mapM Row.metric).map fun ms => ms.mergeSort fun a b => (compare a.key b.key).isLE

/-- Asks whether the server is there. It takes an answer off the script but is no statement. -/
def ping (d : Database) : Except StoreError Unit × Database :=
  match d.session.script with
  | [] => (.ok (), d)
  | r :: rs =>
    let d := { d with session := { d.session with script := rs } }
    match r with
    | .failure e => (.error (.database e), d)
    | _ => (.ok (), d)

end Database
end Telemetry
