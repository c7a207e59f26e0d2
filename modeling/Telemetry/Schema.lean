import Telemetry.Store.Database
/-!
# The schema of the database

The table of metrics is made by one migration and dropped by its reverse.

## Main definitions

* `Telemetry.Schema.migrations`
* `Telemetry.Schema.Direction.run`: runs the migrations up or down.
-/

namespace Telemetry.Schema

/-- A step of the schema, forwards and backwards. -/
structure Migration where
  name : String
  up : String
  down : String
  deriving DecidableEq, Repr

/-- The migrations in order. -/
def migrations : List Migration := [
  { name := "m001_create_metrics"
    up := "CREATE TABLE IF NOT EXISTS metrics ( id TEXT NOT NULL, type TEXT NOT NULL, " ++
      "delta BIGINT DEFAULT NULL, value DOUBLE PRECISION, PRIMARY KEY (id, type) );"
    down := "DROP TABLE IF EXISTS metrics;" }]

/-- Forwards or backwards. -/
inductive Direction where
  | up
  | down
  deriving DecidableEq, Repr

/-- The statement of a migration. -/
def Direction.sql : Direction → Migration → String
  | .up, m => m.up
  | .down, m => m.down

/-- The migrations in the order in which a direction runs them. -/
def Direction.order : Direction → List Migration
  | .up => migrations
  | .down => migrations.reverse

/-- One migration that was run. -/
structure Step where
  name : String
  sql : String
  failure : Option DbFailure

/-- Runs migrations up to the first that fails. The script holds the answers of the server. -/
def runAll (direction : Direction) : List Migration → List Reply → List Step
  | [], _ => []
  | m :: ms, script =>
    match script.head? with
    | some (.failure e) => [⟨m.name, direction.sql m, some e⟩]
    | _ => ⟨m.name, direction.sql m, none⟩ :: runAll direction ms script.tail

/-- Runs all migrations in a direction. -/
def Direction.run (d : Direction) (script : List Reply) : List Step := runAll d d.order script

end Telemetry.Schema
