import Telemetry.Json.Scalar
import Telemetry.Metric.Draft
/-!
# Failures of a store

Why a store cannot do what it was asked to. A failure of the database carries what the server
said, because whether it may pass depends on the state code in it.

## Main definitions

* `Telemetry.DbFailure`: how a database fails, its state code and whether the failure may pass.
* `Telemetry.DiskFault`: how a file operation fails.
* `Telemetry.StoreError`: how a store fails.
-/

namespace Telemetry

/-- What a database client was doing when it failed. -/
inductive DbPhase where
  | connect
  | execute
  | query
  deriving DecidableEq, Repr

/-- Who noticed a failure at run time: the server, with a state code if it gave one, or the client
itself. -/
inductive DbSource where
  | server (code : Option String)
  | client
  deriving DecidableEq, Repr

/-- How a database operation fails. -/
inductive DbFailure where
  /-- No connection could be had from the pool. -/
  | acquire
  | runtime (phase : DbPhase) (source : DbSource)
  /-- A statement that has to return a row returned none. -/
  | notInserted
  | other
  deriving DecidableEq, Repr

/-- The state code of an arithmetic result out of range. -/
def outOfRange : String := "22003"

/-- The state codes of failures that may pass: lost connections, lost serialisation races, and a
server that is not ready yet. -/
def isTransientCode (code : String) : Bool :=
  code.toList.take 2 = ['0', '8'] || ["40000", "40001", "40P01", "57P03"].contains code

/-- The state code that the server gave. -/
def DbFailure.code? : DbFailure → Option String
  | .runtime _ (.server code) => code
  | _ => none

/-- May the failure pass? -/
def DbFailure.isTransient : DbFailure → Bool
  | .acquire => true
  | e => e.code?.any isTransientCode

/-- How a file operation fails. -/
inductive DiskFault where
  /-- There is nothing of that name. -/
  | missing
  /-- Something is in the way. -/
  | refused
  deriving DecidableEq, Repr

/-- How a store fails. -/
inductive StoreError where
  /-- A counter would leave the range of 64-bit integers. -/
  | overflow (id : String)
  | disk (fault : DiskFault)
  /-- A snapshot file cannot be read. -/
  | unreadable (fault : Json.Fault Refusal)
  | database (failure : DbFailure)
  | migration (failure : DbFailure)
  /-- A row of the table does not describe a metric. -/
  | invalidRow (id : String) (reason : String)
  deriving DecidableEq, Repr

/-- The wording of an error, as far as it is shown to anyone. -/
def StoreError.message : StoreError → String
  | .overflow id => "Storage: counter " ++ id ++ " overflowed"
  | .disk .missing => "Storage: I/O error: not found"
  | .disk .refused => "Storage: I/O error: refused"
  | .unreadable _ => "Storage: JSON error"
  | .database _ => "Storage: database error"
  | .migration _ => "Storage: migration failed"
  | .invalidRow id reason => "Storage: invalid row for " ++ id ++ ": " ++ reason

/-- May the failure pass? Only a failure of the database itself may. -/
def StoreError.isTransient : StoreError → Bool
  | .database e => e.isTransient
  | _ => false

end Telemetry
