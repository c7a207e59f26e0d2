import Telemetry.Settings.Source
import Telemetry.Store
/-!
# Settings of a server

## Main definitions

* `Telemetry.ServerSettings`
* `Telemetry.ServerSettings.resolve`, `Telemetry.ServerSettings.override`,
  `Telemetry.ServerSettings.check`
* `Telemetry.ServerSettings.store`: what its store is opened from.
-/

namespace Telemetry

open Settings

/-- Settings of a server. -/
structure ServerSettings where
  /-- Where it listens. -/
  address : String := "localhost:8080"
  /-- How many seconds lie between two versions of the snapshot; zero means that every change is
  written. -/
  storeInterval : Nat := 0
  /-- The directory of the snapshot. -/
  fileStoragePath : Option String := some "tmp"
  /-- Is the snapshot read at the start? -/
  restore : Bool := true
  /-- The database, which is used instead of a snapshot. -/
  databaseDsn : Option String := none
  /-- The secret of signatures. -/
  hashKey : Option String := none
  /-- How many seconds a request may take. -/
  requestTimeout : Nat := 10
  /-- The delays before further attempts at the database, in milliseconds. -/
  retryDelays : List Nat := usualDelays
  deriving DecidableEq, Repr

namespace ServerSettings

/-- The settings in a table. -/
def decode (es : Toml.Entries) : Option ServerSettings := do
  let usual : ServerSettings := {}
  return {
    address := ← field es "address" asText usual.address
    storeInterval := ← field es "store_interval_secs" asNat usual.storeInterval
    fileStoragePath :=
      ← field es "file_storage_path" (fun i => (asText i).map some) usual.fileStoragePath
    restore := ← field es "restore" asFlag usual.restore
    databaseDsn := ← field es "database_dsn" (fun i => (asText i).map some) usual.databaseDsn
    hashKey := ← field es "hash_key" (fun i => (asText i).map some) usual.hashKey
    requestTimeout := ← field es "request_timeout_secs" asNat usual.requestTimeout
    retryDelays := ← field es "retry_delays_ms" asNats usual.retryDelays }

/-- The usual place of the settings. -/
def place : String := "config/server.toml"

/-- The settings of a file. -/
def resolve (file : String → Option Bytes) (asked : Option String) :
    Except LoadFault ServerSettings :=
  Settings.resolve decode {} file asked place

/-- The variables in the order in which they are looked at. -/
def overrides : List (Override ServerSettings) := [
  ⟨"ADDRESS", fun v s => .ok { s with address := v }⟩,
  ⟨"STORE_INTERVAL", fun v s => (readNat v).map fun n => { s with storeInterval := n }⟩,
  ⟨"FILE_STORAGE_PATH", fun v s => .ok { s with fileStoragePath := some v }⟩,
  ⟨"RESTORE", fun v s => (readFlag v).map fun b => { s with restore := b }⟩,
  ⟨"DATABASE_DSN", fun v s => .ok { s with databaseDsn := some v }⟩,
  ⟨"KEY", fun v s => .ok { s with hashKey := some v }⟩]

/-- The settings changed by the environment. -/
def override (s : ServerSettings) (env : Environment) :
    Except VariableFault Unit × ServerSettings :=
  applyAll env overrides s

/-- What is wrong with the settings, if anything is. -/
def check (s : ServerSettings) : Except String Unit :=
  if Text.isBlankText s.address then .error "address must not be empty"
  else if s.requestTimeout = 0 then .error "request_timeout_secs must be positive"
  else .ok ()

/-- The name of the snapshot in its directory. -/
def snapshotName : String := "metrics.json"

/-- A path and a name under it. -/
def joinPath (directory name : String) : String :=
  if directory.toList.getLast? = some '/' then directory ++ name else directory ++ "/" ++ name

/-- The path of the snapshot, if there is to be one. -/
def snapshotPath (s : ServerSettings) : Option String :=
  (nonBlank s.fileStoragePath).map fun d => joinPath d snapshotName

/-- What the store is opened from. -/
def store (s : ServerSettings) : StoreSettings :=
  { dsn := nonBlank s.databaseDsn
    filePath := s.snapshotPath
    restore := s.restore
    policy := some (.ofSeconds s.storeInterval)
    backoff := ⟨s.retryDelays⟩ }

end ServerSettings
end Telemetry
