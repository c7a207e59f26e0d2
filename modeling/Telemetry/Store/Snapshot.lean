import Telemetry.Metric.Wire
import Telemetry.Store.Disk
import Telemetry.Store.Table
import Telemetry.Store.Turn
/-!
# Snapshot files

All metrics are kept in one file, as an indented array. A new version is written beside it under
another name and then moved over it in one step, so that whoever reads the file sees the old list
or the new one. A missing file and a blank one hold no metrics.

## Main definitions

* `Telemetry.Snapshot.temporary`: the name a new version is written under.
* `Telemetry.Snapshot.load`, `Telemetry.Snapshot.persist`
* `Telemetry.SnapshotFile`: a store that reads the file for every operation.
* `Telemetry.SnapshotFile.merging`: the steps of a change.
-/

namespace Telemetry

namespace Snapshot

/-- The part of a name before its last dot, if the dot does not come first. -/
def stem (name : List Char) : List Char :=
  let before := (name.reverse.dropWhile (· ≠ '.')).tail.reverse
  if name.contains '.' && !before.isEmpty then before else name

/-- The name that a new version of a file is written under. -/
def temporaryName (name : String) : String :=
  String.ofList (stem name.toList ++ ".json.tmp".toList)

/-- The path that a new version of a file is written under. -/
def temporary (p : Path) : Path :=
  match p.getLast? with
  | none => p
  | some name => p.dropLast ++ [temporaryName name]

/-- The metrics that the bytes of a file hold. -/
def parse (b : Bytes) : Except StoreError (List Metric) :=
  if b.all Bytes.isBlank then .ok []
  else match Wire.decodeAll b with
    | .ok ms => .ok ms
    | .error f => .error (.unreadable f)

/-- The bytes of a file that holds metrics. -/
def format (ms : List Metric) : Bytes := Wire.encodeList .indented ms

/-- The metrics that a file holds. -/
def load (d : Disk) (p : Path) : Except StoreError (List Metric) × Disk :=
  match d.read p with
  | (.ok b, d) => (parse b, d)
  | (.error .missing, d) => (.ok [], d)
  | (.error f, d) => (.error (.disk f), d)

/-- Writes a new version beside the file. -/
def draft (d : Disk) (p : Path) (ms : List Metric) : Except StoreError Unit × Disk :=
  match d.write (temporary p) (format ms) with
  | (.ok (), d) => (.ok (), d)
  | (.error f, d) => (.error (.disk f), d)

/-- Moves the new version over the file. -/
def publish (d : Disk) (p : Path) : Except StoreError Unit × Disk :=
  match d.rename (temporary p) p with
  | (.ok (), d) => (.ok (), d)
  | (.error f, d) => (.error (.disk f), d)

/-- Replaces the contents of the file. -/
def persist (d : Disk) (p : Path) (ms : List Metric) : Except StoreError Unit × Disk :=
  match draft d p ms with
  | (.error e, d) => (.error e, d)
  | (.ok (), d) => publish d p

end Snapshot

/-- A disk and the path of the snapshot file on it. -/
structure SnapshotFile where
  path : Path
  disk : Disk

namespace SnapshotFile

/-- A store at a path, whose directory is made if it is missing. -/
def create (p : Path) (d : Disk) : Except StoreError SnapshotFile :=
  match d.makeDirs p.dropLast with
  | (.ok (), d) => .ok ⟨p, d⟩
  | (.error f, _) => .error (.disk f)

/-- The metrics in the file. -/
def load (s : SnapshotFile) : Except StoreError (List Metric) × SnapshotFile :=
  let (r, d) := Snapshot.load s.disk s.path
  (r, { s with disk := d })

/-- Writes a new version beside the file. -/
def draft (s : SnapshotFile) (ms : List Metric) : Except StoreError Unit × SnapshotFile :=
  let (r, d) := Snapshot.draft s.disk s.path ms
  (r, { s with disk := d })

/-- Moves the new version over the file. -/
def publish (s : SnapshotFile) : Except StoreError Unit × SnapshotFile :=
  let (r, d) := Snapshot.publish s.disk s.path
  (r, { s with disk := d })

/-- Replaces the metrics in the file. -/
def persist (s : SnapshotFile) (ms : List Metric) : Except StoreError Unit × SnapshotFile :=
  let (r, d) := Snapshot.persist s.disk s.path ms
  (r, { s with disk := d })

theorem persist_eq (s : SnapshotFile) (ms : List Metric) :
    s.persist ms = match s.draft ms with
      | (.error e, s) => (.error e, s)
      | (.ok (), s) => s.publish := by
  simp only [persist, draft, publish, Snapshot.persist]
  split <;> simp_all

/-- Merges metrics into the table of the file. That is, of several records with one key, the
last. -/
def saveAll (s : SnapshotFile) (ms : List Metric) :
    Except StoreError (List Metric) × SnapshotFile :=
  match s.load with
  | (.error e, s) => (.error e, s)
  | (.ok stored, s) =>
    match (Table.ofList stored).applyAll ms with
    | (.error e, _) => (.error e, s)
    | (.ok saved, t) =>
      match s.persist t.entries with
      | (.error e, s) => (.error e, s)
      | (.ok (), s) => (.ok saved, s)

/-- The steps of merging metrics, each on what the steps before it left: the file is read, a new
version is written beside it, and the new version is moved over it. -/
def merging (ms : List Metric) : Procedure SnapshotFile (Except StoreError (List Metric)) :=
  .call load fun
    | .error e => .done (.error e)
    | .ok stored =>
      match (Table.ofList stored).applyAll ms with
      | (.error e, _) => .done (.error e)
      | (.ok saved, t) =>
        .call (fun s => s.draft t.entries) fun
          | .error e => .done (.error e)
          | .ok () => .call publish fun r => .done (r.map fun _ => saved)

/-- Without anyone in between the steps amount to the operation. -/
theorem run_merging (s : SnapshotFile) (ms : List Metric) : (merging ms).run s = s.saveAll ms := by
  simp only [merging, saveAll, Procedure.run_call]
  rcases s.load with ⟨_ | stored, s⟩
  · rfl
  · rcases h : (Table.ofList stored).applyAll ms with ⟨_ | saved, t⟩
    · simp [h]
    · simp only [h, Procedure.run_call, persist_eq]
      rcases s.draft t.entries with ⟨_ | ⟨⟩, s⟩
      · rfl
      · simp only [Procedure.run_call, Procedure.run_done]
        rcases s.publish with ⟨_ | ⟨⟩, s⟩ <;> rfl

/-- Merges one metric. -/
def save (s : SnapshotFile) (m : Metric) : Except StoreError Metric × SnapshotFile :=
  match s.saveAll [m] with
  | (.error e, s) => (.error e, s)
  | (.ok saved, s) =>
    match saved.getLast? with
    | some m => (.ok m, s)
    | none => (.error (.invalidRow m.id "merge produced no record"), s)

/-- The first record with a key. -/
def get (s : SnapshotFile) (k : Key) : Except StoreError (Option Metric) × SnapshotFile :=
  let (r, s) := s.load
  (r.map fun ms => ms.find? fun m => m.key = k, s)

/-- All records in the order of their keys; records with one key keep their order. -/
def getAll (s : SnapshotFile) : Except StoreError (List Metric) × SnapshotFile :=
  let (r, s) := s.load
  (r.map fun ms => ms.mergeSort fun a b => (compare a.key b.key).isLE, s)

end SnapshotFile
end Telemetry
