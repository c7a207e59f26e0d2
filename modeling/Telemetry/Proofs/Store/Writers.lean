import Telemetry.Proofs.Store.Locks
import Telemetry.Proofs.Store.Upkeep

/-!
# Writers at the same time

Any number of callers save metrics at the same time. On a file each of them holds the lock of the
file while it reads the file, merges its metrics and replaces the file. On a table that is saved at
once each holds the lock of the table from the change to the end, and the lock of the file as well
while the file is replaced. Nothing gets lost, whichever of the steps fail: the calls come to the
same as if they were made one after the other.

## Main definitions

* `Telemetry.SnapshotFile.locked`, `Telemetry.PersistentTable.locked` — a call with its locks

## Main results

* `Telemetry.PersistentTable.run_committing` — without anyone in between the steps amount to the
  call
* `Telemetry.writers_serialized` — any calls in any course
-/

namespace Telemetry

open PersistentTable (Saving)

/-- A call that saves metrics in a file. -/
def SnapshotFile.locked (call : Saving) : Script SnapshotFile (Except StoreError (List Metric)) :=
  .under .file (.of (merging call.metrics))

namespace PersistentTable

/-- The steps of a call while it has the lock of the table. The metrics that are written are taken
down before the file is locked. -/
def committing (call : Saving) : Script PersistentTable (Except StoreError (List Metric)) :=
  .call (fun m => (((m.begin call.change).1, m.table), (m.begin call.change).2)) fun
    | (.error e, checkpoint) => .of (abandoning checkpoint e)
    | (.ok saved, checkpoint) =>
      .call takeDown fun ms =>
        (Script.under .file (.of (drafting ms))).bind fun
          | .error e => .of (abandoning checkpoint e)
          | .ok () => .done (.ok saved)

/-- A call that saves metrics in a table and its file. -/
def locked (call : Saving) : Script PersistentTable (Except StoreError (List Metric)) :=
  .under .table (committing call)

/-- Without anyone in between the steps amount to the call. -/
theorem run_committing (call : Saving) {m : PersistentTable} (hm : m.policy = .immediate) :
    (committing call).run m = m.fulfil call := by
  rw [fulfil_eq, write, hm, committing, Script.run_call]
  rcases m.begin call.change with ⟨_ | saved, n⟩
  · rfl
  · -- what was taken down is what the table still holds
    have hflush : (drafting n.getAll).run n = n.flush := n.run_flushing
    simp only [Script.run_call, takeDown, Script.run_bind, Script.run_under, Script.run_of, hflush]
    rcases n.flush with ⟨_ | ⟨⟩, n⟩ <;> rfl

/-- The lock of the file is given back before that of the table, whatever comes of the change. -/
theorem balanced_committing (call : Saving) : (committing call).Balanced .table [] [] := by
  refine Script.balanced_call ?_
  rintro ⟨e | saved, checkpoint⟩
  · exact Script.balanced_of .table [] _
  · refine Script.balanced_call fun ms => ?_
    refine Script.Balanced.bind (.under nofun List.not_mem_nil (Script.balanced_of _ _ _)) ?_
    rintro (e | ⟨⟩)
    · exact Script.balanced_of .table [] _
    · rfl

end PersistentTable

/-- **Writers that run at the same time lose nothing.** Whatever course any calls take, on a file or
on a table that is saved at once, and whatever fails, their results, the file and the table are
those of the calls made one after the other, in the order in which they get the lock. -/
theorem writers_serialized (table : Table) (file : SnapshotFile) (calls : List Saving)
    (steps : List ℕ) :
    let m : PersistentTable := ⟨table, file, .immediate⟩
    Locked.Serializes .file (fun call s => s.fulfil call) calls file
        ((Locked.create file (calls.map SnapshotFile.locked)).run steps) ∧
      Locked.Serializes .table (fun call m => m.fulfil call) calls m
        ((Locked.create m (calls.map PersistentTable.locked)).run steps) := by
  intro m
  constructor
  · refine Locked.serializes_run (P := fun _ => True) (fun call => Script.balanced_of _ _ _)
      (fun call s _ => ⟨?_, trivial⟩) trivial calls steps
    rw [Script.run_of, SnapshotFile.run_merging, SnapshotFile.fulfil_eq]
  · refine Locked.serializes_run (P := fun m => m.policy = .immediate)
      PersistentTable.balanced_committing (fun call n hn => ⟨?_, ?_⟩) rfl calls steps
    · exact PersistentTable.run_committing call hn
    · rw [n.fulfil_eq]
      exact (n.write_cases hn call.change).1

/-- Two deltas for one counter. The second call is the first to get the lock of the table, and then
that of the file. -/
example :
    let polls : Metric := ⟨"polls", .counter 1⟩
    let m : PersistentTable := ⟨.empty, ⟨["metrics.json"], {}⟩, .immediate⟩
    let calls : List Saving := [.one polls, .one polls]
    let c := (Locked.create m (calls.map PersistentTable.locked)).run
      [1, 0, 1, 1, 0, 1, 1, 1, 0, 1, 1, 0, 0, 0, 0, 0, 0, 0, 0]
    c.order .table = [1, 0] ∧ c.order .file = [1, 0] ∧
      c.state.table.entries = [⟨"polls", .counter 2⟩] ∧
      c.state.file.bytes = some (Snapshot.format [⟨"polls", .counter 2⟩]) := by
  decide +kernel

end Telemetry
