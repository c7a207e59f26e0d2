import Telemetry.Backoff
import Telemetry.Store.Snapshot
/-!
# Persistent tables

The metrics are kept in a table in memory and in a snapshot file. A table that is saved at once
writes the file with every change and takes the change back if that fails, so that the table and
the file agree when it is done. A table that is saved at intervals changes in memory alone and
writes the file from time to time, and once more at the end.

A change that is saved at once waits for its turn and for the disk, and whoever made it may be gone
in the meantime. Then its remaining steps are not done, and if the table has been changed already,
nobody takes the change back.

## Main definitions

* `Telemetry.SavePolicy`, `Telemetry.PersistentTable`
* `Telemetry.PersistentTable.write`: a change under the policy, made of the steps `begin`, `flush`
  and `rollBack`.
* `Telemetry.PersistentTable.save`, `Telemetry.PersistentTable.saveAll`,
  `Telemetry.PersistentTable.get?`, `Telemetry.PersistentTable.getAll`,
  `Telemetry.PersistentTable.restore`
* `Telemetry.PersistentTable.writing`, `Telemetry.PersistentTable.saving`: the steps of a change
  that is saved at once, one by one, and from one wait to the next.
* `Telemetry.PersistentTable.writeFor`: a change that is waited for only so long.
* `Telemetry.SaveTimer`: the timer of a table that is saved at intervals.
-/

namespace Telemetry

/-- When the file is written. -/
inductive SavePolicy where
  | immediate
  | every (seconds : Nat)
  deriving DecidableEq, Repr

/-- No interval means with every change. -/
def SavePolicy.ofSeconds (n : Nat) : SavePolicy := if n = 0 then .immediate else .every n

/-- A table in memory and its snapshot file. -/
structure PersistentTable where
  table : Table
  file : SnapshotFile
  policy : SavePolicy

namespace PersistentTable

/-- A table that has nothing in it yet, whatever its file holds. -/
def create (file : SnapshotFile) (policy : SavePolicy) : PersistentTable := ⟨.empty, file, policy⟩

/-- A change of the table that may be refused. -/
abbrev Change (α : Type) := Table → Except StoreError α × Table

variable {α : Type}

/-- Writes the table to the file. -/
def flush (m : PersistentTable) : Except StoreError Unit × PersistentTable :=
  let (r, file) := m.file.persist m.table.entries
  (r, { m with file })

/-- Makes a change in the table alone. -/
def begin (m : PersistentTable) (change : Change α) : Except StoreError α × PersistentTable :=
  let (r, table) := change m.table
  (r, { m with table })

/-- Puts an earlier table back. -/
def rollBack (m : PersistentTable) (checkpoint : Table) : PersistentTable :=
  { m with table := checkpoint }

/-- Makes a change under the policy. -/
def write (m : PersistentTable) (change : Change α) : Except StoreError α × PersistentTable :=
  match m.policy with
  | .every _ => m.begin change
  | .immediate =>
    match m.begin change with
    | (.error e, changed) => (.error e, changed.rollBack m.table)
    | (.ok a, changed) =>
      match changed.flush with
      | (.error e, flushed) => (.error e, flushed.rollBack m.table)
      | (.ok (), flushed) => (.ok a, flushed)

/-- Writes a new version of the file beside it. -/
def draft (m : PersistentTable) : Except StoreError Unit × PersistentTable :=
  let (r, file) := m.file.draft m.table.entries
  (r, { m with file })

/-- Moves the new version over the file. -/
def publish (m : PersistentTable) : Except StoreError Unit × PersistentTable :=
  let (r, file) := m.file.publish
  (r, { m with file })

theorem flush_eq (m : PersistentTable) :
    m.flush = match m.draft with
      | (.error e, m) => (.error e, m)
      | (.ok (), m) => m.publish := by
  simp only [flush, draft, publish, SnapshotFile.persist_eq]
  split <;> simp_all

/-- The steps of putting an earlier table back after a failure. -/
def abandoning (checkpoint : Table) (e : StoreError) :
    Procedure PersistentTable (Except StoreError α) :=
  .call (fun m => ((), m.rollBack checkpoint)) fun _ => .done (.error e)

@[simp] theorem stateAfter_abandoning (checkpoint : Table) (e : StoreError) (n : Nat)
    (m : PersistentTable) :
    (abandoning (α := α) checkpoint e).stateAfter (n + 1) m = m.rollBack checkpoint := by
  rw [abandoning, Procedure.stateAfter_call, Procedure.stateAfter_done]

/-- The steps that follow when the table is changed: a new version of the file is written beside it
and moved over it, and if one of the two fails the earlier table is put back. -/
def persisting (checkpoint : Table) (a : α) : Procedure PersistentTable (Except StoreError α) :=
  .call draft fun
    | .error e => abandoning checkpoint e
    | .ok () => .call publish fun
      | .error e => abandoning checkpoint e
      | .ok () => .done (.ok a)

/-- The steps of a change that is saved at once: the table is changed and the file is written, and
after a failure the earlier table is put back. -/
def writing (change : Change α) : Procedure PersistentTable (Except StoreError α) :=
  .call (fun m => (((m.begin change).1, m.table), (m.begin change).2)) fun
    | (.error e, checkpoint) => abandoning checkpoint e
    | (.ok a, checkpoint) => persisting checkpoint a

/-- Without anyone in between the steps amount to the operation. -/
theorem run_writing (m : PersistentTable) (change : Change α) (h : m.policy = .immediate) :
    (writing change).run m = m.write change := by
  simp only [writing, persisting, write, h, abandoning, Procedure.run_call, flush_eq]
  rcases m.begin change with ⟨_ | a, n⟩
  · rfl
  · simp only [Procedure.run_call]
    rcases n.draft with ⟨_ | ⟨⟩, n⟩
    · rfl
    · simp only [Procedure.run_call]
      rcases n.publish with ⟨_ | ⟨⟩, n⟩ <;> rfl

/-- Makes a change in the table, which is as it was if the change is refused. The earlier table is
kept in any case. -/
def attempt (change : Change α) (m : PersistentTable) :
    (Except StoreError α × Table) × PersistentTable :=
  match m.begin change with
  | (.error e, changed) => ((.error e, m.table), changed.rollBack m.table)
  | (.ok a, changed) => ((.ok a, m.table), changed)

/-- The steps of a change that is saved at once, from one wait for the disk to the next. A call can
be given up only while it waits, so a change that is refused is taken back in any case. -/
def saving (change : Change α) : Procedure PersistentTable (Except StoreError α) :=
  .call (attempt change) fun
    | (.error e, _) => .done (.error e)
    | (.ok a, checkpoint) => persisting checkpoint a

/-- The same steps as those of `writing`, but for the waits. -/
theorem run_saving (m : PersistentTable) (change : Change α) (h : m.policy = .immediate) :
    (saving change).run m = m.write change := by
  rw [← run_writing m change h]
  simp only [saving, writing, attempt, Procedure.run_call]
  rcases m.begin change with ⟨_ | a, n⟩ <;> rfl

/-- Makes a change under the policy, for as long as it is waited for: to its end, or only for a
number of steps. A change that is saved at once may not have returned by then; its remaining steps
are never done. Any other change waits for nothing. -/
def writeFor (m : PersistentTable) (steps : Option Nat) (change : Change α) :
    Ending StoreError α × PersistentTable :=
  match steps, m.policy with
  | some n, .immediate =>
    (match (saving change).resultAfter n m with
      | some r => .returned r
      | none => .abandoned, (saving change).stateAfter n m)
  | _, _ =>
    let (r, m) := m.write change
    (.returned r, m)

/-- Merges one metric. -/
def save (m : PersistentTable) (x : Metric) : Except StoreError Metric × PersistentTable :=
  m.write fun t => t.apply x

/-- Merges metrics in order. -/
def saveAll (m : PersistentTable) (xs : List Metric) :
    Except StoreError (List Metric) × PersistentTable :=
  m.write fun t => t.applyAll xs

/-- The metric with a key. Only the table is asked. -/
def get? (m : PersistentTable) (k : Key) : Option Metric := m.table.get? k

/-- All metrics in the order of their keys. -/
def getAll (m : PersistentTable) : List Metric := m.table.entries

/-- Takes the metrics of the file into the table, and says how many records there were. -/
def restore (m : PersistentTable) : Except StoreError Nat × PersistentTable :=
  match m.file.load with
  | (.error e, file) => (.error e, { m with file })
  | (.ok ms, file) => (.ok ms.length, { m with file, table := m.table.putAll ms })

end PersistentTable

/-- The timer of a table that is saved at intervals: when it is due next, and how far apart its
flushes are. Times are in milliseconds. -/
structure SaveTimer where
  due : Nat
  period : Nat
  deriving Repr

namespace SaveTimer

/-- A timer started at a moment; a table that is saved at once needs none. -/
def start? (policy : SavePolicy) (now : Nat) : Option SaveTimer :=
  match policy with
  | .immediate => none
  | .every n => some ⟨now + 1000 * n, 1000 * n⟩

/-- Flushes a number of times, whatever comes of it. -/
def flushes : Nat → PersistentTable → PersistentTable
  | 0, m => m
  | n + 1, m => flushes n m.flush.2

/-- How often the timer is due up to a moment. -/
def dueCount (f : SaveTimer) (now : Nat) : Nat :=
  if f.due ≤ now ∧ 0 < f.period then (now - f.due) / f.period + 1 else 0

/-- Lets time pass up to a moment. -/
def advance (f : SaveTimer) (now : Nat) (m : PersistentTable) : SaveTimer × PersistentTable :=
  let n := f.dueCount now
  ({ f with due := f.due + n * f.period }, flushes n m)

/-- The last flush of a timer that is stopped. -/
def stop (m : PersistentTable) : PersistentTable := m.flush.2

end SaveTimer
end Telemetry
