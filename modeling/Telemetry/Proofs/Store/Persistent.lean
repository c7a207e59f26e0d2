import Telemetry.Store.Persistent
import Telemetry.Proofs.Store.Disk
import Telemetry.Proofs.Store.Merging

/-!
# A table that is saved at once

A change of a table that is saved at once is made altogether, in the table and in its file, or it
leaves both as they were. It is refused when the metrics cannot be merged, when the new version of
the file cannot be written and when it cannot be moved over the file.

## Main definitions

* `Telemetry.PersistentTable.bytes` — what the snapshot file holds
* `Telemetry.PersistentTable.Whole` — a change that is made altogether or not at all

## Main results

* `Telemetry.PersistentTable.write_course`, `Telemetry.PersistentTable.write_cases` — the course of
  a change, and all that can come of it
* `Telemetry.PersistentTable.save_whole` — single metrics and batches, whatever mishaps there are
* `Telemetry.PersistentTable.performAll_agrees` — table and file after any run of calls
-/

namespace Telemetry.PersistentTable

variable {α : Type}

/-- What the snapshot file of a table holds, if there is one. -/
def bytes (m : PersistentTable) : Option Bytes := m.file.disk.contents m.file.path

/-- The file of a table holds exactly its metrics. -/
def Agrees (m : PersistentTable) : Prop := m.bytes = some (Snapshot.format m.getAll)

/-! ### One change -/

/-- A flush puts the table into the file, or it fails and leaves the file. The table, the path and
the policy stay. -/
theorem flush_cases (m : PersistentTable) :
    ∃ d, (m.flush).2 = { m with file := { m.file with disk := d } } ∧
      ((m.flush.1 = .ok () ∧ m.flush.2.Agrees) ∨
        ∃ f, m.flush.1 = .error (.disk f) ∧ m.flush.2.bytes = m.bytes) := by
  rcases Snapshot.persist_cases m.file.disk m.file.path m.table.entries with
    ⟨d, h, hd⟩ | ⟨f, d, h, hd⟩
  · have hflush : m.flush = (.ok (), { m with file := { m.file with disk := d } }) := by
      simp [flush, SnapshotFile.persist, h]
    rw [hflush]
    exact ⟨d, rfl, .inl ⟨rfl, hd⟩⟩
  · have hflush : m.flush = (.error (.disk f), { m with file := { m.file with disk := d } }) := by
      simp [flush, SnapshotFile.persist, h]
    rw [hflush]
    exact ⟨d, rfl, .inr ⟨f, rfl, hd⟩⟩

/-- The course of a change that is saved at once: it is refused, or the new table is flushed, and
what was there is put back if that fails. -/
theorem write_course (m : PersistentTable) (hm : m.policy = .immediate) (change : Change α) :
    (∃ e u, change m.table = (.error e, u) ∧ m.write change = (.error e, m)) ∨
      ∃ a u, change m.table = (.ok a, u) ∧
        ((∃ n, flush { m with table := u } = (.ok (), n) ∧ m.write change = (.ok a, n)) ∨
          ∃ f n, flush { m with table := u } = (.error f, n) ∧
            m.write change = (.error f, n.rollBack m.table)) := by
  obtain ⟨t, file, policy⟩ := m
  obtain rfl : policy = .immediate := hm
  rcases hc : change t with ⟨e | a, u⟩
  · -- perhaps some metrics are in the table already
    exact .inl ⟨e, u, rfl, by simp only [write, begin, hc, rollBack]⟩
  · refine .inr ⟨a, u, rfl, ?_⟩
    rcases hf : flush ⟨u, file, .immediate⟩ with ⟨f | ⟨⟩, n⟩
    · exact .inr ⟨f, n, rfl, by simp only [write, begin, hc, hf]⟩
    · exact .inl ⟨n, rfl, by simp only [write, begin, hc, hf]⟩

/-- **All that can come of a change that is saved at once.** It is made, and the file holds exactly
the metrics, or it is not, and table and file are as they were. -/
theorem write_cases (m : PersistentTable) (hm : m.policy = .immediate) (change : Change α) :
    (m.write change).2.policy = .immediate ∧
      ((∃ a, (m.write change).1 = .ok a ∧ change m.table = (.ok a, (m.write change).2.table) ∧
          (m.write change).2.Agrees) ∨
        ∃ e, (m.write change).1 = .error e ∧ (m.write change).2.table = m.table ∧
          (m.write change).2.bytes = m.bytes) := by
  rcases m.write_course hm change with ⟨e, u, -, hw⟩ | ⟨a, u, hc, hcourse⟩
  · rw [hw]
    exact ⟨hm, .inr ⟨e, rfl, rfl, rfl⟩⟩
  · obtain ⟨d, hframe, hflush⟩ := flush_cases { m with table := u }
    rcases hcourse with ⟨n, hf, hw⟩ | ⟨f, n, hf, hw⟩
    · rw [hf] at hframe hflush
      obtain ⟨-, hagrees⟩ | ⟨f, hfail, -⟩ := hflush
      · rw [hw]
        cases hframe
        exact ⟨hm, .inl ⟨a, rfl, hc, hagrees⟩⟩
      · cases hfail
    · rw [hf] at hframe hflush
      obtain ⟨hok, -⟩ | ⟨f', -, hbytes⟩ := hflush
      · cases hok
      · rw [hw]
        cases hframe
        exact ⟨hm, .inr ⟨f, rfl, rfl, hbytes⟩⟩

/-! ### Merging -/

/-- A call is made altogether or not at all. If it returns, its result and the new table are as
`merged` says and the file holds exactly the metrics. If it fails, the metrics, all of them and
the one under each key, and the file are as they were. -/
def Whole (m : PersistentTable) (merged : α → Table → Prop) :
    Except StoreError α × PersistentTable → Prop
  | (.ok a, n) => merged a n.table ∧ n.bytes = some (Snapshot.format n.getAll)
  | (.error _, n) => n.getAll = m.getAll ∧ (∀ k, n.get? k = m.get? k) ∧ n.bytes = m.bytes

theorem write_whole (m : PersistentTable) (hm : m.policy = .immediate) {change : Change α}
    {merged : α → Table → Prop}
    (h : ∀ a u, change m.table = (.ok a, u) → merged a u) : m.Whole merged (m.write change) := by
  obtain ⟨-, hcases⟩ := m.write_cases hm change
  rcases hw : m.write change with ⟨r, n⟩
  rw [hw] at hcases
  rcases hcases with ⟨a, rfl, hc, hagrees⟩ | ⟨e, rfl, htable, hbytes⟩
  · exact ⟨h a n.table hc, hagrees⟩
  · exact ⟨by rw [getAll, htable, getAll], fun k => by rw [get?, htable, get?], hbytes⟩

/-- **Saving is transactional.** Whatever the table, the file and the mishaps to come are, a metric
or a batch is merged in order and the file holds exactly all metrics, or everything is as it was,
also when the batch breaks off in the middle. -/
theorem save_whole (table : Table) (file : SnapshotFile) :
    let m : PersistentTable := ⟨table, file, .immediate⟩
    (∀ x, m.Whole (fun r u => table.Merges [x] [r] u) (m.save x)) ∧
      ∀ xs, m.Whole (fun rs u => table.Merges xs rs u) (m.saveAll xs) := by
  intro m
  refine ⟨fun x => ?_, fun xs => ?_⟩
  · exact m.write_whole rfl fun r u h => Table.apply_eq_ok_iff.mp h
  · exact m.write_whole rfl fun rs u h => Table.applyAll_eq_ok_iff.mp h

/-! ### Any run of calls -/

/-- A call that saves metrics. -/
inductive Saving where
  | one (x : Metric)
  | batch (xs : List Metric)

/-- The metrics of a call. -/
def Saving.metrics : Saving → List Metric
  | .one x => [x]
  | .batch xs => xs

/-- A call: whether it returns, and what it leaves behind. -/
def perform (m : PersistentTable) : Saving → Bool × PersistentTable
  | .one x => ((m.save x).1.isOk, (m.save x).2)
  | .batch xs => ((m.saveAll xs).1.isOk, (m.saveAll xs).2)

/-- What calls made one after the other leave behind. -/
def performAll (m : PersistentTable) (calls : List Saving) : PersistentTable :=
  calls.foldl (fun m c => (m.perform c).2) m

/-- The metrics of those calls that return. -/
def accepted (m : PersistentTable) : List Saving → List Metric
  | [] => []
  | c :: calls =>
    (if (m.perform c).1 then c.metrics else []) ++ accepted (m.perform c).2 calls

/-- What a call does that is saved at once, as `write_cases` says of any change. -/
theorem perform_cases (m : PersistentTable) (hm : m.policy = .immediate) (c : Saving) :
    (m.perform c).2.policy = .immediate ∧
      (((m.perform c).1 = true ∧ (m.perform c).2.Agrees ∧
          ∃ rs, m.table.Merges c.metrics rs (m.perform c).2.table) ∨
        ((m.perform c).1 = false ∧ (m.perform c).2.table = m.table ∧
          (m.perform c).2.bytes = m.bytes)) := by
  cases c with
  | one x =>
    obtain ⟨hpolicy, ⟨r, hok, happly, hagrees⟩ | ⟨e, hfail, hkept⟩⟩ :=
      m.write_cases hm fun t => t.apply x
    · exact ⟨hpolicy, .inl ⟨congrArg Except.isOk hok, hagrees, [r],
        Table.apply_eq_ok_iff.mp happly⟩⟩
    · exact ⟨hpolicy, .inr ⟨congrArg Except.isOk hfail, hkept⟩⟩
  | batch xs =>
    obtain ⟨hpolicy, ⟨rs, hok, happly, hagrees⟩ | ⟨e, hfail, hkept⟩⟩ :=
      m.write_cases hm fun t => t.applyAll xs
    · exact ⟨hpolicy, .inl ⟨congrArg Except.isOk hok, hagrees, rs,
        Table.applyAll_eq_ok_iff.mp happly⟩⟩
    · exact ⟨hpolicy, .inr ⟨congrArg Except.isOk hfail, hkept⟩⟩

/-- **After any run of calls**, successes and failures mixed, the table is what the metrics of the
calls that returned merge to, and the file holds exactly the table unless nothing has changed. -/
theorem performAll_agrees (m : PersistentTable) (hm : m.policy = .immediate)
    (calls : List Saving) :
    (∃ rs, m.table.Merges (m.accepted calls) rs (m.performAll calls).table) ∧
      ((m.performAll calls).Agrees ∨
        (m.performAll calls).table = m.table ∧ (m.performAll calls).bytes = m.bytes) := by
  induction calls generalizing m with
  | nil => exact ⟨⟨[], .nil _⟩, .inr ⟨rfl, rfl⟩⟩
  | cons c calls ih =>
    obtain ⟨hpolicy, hstep⟩ := m.perform_cases hm c
    obtain ⟨⟨rs, hmerges⟩, hfile⟩ := ih (m.perform c).2 hpolicy
    have hrun : m.performAll (c :: calls) = (m.perform c).2.performAll calls := rfl
    rw [hrun]
    rcases hstep with ⟨hok, hagrees, qs, hfirst⟩ | ⟨hfail, htable, hbytes⟩
    · rw [accepted, hok, if_pos rfl]
      refine ⟨⟨qs ++ rs, hfirst.append hmerges⟩, .inl ?_⟩
      rcases hfile with hfile | ⟨ht, hb⟩
      · exact hfile
      · rw [Agrees, hb, getAll, ht]
        exact hagrees
    · rw [accepted, hfail, if_neg Bool.false_ne_true, List.nil_append, ← htable]
      refine ⟨⟨rs, hmerges⟩, ?_⟩
      rcases hfile with hfile | ⟨ht, hb⟩
      · exact .inl hfile
      · exact .inr ⟨ht, hb.trans hbytes⟩

end Telemetry.PersistentTable
