import Telemetry.Proofs.Store.Persistent
import Telemetry.Proofs.Store.Turn

/-!
# The steps of a change

A change of a table that is saved at once is made in the table first. Then a new version of the
file is written and moved over the file, and if one of the two fails the earlier table is put back.
Whoever looks at table and file in between sees the new table beside the old file, or whatever was
there before, or the new table in both.

## Main definitions

* `Telemetry.PersistentTable.Saving.change` — what a call does to the table
* `Telemetry.SnapshotFile.fulfil`, `Telemetry.PersistentTable.fulfil` — what comes of a call

## Main results

* `Telemetry.SnapshotFile.draft_cases`, `Telemetry.SnapshotFile.publish_cases` — the two operations
* `Telemetry.PersistentTable.persisting_keeps`, `Telemetry.PersistentTable.writing_keeps`,
  `Telemetry.PersistentTable.saving_keeps` — what there is to see between the steps, and in the end
* `Telemetry.PersistentTable.writeFor_cases` — a change that is waited for only so long
-/

namespace Telemetry

namespace SnapshotFile

open PersistentTable (Saving)

/-- What the file holds, if there is one. -/
def bytes (s : SnapshotFile) : Option Bytes := s.disk.contents s.path

/-- What the new version beside the file holds, if there is one. -/
def newBytes (s : SnapshotFile) : Option Bytes := s.disk.contents (Snapshot.temporary s.path)

/-- Writing a new version leaves the file, whether it succeeds or not. -/
theorem draft_cases (s : SnapshotFile) (ms : List Metric) :
    (s.draft ms).2.path = s.path ∧ (s.draft ms).2.bytes = s.bytes ∧
      ((s.draft ms).1 = .ok () ∧ (s.draft ms).2.newBytes = some (Snapshot.format ms) ∨
        ∃ f, (s.draft ms).1 = .error (.disk f)) := by
  obtain ⟨hcases, hfile⟩ := Snapshot.draft_cases s.disk s.path ms
  refine ⟨rfl, hfile, ?_⟩
  rcases hcases with ⟨e, h, hnew⟩ | ⟨f, e, h⟩
  · exact .inl (by simpa [draft, newBytes, h] using hnew)
  · exact .inr ⟨f, by simp [draft, h]⟩

/-- The new version becomes the file, or the file is as it was. -/
theorem publish_cases (s : SnapshotFile) {b : Bytes} (h : s.newBytes = some b) :
    s.publish.2.path = s.path ∧
      (s.publish.1 = .ok () ∧ s.publish.2.bytes = some b ∨
        ∃ f, s.publish.1 = .error (.disk f) ∧ s.publish.2.bytes = s.bytes) := by
  refine ⟨rfl, ?_⟩
  rcases Snapshot.publish_cases s.disk s.path h with ⟨e, h, hfile⟩ | ⟨f, e, h, hfile⟩
  · exact .inl (by simpa [publish, bytes, h] using hfile)
  · exact .inr ⟨f, by simpa [publish, bytes, h] using hfile⟩

/-- Reading the file leaves it. -/
theorem bytes_load (s : SnapshotFile) : s.load.2.bytes = s.bytes := by
  show (Snapshot.load s.disk s.path).2.contents s.path = s.disk.contents s.path
  rw [Snapshot.load_snd]
  exact Disk.contents_congr (s.disk.find?_next s.path)

/-! ### Calls of a file -/

/-- Fulfils a call. What is stored for a single metric counts as a list. -/
def fulfil (s : SnapshotFile) : Saving → Except StoreError (List Metric) × SnapshotFile
  | .one m => ((s.save m).1.map ([·]), (s.save m).2)
  | .batch ms => s.saveAll ms

theorem fulfil_eq (s : SnapshotFile) (call : Saving) : s.fulfil call = s.saveAll call.metrics := by
  cases call with
  | batch ms => rfl
  | one m =>
    simp only [fulfil, save, saveAll, Saving.metrics, Table.applyAll, Table.apply]
    rcases s.load with ⟨_ | stored, s⟩
    · rfl
    · dsimp only
      cases merge ((Table.ofList stored).get? m.key) m with
      | error e => rfl
      | ok r =>
        dsimp only
        rcases s.persist ((Table.ofList stored).put r).entries with ⟨_ | ⟨⟩, s⟩ <;> rfl

end SnapshotFile

namespace PersistentTable

variable {α : Type}

/-! ### Calls -/

/-- What came of calls that had the turn, with their numbers. -/
abbrev Past := List (ℕ × Option (Except StoreError (List Metric)))

/-- What a call does to the table. -/
def Saving.change (call : Saving) : Change (List Metric) := fun t => t.applyAll call.metrics

theorem Saving.change_eq_ok_iff {call : Saving} {t u : Table} {rs : List Metric} :
    call.change t = (.ok rs, u) ↔ t.Merges call.metrics rs u :=
  Table.applyAll_eq_ok_iff

/-- A call that saves one metric is made of the steps of its change. -/
theorem write_change_one (m : PersistentTable) (x : Metric) :
    m.write (Saving.one x).change = ((m.save x).1.map ([·]), (m.save x).2) := by
  have hchange : ∀ t : Table,
      (Saving.one x).change t = ((t.apply x).1.map ([·]), (t.apply x).2) := by
    intro t
    simp only [Saving.change, Saving.metrics, Table.applyAll, Table.apply]
    cases merge (t.get? x.key) x <;> rfl
  obtain ⟨t, file, policy⟩ := m
  cases policy with
  | every n => simp [save, write, begin, hchange]
  | immediate =>
    simp only [save, write, begin, hchange]
    rcases t.apply x with ⟨_ | r, u⟩
    · rfl
    · simp only [Except.map]
      rcases flush ⟨u, file, .immediate⟩ with ⟨_ | ⟨⟩, n⟩ <;> rfl

theorem write_change_batch (m : PersistentTable) (xs : List Metric) :
    m.write (Saving.batch xs).change = m.saveAll xs := rfl

/-- Fulfils a call. What is stored for a single metric counts as a list. -/
def fulfil (m : PersistentTable) : Saving → Except StoreError (List Metric) × PersistentTable
  | .one x => ((m.save x).1.map ([·]), (m.save x).2)
  | .batch xs => m.saveAll xs

theorem fulfil_eq (m : PersistentTable) (call : Saving) : m.fulfil call = m.write call.change := by
  cases call with
  | one x => exact (m.write_change_one x).symm
  | batch xs => exact (m.write_change_batch xs).symm

/-! ### Steps -/

/-- What there is to see while a change that is not refused is saved: table and file are as they
were, or the table is changed, and the file with it or not yet. -/
def UnderWay (change : Change α) (m n : PersistentTable) : Prop :=
  n.table = m.table ∧ n.bytes = m.bytes ∨
    (∃ a, change m.table = (.ok a, n.table)) ∧ (n.bytes = m.bytes ∨ n.Agrees)

/-- What comes of a change that is saved at once: it is made in the table and in the file, or in
neither of them. -/
def Settled (change : Change α) (m : PersistentTable) (r : Except StoreError α)
    (n : PersistentTable) : Prop :=
  (∃ a, r = .ok a ∧ change m.table = (.ok a, n.table) ∧ n.Agrees) ∨
    ∃ e, r = .error e ∧ n.table = m.table ∧ n.bytes = m.bytes

variable {change : Change α} {m n : PersistentTable}

theorem abandoning_keeps (e : StoreError) (hnow : UnderWay change m n)
    (hbytes : n.bytes = m.bytes) :
    (abandoning m.table e).Keeps (UnderWay change m) (Settled change m) n :=
  ⟨hnow, .inl ⟨rfl, hbytes⟩, .inr ⟨e, rfl, rfl, hbytes⟩⟩

theorem persisting_keeps {a : α} (htable : change m.table = (.ok a, n.table))
    (hbytes : n.bytes = m.bytes) :
    (persisting m.table a).Keeps (UnderWay change m) (Settled change m) n := by
  have hchanged : ∀ {n' : PersistentTable}, n'.table = n.table →
      n'.bytes = m.bytes ∨ n'.Agrees → UnderWay change m n' := fun h hfile =>
    .inr ⟨⟨a, by rw [htable, h]⟩, hfile⟩
  refine Procedure.keeps_call.mpr ⟨hchanged rfl (.inl hbytes), ?_⟩
  obtain ⟨-, hdraft, hnew⟩ := n.file.draft_cases n.table.entries
  have hdrafted : n.draft.2.bytes = m.bytes := hdraft.trans hbytes
  rcases hnew with ⟨hok, hnew⟩ | ⟨f, hfail⟩
  · rw [show n.draft.1 = .ok () from hok]
    refine Procedure.keeps_call.mpr ⟨hchanged rfl (.inl hdrafted), ?_⟩
    obtain ⟨-, ⟨hok, hfile⟩ | ⟨f, hfail, hfile⟩⟩ := n.draft.2.file.publish_cases hnew
    · rw [show n.draft.2.publish.1 = .ok () from hok]
      exact ⟨hchanged rfl (.inr hfile), .inl ⟨a, rfl, htable, hfile⟩⟩
    · rw [show n.draft.2.publish.1 = .error (.disk f) from hfail]
      have hpublished : n.draft.2.publish.2.bytes = m.bytes := hfile.trans hdrafted
      exact abandoning_keeps _ (hchanged rfl (.inl hpublished)) hpublished
  · rw [show n.draft.1 = .error (.disk f) from hfail]
    exact abandoning_keeps _ (hchanged rfl (.inl hdrafted)) hdrafted

/-- Whoever looks at the table meanwhile sees it before the change or after it. -/
theorem writing_keeps (change : Change α) (m : PersistentTable) :
    (writing change).Keeps (fun n => n.table = m.table ∨ n.table = (change m.table).2)
      (Settled change m) m := by
  rw [writing]
  refine Procedure.keeps_call.mpr ⟨.inl rfl, ?_⟩
  rcases hchange : change m.table with ⟨e | a, u⟩
  · have hbegin : m.begin change = (.error e, { m with table := u }) := by rw [begin, hchange]
    rw [hbegin]
    exact ⟨.inr rfl, .inl rfl, .inr ⟨e, rfl, rfl, rfl⟩⟩
  · have hbegin : m.begin change = (.ok a, { m with table := u }) := by rw [begin, hchange]
    rw [hbegin]
    refine (persisting_keeps (n := { m with table := u }) hchange rfl).imp (fun n hn => ?_)
      fun _ _ h => h
    rcases hn with ⟨h, -⟩ | ⟨⟨b, h⟩, -⟩
    · exact .inl h
    · rw [hchange] at h
      exact .inr (congrArg Prod.snd h).symm

theorem attempt_of_error {change : Change α} {m : PersistentTable} {e : StoreError} {u : Table}
    (h : change m.table = (.error e, u)) : attempt change m = ((.error e, m.table), m) := by
  rw [attempt, begin, h]
  rfl

theorem attempt_of_ok {change : Change α} {m : PersistentTable} {a : α} {u : Table}
    (h : change m.table = (.ok a, u)) :
    attempt change m = ((.ok a, m.table), { m with table := u }) := by
  rw [attempt, begin, h]

theorem saving_keeps (change : Change α) (m : PersistentTable) :
    (saving change).Keeps (UnderWay change m) (Settled change m) m := by
  refine Procedure.keeps_call.mpr ⟨.inl ⟨rfl, rfl⟩, ?_⟩
  rcases hchange : change m.table with ⟨e | a, u⟩
  · rw [attempt_of_error hchange]
    exact ⟨.inl ⟨rfl, rfl⟩, .inr ⟨e, rfl, rfl, rfl⟩⟩
  · rw [attempt_of_ok hchange]
    exact persisting_keeps (n := { m with table := u }) hchange rfl

/-! ### Changes that are waited for only so long -/

/-- A change that is waited for only so long comes to its end, or it is abandoned on the way. -/
theorem writeFor_cases (m : PersistentTable) (steps : Option ℕ) (change : Change α) :
    m.writeFor steps change = (.returned (m.write change).1, (m.write change).2) ∨
      m.policy = .immediate ∧ ∃ k, steps = some k ∧
        m.writeFor steps change = (.abandoned, (saving change).stateAfter k m) := by
  cases steps with
  | none => exact .inl rfl
  | some k =>
    cases hpolicy : m.policy with
    | every seconds => exact .inl (by simp only [writeFor, hpolicy])
    | immediate =>
      cases hresult : (saving change).resultAfter k m with
      | none => exact .inr ⟨rfl, k, rfl, by simp only [writeFor, hpolicy, hresult]⟩
      | some r =>
        have hrun := Procedure.run_of_resultAfter hresult
        rw [run_saving m change hpolicy] at hrun
        exact .inl (by simp only [writeFor, hpolicy, hresult, hrun])

/-- The table after a change that is waited for only so long is that of the change, or the change
was abandoned: then it has been made in the table, or not. -/
theorem writeFor_table (m : PersistentTable) (steps : Option ℕ) (change : Change α) :
    m.writeFor steps change = (.returned (m.write change).1, (m.write change).2) ∨
      (m.writeFor steps change).1 = .abandoned ∧
        ((m.writeFor steps change).2.table = m.table ∨
          ∃ a, change m.table = (.ok a, (m.writeFor steps change).2.table)) := by
  rcases m.writeFor_cases steps change with hwhole | ⟨-, k, -, hcut⟩
  · exact .inl hwhole
  · rw [hcut]
    refine .inr ⟨rfl, ?_⟩
    rcases (saving_keeps change m).stateAfter k with ⟨htable, -⟩ | ⟨hchange, -⟩
    · exact .inl htable
    · exact .inr hchange

end PersistentTable
end Telemetry
