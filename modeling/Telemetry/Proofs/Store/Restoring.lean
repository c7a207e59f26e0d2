import Telemetry.Proofs.Store.Persistent
import Telemetry.Proofs.Store.Soundness
import Telemetry.Proofs.Store.Steps

/-!
# Restoring what was written

Once a table has been written to its snapshot file, the file holds that table until another one is
written, whatever fails in between: a file that is replaced altogether or not at all, behind
directories that stay. Whoever opens the file next gets the table back, key by key and counter by
counter, and a level next to each level.

A change that is abandoned while it is saved may be left in the table and not in the file, or in
both. So the table may have grown since the file was written, by such changes and by no others.

## Main definitions

* `Telemetry.Snapshot.Holds` — a file that was written and can be opened
* `Telemetry.Table.Resembles` — a table that was written and read
* `Telemetry.Table.GrowsBy` — a table into which some batches have been merged
* `Telemetry.PersistentTable.Goes` — what a step may make of a table with a file

## Main results

* `Telemetry.Snapshot.holds_of_persist`, `Telemetry.Snapshot.Holds.persist` — the file after it was
  replaced, and after it was not
* `Telemetry.PersistentTable.goes_writeFor` — the file after any change of the table, also after one
  that was abandoned on its way
* `Telemetry.Snapshot.Holds.restore` — what another table takes from the file
-/

namespace Telemetry

/-! ### A file that was written -/

namespace Disk

/-- A write to a path leaves the way to any path that is no longer. -/
theorem way_write (d : Disk) {p q : Path} (hlen : q.length ≤ p.length) (b : Bytes) :
    (d.write p b).2.way [] q = d.way [] q := by
  refine way_congr fun ms n rest hq => ?_
  have hne : ms ≠ p := by
    rintro rfl
    rw [hq, List.length_append, List.length_cons] at hlen
    omega
  rw [List.nil_append]
  rcases d.write_cases p b with ⟨-, e, h, hsame⟩ | ⟨f, e, h, hsame⟩
  · rw [h, find?_set_of_ne _ hne, hsame]
  · rw [h, hsame ms hne]

/-- A move that fails leaves the way to any path. -/
theorem way_rename_of_error {d e : Disk} {p q : Path} {f : DiskFault}
    (h : d.rename p q = (.error f, e)) (r : Path) : e.way [] r = d.way [] r := by
  rcases d.rename_cases p q with ⟨-, e', x, hmove, -⟩ | ⟨f', e', hmove, hsame⟩
  · rw [hmove] at h
    cases h
  · rw [hmove] at h
    cases h
    exact way_congr fun ms _ _ _ => congrFun hsame _

end Disk

namespace Snapshot

/-- The snapshot file at a path holds these metrics, and the way to it is open. -/
structure Holds (d : Disk) (p : Path) (ms : List Metric) : Prop where
  contents : d.contents p = some (format ms)
  way : d.way [] p = .ok ()

variable {d e : Disk} {p : Path} {ms ns : List Metric}

/-- A file that was replaced holds the metrics. -/
theorem holds_of_persist (h : persist d p ms = (.ok (), e)) : Holds e p ms :=
  ⟨contents_of_persist h, way_of_persist h⟩

/-- A new version beside the file leaves the file what it holds. -/
theorem Holds.draft (hold : Holds d p ms) (ns : List Metric) : Holds (draft d p ns).2 p ms := by
  refine ⟨(draft_cases d p ns).2.trans hold.contents, ?_⟩
  rw [← hold.way, ← d.way_write (Nat.le_of_eq (length_temporary p).symm) (format ns),
    Snapshot.draft]
  rcases d.write (temporary p) (format ns) with ⟨_ | ⟨⟩, d'⟩ <;> rfl

/-- A file that could not be replaced holds what it held. -/
theorem Holds.persist (hold : Holds d p ms) {f : StoreError}
    (h : Snapshot.persist d p ns = (.error f, e)) : Holds e p ms := by
  refine ⟨(contents_of_persist_error h).trans hold.contents, ?_⟩
  have hdraft := (hold.draft ns).way
  rw [Snapshot.persist] at h
  split at h
  · rename_i hd
    cases h
    rwa [hd] at hdraft
  · rename_i hd
    rw [hd] at hdraft
    rw [publish] at h
    split at h
    · cases h
    · rename_i hmove
      cases h
      rw [Disk.way_rename_of_error hmove]
      exact hdraft

/-- **A file that was written loads**, unless the disk refuses to read it. -/
theorem Holds.load (hold : Holds d p ms) (hsound : ∀ m ∈ ms, m.isSound)
    (hnext : d.next.1 = none) :
    ∃ ms', (load d p).1 = .ok ms' ∧ List.Forall₂ Metric.ReadsAs ms ms' := by
  obtain ⟨ms', hread⟩ := Metric.exists_forall₂_readsAs hsound
  refine ⟨ms', ?_, hread⟩
  rw [load_of_contents hold.contents hold.way hnext, parse_format hread]

end Snapshot

/-! ### Tables that were written and read -/

/-- The second table is what is read when the first was written: the same keys, the same counters,
and for each level what its text is read as. -/
structure Table.Resembles (t u : Table) : Prop where
  reads : List.Forall₂ Metric.ReadsAs t.entries u.entries
  keys : u.entries.map Metric.key = t.entries.map Metric.key
  counters : ∀ id, u.get? ⟨id, .counter⟩ = t.get? ⟨id, .counter⟩

theorem Table.get?_counter_of_forall₂ {ms ns : List Metric}
    (h : List.Forall₂ Metric.ReadsAs ms ns) (id : String) :
    ns.find? (fun m => m.key = ⟨id, .counter⟩) = ms.find? fun m => m.key = ⟨id, .counter⟩ := by
  induction h with
  | nil => rfl
  | @cons m m' ms ns hm _ ih =>
    rw [List.find?_cons, List.find?_cons, hm.key_eq, ih]
    by_cases hkey : m.key = ⟨id, .counter⟩
    · obtain ⟨id', x | n⟩ := m
      · cases hkey
      · rw [hm.eq_of_counter]
    · rw [decide_eq_false hkey]

theorem Table.resembles_of_forall₂ {t : Table} {ms : List Metric}
    (h : List.Forall₂ Metric.ReadsAs t.entries ms) : t.Resembles (.ofList ms) := by
  have hentries := entries_ofList (precedes_of_forall₂ h)
  refine ⟨by rwa [hentries], by rw [hentries, Metric.map_key_of_forall₂ h], fun id => ?_⟩
  rw [get?, hentries, get?_counter_of_forall₂ h, get?]

/-- **Another table takes back from the file what was written.** -/
theorem Snapshot.Holds.restore {d : Disk} {p : Path} {t : Table} (hold : Holds d p t.entries)
    (ht : t.Sound) (hnext : d.next.1 = none) (policy : SavePolicy) :
    ∃ count n, (PersistentTable.create ⟨p, d⟩ policy).restore = (.ok count, n) ∧
      t.Resembles n.table := by
  obtain ⟨ms, hload, hread⟩ := hold.load ht hnext
  have hfile : (SnapshotFile.load ⟨p, d⟩).1 = .ok ms := hload
  rcases hloaded : SnapshotFile.load ⟨p, d⟩ with ⟨r, file⟩
  rw [hloaded] at hfile
  subst hfile
  refine ⟨ms.length, ⟨.ofList ms, file, policy⟩, ?_, Table.resembles_of_forall₂ hread⟩
  simp only [PersistentTable.restore, PersistentTable.create, hloaded]
  rfl

/-! ### Tables that have grown -/

namespace Table

/-- Some of the batches have been merged into the table in their order, each of them whole. -/
def GrowsBy (t : Table) (batches : List (List Metric)) (u : Table) : Prop :=
  ∃ (merged : List (List Metric)) (rs : List Metric),
    merged.Sublist batches ∧ t.Merges merged.flatten rs u

variable {t u v : Table} {bs cs : List (List Metric)}

theorem growsBy_refl (t : Table) (bs : List (List Metric)) : t.GrowsBy bs t :=
  ⟨[], [], List.nil_sublist _, .nil t⟩

theorem GrowsBy.trans (h : t.GrowsBy bs u) (hu : u.GrowsBy cs v) : t.GrowsBy (bs ++ cs) v := by
  obtain ⟨merged, rs, hmerged, hmerges⟩ := h
  obtain ⟨merged', rs', hmerged', hmerges'⟩ := hu
  refine ⟨merged ++ merged', rs ++ rs', hmerged.append hmerged', ?_⟩
  rw [List.flatten_append]
  exact hmerges.append hmerges'

theorem GrowsBy.mono (h : t.GrowsBy bs u) (hsub : bs.Sublist cs) : t.GrowsBy cs u := by
  obtain ⟨merged, rs, hmerged, hmerges⟩ := h
  exact ⟨merged, rs, hmerged.trans hsub, hmerges⟩

theorem GrowsBy.eq_of_nil (h : t.GrowsBy [] u) : u = t := by
  obtain ⟨merged, rs, hmerged, hmerges⟩ := h
  obtain rfl := List.sublist_nil.mp hmerged
  exact hmerges.eq_of_nil

end Table

namespace PersistentTable

/-! ### Changes of a table with a file -/

/-- The file of a table holds the entries of a table, perhaps of an earlier one. -/
def Holds (m : PersistentTable) (t : Table) : Prop :=
  Snapshot.Holds m.file.disk m.file.path t.entries

variable {α : Type} {m n : PersistentTable} {bs cs : List (List Metric)} {ms : List Metric}
  {written : Bool}

/-- A flush that succeeds puts the table into the file. -/
theorem holds_flush (h : m.flush.1 = .ok ()) : m.flush.2.Holds m.table :=
  Snapshot.holds_of_persist (Prod.ext h rfl)

/-- After a flush that fails, the file holds what it held. -/
theorem Holds.flush {t : Table} (hold : m.Holds t) {e : StoreError}
    (h : m.flush.1 = .error e) : m.flush.2.Holds t :=
  Snapshot.Holds.persist hold (Prod.ext h rfl)

/-- What a step may make of a table with a file. If it puts the table into the file, the file holds
the new table. If it does not, the file holds what it held, and a table that is saved at once has
grown by a change that was abandoned, if at all. -/
structure Goes (m : PersistentTable) (written : Bool) (unfinished : List (List Metric))
    (n : PersistentTable) : Prop where
  policy : n.policy = m.policy
  sound : m.table.Sound → n.table.Sound
  fresh : written = true → n.Holds n.table
  kept : written = false → ∀ t, m.Holds t → n.Holds t
  table : written = false → m.policy = .immediate → m.table.GrowsBy unfinished n.table

theorem goes_refl (m : PersistentTable) (bs : List (List Metric)) : m.Goes false bs m :=
  ⟨rfl, id, nofun, fun _ _ hold => hold, fun _ _ => m.table.growsBy_refl bs⟩

theorem Goes.mono (h : m.Goes written bs n) (hsub : bs.Sublist cs) : m.Goes written cs n :=
  { h with table := fun hwritten hpolicy => (h.table hwritten hpolicy).mono hsub }

/-- Once the file is written there is nothing left unfinished. -/
theorem Goes.finished (h : m.Goes true bs n) : m.Goes true cs n :=
  { h with table := nofun }

/-! #### Step by step -/

/-- The table alone is changed. -/
theorem goes_change {u : Table} (hsound : m.table.Sound → u.Sound)
    (hgrows : m.table.GrowsBy bs u) : m.Goes false bs { m with table := u } :=
  ⟨rfl, hsound, nofun, fun _ _ hold => hold, fun _ _ => hgrows⟩

/-- A new version is written beside the file. -/
theorem Goes.draft (h : m.Goes false bs n) : m.Goes false bs n.draft.2 :=
  ⟨h.policy, h.sound, nofun, fun _ t hold => (h.kept rfl t hold).draft _, fun _ => h.table rfl⟩

/-- The table is put into the file, or that fails. -/
theorem Goes.flush (h : m.Goes false bs n) : m.Goes n.flush.1.isOk bs n.flush.2 where
  policy := h.policy
  sound := h.sound
  fresh hok := by
    cases hflush : n.flush.1 with
    | ok => exact holds_flush hflush
    | error e =>
      rw [hflush] at hok
      cases hok
  kept hfail t hold := by
    cases hflush : n.flush.1 with
    | ok =>
      rw [hflush] at hfail
      cases hfail
    | error e => exact (h.kept rfl t hold).flush hflush
  table _ := h.table rfl

/-- The table that was there is put back. -/
theorem Goes.rollBack (h : m.Goes false bs n) : m.Goes false cs (n.rollBack m.table) :=
  ⟨h.policy, id, nofun, h.kept, fun _ _ => m.table.growsBy_refl cs⟩

/-! #### Changes -/

/-- What a change does to a table that accepts it. -/
theorem goes_of_merges {change : Change α} (hchange : m.table.Sound → (change m.table).2.Sound)
    (hmerges : ∀ a u, change m.table = (.ok a, u) → ∃ rs, m.table.Merges ms rs u) {a : α}
    {u : Table} (h : change m.table = (.ok a, u)) : m.Goes false [ms] { m with table := u } := by
  obtain ⟨rs, hu⟩ := hmerges a u h
  rw [h] at hchange
  refine goes_change hchange ⟨[ms], rs, List.Sublist.refl _, ?_⟩
  rwa [List.flatten_singleton]

/-- What a change makes of a table with a file if nobody abandons it. -/
theorem goes_write (m : PersistentTable) {change : Change α}
    (hchange : m.table.Sound → (change m.table).2.Sound)
    (hmerges : ∀ a u, change m.table = (.ok a, u) → ∃ rs, m.table.Merges ms rs u) :
    m.Goes (decide (m.policy = .immediate) && (m.write change).1.isOk) [] (m.write change).2 := by
  cases hpolicy : m.policy with
  | every seconds =>
    have hwrite : m.write change = m.begin change := by simp only [write, hpolicy]
    have hnever : decide (SavePolicy.every seconds = .immediate) = false := rfl
    rw [hwrite, hnever, Bool.false_and]
    refine ⟨rfl, hchange, fun h => absurd h Bool.false_ne_true, fun _ _ hold => hold, fun _ h => ?_⟩
    rw [hpolicy] at h
    cases h
  | immediate =>
    rw [decide_eq_true rfl, Bool.true_and]
    rcases m.write_course hpolicy change with ⟨e, u, -, hw⟩ | ⟨a, u, hc, hcourse⟩
    · rw [hw]
      exact m.goes_refl []
    · have hflush := (goes_of_merges hchange hmerges hc).flush
      rcases hcourse with ⟨n, hf, hw⟩ | ⟨f, n, hf, hw⟩ <;> rw [hf] at hflush <;> rw [hw]
      · exact hflush.finished
      · exact hflush.rollBack

/-- How far the writing of the file has come after some steps. The second one moves the new version
over the file. -/
theorem Goes.persisting (h : m.Goes false bs n) (a : α) (k : ℕ) :
    m.Goes (n.flush.1.isOk && decide (2 ≤ k)) bs
      ((PersistentTable.persisting m.table a).stateAfter k n) := by
  match k with
  | 0 =>
    rw [Procedure.stateAfter_zero, decide_eq_false (by decide), Bool.and_false]
    exact h
  | 1 =>
    rw [decide_eq_false (by decide), Bool.and_false, PersistentTable.persisting,
      Procedure.stateAfter_call, Procedure.stateAfter_zero]
    exact h.draft
  | k + 2 =>
    rw [decide_eq_true (by omega), Bool.and_true, PersistentTable.persisting,
      Procedure.stateAfter_call]
    have hflush := h.flush
    rcases hdraft : n.draft with ⟨e | ⟨⟩, n'⟩
    · have hfail : n.flush = (.error e, n') := by rw [flush_eq, hdraft]
      rw [hfail] at hflush ⊢
      dsimp only
      rw [stateAfter_abandoning]
      exact hflush.rollBack
    · have hmove : n.flush = n'.publish := by rw [flush_eq, hdraft]
      rw [hmove] at hflush ⊢
      dsimp only
      rw [Procedure.stateAfter_call]
      rcases hpublish : n'.publish with ⟨e | ⟨⟩, n''⟩ <;> rw [hpublish] at hflush <;> dsimp only
      · cases k with
        | zero =>
          rw [Procedure.stateAfter_zero]
          exact hflush
        | succ k =>
          rw [stateAfter_abandoning]
          exact hflush.rollBack
      · rw [Procedure.stateAfter_done]
        exact hflush

/-- How far a change that is saved at once has come after some steps. -/
theorem goes_saving (m : PersistentTable) (hm : m.policy = .immediate) {change : Change α}
    (hchange : m.table.Sound → (change m.table).2.Sound)
    (hmerges : ∀ a u, change m.table = (.ok a, u) → ∃ rs, m.table.Merges ms rs u) (k : ℕ) :
    m.Goes ((m.write change).1.isOk && decide (3 ≤ k)) [ms] ((saving change).stateAfter k m) := by
  cases k with
  | zero =>
    rw [Procedure.stateAfter_zero, decide_eq_false (by decide), Bool.and_false]
    exact m.goes_refl _
  | succ k =>
    rw [saving, Procedure.stateAfter_call]
    rcases m.write_course hm change with ⟨e, u, hc, hw⟩ | ⟨a, u, hc, hcourse⟩
    · rw [hw, attempt_of_error hc, Procedure.stateAfter_done]
      exact m.goes_refl _
    · have hok : (m.write change).1.isOk
          = (PersistentTable.flush { m with table := u }).1.isOk := by
        rcases hcourse with ⟨n, hf, hw⟩ | ⟨f, n, hf, hw⟩ <;> rw [hf, hw] <;> rfl
      rw [hok, attempt_of_ok hc, decide_eq_decide.mpr Nat.succ_le_succ_iff]
      exact (goes_of_merges hchange hmerges hc).persisting a k

/-- Does a change that is waited for only so long come as far as moving the new version over the
file? That is its third step. -/
def publishesWithin (steps : Option ℕ) : Bool := steps.all fun k => decide (3 ≤ k)

/-- **All that a change may make of a table with a file**, however long it is waited for. -/
theorem goes_writeFor (m : PersistentTable) (steps : Option ℕ) {change : Change α}
    (hchange : m.table.Sound → (change m.table).2.Sound)
    (hmerges : ∀ a u, change m.table = (.ok a, u) → ∃ rs, m.table.Merges ms rs u) :
    m.Goes (decide (m.policy = .immediate) && ((m.write change).1.isOk && publishesWithin steps))
      (if steps.isSome then [ms] else []) (m.writeFor steps change).2 := by
  have hwhole := m.goes_write hchange hmerges
  cases steps with
  | none =>
    rw [publishesWithin, Option.all_none, Bool.and_true]
    exact hwhole
  | some k =>
    cases hpolicy : m.policy with
    | every seconds =>
      rw [hpolicy] at hwhole
      simp only [writeFor, hpolicy]
      exact hwhole.mono (List.nil_sublist _)
    | immediate =>
      simp only [writeFor, hpolicy]
      exact m.goes_saving hpolicy hchange hmerges k

end PersistentTable
end Telemetry
