import Telemetry.Proofs.Metric.Roundtrip
import Telemetry.Proofs.Store.Refinement
import Telemetry.Proofs.Store.Restoring

/-!
# A snapshot file against a table in memory

A store that reads its file for every call and writes it for every change gives the answers of a
table in memory, call by call, but for what a refused batch leaves: the table keeps the metrics
before the refused one, the file keeps none of them. The file stands for the table all along: its
bytes are read as the entries of the table, in order and with distinct keys.

## Main definitions

* `Telemetry.SnapshotFile.respond`, `Telemetry.SnapshotFile.answers` — the store as callers see it
* `Telemetry.SnapshotFile.StandsFor` — a file that stands for a table

## Main results

* `Telemetry.Snapshot.persist_of_calm` — without mishaps, a file is replaced
* `Telemetry.SnapshotFile.StandsFor.respond` — one call
* `Telemetry.SnapshotFile.refines_memory` — any sequence of calls
-/

namespace Telemetry

/-! ### Directories -/

namespace Disk

theorem find?_erase_self (d : Disk) {p : Path} (h : p ≠ []) : (d.erase p).find? p = none := by
  rw [find?, if_neg h, erase, List.lookup_eq_none_iff]
  intro e he
  have hne : e.1 ≠ p := of_decide_eq_true (List.mem_filter.mp he).2
  exact bne_iff_ne.mpr hne.symm

/-- The way to a path does not depend on its last name. -/
theorem way_concat (d : Disk) (reached : Path) (ns : List String) (n m : String) :
    d.way reached (ns ++ [n]) = d.way reached (ns ++ [m]) := by
  induction ns generalizing reached with
  | nil =>
    simp only [List.nil_append, way]
  | cons k ns ih =>
    simp only [List.cons_append, way, ih]

/-- The way into a directory is as open as the way to it. -/
theorem way_into {d : Disk} {reached : Path} {ns : List String} (hway : d.way reached ns = .ok ())
    (hdir : d.find? (reached ++ ns) = some .directory) (n : String) :
    d.way reached (ns ++ [n]) = .ok () := by
  induction ns generalizing reached with
  | nil =>
    rw [List.append_nil] at hdir
    simp only [List.nil_append, way, hdir]
  | cons k ns ih =>
    rw [way] at hway
    split at hway
    · rename_i hreached
      rw [List.cons_append, way, hreached]
      exact ih hway (by rwa [List.append_cons] at hdir)
    · cases hway
    · cases hway

/-- Making directories keeps what there is, and makes a directory of every path on the way. -/
theorem makeDirsFrom_ok {d e : Disk} {reached : Path} {ns : List String}
    (h : d.makeDirsFrom reached ns = (.ok (), e)) (hreached : d.find? reached = some .directory) :
    e.mishaps = d.mishaps ∧ (∀ q x, d.find? q = some x → e.find? q = some x) ∧
      (∀ q, (reached ++ ns).length < q.length → e.find? q = d.find? q) ∧
      e.way reached ns = .ok () ∧ e.find? (reached ++ ns) = some .directory := by
  induction ns generalizing d reached with
  | nil =>
    cases h
    exact ⟨rfl, fun _ _ hx => hx, fun _ _ => rfl, rfl, by rwa [List.append_nil]⟩
  | cons n ns ih =>
    rw [makeDirsFrom] at h
    have hassoc : reached ++ n :: ns = (reached ++ [n]) ++ ns := by simp
    have hne : reached ++ [n] ≠ [] := by simp
    split at h
    · rename_i hdir
      obtain ⟨hmishaps, hkept, hlong, hway, hlast⟩ := ih h hdir
      refine ⟨hmishaps, hkept, by rwa [hassoc], ?_, by rwa [hassoc]⟩
      simpa only [way, hkept _ _ hreached] using hway
    · cases h
    · rename_i hnone
      obtain ⟨hmishaps, hkept, hlong, hway, hlast⟩ :=
        ih h (d.find?_set_self hne .directory)
      have hset : ∀ q x, d.find? q = some x → e.find? q = some x := by
        intro q x hq
        refine hkept q x ?_
        rw [d.find?_set_of_ne _ _, hq]
        rintro rfl
        rw [hnone] at hq
        cases hq
      refine ⟨hmishaps, hset, fun q hq => ?_, ?_, by rwa [hassoc]⟩
      · rw [hlong q (by rwa [hassoc] at hq), d.find?_set_of_ne]
        rintro rfl
        simp at hq
      · simpa only [way, hset _ _ hreached] using hway

end Disk

/-! ### A file that is replaced -/

namespace Snapshot

variable {d : Disk} {p : Path}

/-- The way to the new version is the way to the file. -/
theorem way_temporary (d : Disk) (p : Path) : d.way [] (temporary p) = d.way [] p := by
  rcases List.eq_nil_or_concat p with rfl | ⟨dir, name, rfl⟩
  · rfl
  · simp only [temporary, List.concat_eq_append, List.getLast?_append, List.getLast?_singleton,
      Option.some_or, List.dropLast_concat]
    exact d.way_concat [] dir _ _

/-- **Without mishaps a file is replaced**, if the way to it is open and no directory stands in its
place or in that of the new version. Nothing is left beside it. -/
theorem persist_of_calm (hcalm : d.mishaps = []) (hway : d.way [] p = .ok ())
    (hplace : d.find? p ≠ some .directory) (htemporary : d.find? (temporary p) ≠ some .directory)
    (ms : List Metric) :
    ∃ e, persist d p ms = (.ok (), e) ∧ e.mishaps = [] ∧ e.find? p = some (.file (format ms)) ∧
      e.find? (temporary p) = none := by
  have hp : p ≠ [] := by
    rintro rfl
    exact hplace rfl
  have hne := temporary_ne hp
  have hroot := temporary_ne_nil hp
  have hnext : ∀ e : Disk, e.mishaps = [] → e.next = (none, e) := by
    intro e he
    rw [Disk.next, he]
  have hopen : d.way [] (temporary p) = .ok () := by rw [way_temporary, hway]
  have hwrite : d.write (temporary p) (format ms)
      = (.ok (), d.set (temporary p) (.file (format ms))) := by
    simp only [Disk.write, hnext d hcalm, hopen, if_neg htemporary]
  -- the new version is there, and what the move needs is as it was
  set drafted := d.set (temporary p) (.file (format ms)) with hdrafted
  have hcalm' : drafted.mishaps = [] := hcalm
  have hway' : drafted.way [] p = .ok () := by
    have hkept := d.way_write (Nat.le_of_eq (length_temporary p).symm) (format ms)
    rw [hwrite] at hkept
    exact hkept.trans hway
  have hnew : drafted.find? (temporary p) = some (.file (format ms)) := d.find?_set_self hroot _
  have hold : drafted.find? p ≠ some .directory := by
    rwa [hdrafted, d.find?_set_of_ne hne.symm]
  have hmove : drafted.rename (temporary p) p
      = (.ok (), (drafted.erase (temporary p)).set p (.file (format ms))) := by
    -- `hold` is what rules out the refusal
    simp only [Disk.rename, hnext drafted hcalm', way_temporary, hway', hnew]
  refine ⟨(drafted.erase (temporary p)).set p (.file (format ms)), ?_, hcalm',
    Disk.find?_set_self _ hp _, ?_⟩
  · simp only [persist, draft, hwrite, publish, hmove]
  · rw [Disk.find?_set_of_ne _ hne, Disk.find?_erase_self _ hroot]

end Snapshot

/-! ### Metrics that are read as themselves -/

/-- The metric is sound, and its value is read back from its text. -/
def Metric.Lasts (m : Metric) : Prop := m.isSound ∧ m.value.Survives

theorem Metric.Lasts.readsAs {m : Metric} (h : m.Lasts) : m.ReadsAs m :=
  .refl (isSound_iff.mp h.1).1 h.2

/-- A sum of counters lasts, and what is only replaced lasts with the metric that replaces it. -/
theorem mergeKeeps_lasts : Table.MergeKeeps Metric.Lasts := by
  intro current m r h hm
  refine ⟨isSound_of_merge h hm.1, ?_⟩
  simp only [merge] at h
  split at h
  · split at h
    · cases h
      exact Value.survives_counter _
    · cases h
  · cases h
    exact hm.2

/-! ### Calls -/

namespace SnapshotFile

/-- Answers a call. -/
def respond (s : SnapshotFile) : Call → Answer × SnapshotFile
  | .save m => (s.save m).map (.saved ∘ .returned) id
  | .saveAll ms => (s.saveAll ms).map (.savedAll ∘ .returned) id
  | .get k => (s.get k).map (.found ∘ .returned) id
  | .getAll => s.getAll.map (.listed ∘ .returned) id

/-- The answers to calls, one after the other. -/
def answers : SnapshotFile → List Call → List Answer
  | _, [] => []
  | s, q :: qs => (s.respond q).1 :: answers (s.respond q).2 qs

/-- What calls leave, one after the other. -/
def afterAll (s : SnapshotFile) (calls : List Call) : SnapshotFile :=
  calls.foldl (fun s q => (s.respond q).2) s

/-- On a disk without mishaps, the file stands for a table: it is missing and the table is empty, or
its bytes are read as the entries of the table, all of which last. -/
structure StandsFor (s : SnapshotFile) (t : Table) : Prop where
  calm : s.disk.mishaps = []
  way : s.disk.way [] s.path = .ok ()
  vacant : s.disk.find? (Snapshot.temporary s.path) ≠ some .directory
  bytes : (s.disk.find? s.path = none ∧ t = .empty) ∨
    ∃ b, s.disk.find? s.path = some (.file b) ∧ Snapshot.parse b = .ok t.entries
  lasts : t.All Metric.Lasts

variable {s : SnapshotFile} {t : Table}

/-- The file is read as the entries of the table, and reading it changes nothing. -/
theorem StandsFor.load (h : s.StandsFor t) : s.load = (.ok t.entries, s) := by
  have hnext : s.disk.next = (none, s.disk) := by rw [Disk.next, h.calm]
  rcases h.bytes with ⟨hnone, rfl⟩ | ⟨b, hfile, hparse⟩
  · have hread : s.disk.read s.path = (.error .missing, s.disk) := by
      simp only [Disk.read, hnext, h.way, hnone]
    simp only [SnapshotFile.load, Snapshot.load, hread]
    rfl
  · have hread : s.disk.read s.path = (.ok b, s.disk) := by
      simp only [Disk.read, hnext, h.way, hfile]
    simp only [SnapshotFile.load, Snapshot.load, hread, hparse]

/-- A table whose entries last is written to the file, which stands for it then. -/
theorem StandsFor.persist (h : s.StandsFor t) {u : Table} (hu : u.All Metric.Lasts) :
    ∃ s', s.persist u.entries = (.ok (), s') ∧ s'.StandsFor u := by
  have hplace : s.disk.find? s.path ≠ some .directory := by
    rcases h.bytes with ⟨hnone, -⟩ | ⟨b, hfile, -⟩
    · rw [hnone]
      exact nofun
    · rw [hfile]
      exact nofun
  obtain ⟨e, hpersist, hcalm, hfile, htemporary⟩ :=
    Snapshot.persist_of_calm h.calm h.way hplace h.vacant u.entries
  refine ⟨⟨s.path, e⟩, by simp only [SnapshotFile.persist, hpersist], hcalm,
    Snapshot.way_of_persist hpersist, ?_, .inr ⟨_, hfile, ?_⟩, hu⟩
  · rw [htemporary]
    exact nofun
  · exact Snapshot.parse_format (List.forall₂_same.mpr fun m hm => (hu m hm).readsAs)

/-- **A batch that is refused changes nothing; one that is not is merged into the table.** -/
theorem StandsFor.saveAll (h : s.StandsFor t) {ms : List Metric} (hms : ∀ m ∈ ms, m.Lasts) :
    (∃ e, (t.applyAll ms).1 = .error e ∧ s.saveAll ms = (.error e, s)) ∨
      ∃ rs s', (t.applyAll ms).1 = .ok rs ∧ s.saveAll ms = (.ok rs, s') ∧
        s'.StandsFor (t.applyAll ms).2 := by
  have htable : Table.ofList t.entries = t := Table.ext (Table.entries_ofList t.sorted)
  have hlasts := Table.All.applyAll mergeKeeps_lasts h.lasts hms
  rcases happly : t.applyAll ms with ⟨e | rs, u⟩
  · exact .inl ⟨e, rfl, by simp only [SnapshotFile.saveAll, h.load, htable, happly]⟩
  · rw [happly] at hlasts
    obtain ⟨s', hpersist, hs'⟩ := h.persist hlasts
    refine .inr ⟨rs, s', rfl, ?_, hs'⟩
    simp only [SnapshotFile.saveAll, h.load, htable, happly, hpersist]

/-- One metric is merged as into the table. -/
theorem StandsFor.save (h : s.StandsFor t) {m : Metric} (hm : m.Lasts) :
    ∃ s', s.save m = ((t.apply m).1, s') ∧ s'.StandsFor (t.apply m).2 := by
  have hms : ∀ x ∈ [m], x.Lasts := by simpa using hm
  cases hmerge : merge (t.get? m.key) m with
  | error e =>
    have happly : t.apply m = (.error e, t) := by rw [Table.apply, hmerge]
    rcases h.saveAll hms with ⟨e', hrefused, hsave⟩ | ⟨rs, s', hok, -, -⟩
    · rw [Table.applyAll_cons_of_error hmerge] at hrefused
      cases hrefused
      exact ⟨s, by rw [SnapshotFile.save, hsave, happly], by rwa [happly]⟩
    · rw [Table.applyAll_cons_of_error hmerge] at hok
      cases hok
  | ok r =>
    have happly : t.apply m = (.ok r, t.put r) := by rw [Table.apply, hmerge]
    have hall : t.applyAll [m] = (.ok [r], t.put r) :=
      Table.applyAll_eq_ok_iff.mpr (.cons hmerge (.nil _))
    rcases h.saveAll hms with ⟨e, hrefused, -⟩ | ⟨rs, s', hok, hsave, hs'⟩
    · rw [hall] at hrefused
      cases hrefused
    · rw [hall] at hok hs'
      cases hok
      exact ⟨s', by rw [SnapshotFile.save, hsave, happly]; rfl, by rwa [happly]⟩

/-- **A call is answered as by the table that the file stands for**, and afterwards it stands for
the table that is left. -/
theorem StandsFor.respond (h : s.StandsFor t) {q : Call} (hq : ∀ m ∈ q.metrics, m.Lasts) :
    ∃ a s' t', s.respond q = (a, s') ∧
      (Store.memory t).respondWhole none q = (a, .memory t') ∧ s'.StandsFor t' := by
  cases q with
  | save m =>
    obtain ⟨s', hsave, hs'⟩ := h.save (hq m List.mem_cons_self)
    exact ⟨_, s', _, by rw [SnapshotFile.respond, hsave]; rfl, rfl, hs'⟩
  | saveAll ms =>
    have hms : ∀ m ∈ ms, m.Lasts := hq
    rcases h.saveAll hms with ⟨e, hrefused, hsave⟩ | ⟨rs, s', hok, hsave, hs'⟩
    · refine ⟨_, s, t, by rw [SnapshotFile.respond, hsave]; rfl, ?_, h⟩
      rcases happly : t.applyAll ms with ⟨_ | _, u⟩ <;> rw [happly] at hrefused <;> cases hrefused
      simp [Store.respondWhole, Store.respond, Store.saveAll, happly]
    · refine ⟨_, s', _, by rw [SnapshotFile.respond, hsave]; rfl, ?_, hs'⟩
      rcases happly : t.applyAll ms with ⟨_ | _, u⟩ <;> rw [happly] at hok <;> cases hok
      simp [Store.respondWhole, Store.respond, Store.saveAll, happly]
  | get k =>
    refine ⟨_, s, t, ?_, rfl, h⟩
    simp only [SnapshotFile.respond, SnapshotFile.get, h.load]
    rfl
  | getAll =>
    refine ⟨_, s, t, ?_, rfl, h⟩
    simp only [SnapshotFile.respond, SnapshotFile.getAll, h.load, Except.map,
      Relation.mergeSort_eq_entries (List.Perm.refl t.entries)]
    rfl

/-! ### Any sequence of calls -/

theorem StandsFor.answers (h : s.StandsFor t) {calls : List Call}
    (hcalls : ∀ q ∈ calls, ∀ m ∈ q.metrics, m.Lasts) :
    s.answers calls = Store.answers (Store.respondWhole none) (.memory t) calls ∧
      ∃ u, (s.afterAll calls).StandsFor u := by
  induction calls generalizing s t with
  | nil => exact ⟨rfl, t, h⟩
  | cons q qs ih =>
    obtain ⟨a, s', t', hfile, hmemory, hnext⟩ := h.respond (hcalls q List.mem_cons_self)
    obtain ⟨hanswers, hleft⟩ := ih hnext fun x hx => hcalls x (List.mem_cons_of_mem _ hx)
    rw [SnapshotFile.answers, Store.answers, hfile, hmemory, hanswers]
    refine ⟨rfl, ?_⟩
    rw [afterAll, List.foldl_cons, hfile]
    exact hleft

/-- A store that is made for a missing or blank file stands for the empty table, if no directory
stands in the place of the new version. -/
theorem standsFor_of_create {p : Path} {d : Disk} (hcreate : create p d = .ok s)
    (hcalm : d.mishaps = [])
    (hfile : d.find? p = none ∨ ∃ b, d.find? p = some (.file b) ∧ b.all Bytes.isBlank = true)
    (hvacant : d.find? (Snapshot.temporary p) ≠ some .directory) : s.StandsFor .empty := by
  rw [create] at hcreate
  split at hcreate
  · rename_i e hdirs
    cases hcreate
    obtain ⟨dir, name, rfl⟩ : ∃ dir name, p = dir ++ [name] := by
      rcases List.eq_nil_or_concat p with rfl | ⟨dir, name, hp⟩
      · rcases hfile with hnone | ⟨b, hb, -⟩
        · rw [Disk.find?_root] at hnone
          cases hnone
        · rw [Disk.find?_root] at hb
          cases hb
      · exact ⟨dir, name, by rwa [List.concat_eq_append] at hp⟩
    rw [Disk.makeDirs, List.dropLast_concat] at hdirs
    obtain ⟨hmishaps, -, hlong, hway, hdir⟩ := Disk.makeDirsFrom_ok hdirs d.find?_root
    have hsame : ∀ q : Path, q.length = dir.length + 1 → e.find? q = d.find? q := fun q hq =>
      hlong q (by simp [hq])
    have hplace := hsame (dir ++ [name]) (by simp)
    have hbeside := hsame (Snapshot.temporary (dir ++ [name]))
      (by rw [Snapshot.length_temporary, List.length_append, List.length_singleton])
    refine ⟨hmishaps.trans hcalm, ?_, by rwa [hbeside], ?_, Table.all_empty⟩
    · exact Disk.way_into hway hdir name
    · rw [hplace]
      refine hfile.imp (fun hnone => ⟨hnone, rfl⟩) ?_
      rintro ⟨b, hb, hblank⟩
      exact ⟨b, hb, by rw [Snapshot.parse, if_pos hblank]; rfl⟩
  · cases hcreate

/-- **A snapshot file gives the answers of a table in memory** to any calls with metrics that last,
from a missing or a blank file on and without mishaps, but for what a refused batch leaves: it
changes nothing at all. After any calls the file is there for the next one, and it can be read. -/
theorem refines_memory {p : Path} {d : Disk} (hcreate : create p d = .ok s)
    (hcalm : d.mishaps = [])
    (hfile : d.find? p = none ∨ ∃ b, d.find? p = some (.file b) ∧ b.all Bytes.isBlank = true)
    (hvacant : d.find? (Snapshot.temporary p) ≠ some .directory) {calls : List Call}
    (hcalls : ∀ q ∈ calls, ∀ m ∈ q.metrics, m.isSound ∧ m.value.Survives) :
    s.answers calls = Store.answers (Store.respondWhole none) (.memory .empty) calls ∧
      (∃ ms, (s.afterAll calls).load.1 = .ok ms) ∧
      ∀ ms : List Metric, (∀ m ∈ ms, m.isSound ∧ m.value.Survives) → ∀ e,
        ((s.afterAll calls).saveAll ms).1 = .error e →
          (∃ m ∈ ms, e = .overflow m.id) ∧
            ((s.afterAll calls).saveAll ms).2 = s.afterAll calls := by
  obtain ⟨hanswers, u, hu⟩ :=
    (standsFor_of_create hcreate hcalm hfile hvacant).answers hcalls
  refine ⟨hanswers, ⟨u.entries, congrArg Prod.fst hu.load⟩, fun ms hms e he => ?_⟩
  rcases hu.saveAll hms with ⟨e', hrefused, hsave⟩ | ⟨rs, s', -, hsave, -⟩
  · rw [hsave] at he ⊢
    cases he
    exact ⟨Table.exists_overflow_of_applyAll hrefused, rfl⟩
  · rw [hsave] at he
    cases he

/-- A file of blanks in a directory, and the calls of `Store.overflowing`: a batch that overflows at
its second metric leaves its first metric to a table in memory, but not to the file. -/
theorem refines_memory_overflowing :
    let d : Disk :=
      { entries := [(["data", "metrics.json"], .file [32, 10]), (["data"], .directory)] }
    let p : Path := ["data", "metrics.json"]
    create p d = .ok ⟨p, d⟩ ∧ d.mishaps = [] ∧
      d.find? (Snapshot.temporary p) ≠ some .directory ∧
      (∀ q ∈ Store.overflowing, ∀ m ∈ q.metrics, m.isSound ∧ m.value.Survives) ∧
      (answers ⟨p, d⟩ Store.overflowing
        = Store.answers (Store.respondWhole none) (.memory .empty) Store.overflowing) ∧
      ∃ ms, (afterAll ⟨p, d⟩ Store.overflowing).load.1 = .ok ms := by
  intro d p
  have hcreate : create p d = .ok ⟨p, d⟩ := rfl
  have hfile : d.find? p = none ∨
      ∃ b, d.find? p = some (.file b) ∧ b.all Bytes.isBlank = true :=
    .inr ⟨_, rfl, rfl⟩
  have hvacant : d.find? (Snapshot.temporary p) ≠ some .directory := by decide
  have hcalls : ∀ q ∈ Store.overflowing, ∀ m ∈ q.metrics, m.isSound ∧ m.value.Survives := by
    simp [Store.overflowing, Call.metrics, Metric.isSound, Value.isFinite,
      Value.survives_counter]
  obtain ⟨hanswers, hload, -⟩ := refines_memory hcreate rfl hfile hvacant hcalls
  exact ⟨hcreate, rfl, hvacant, hcalls, hanswers, hload⟩

end SnapshotFile
end Telemetry
