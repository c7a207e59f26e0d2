import Telemetry.Proofs.Store.Representation
import Telemetry.Proofs.Store.Soundness

/-!
# The readers of a snapshot file

The records of a snapshot file are read in four ways. A lookup takes the first record with a key, a
listing has all records in the order of their keys, and what is merged into the file, like a table
that is restored from it, starts from the last record with each key. A file that comes from
somewhere else may have different records with one key; all readers tell of one table just if it
has none. What has been written from a table never has any.

## Main definitions

* `Telemetry.SnapshotFile.commit` — the end of a change: what was merged is written
* `Telemetry.SnapshotFile.Reads` — what each reader makes of the records
* `Telemetry.SnapshotFile.Shows` — all readers tell of one table

## Main results

* `Telemetry.Table.get?_ofList` — the table of a list has the last metric for each key
* `Telemetry.SnapshotFile.reads_of_load` — any records
* `Telemetry.SnapshotFile.exists_shows_iff` — records of which all readers say the same
* `Telemetry.SnapshotFile.exists_shows_of_persist` — a file that has been written from a table
-/

namespace Telemetry

/-! ### The table of a list -/

namespace Table

theorem get?_putAll (t : Table) (ms : List Metric) (k : Key) :
    (t.putAll ms).get? k = (ms.reverse.find? fun m => m.key = k).or (t.get? k) := by
  induction ms generalizing t with
  | nil => rfl
  | cons m ms ih =>
    -- the metrics that come later hide the first one
    have hcons : t.putAll (m :: ms) = (t.put m).putAll ms := rfl
    rw [hcons, ih, get?_put, List.reverse_cons, List.find?_append, Option.or_assoc]
    by_cases hk : m.key = k <;> simp [hk]

/-- **The table of a list has the last metric for each key.** -/
theorem get?_ofList (ms : List Metric) (k : Key) :
    (ofList ms).get? k = ms.reverse.find? fun m => m.key = k := by
  rw [ofList, get?_putAll]
  simp [get?, empty]

end Table

namespace Unambiguous

variable {ms : List Metric}

/-- The last metric for a key is then the first as well. -/
theorem get?_ofList (h : Unambiguous ms) (k : Key) :
    (Table.ofList ms).get? k = ms.find? fun m => m.key = k := by
  refine Option.ext fun m => ?_
  rw [Table.get?_ofList, (h.of_perm ms.reverse_perm).find?_eq_some_iff, h.find?_eq_some_iff,
    List.mem_reverse]

theorem mem_iff_get?_ofList (h : Unambiguous ms) (m : Metric) :
    m ∈ ms ↔ (Table.ofList ms).get? m.key = some m := by
  rw [h.get?_ofList, h.find?_eq_some_iff, and_iff_left rfl]

end Unambiguous

namespace SnapshotFile

variable {s : SnapshotFile} {ms : List Metric}

/-! ### Any records -/

/-- The end of a change: what has been merged is written, unless it was refused. -/
def commit (s : SnapshotFile) :
    Except StoreError (List Metric) × Table → Except StoreError (List Metric) × SnapshotFile
  | (.error e, _) => (.error e, s)
  | (.ok saved, t) =>
    match s.persist t.entries with
    | (.error e, s) => (.error e, s)
    | (.ok (), s) => (.ok saved, s)

/-- What each reader makes of the records of a file. -/
structure Reads (s : SnapshotFile) (ms : List Metric) : Prop where
  /-- A lookup finds the first record with the key. -/
  first : ∀ k, (s.get k).1 = .ok (ms.find? fun m => m.key = k)
  /-- A listing has all records in the order of their keys, those with one key as they stand. -/
  listed : ∃ ns, s.getAll.1 = .ok ns ∧ ns.Perm ms ∧
    (ns.Pairwise fun a b => (compare a.key b.key).isLE) ∧
    ∀ k, ns.filter (fun m => m.key = k) = ms.filter fun m => m.key = k
  /-- Metrics are merged into the table of the records. -/
  merged : ∀ xs, s.saveAll xs = s.load.2.commit ((Table.ofList ms).applyAll xs)
  /-- A table that is restored is the same. -/
  restored : ∀ policy, (PersistentTable.create s policy).restore
    = (.ok ms.length, ⟨.ofList ms, s.load.2, policy⟩)
  /-- It has the last record with each key. -/
  last : ∀ k, (Table.ofList ms).get? k = ms.reverse.find? fun m => m.key = k

theorem reads_of_load (h : s.load.1 = .ok ms) : s.Reads ms := by
  obtain ⟨s', hload⟩ : ∃ s', s.load = (.ok ms, s') := ⟨s.load.2, Prod.ext h rfl⟩
  refine ⟨fun k => ?_, ⟨_, ?_, ms.mergeSort_perm _, pairwise_mergeSort_key ms,
    filter_mergeSort_key ms⟩, fun xs => ?_, fun policy => ?_, Table.get?_ofList ms⟩
  · simp only [get, hload, Except.map]
  · simp only [getAll, hload, Except.map]
  · simp only [saveAll, hload]
    rcases (Table.ofList ms).applyAll xs with ⟨_ | saved, t⟩ <;> rfl
  · simp only [PersistentTable.restore, PersistentTable.create, hload]
    rfl

/-! ### Records of which all readers say the same -/

/-- All readers of a file tell of one table. -/
structure Shows (s : SnapshotFile) (t : Table) : Prop where
  /-- A lookup finds what the table has under the key. -/
  lookup : ∀ k, (s.get k).1 = .ok (t.get? k)
  /-- A listing has what the table has under any key. -/
  listing : ∃ ns, s.getAll.1 = .ok ns ∧ ∀ m, m ∈ ns ↔ t.get? m.key = some m
  /-- Metrics are merged into the table. -/
  merged : ∀ xs, s.saveAll xs = s.load.2.commit (t.applyAll xs)
  /-- A table that is restored is this one. -/
  restored : ∀ policy, (PersistentTable.create s policy).restore.2.table = t

theorem Reads.shows (h : s.Reads ms) (hms : Unambiguous ms) : s.Shows (.ofList ms) where
  lookup k := by rw [h.first, hms.get?_ofList]
  listing := by
    obtain ⟨ns, hall, hperm, -⟩ := h.listed
    refine ⟨ns, hall, fun m => ?_⟩
    rw [hperm.mem_iff, hms.mem_iff_get?_ofList]
  merged := h.merged
  restored policy := by rw [h.restored]

theorem Reads.unambiguous (h : s.Reads ms) {t : Table} (ht : s.Shows t) : Unambiguous ms := by
  obtain ⟨ns, hall, hperm, -⟩ := h.listed
  obtain ⟨ns', hall', hmem⟩ := ht.listing
  obtain rfl : ns = ns' := Except.ok.inj (hall.symm.trans hall')
  intro a ha b hb hkey
  have hfirst : t.get? a.key = some a := (hmem a).mp (hperm.mem_iff.mpr ha)
  have hsecond : t.get? b.key = some b := (hmem b).mp (hperm.mem_iff.mpr hb)
  rw [hkey, hsecond] at hfirst
  exact (Option.some.inj hfirst).symm

/-- **What the readers make of a file that can be read**, and that they tell of one table just if
no two different records have one key. -/
theorem reads_and_shows_iff (h : s.load.1 = .ok ms) :
    s.Reads ms ∧ ((∃ t, s.Shows t) ↔ Unambiguous ms) := by
  have hreads : s.Reads ms := reads_of_load h
  refine ⟨hreads, ?_, fun hms => ⟨_, hreads.shows hms⟩⟩
  rintro ⟨t, ht⟩
  exact hreads.unambiguous ht

/-- Records out of order, each with a key of its own. -/
theorem reads_and_shows_iff_unsorted :
    let text := "[\x7b\"id\":\"polls\",\"type\":\"counter\",\"delta\":7\x7d," ++
      "\x7b\"id\":\"load\",\"type\":\"gauge\",\"value\":0\x7d]"
    let s : SnapshotFile :=
      ⟨["metrics.json"], { entries := [(["metrics.json"], .file (Bytes.ofText text))] }⟩
    let ms : List Metric := [⟨"polls", .counter 7⟩, ⟨"load", .gauge ⟨0⟩⟩]
    s.load.1 = .ok ms ∧ s.Reads ms ∧ ∃ t, s.Shows t := by
  intro text s ms
  have hload : s.load.1 = .ok ms := by rfl
  obtain ⟨hreads, hshows⟩ := reads_and_shows_iff hload
  exact ⟨hload, hreads, hshows.mpr (by decide)⟩

/-- One counter twice: a lookup finds one, a listing has both, a delta of one is added to the
second, and this one is what is restored. -/
theorem readers_disagree :
    let text := "[\x7b\"id\":\"polls\",\"type\":\"counter\",\"delta\":1\x7d," ++
      "\x7b\"id\":\"polls\",\"type\":\"counter\",\"delta\":2\x7d]"
    let s : SnapshotFile :=
      ⟨["metrics.json"], { entries := [(["metrics.json"], .file (Bytes.ofText text))] }⟩
    let one : Metric := ⟨"polls", .counter 1⟩
    let two : Metric := ⟨"polls", .counter 2⟩
    s.load.1 = .ok [one, two] ∧ (s.get one.key).1 = .ok (some one) ∧
      s.getAll.1 = .ok [one, two] ∧ (s.save one).1 = .ok ⟨"polls", .counter 3⟩ ∧
      (∀ policy, (PersistentTable.create s policy).restore.2.table.entries = [two]) ∧
      ¬ ∃ t, s.Shows t := by
  intro text s one two
  have hload : s.load.1 = .ok [one, two] := by rfl
  have hreads : s.Reads [one, two] := reads_of_load hload
  have hsorted : [one, two].mergeSort (fun a b => (compare a.key b.key).isLE) = [one, two] :=
    List.mergeSort_of_pairwise (by decide)
  have htable : (Table.ofList [one, two]).entries = [two] := by decide
  refine ⟨hload, hreads.first _, ?_, by rfl, fun policy => ?_, ?_⟩
  · simp only [getAll, hload, Except.map, hsorted]
  · rw [hreads.restored]
    exact htable
  · rintro ⟨t, ht⟩
    exact absurd (hreads.unambiguous ht) (by decide)

/-- All readers of a file that has been written from a table tell of one table. -/
theorem exists_shows_of_persist {s' : SnapshotFile} {t : Table} (ht : t.Sound)
    (h : s.persist t.entries = (.ok (), s')) (hnext : s'.disk.next.1 = none) :
    ∃ u, s'.Shows u := by
  obtain ⟨ms, hms⟩ := Metric.exists_forall₂_readsAs ht
  have hload : s'.load.1 = .ok ms := by
    simp only [persist, Prod.mk.injEq] at h
    obtain ⟨hpersist, rfl⟩ := h
    exact Snapshot.load_persist hms (Prod.ext hpersist rfl) hnext
  have hunambiguous : Unambiguous ms :=
    .of_keys_ne ((Table.precedes_of_forall₂ hms).imp Table.ne_of_precedes)
  exact ⟨_, (reads_of_load hload).shows hunambiguous⟩

end SnapshotFile
end Telemetry
