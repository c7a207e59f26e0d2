import Telemetry.Proofs.Gzip.Stored
import Telemetry.Proofs.Store.Snapshot

/-!
# There and back

Metrics leave a program in three forms: a compressed document of one metric, a compressed document
of a list, and the snapshot file. What is read from each of them is what was written, name by name
and value by value and in the same order, as long as the text of every level is read as the level.

## Main results

* `Telemetry.Metric.comes_back` — all three forms
-/

namespace Telemetry.Metric

/-- A metric with a name, whose value survives, is read as itself. -/
theorem ReadsAs.refl {m : Metric} (hid : m.id ≠ "") (hvalue : m.value.Survives) : m.ReadsAs m :=
  ⟨hid, rfl, hvalue⟩

theorem forall₂_readsAs {ms : List Metric} (h : ∀ m ∈ ms, m.id ≠ "" ∧ m.value.Survives) :
    List.Forall₂ ReadsAs ms ms :=
  List.forall₂_same.mpr fun m hm => .refl (h m hm).1 (h m hm).2

/-- **Metrics come back** from all forms in which they leave: any names, any counters, and levels
that are finite and whose text is read as the level. Documents may be compressed by any encoder
whose work can be undone. -/
theorem comes_back {ms : List Metric} (h : ∀ m ∈ ms, m.id ≠ "" ∧ m.value.Survives)
    {compress : Bytes → Bytes} (hcompress : ∀ b, Gzip.decompress? (compress b) = some b) :
    (Gzip.decompress? (compress (Wire.encodeAll ms))).map Wire.decodeAll = some (.ok ms) ∧
    (∀ m ∈ ms, (Gzip.decompress? (compress (Wire.encode m))).map Wire.decode = some (.ok m)) ∧
    Snapshot.parse (Snapshot.format ms) = .ok ms ∧
    ∀ s : SnapshotFile, (s.persist ms).1 = .ok () → (s.persist ms).2.disk.next.1 = none →
      (s.persist ms).2.load.1 = .ok ms := by
  have hread := forall₂_readsAs h
  refine ⟨?_, fun m hm => ?_, Snapshot.parse_format hread, fun s hok hnext => ?_⟩
  · rw [hcompress]
    exact congrArg some (Wire.decodeAll_encodeList .compact hread)
  · rw [hcompress]
    exact congrArg some (Wire.decode_encode (.refl (h m hm).1 (h m hm).2))
  · have hpersist : Snapshot.persist s.disk s.path ms = (.ok (), (s.persist ms).2.disk) :=
      Prod.ext hok rfl
    exact Snapshot.load_persist hread hpersist hnext

/-- A name of quotes, control characters and characters of all lengths, both ends of the range of
counters, a level with a fraction and the negative zero. -/
theorem comes_back_at_limits :
    let ms : List Metric := [⟨"\"\\/\n\x00\x1f\x7f é€𝄞", .counter Int64.minValue⟩,
      ⟨"n", .counter Int64.maxValue⟩, ⟨"n", .gauge ⟨0x3FF8000000000000⟩⟩,
      ⟨"z", .gauge ⟨0x8000000000000000⟩⟩]
    let s : SnapshotFile := ⟨["metrics.json"], {}⟩
    (∀ m ∈ ms, m.id ≠ "" ∧ m.value.Survives) ∧
      (Gzip.decompress? (Gzip.compress (Wire.encodeAll ms))).map Wire.decodeAll = some (.ok ms) ∧
      (∀ m ∈ ms, (Gzip.decompress? (Gzip.compress (Wire.encode m))).map Wire.decode
        = some (.ok m)) ∧
      Snapshot.parse (Snapshot.format ms) = .ok ms ∧
      (s.persist ms).1 = .ok () ∧ (s.persist ms).2.disk.next.1 = none ∧
      (s.persist ms).2.load.1 = .ok ms := by
  intro ms s
  have h : ∀ m ∈ ms, m.id ≠ "" ∧ m.value.Survives := by
    intro m hm
    simp only [ms, List.mem_cons, List.not_mem_nil, or_false] at hm
    rcases hm with rfl | rfl | rfl | rfl
    · exact ⟨by decide, Value.survives_counter _⟩
    · exact ⟨by decide, Value.survives_counter _⟩
    · exact ⟨by decide, Value.survives_gauge_iff.mpr ⟨rfl, rfl⟩⟩
    · exact ⟨by decide, Value.survives_gauge_iff.mpr ⟨rfl, rfl⟩⟩
  have hok : (s.persist ms).1 = .ok () := rfl
  have hnext : (s.persist ms).2.disk.next.1 = none := rfl
  obtain ⟨hlist, hone, hbytes, hfile⟩ := comes_back h Gzip.decompress?_compress
  exact ⟨h, hlist, hone, hbytes, hok, hnext, hfile s hok hnext⟩

end Telemetry.Metric
