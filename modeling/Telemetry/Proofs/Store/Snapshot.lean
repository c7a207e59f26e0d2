import Telemetry.Proofs.Metric.Wire
import Telemetry.Proofs.Store.Disk

/-!
# A snapshot file that is read again

What has been put into the snapshot file can be read from it: the file stands where it was looked
for, the directories on the way to it are still there, and its bytes are those of the metrics.

## Main results

* `Telemetry.Snapshot.parse_format` — the bytes of a snapshot hold the metrics
* `Telemetry.Snapshot.load_persist` — a snapshot that has been written loads, unless the disk
  refuses to read it
-/

namespace Telemetry

namespace Disk

/-! ### The way to a path -/

/-- The way to a path depends on what is found above it, and on nothing else. -/
theorem way_congr {d e : Disk} {reached : Path} {ns : List String}
    (h : ∀ ms n rest, ns = ms ++ n :: rest → e.find? (reached ++ ms) = d.find? (reached ++ ms)) :
    e.way reached ns = d.way reached ns := by
  induction ns generalizing reached with
  | nil => rfl
  | cons n ns ih =>
    have hhere := h [] n ns rfl
    rw [List.append_nil] at hhere
    have hrest : e.way (reached ++ [n]) ns = d.way (reached ++ [n]) ns := by
      refine ih fun ms k rest hns => ?_
      have hbelow := h (n :: ms) k rest (by rw [hns, List.cons_append])
      rwa [List.append_cons] at hbelow
    rw [way, way, hhere, hrest]

/-- A path that is no shorter than another one does not stand above it. -/
theorem way_set_erase (d : Disk) {p q : Path} (hlen : q.length = p.length) (e : Entry) :
    ((d.erase q).set p e).way [] p = d.way [] p := by
  refine way_congr fun ms n rest hp => ?_
  have hshort : ms.length < p.length := by
    rw [hp, List.length_append, List.length_cons]
    omega
  rw [List.nil_append]
  have hne : ms ≠ p := by
    rintro rfl
    exact Nat.lt_irrefl _ hshort
  have hneq : ms ≠ q := by
    rintro rfl
    omega
  rw [find?_set_of_ne _ hne, find?_erase_of_ne _ hneq]

/-- A move that succeeds leaves the way to the target as it was. -/
theorem way_rename {d e : Disk} {p q : Path} (hlen : p.length = q.length)
    (h : d.rename p q = (.ok (), e)) : e.way [] q = .ok () := by
  simp only [rename] at h
  split at h
  · cases h
  · cases h
  · cases h
  · split at h
    · cases h
    · cases h
    · cases h
      rw [way_set_erase _ hlen]
      assumption

theorem find?_of_contents {d : Disk} {p : Path} {b : Bytes} (h : d.contents p = some b) :
    d.find? p = some (.file b) := by
  rw [contents] at h
  split at h
  · cases h
    assumption
  · cases h

end Disk

namespace Snapshot

theorem length_temporary (p : Path) : (temporary p).length = p.length := by
  rw [temporary]
  split
  · rfl
  · rename_i name hname
    have hpos : p ≠ [] := by
      rintro rfl
      cases hname
    have hlen := List.length_pos_iff.mpr hpos
    rw [List.length_append, List.length_dropLast, List.length_singleton]
    omega

theorem temporary_ne_nil {p : Path} (h : p ≠ []) : temporary p ≠ [] := by
  intro hnil
  have hlen := length_temporary p
  rw [hnil] at hlen
  exact h (List.length_eq_zero_iff.mp hlen.symm)

/-- The way to the file is open once it has been replaced. -/
theorem way_of_persist {d e : Disk} {p : Path} {ms : List Metric}
    (h : persist d p ms = (.ok (), e)) : e.way [] p = .ok () := by
  rw [persist] at h
  split at h
  · cases h
  · rw [publish] at h
    split at h
    · rename_i hmove
      cases h
      exact Disk.way_rename (length_temporary p) hmove
    · cases h

/-! ### Reading -/

theorem format_eq_cons (ms : List Metric) : ∃ s, format ms = 91 :: s := by
  rw [format, Wire.encodeList, Json.writeArray, Json.Layout.enclose.eq_def]
  split <;> exact ⟨_, rfl⟩

/-- The bytes of a snapshot hold what the texts of its metrics are read as. -/
theorem parse_format {ms ms' : List Metric} (h : List.Forall₂ Metric.ReadsAs ms ms') :
    parse (format ms) = .ok ms' := by
  obtain ⟨s, hs⟩ := format_eq_cons ms
  have hblank : (format ms).all Bytes.isBlank = false := by
    rw [hs]
    rfl
  rw [parse, hblank, if_neg Bool.false_ne_true, format, Wire.decodeAll_encodeList .indented h]

theorem load_of_contents {d : Disk} {p : Path} {b : Bytes} (hb : d.contents p = some b)
    (hway : d.way [] p = .ok ()) (hnext : d.next.1 = none) : (load d p).1 = parse b := by
  have hfile : d.next.2.find? p = some (.file b) := by
    rw [Disk.find?_next]
    exact Disk.find?_of_contents hb
  have hopen : d.next.2.way [] p = .ok () := by
    rw [Disk.way_congr fun _ _ _ _ => d.find?_next _]
    exact hway
  have hread : d.read p = (.ok b, d.next.2) := by
    simp only [Disk.read, hnext, hopen, hfile]
  rw [load, hread]

/-- **A snapshot that has been written loads**, unless the disk refuses to read it. -/
theorem load_persist {d e : Disk} {p : Path} {ms ms' : List Metric}
    (h : List.Forall₂ Metric.ReadsAs ms ms') (hpersist : persist d p ms = (.ok (), e))
    (hnext : e.next.1 = none) : (load e p).1 = .ok ms' := by
  rw [load_of_contents (contents_of_persist hpersist) (way_of_persist hpersist) hnext,
    parse_format h]

end Snapshot
end Telemetry
