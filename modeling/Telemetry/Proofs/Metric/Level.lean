import Telemetry.Proofs.Json.Scaling
import Telemetry.Proofs.Store.Snapshot

/-!
# Levels on the wire

A level is written with the shortest digits that single it out among all numbers, but it is not
read as the number nearest to them: the reader rounds the digits, a power of ten and their product
or quotient. Most levels come back. The others come back as a number next to them or nearly so,
never as one out of range, so that what was written for a level can always be read.

## Main results

* `Telemetry.Metric.level_comes_back_near` — how far off a level may come back, and when it is not
* `Telemetry.Metric.level_lost` — a level that comes back as its neighbour
-/

namespace Telemetry.Metric

open Binary64

/-- **A level comes back as a finite number next to it**, from a document and from the snapshot
file: the sign is the same, and the distance is at most fourteen roundings. It is the level itself
if its digits are below `2 ^ 53`, with an exponent of `22` at most to either side. -/
theorem level_comes_back_near {x : Binary64} (hfinite : x.isFinite = true) {id : String}
    (hid : id ≠ "") :
    ∃ y : Binary64, y.isFinite = true ∧ y.negative = x.negative ∧
      |y.size - x.size| ≤ 14 * (x.size / 2 ^ 53 + halfLeast) ∧
      ((x.shortest .toEven).written.Exact → y = x) ∧
      Wire.decode (Wire.encode ⟨id, .gauge x⟩) = .ok ⟨id, .gauge y⟩ ∧
      Snapshot.parse (Snapshot.format [⟨id, .gauge x⟩]) = .ok [⟨id, .gauge y⟩] := by
  obtain ⟨y, hread, hyfinite, hsign, hnear, hexact⟩ := Json.binary64_number hfinite
  have hmetric : ReadsAs ⟨id, .gauge x⟩ ⟨id, .gauge y⟩ :=
    ⟨hid, rfl, y, hread, hyfinite, rfl⟩
  exact ⟨y, hyfinite, hsign, hnear, hexact, Wire.decode_encode hmetric,
    Snapshot.parse_format (.cons hmetric .nil)⟩

/-- A level that comes back as the number below it, and `0.1`, which has few digits and comes back
as itself. -/
theorem level_comes_back_near_neighbour :
    let x : Binary64 := ⟨0x410A0F8E7B06CAAC⟩
    let y : Binary64 := ⟨0x410A0F8E7B06CAAB⟩
    let tenth : Binary64 := ⟨0x3FB999999999999A⟩
    x.isFinite = true ∧ tenth.isFinite = true ∧ "g" ≠ "" ∧
      y.negative = x.negative ∧ |y.size - x.size| ≤ 14 * (x.size / 2 ^ 53 + halfLeast) ∧
      Wire.decode (Wire.encode ⟨"g", .gauge x⟩) = .ok ⟨"g", .gauge y⟩ ∧
      Snapshot.parse (Snapshot.format [⟨"g", .gauge x⟩]) = .ok [⟨"g", .gauge y⟩] ∧
      (tenth.shortest .toEven).written.Exact ∧
      Wire.decode (Wire.encode ⟨"g", .gauge tenth⟩) = .ok ⟨"g", .gauge tenth⟩ := by
  intro x y tenth
  have hid : "g" ≠ "" := by decide
  have hread : Wire.decode (Wire.encode ⟨"g", .gauge ⟨0x410A0F8E7B06CAAC⟩⟩)
      = .ok ⟨"g", .gauge ⟨0x410A0F8E7B06CAAB⟩⟩ := rfl
  have hfew : (tenth.shortest .toEven).written.Exact := ⟨by decide +kernel, by decide +kernel⟩
  obtain ⟨z, -, hsign, hnear, -, hdecode, hparse⟩ := level_comes_back_near (x := x) rfl hid
  obtain ⟨w, -, -, -, hexact, htenth, -⟩ := level_comes_back_near (x := tenth) rfl hid
  have hz : z = y := by
    rw [hread] at hdecode
    cases hdecode
    rfl
  subst hz
  rw [hexact hfew] at htenth
  exact ⟨rfl, rfl, hid, hsign, hnear, hread, hparse, hfew, htenth⟩

/-- The digits `213489.81007154786` are read as the number below. -/
theorem level_lost :
    ¬ ∀ (id : String) (x : Binary64), id ≠ "" → x.isFinite = true →
      Wire.decode (Wire.encode ⟨id, .gauge x⟩) = .ok ⟨id, .gauge x⟩ := by
  intro h
  have hread : Wire.decode (Wire.encode ⟨"g", .gauge ⟨0x410A0F8E7B06CAAC⟩⟩)
      = .ok ⟨"g", .gauge ⟨0x410A0F8E7B06CAAB⟩⟩ := rfl
  have hsame := h "g" ⟨0x410A0F8E7B06CAAC⟩ (by decide) rfl
  rw [hread] at hsame
  cases hsame

end Telemetry.Metric
