/-!
# Heap accounting

Every call of the allocator is counted. Bytes are counted as they were asked for, and once more as
the chunks that the system hands out. The counters are 64 bits wide and wrap around. A call that
the system refuses is not counted at all.

## Main definitions

* `Telemetry.Heap.Tally`: the counters.
* `Telemetry.Heap.Block`: what a block was asked for.
* `Telemetry.Heap.Call`: a call and whether the system granted it.
* `Telemetry.Heap`: the counters and the blocks of the calls so far.
* `Telemetry.Heap.step`, `Telemetry.Heap.run`
-/

namespace Telemetry

namespace Heap

/-- The size and the alignment a block was asked for. -/
structure Block where
  size : Nat
  align : Nat
  deriving DecidableEq, Repr

/-- The bytes a block takes up: its size, at least one, rounded up to whole chunks. A chunk is as
long as the alignment, and at least sixteen bytes. -/
def Block.footprint (b : Block) : Nat :=
  let chunk := max b.align 16
  (max b.size 1 + chunk - 1) / chunk * chunk

/-- The classes of allocations by size. -/
inductive SizeClass where
  | small
  | medium
  | large
  deriving DecidableEq, Repr

/-- Small is up to 256 bytes, medium up to 64 KiB. -/
def SizeClass.ofSize (n : Nat) : SizeClass :=
  if n ≤ 256 then .small else if n ≤ 65536 then .medium else .large

/-- The counters. -/
structure Tally where
  /-- Bytes asked for and not given back. -/
  live : UInt64 := 0
  /-- Bytes taken up by them. -/
  heap : UInt64 := 0
  /-- The highest `live` so far. -/
  peak : UInt64 := 0
  /-- All bytes handed out, growth of a block included. -/
  allocated : UInt64 := 0
  /-- All bytes given back, shrinkage of a block included. -/
  freed : UInt64 := 0
  mallocs : UInt64 := 0
  frees : UInt64 := 0
  reallocs : UInt64 := 0
  zeroed : UInt64 := 0
  largest : UInt64 := 0
  small : UInt64 := 0
  medium : UInt64 := 0
  large : UInt64 := 0
  deriving DecidableEq, Repr

namespace Tally

/-- Blocks not given back. -/
def objects (t : Tally) : UInt64 := if t.frees ≤ t.mallocs then t.mallocs - t.frees else 0

/-- Counts bytes that are handed out. -/
def grow (t : Tally) (bytes : UInt64) : Tally :=
  { t with
    live := t.live + bytes
    peak := max t.peak (t.live + bytes)
    allocated := t.allocated + bytes }

/-- Counts bytes that are given back. -/
def shrink (t : Tally) (bytes : UInt64) : Tally :=
  { t with live := t.live - bytes, freed := t.freed + bytes }

/-- Counts an allocation in its class. -/
def classify (t : Tally) : SizeClass → Tally
  | .small => { t with small := t.small + 1 }
  | .medium => { t with medium := t.medium + 1 }
  | .large => { t with large := t.large + 1 }

/-- Counts a new block. -/
def allocate (t : Tally) (b : Block) (zeroed : Bool) : Tally :=
  let size := UInt64.ofNat b.size
  let t := (t.grow size).classify (.ofSize b.size)
  { t with
    heap := t.heap + UInt64.ofNat b.footprint
    mallocs := t.mallocs + 1
    largest := max t.largest size
    zeroed := if zeroed then t.zeroed + 1 else t.zeroed }

/-- Counts a block that is given back. -/
def free (t : Tally) (b : Block) : Tally :=
  let t := t.shrink (UInt64.ofNat b.size)
  { t with heap := t.heap - UInt64.ofNat b.footprint, frees := t.frees + 1 }

/-- Counts a block that gets another size. -/
def resize (t : Tally) (b : Block) (size : Nat) : Tally :=
  let t :=
    { t with
      reallocs := t.reallocs + 1
      largest := max t.largest (UInt64.ofNat size)
      heap := t.heap - UInt64.ofNat b.footprint + UInt64.ofNat (Block.footprint ⟨size, b.align⟩) }
  if b.size ≤ size then t.grow (UInt64.ofNat (size - b.size))
  else t.shrink (UInt64.ofNat (b.size - size))

end Tally

/-- A call of the allocator, and whether the system granted it. Blocks are called by the number of
the allocation that asked for them, refused ones included. -/
inductive Call where
  | allocate (block : Block) (zeroed : Bool) (granted : Bool)
  | resize (slot : Nat) (size : Nat) (granted : Bool)
  | free (slot : Nat)
  deriving DecidableEq, Repr

end Heap

/-- The counters, and for each allocation so far its block if it is live. -/
structure Heap where
  tally : Heap.Tally := {}
  slots : List (Option Heap.Block) := []
  deriving DecidableEq, Repr

namespace Heap

/-- The live block of a number. -/
def block? (h : Heap) (slot : Nat) : Option Block := h.slots[slot]?.join

/-- The live blocks. -/
def blocks (h : Heap) : List Block := h.slots.filterMap id

/-- Makes a call. A call that names no live block does nothing. -/
def step (h : Heap) : Call → Heap
  | .allocate b zeroed true => ⟨h.tally.allocate b zeroed, h.slots ++ [some b]⟩
  | .allocate _ _ false => { h with slots := h.slots ++ [none] }
  | .resize _ _ false => h
  | .resize slot size true =>
    match h.block? slot with
    | none => h
    | some b => ⟨h.tally.resize b size, h.slots.set slot (some ⟨size, b.align⟩)⟩
  | .free slot =>
    match h.block? slot with
    | none => h
    | some b => ⟨h.tally.free b, h.slots.set slot none⟩

/-- Makes calls one after the other. -/
def run (h : Heap) (calls : List Call) : Heap := calls.foldl step h

end Heap
end Telemetry
