import Telemetry.Text.Bytes
/-!
# Bits of a byte string

A compressed block is read bit by bit, the low bit of a byte first; numbers come low bit first too.

## Main definitions

* `Telemetry.Gzip.Bits`: a byte string of which some bits of the first byte are already read.
* `Telemetry.Gzip.Bits.bit?`, `Telemetry.Gzip.Bits.number?`: one bit, a number of some width.
* `Telemetry.Gzip.Bits.align`: what is left from the next whole byte on.
-/

namespace Telemetry.Gzip

/-- What is left to read: `count` bits, low bit first, in `pending`, and then whole bytes. -/
structure Bits where
  pending : Nat
  count : Nat
  rest : Bytes
  deriving Repr

namespace Bits

/-- All bits of a byte string. -/
def ofBytes (b : Bytes) : Bits := ⟨0, 0, b⟩

/-- How many bits are left. -/
def size (s : Bits) : Nat := s.count + 8 * s.rest.length

/-- The next bit. -/
def bit? (s : Bits) : Option (Nat × Bits) :=
  match s.count with
  | n + 1 => some (s.pending % 2, ⟨s.pending / 2, n, s.rest⟩)
  | 0 =>
    match s.rest with
    | [] => none
    | b :: rest => some (b.toNat % 2, ⟨b.toNat / 2, 7, rest⟩)

/-- A number of the given width. -/
def number? : Nat → Bits → Option (Nat × Bits)
  | 0, s => some (0, s)
  | n + 1, s =>
    match s.bit? with
    | none => none
    | some (b, s) =>
      match number? n s with
      | none => none
      | some (m, s) => some (b + 2 * m, s)

/-- The bytes from the next whole byte on. -/
def align (s : Bits) : Bytes := s.rest

end Bits
end Telemetry.Gzip
