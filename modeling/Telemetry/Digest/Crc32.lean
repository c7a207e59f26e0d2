import Telemetry.Text.Bytes
/-!
# CRC-32

The cyclic redundancy check of gzip: the remainder of the message, low bit first, by the reversed
polynomial `0xedb88320`, started at all ones and inverted at the end.

## Main definitions

* `Telemetry.Crc32.checksum`: the check word of a message.
-/

namespace Telemetry.Crc32

/-- The remainder after one more bit. -/
def shift (c : UInt32) : UInt32 := if c &&& 1 == 1 then (c >>> 1) ^^^ 0xedb88320 else c >>> 1

/-- The remainder after eight more bits. -/
def shift8 (c : UInt32) : UInt32 := shift (shift (shift (shift (shift (shift (shift (shift c)))))))

/-- The remainders of the 256 single bytes. -/
def table : Array UInt32 := (Array.range 256).map fun n => shift8 (UInt32.ofNat n)

/-- The remainder after one more byte. -/
def step (c : UInt32) (b : UInt8) : UInt32 :=
  table.getD ((c ^^^ b.toUInt32) &&& 0xff).toNat 0 ^^^ (c >>> 8)

/-- The check word of a message. -/
def checksum (message : Bytes) : UInt32 := message.foldl step 0xffffffff ^^^ 0xffffffff

end Telemetry.Crc32
