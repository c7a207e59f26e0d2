import Telemetry.Gzip.Huffman
/-!
# Compressed blocks

A compressed stream is a sequence of blocks. A block is stored as it is, or holds literals and
references to earlier output under a fixed code or under one that the block brings along. What was
read before a stream turns out to be broken is kept, since a reader with a limit may have had
enough by then.

## Main definitions

* `Telemetry.Gzip.Inflated`: the output of a stream, and the input behind it unless it is broken.
* `Telemetry.Gzip.inflate`: reads a stream.
* `Telemetry.Gzip.deflateStored`: writes a stream of stored blocks.
-/

namespace Telemetry.Gzip

/-- What came out of a stream, and the input behind it; no input if the stream is broken. -/
structure Inflated where
  output : Array UInt8
  rest : Option Bytes

/-- The outcome of reading inside a stream: the output so far, and the bits behind, if any. -/
structure Progress where
  output : Array UInt8
  bits : Option Bits

/-- Copies a number of bytes from a distance back in the output, byte by byte. -/
def copyBack : Nat → Nat → Array UInt8 → Array UInt8
  | 0, _, out => out
  | n + 1, distance, out => copyBack n distance (out.push (out.getD (out.size - distance) 0))

/-- The base and the number of further bits of each length symbol from 257 on. -/
def lengthTable : Array (Nat × Nat) := #[
  (3, 0), (4, 0), (5, 0), (6, 0), (7, 0), (8, 0), (9, 0), (10, 0), (11, 1), (13, 1), (15, 1),
  (17, 1), (19, 2), (23, 2), (27, 2), (31, 2), (35, 3), (43, 3), (51, 3), (59, 3), (67, 4),
  (83, 4), (99, 4), (115, 4), (131, 5), (163, 5), (195, 5), (227, 5), (258, 0)]

/-- The base and the number of further bits of each distance symbol. -/
def distanceTable : Array (Nat × Nat) := #[
  (1, 0), (2, 0), (3, 0), (4, 0), (5, 1), (7, 1), (9, 2), (13, 2), (17, 3), (25, 3), (33, 4),
  (49, 4), (65, 5), (97, 5), (129, 6), (193, 6), (257, 7), (385, 7), (513, 8), (769, 8),
  (1025, 9), (1537, 9), (2049, 10), (3073, 10), (4097, 11), (6145, 11), (8193, 12), (12289, 12),
  (16385, 13), (24577, 13)]

/-- A table entry's base plus a number of its width. -/
def extended? (table : Array (Nat × Nat)) (i : Nat) (s : Bits) : Option (Nat × Bits) :=
  match table[i]? with
  | none => none
  | some (base, width) => (s.number? width).map fun (n, s) => (base + n, s)

/-- The length and the distance of a reference whose length symbol has been read. -/
def reference? (distances : Code) (symbol : Nat) (s : Bits) : Option (Nat × Nat × Bits) := do
  let (length, s) ← extended? lengthTable (symbol - 257) s
  let (d, s) ← distances.symbol? s
  let (distance, s) ← extended? distanceTable d s
  return (length, distance, s)

/-- Literals and references up to the end of the block. Each takes at least one bit, so the number
of bits left bounds the rounds. -/
def inflateSymbols (literals distances : Code) : Nat → Bits → Array UInt8 → Progress
  | 0, _, out => ⟨out, none⟩
  | n + 1, s, out =>
    match literals.symbol? s with
    | none => ⟨out, none⟩
    | some (symbol, s) =>
      if symbol < 256 then inflateSymbols literals distances n s (out.push (UInt8.ofNat symbol))
      else if symbol = 256 then ⟨out, some s⟩
      else match reference? distances symbol s with
        | none => ⟨out, none⟩
        | some (length, distance, s) =>
          if distance ≤ out.size then
            inflateSymbols literals distances n s (copyBack length distance out)
          else ⟨out, none⟩

/-- The code of literals in a block that brings none along. -/
def fixedLiteralLengths : List Nat :=
  List.replicate 144 8 ++ List.replicate 112 9 ++ List.replicate 24 7 ++ List.replicate 8 8

/-- The code of distances in a block that brings none along. -/
def fixedDistanceLengths : List Nat := List.replicate 32 5

/-- The order in which the word lengths of the code for word lengths are given. -/
def lengthOrder : List Nat := [16, 17, 18, 0, 8, 7, 9, 6, 10, 5, 11, 4, 12, 3, 13, 2, 14, 1, 15]

/-- A number of three-bit numbers. -/
def shortLengths? : Nat → Bits → Option (List Nat × Bits)
  | 0, s => some ([], s)
  | n + 1, s => do
    let (l, s) ← s.number? 3
    let (ls, s) ← shortLengths? n s
    return (l :: ls, s)

/-- Word lengths under their own code, up to a number of them; a symbol from 16 on repeats. The
lengths read so far are kept last one first. -/
def wordLengths? (code : Code) (wanted : Nat) : Nat → List Nat → Bits → Option (List Nat × Bits)
  | 0, _, _ => none
  | n + 1, acc, s =>
    if acc.length = wanted then some (acc.reverse, s)
    else if acc.length > wanted then none
    else do
      let (symbol, s) ← code.symbol? s
      if symbol < 16 then wordLengths? code wanted n (symbol :: acc) s
      else if symbol = 16 then
        let last ← acc.head?
        let (k, s) ← s.number? 2
        wordLengths? code wanted n (List.replicate (3 + k) last ++ acc) s
      else if symbol = 17 then
        let (k, s) ← s.number? 3
        wordLengths? code wanted n (List.replicate (3 + k) 0 ++ acc) s
      else
        let (k, s) ← s.number? 7
        wordLengths? code wanted n (List.replicate (11 + k) 0 ++ acc) s

/-- The codes that a block brings along. -/
def blockCodes? (s : Bits) : Option (Code × Code × Bits) := do
  let (hlit, s) ← s.number? 5
  let (hdist, s) ← s.number? 5
  let (hclen, s) ← s.number? 4
  if hlit > 29 || hdist > 29 then none
  let (short, s) ← shortLengths? (hclen + 4) s
  let given := lengthOrder.zip short
  let code ← Code.ofLengths? ((List.range 19).map fun i => (given.lookup i).getD 0)
  let wanted := hlit + 257 + (hdist + 1)
  let (lengths, s) ← wordLengths? code wanted (wanted + 1) [] s
  if lengths.getD 256 0 = 0 then none
  let literals ← Code.ofLengths? (lengths.take (hlit + 257))
  let distances ← Code.ofLengths? (lengths.drop (hlit + 257))
  return (literals, distances, s)

/-- Appends a number of bytes to the output; a short input gives what it has and no rest. -/
def inflateStored : Nat → Bytes → Array UInt8 → Inflated
  | 0, rest, out => ⟨out, some rest⟩
  | _ + 1, [], out => ⟨out, none⟩
  | n + 1, b :: rest, out => inflateStored n rest (out.push b)

/-- A stored block: its length, the length with all bits turned, and its bytes. -/
def inflateStoredBlock (input : Bytes) (out : Array UInt8) : Inflated :=
  match input with
  | a :: b :: c :: d :: rest =>
    let n := a.toNat + 256 * b.toNat
    if n + (c.toNat + 256 * d.toNat) = 65535 then inflateStored n rest out else ⟨out, none⟩
  | _ => ⟨out, none⟩

/-- One block after its three header bits. -/
def inflateBlock (kind : Nat) (s : Bits) (out : Array UInt8) : Progress :=
  match kind with
  | 0 =>
    let r := inflateStoredBlock s.align out
    ⟨r.output, r.rest.map Bits.ofBytes⟩
  | 1 =>
    match Code.ofLengths? fixedLiteralLengths, Code.ofLengths? fixedDistanceLengths with
    | some literals, some distances => inflateSymbols literals distances (s.size + 1) s out
    | _, _ => ⟨out, none⟩
  | 2 =>
    match blockCodes? s with
    | some (literals, distances, s) => inflateSymbols literals distances (s.size + 1) s out
    | none => ⟨out, none⟩
  | _ => ⟨out, none⟩

/-- Blocks up to the one marked as the last. Each takes at least three bits. -/
def inflateBlocks : Nat → Bits → Array UInt8 → Inflated
  | 0, _, out => ⟨out, none⟩
  | n + 1, s, out =>
    match s.number? 1 with
    | none => ⟨out, none⟩
    | some (last, s) =>
      match s.number? 2 with
      | none => ⟨out, none⟩
      | some (kind, s) =>
        match inflateBlock kind s out with
        | ⟨out, none⟩ => ⟨out, none⟩
        | ⟨out, some s⟩ => if last = 1 then ⟨out, some s.align⟩ else inflateBlocks n s out

/-- Reads a stream. -/
def inflate (input : Bytes) : Inflated :=
  inflateBlocks (8 * input.length + 1) (Bits.ofBytes input) #[]

/-! ### Writing -/

/-- The header of a stored block with `n` bytes. -/
def storedHeader (last : Bool) (n : Nat) : Bytes :=
  let lo := UInt8.ofNat (n % 256)
  let hi := UInt8.ofNat (n / 256)
  [if last then 1 else 0, lo, hi, 255 - lo, 255 - hi]

/-- Stored blocks: full ones as long as more is left, and a last one. -/
def deflateStoredBlocks : Nat → Bytes → Bytes
  | 0, b => storedHeader true b.length ++ b
  | n + 1, b => storedHeader false 65535 ++ (b.take 65535 ++ deflateStoredBlocks n (b.drop 65535))

/-- A stream of stored blocks that spells a byte string. -/
def deflateStored (b : Bytes) : Bytes := deflateStoredBlocks ((b.length - 1) / 65535) b

end Telemetry.Gzip
