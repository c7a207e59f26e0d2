import Telemetry.Digest.Crc32
import Telemetry.Gzip.Inflate
/-!
# Gzip members

A member is a header, a compressed stream, and the check word and length of what the stream spells.

## Main definitions

* `Telemetry.Gzip.compress`: a byte string as one member.
* `Telemetry.Gzip.Read`, `Telemetry.Gzip.readMember`: what a member spells, and whether it is sound.
* `Telemetry.Gzip.decompress?`: the contents of the first member.
* `Telemetry.Gzip.readAll`: the contents of all members of a byte string.
-/

namespace Telemetry.Gzip

/-- A word, low byte first. -/
def wordBytes (w : UInt32) : Bytes :=
  [w.toUInt8, (w >>> 8).toUInt8, (w >>> 16).toUInt8, (w >>> 24).toUInt8]

/-- The header of a member without a name, a comment or a time. -/
def plainHeader : Bytes := [0x1f, 0x8b, 8, 0, 0, 0, 0, 0, 0, 255]

/-- A byte string as one member. -/
def compress (b : Bytes) : Bytes :=
  plainHeader ++
    (deflateStored b ++ (wordBytes (Crc32.checksum b) ++ wordBytes (UInt32.ofNat b.length)))

/-! ### Headers -/

/-- Skips a text that ends in a zero byte. -/
def skipText? : Bytes → Option Bytes
  | [] => none
  | b :: rest => if b = 0 then some rest else skipText? rest

/-- Skips a field whose length stands before it. -/
def skipField? : Bytes → Option Bytes
  | a :: b :: rest =>
    let n := a.toNat + 256 * b.toNat
    if n ≤ rest.length then some (rest.drop n) else none
  | _ => none

/-- Skips what the flags announce: a field, a name and a comment. -/
def skipExtras? (flags : UInt8) (rest : Bytes) : Option Bytes := do
  let rest ← if flags &&& 4 ≠ 0 then skipField? rest else some rest
  let rest ← if flags &&& 8 ≠ 0 then skipText? rest else some rest
  if flags &&& 16 ≠ 0 then skipText? rest else some rest

/-- Skips a header. A checked header must not use a reserved flag, and its own check word, if it
has one, must be right. -/
def skipHeader? (checked : Bool) (input : Bytes) : Option Bytes :=
  match input with
  | 0x1f :: 0x8b :: 8 :: flags :: _ :: _ :: _ :: _ :: _ :: _ :: rest =>
    if checked && flags &&& 0xe0 ≠ 0 then none
    else do
      let rest ← skipExtras? flags rest
      if flags &&& 2 = 0 then some rest
      else match rest with
        | a :: b :: rest' =>
          let sum := Crc32.checksum (input.take (input.length - rest.length))
          if checked && [a, b] ≠ (wordBytes sum).take 2 then none else some rest'
        | _ => none
  | _ => none

/-! ### Members -/

/-- What was read: the contents, and the input behind a sound member. -/
structure Read where
  contents : Bytes
  rest : Option Bytes

/-- Checks the trailer behind a stream. -/
def checkTrailer (contents : Bytes) (rest : Bytes) : Option Bytes :=
  if rest.take 8 = wordBytes (Crc32.checksum contents) ++ wordBytes (UInt32.ofNat contents.length)
  then some (rest.drop 8) else none

/-- Reads one member. -/
def readMember (checked : Bool) (input : Bytes) : Read :=
  match skipHeader? checked input with
  | none => ⟨[], none⟩
  | some body =>
    let r := inflate body
    let contents := r.output.toList
    ⟨contents, r.rest.bind (checkTrailer contents)⟩

/-- The contents of the first member; what follows it is ignored. -/
def decompress? (input : Bytes) : Option Bytes :=
  let r := readMember true input
  r.rest.map fun _ => r.contents

/-- The contents of member after member, and whether all were sound. Each member takes at least
one byte. -/
def readMembers : Nat → Bytes → Bytes × Bool
  | _, [] => ([], true)
  | 0, _ => ([], false)
  | n + 1, input =>
    match readMember false input with
    | ⟨contents, none⟩ => (contents, false)
    | ⟨contents, some rest⟩ =>
      let (more, sound) := readMembers n rest
      (contents ++ more, sound)

/-- The contents of all members of a byte string, and whether all were sound. -/
def readAll (input : Bytes) : Bytes × Bool := readMembers input.length input

end Telemetry.Gzip
