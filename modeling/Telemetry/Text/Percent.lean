import Telemetry.Text.Hex
/-!
# Percent-encoding

A byte is encoded as a percent sign and two hexadecimal digits. What has to be encoded depends on
where a text stands; what is encoded can be decoded everywhere.

## Main definitions

* `Telemetry.Percent.decode`
* `Telemetry.Percent.encode`: a text in which some characters are encoded.
-/

namespace Telemetry.Percent

/-- Decodes what is encoded. A percent sign without two digits stands for itself. -/
def decode : Bytes → Bytes
  | [] => []
  | [a] => [a]
  | [a, b] => [a, b]
  | a :: b :: c :: rest =>
    if a = 37 then
      match Hex.value? b, Hex.value? c with
      | some x, some y => (x <<< 4 ||| y) :: decode rest
      | _, _ => a :: decode (b :: c :: rest)
    else a :: decode (b :: c :: rest)

/-- The text that is left when a text has been decoded, if it is one. -/
def decodeText? (s : String) : Option String := Bytes.text? (decode (Bytes.ofText s))

/-- A digit of an encoded byte. -/
def digit (n : Nat) : Char := Char.ofNat (if n < 10 then 48 + n else 55 + n)

/-- A byte, encoded. -/
def encodeByte (b : UInt8) : List Char := ['%', digit (b.toNat / 16), digit (b.toNat % 16)]

/-- A character, encoded if it is not visible ASCII or one of the reserved ones. -/
def encodeChar (reserved : List Char) (c : Char) : List Char :=
  if c.toNat < 32 || 126 < c.toNat || reserved.contains c then
    (Bytes.ofText (String.ofList [c])).flatMap encodeByte
  else [c]

/-- A text in which the reserved characters and all that is not visible ASCII are encoded. -/
def encode (reserved : List Char) (cs : List Char) : String :=
  String.ofList (cs.flatMap (encodeChar reserved))

end Telemetry.Percent
