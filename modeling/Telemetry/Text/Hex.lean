import Telemetry.Text.Bytes
/-!
# Hexadecimal text

Two digits a byte, high digit first. Writing uses the lower-case letters; reading takes either
case. A text of odd length is refused before any of its characters is looked at.

## Main definitions

* `Telemetry.Hex.encode`, `Telemetry.Hex.decode`
* `Telemetry.Hex.Fault`: why a text is not hexadecimal.
-/

namespace Telemetry.Hex

/-- The digit for a value below sixteen. -/
def digit (n : UInt8) : UInt8 := if n < 10 then 48 + n else 87 + n

/-- The value of a digit of either case. -/
def value? (b : UInt8) : Option UInt8 :=
  if 48 ≤ b && b ≤ 57 then some (b - 48)
  else if 97 ≤ b && b ≤ 102 then some (b - 87)
  else if 65 ≤ b && b ≤ 70 then some (b - 55)
  else none

/-- Each byte as two lower-case digits. -/
def encode (b : Bytes) : Bytes := b.flatMap fun x : UInt8 => [digit (x >>> 4), digit (x &&& 15)]

/-- The hexadecimal text of a byte string. -/
def text (b : Bytes) : String := String.ofList ((encode b).map fun x => Char.ofNat x.toNat)

/-- Why a byte string is not hexadecimal text. -/
inductive Fault where
  | oddLength
  | badDigit (byte : UInt8) (index : Nat)
  deriving DecidableEq, Repr

/-- Reads pairs of digits; `index` counts the bytes already read. -/
def decodePairs (index : Nat) : Bytes → Except Fault Bytes
  | [] => .ok []
  | [_] => .error .oddLength
  | a :: b :: rest =>
    match value? a, value? b with
    | none, _ => .error (.badDigit a index)
    | some _, none => .error (.badDigit b (index + 1))
    | some x, some y => (decodePairs (index + 2) rest).map ((x <<< 4 ||| y) :: ·)

/-- The bytes that a hexadecimal text spells. -/
def decode (b : Bytes) : Except Fault Bytes :=
  if b.length % 2 = 1 then .error .oddLength else decodePairs 0 b

/-- A byte read as the character of that number and shown between quotes: the usual escapes, and
the number in braces for what has no visible form. -/
def quoteByte (b : UInt8) : String :=
  let n := b.toNat
  let body :=
    if n = 0 then "\\0"
    else if n = 9 then "\\t"
    else if n = 10 then "\\n"
    else if n = 13 then "\\r"
    else if n = 39 then "\\'"
    else if n = 92 then "\\\\"
    else if n < 32 || (127 ≤ n && n ≤ 160) || n = 173 then
      "\\u\x7b" ++ String.ofList (Nat.toDigits 16 n) ++ "\x7d"
    else String.ofList [Char.ofNat n]
  "'" ++ body ++ "'"

/-- The wording of a fault. -/
def Fault.message : Fault → String
  | .oddLength => "Odd number of digits"
  | .badDigit b i => "Invalid character " ++ quoteByte b ++ " at position " ++ toString i

end Telemetry.Hex
