import Telemetry.Text.Bytes
/-!
# Decimal integers

The text of an integer is an optional sign and at least one ASCII digit. A reader names the range
it wants, and the first thing wrong with the text is the cause it gives.

## Main definitions

* `Telemetry.Integer.Fault`: why a text is no integer of the wanted range.
* `Telemetry.Integer.read`: the reader for a range; `read64` and `readU64` for the usual two.
* `Telemetry.Integer.int64?`: the 64-bit integer that an integer is.
* `Telemetry.Integer.text`: the writer.
-/

namespace Telemetry.Integer

/-- Why a text is no integer of the wanted range. -/
inductive Fault where
  | empty
  | badDigit
  | tooLarge
  | tooSmall
  deriving DecidableEq, Repr

/-- The wording of a fault. -/
def Fault.message : Fault → String
  | .empty => "cannot parse integer from empty string"
  | .badDigit => "invalid digit found in string"
  | .tooLarge => "number too large to fit in target type"
  | .tooSmall => "number too small to fit in target type"

/-- Adds digits one by one and stops at the first that is none or that leaves the range. -/
def accumulate (inRange : Int → Bool) (overflow : Fault) (negative : Bool) :
    Int → List Char → Except Fault Int
  | acc, [] => .ok acc
  | acc, c :: cs =>
    if c.isDigit then
      let d : Int := (c.toNat - 48 : Nat)
      let next := if negative then 10 * acc - d else 10 * acc + d
      if inRange next then accumulate inRange overflow negative next cs else .error overflow
    else .error .badDigit

/-- Reads an integer between two bounds. A lone sign is a bad digit, and so is a minus sign where
no negative number is wanted. -/
def read (lo hi : Int) (cs : List Char) : Except Fault Int :=
  let inRange n := decide (lo ≤ n) && decide (n ≤ hi)
  match cs with
  | [] => .error .empty
  | ['+'] => .error .badDigit
  | ['-'] => .error .badDigit
  | '+' :: rest => accumulate inRange .tooLarge false 0 rest
  | '-' :: rest =>
    if lo < 0 then accumulate inRange .tooSmall true 0 rest else .error .badDigit
  | _ => accumulate inRange .tooLarge false 0 cs

/-- Reads a signed 64-bit integer. -/
def read64 (s : String) : Except Fault Int64 :=
  (read Int64.minValue.toInt Int64.maxValue.toInt s.toList).map Int64.ofInt

/-- Reads an unsigned 64-bit integer. -/
def readU64 (s : String) : Except Fault Nat :=
  (read 0 (UInt64.size - 1 : Nat) s.toList).map Int.toNat

/-- The 64-bit integer of the same value, if there is one. -/
def int64? (n : Int) : Option Int64 :=
  if Int64.minValue.toInt ≤ n ∧ n ≤ Int64.maxValue.toInt then some (Int64.ofInt n) else none

theorem int64?_toInt (n : Int64) : int64? n.toInt = some n := by
  rw [int64?, if_pos ⟨n.minValue_le_toInt, n.toInt_le⟩, Int64.ofInt_toInt]

theorem toInt_of_int64? {n : Int} {i : Int64} (h : int64? n = some i) : i.toInt = n := by
  rw [int64?] at h
  split at h
  · rename_i hrange
    cases h
    exact Int64.toInt_ofInt_of_le hrange.1 (Int.lt_of_le_of_lt hrange.2 (by decide))
  · cases h

/-- The shortest decimal text: a minus sign if negative, then the digits. -/
def chars (n : Int) : List Char :=
  if n < 0 then '-' :: Nat.toDigits 10 n.natAbs else Nat.toDigits 10 n.natAbs

/-- The shortest decimal text. -/
def text (n : Int) : String := String.ofList (chars n)

end Telemetry.Integer
