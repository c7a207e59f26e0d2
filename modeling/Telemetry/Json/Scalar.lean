import Telemetry.Binary64.Rounding
import Telemetry.Text.Integer
/-!
# Reading scalars

A document is read from left to right, and reading stops at the first thing wrong with it. What is
wrong is one of four things: the document ends too early, it is malformed, it is well formed but
not what was asked for, or it was rejected by whoever asked.

Numbers are read with the speed of machine arithmetic and not always with correct rounding: the
digits make up a 64-bit integer, from which one multiplication or division by a power of ten leads
to the number.

## Main definitions

* `Telemetry.Json.Fault`, `Telemetry.Json.Reader`
* `Telemetry.Json.stringBody`: a string behind its opening quote.
* `Telemetry.Json.Number`, `Telemetry.Json.numberBody`: a number behind its sign.
* `Telemetry.Json.unexpected`: the fault of a value of the wrong type.
-/

namespace Telemetry.Json

/-- What is wrong with a document. -/
inductive Fault (ε : Type) where
  /-- The document ends too early. -/
  | ended
  /-- The document is malformed. -/
  | malformed
  /-- A value has the wrong type, is out of range, or is given twice. -/
  | unfit
  /-- What was read is not acceptable to the one who asked for it. -/
  | rejected (reason : ε)
  deriving DecidableEq, Repr

/-- Reads something off the head of a byte string. -/
abbrev Reader (ε α : Type) := Bytes → Except (Fault ε) (α × Bytes)

variable {ε : Type}

/-- The blanks between tokens: space, tab, line feed and carriage return. -/
def isSpace (b : UInt8) : Bool := b == 32 || b == 9 || b == 10 || b == 13

/-- Skips blanks. -/
def skipSpace (s : Bytes) : Bytes := s.dropWhile isSpace

/-- The rest of a keyword. -/
def keyword : Bytes → Bytes → Except (Fault ε) Bytes
  | [], s => .ok s
  | _ :: _, [] => .error .ended
  | k :: ks, b :: s => if b = k then keyword ks s else .error .malformed

/-! ### Strings -/

/-- The value of a hexadecimal digit of either case. -/
def hexValue? (b : UInt8) : Option Nat :=
  if 48 ≤ b && b ≤ 57 then some (b.toNat - 48)
  else if 97 ≤ b && b ≤ 102 then some (b.toNat - 87)
  else if 65 ≤ b && b ≤ 70 then some (b.toNat - 55)
  else none

/-- The number that four hexadecimal digits make. -/
def hex4? (a b c d : UInt8) : Option Nat := do
  let a ← hexValue? a
  let b ← hexValue? b
  let c ← hexValue? c
  let d ← hexValue? d
  return ((a * 16 + b) * 16 + c) * 16 + d

/-- The byte that a one-letter escape stands for. -/
def escape? (b : UInt8) : Option UInt8 :=
  if b = 34 then some 34
  else if b = 92 then some 92
  else if b = 47 then some 47
  else if b = 98 then some 8
  else if b = 102 then some 12
  else if b = 110 then some 10
  else if b = 114 then some 13
  else if b = 116 then some 9
  else none

/-- Appends the bytes of a character to bytes that are kept last one first. -/
def pushChar (acc : Bytes) (n : Nat) : Bytes :=
  (String.utf8EncodeChar (Char.ofNat n)).reverse ++ acc

/-- The bytes of a string up to its closing quote, escapes resolved, and what follows. The bytes
read so far are kept last one first. A character beyond the first 65536 is given as a pair of
surrogates; a surrogate outside of such a pair is no character. -/
def stringBody (acc : Bytes) : Bytes → Except (Fault ε) (Bytes × Bytes)
  | [] => .error .ended
  | b :: s =>
    if b = 34 then .ok (acc.reverse, s)
    else if b = 92 then
      match s with
      | [] => .error .ended
      | e :: s =>
        if e = 117 then
          match s with
          | h₁ :: h₂ :: h₃ :: h₄ :: s =>
            match hex4? h₁ h₂ h₃ h₄ with
            | none => .error .malformed
            | some n =>
              if 0xDC00 ≤ n && n ≤ 0xDFFF then .error .malformed
              else if 0xD800 ≤ n && n ≤ 0xDBFF then
                match s with
                | [] => .error .ended
                | c :: s =>
                  if c ≠ 92 then .error .malformed
                  else match s with
                    | [] => .error .ended
                    | u :: s =>
                      if u ≠ 117 then .error .malformed
                      else match s with
                        | k₁ :: k₂ :: k₃ :: k₄ :: s =>
                          match hex4? k₁ k₂ k₃ k₄ with
                          | none => .error .malformed
                          | some m =>
                            if 0xDC00 ≤ m && m ≤ 0xDFFF then
                              let n := 0x10000 + (n - 0xD800) * 0x400 + (m - 0xDC00)
                              stringBody (pushChar acc n) s
                            else .error .malformed
                        | _ => .error .ended
              else stringBody (pushChar acc n) s
          | _ => .error .ended
        else match escape? e with
          | some c => stringBody (c :: acc) s
          | none => .error .malformed
    else if b < 32 then .error .malformed
    else stringBody (b :: acc) s

/-- The text of a string behind its opening quote. -/
def stringRest : Reader ε String := fun s =>
  match stringBody [] s with
  | .error f => .error f
  | .ok (b, s) =>
    match Bytes.text? b with
    | some t => .ok (t, s)
    | none => .error .malformed

/-! ### Numbers -/

/-- What a number literal reads as. -/
inductive Number where
  | natural (n : Nat)
  | negative (n : Int)
  | float (x : Binary64)
  deriving DecidableEq, Repr

/-- The largest significand. -/
def maxSignificand : Nat := UInt64.size - 1

/-- The largest exponent that is told apart from larger ones. -/
def maxExponent : Nat := 2147483647

/-- Does a digit come next? -/
def atDigit : Bytes → Bool
  | b :: _ => Bytes.isDigit b
  | [] => false

/-- Is an exponent next? -/
def atExponent : Bytes → Bool
  | b :: _ => b == 101 || b == 69
  | [] => false

/-- Digits added to a number as long as it stays within a bound, their count, and what follows. -/
def boundedDigits (bound : Nat) : Nat → Nat → Bytes → Nat × Nat × Bytes
  | acc, count, [] => (acc, count, [])
  | acc, count, b :: s =>
    if Bytes.isDigit b && 10 * acc + Bytes.digitValue b ≤ bound then
      boundedDigits bound (10 * acc + Bytes.digitValue b) (count + 1) s
    else (acc, count, b :: s)

/-- How many digits come next, and what follows them. -/
def countDigits : Nat → Bytes → Nat × Bytes
  | count, [] => (count, [])
  | count, b :: s => if Bytes.isDigit b then countDigits (count + 1) s else (count, b :: s)

/-- Divides by the largest power of ten at hand until the exponent is within its reach, and then
multiplies or divides by what is left. Nothing if the number gets too large. -/
def scaled? : Nat → Binary64 → Int → Option Binary64
  | 0, x, _ => some x
  | n + 1, x, e =>
    if e.natAbs ≤ 308 then
      if 0 ≤ e then
        let y := x.mul (Binary64.powerOfTen e.toNat)
        if y.isFinite then some y else none
      else some (x.div (Binary64.powerOfTen e.natAbs))
    else if x.magnitude = 0 then some x
    else if 0 ≤ e then none
    else scaled? n (x.div (Binary64.powerOfTen 308)) (e + 308)

/-- The number with a significand and a decimal exponent. -/
def assemble (negative : Bool) (significand : Nat) (e : Int) (s : Bytes) :
    Except (Fault ε) (Number × Bytes) :=
  match scaled? (e.natAbs / 308 + 1) (Binary64.ofNat significand) e with
  | some x => .ok (.float (if negative then x.neg else x), s)
  | none => .error .malformed

/-- The exponent behind its letter. -/
def exponentPart (negative : Bool) (significand : Nat) (e : Int) (s : Bytes) :
    Except (Fault ε) (Number × Bytes) :=
  let (down, s) := match s with
    | 43 :: s => (false, s)
    | 45 :: s => (true, s)
    | s => (false, s)
  match s with
  | [] => .error .ended
  | b :: _ =>
    if Bytes.isDigit b then
      let (n, _, s) := boundedDigits maxExponent 0 0 s
      if atDigit s then
        if significand ≠ 0 && !down then .error .malformed
        else .ok (.float (Binary64.ofSign negative 0), (countDigits 0 s).2)
      else assemble negative significand (if down then e - n else e + n) s
    else .error .malformed

/-- The end of a number: an exponent, if there is one. -/
def numberEnd (negative : Bool) (significand : Nat) (e : Int) (s : Bytes) :
    Except (Fault ε) (Number × Bytes) :=
  if atExponent s then exponentPart negative significand e s.tail
  else assemble negative significand e s

/-- The digits behind the point. Digits that no longer fit the significand are skipped. -/
def fractionPart (negative : Bool) (significand : Nat) (e : Int) (s : Bytes) :
    Except (Fault ε) (Number × Bytes) :=
  let (n, count, s) := boundedDigits maxSignificand significand 0 s
  if atDigit s then numberEnd negative n (e - count) (countDigits 0 s).2
  else if count = 0 then .error (if s.isEmpty then .ended else .malformed)
  else numberEnd negative n (e - count) s

/-- What follows the digits of the integer part. -/
def numberRest (negative : Bool) (significand : Nat) (s : Bytes) :
    Except (Fault ε) (Number × Bytes) :=
  match s with
  | 46 :: s => fractionPart negative significand 0 s
  | s =>
    if atExponent s then exponentPart negative significand 0 s.tail
    else if !negative then .ok (.natural significand, s)
    else if significand = 0 || (Integer.int64? (-significand)).isNone then
      .ok (.float (Binary64.ofNat significand).neg, s)
    else .ok (.negative (-significand), s)

/-- A number behind its sign. An integer too large for the significand is a float, its further
digits counting as powers of ten. -/
def numberBody (negative : Bool) : Reader ε Number
  | [] => .error .ended
  | b :: s =>
    if b = 48 then if atDigit s then .error .malformed else numberRest negative 0 s
    else if Bytes.isDigit b then
      let (n, _, s) := boundedDigits maxSignificand (Bytes.digitValue b) 0 s
      if atDigit s then
        let (count, s) := countDigits 0 s
        match s with
        | 46 :: s => fractionPart negative n count s
        | s => numberEnd negative n count s
      else numberRest negative n s
    else .error .malformed

/-- The fault of a value that is not of the wanted type: it is read as far as needed to name it,
and a fault on the way comes first. -/
def unexpected : Bytes → Fault ε
  | [] => .malformed
  | b :: s =>
    let of {α : Type} : Except (Fault ε) α → Fault ε
      | .ok _ => .unfit
      | .error f => f
    if b = 110 then of (keyword [117, 108, 108] s)
    else if b = 116 then of (keyword [114, 117, 101] s)
    else if b = 102 then of (keyword [97, 108, 115, 101] s)
    else if b = 45 then of (numberBody true s)
    else if Bytes.isDigit b then of (numberBody false (b :: s))
    else if b = 34 then of (stringRest s)
    else if b = 91 || b = 123 then .unfit
    else .malformed

/-! ### Typed values -/

/-- A text. -/
def text : Reader ε String := fun s =>
  match skipSpace s with
  | [] => .error .ended
  | b :: s => if b = 34 then stringRest s else .error (unexpected (b :: s))

/-- A number of either sign. -/
def anyNumber : Reader ε Number := fun s =>
  match skipSpace s with
  | [] => .error .ended
  | b :: s =>
    if b = 45 then numberBody true s
    else if Bytes.isDigit b then numberBody false (b :: s)
    else .error (unexpected (b :: s))

/-- An integer of 64 bits. -/
def int64 : Reader ε Int64 := fun s =>
  match anyNumber s with
  | .error f => .error f
  | .ok (.natural n, s) =>
    match Integer.int64? n with
    | some i => .ok (i, s)
    | none => .error .unfit
  | .ok (.negative n, s) => .ok (Int64.ofInt n, s)
  | .ok (.float _, _) => .error .unfit

/-- A number of the 64-bit binary format. -/
def binary64 : Reader ε Binary64 := fun s =>
  match anyNumber s with
  | .error f => .error f
  | .ok (.natural n, s) => .ok (Binary64.ofNat n, s)
  | .ok (.negative n, s) => .ok ((Binary64.ofNat n.natAbs).neg, s)
  | .ok (.float x, s) => .ok (x, s)

/-- A value or null. -/
def optional {α : Type} (r : Reader ε α) : Reader ε (Option α) := fun s =>
  match skipSpace s with
  | 110 :: s => (keyword [117, 108, 108] s).map (none, ·)
  | s => (r s).map fun (x, s) => (some x, s)

end Telemetry.Json
