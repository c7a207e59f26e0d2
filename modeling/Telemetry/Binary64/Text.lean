import Telemetry.Binary64.Rounding
import Telemetry.Binary64.Shortest
/-!
# Numbers as text

Two texts of one number are in use, and both carry its shortest decimal. A page or a plain answer
shows it without an exponent; a document shows it with an exponent when it is very large or very
small, and marks whole numbers by `.0`. A third rule, for reading, takes what people write in an
address.

## Main definitions

* `Telemetry.Binary64.Style`: how the digits are laid out; `plainStyle`, `documentStyle`.
* `Telemetry.Binary64.display`: the text on a page.
* `Telemetry.Binary64.document`: the text in a document.
* `Telemetry.Binary64.read?`: the reader.
-/

namespace Telemetry.Binary64

/-- How the digits of a finite number are laid out. -/
structure Style where
  /-- Which of two equally near shortest decimals is taken. -/
  tie : Tie
  /-- The orders of magnitude outside of which an exponent is written, if there are any. -/
  plainOrders : Option (Int × Int)
  /-- Do whole numbers end in `.0`? -/
  markWhole : Bool

/-- Pages: never an exponent, no mark on whole numbers, and a tie goes up. -/
def plainStyle : Style := ⟨.up, none, false⟩

/-- Documents: no exponent for the orders of magnitude from -5 to 15, whole numbers are marked,
and a tie goes to the even digit. -/
def documentStyle : Style := ⟨.toEven, some (-5, 15), true⟩

/-- Digits with a point in their midst; `order` is the order of magnitude of the first digit. -/
def plainChars (markWhole : Bool) (ds : List Char) (order : Int) : List Char :=
  if order < 0 then '0' :: '.' :: (List.replicate (-order - 1).toNat '0' ++ ds)
  else
    let n := order.toNat + 1
    let whole := ds.take n ++ List.replicate (n - ds.length) '0'
    match ds.drop n with
    | [] => if markWhole then whole ++ ['.', '0'] else whole
    | rest => whole ++ '.' :: rest

/-- One digit before the point, and the order of magnitude after an `e` with its sign. -/
def scientificChars (ds : List Char) (order : Int) : List Char :=
  let mantissa := match ds with
    | d :: e :: rest => d :: '.' :: e :: rest
    | short => short
  let sign := if order < 0 then '-' else '+'
  mantissa ++ 'e' :: sign :: Nat.toDigits 10 order.natAbs

/-- The characters of a finite number. -/
def Style.chars (s : Style) (x : Binary64) : List Char :=
  let d := x.shortest s.tie
  let ds := Nat.toDigits 10 d.digits
  let order := d.exponent + ds.length - 1
  let plain := match s.plainOrders with
    | none => true
    | some (lo, hi) => decide (lo ≤ order) && decide (order ≤ hi)
  let body := if plain then plainChars s.markWhole ds order else scientificChars ds order
  if x.negative then '-' :: body else body

/-- The text of a number on a page. -/
def display (x : Binary64) : String :=
  if x.isNaN then "NaN"
  else if !x.isFinite then (if x.negative then "-inf" else "inf")
  else String.ofList (plainStyle.chars x)

/-- The text of a finite number in a document. -/
def document (x : Binary64) : String := String.ofList (documentStyle.chars x)

/-! ### Reading -/

/-- The decimal digits at the head of a text, as the number they make on top of `acc` and as a
count, and what follows them. -/
def takeDigits : Nat → Nat → List Char → Nat × Nat × List Char
  | acc, count, [] => (acc, count, [])
  | acc, count, c :: cs =>
    if c.isDigit then takeDigits (10 * acc + (c.toNat - 48)) (count + 1) cs
    else (acc, count, c :: cs)

/-- A sign, if there is one. -/
def takeSign : List Char → Bool × List Char
  | '-' :: cs => (true, cs)
  | '+' :: cs => (false, cs)
  | cs => (false, cs)

/-- The exponent at the end of a decimal: nothing, or an `e` and a signed integer. -/
def readExponent? : List Char → Option Int
  | [] => some 0
  | c :: cs =>
    if c = 'e' || c = 'E' then
      let (negative, ds) := takeSign cs
      match takeDigits 0 0 ds with
      | (n, count, []) => if count = 0 then none else some (if negative then -n else n)
      | _ => none
    else none

/-- Reads digits with an optional point and an optional exponent; a digit must stand on one side
of the point. -/
def readDecimal? (negative : Bool) (cs : List Char) : Option Binary64 :=
  let (whole, wholeCount, rest) := takeDigits 0 0 cs
  let (digits, fraction, rest) := match rest with
    | '.' :: rest => takeDigits whole 0 rest
    | rest => (whole, 0, rest)
  if wholeCount + fraction = 0 then none
  else (readExponent? rest).map fun e => ofDecimal negative digits (e - fraction)

/-- Reads a number: an optional sign, then a decimal or a name in letters of either case. -/
def read? (s : String) : Option Binary64 :=
  let (negative, cs) := takeSign s.toList
  let name := String.ofList (cs.map Char.toLower)
  if name = "inf" || name = "infinity" then some (ofSign negative infinite)
  else if name = "nan" then some (if negative then nan.neg else nan)
  else readDecimal? negative cs

end Telemetry.Binary64
