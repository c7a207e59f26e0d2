/-!
# Names of other scripts

A name of another script may be written in ASCII: the letters that are ASCII come first, and behind
the last hyphen stands where the others go. These are placed in the order of their codes. Each
number says how far to go on from the last one placed, counting all places of the name for one
code before the next code; its digits have weights that follow the numbers read so far.

## Main definitions

* `Telemetry.Url.Punycode.decode`: the letters of a name.
* `Telemetry.Url.Punycode.isName`
-/

namespace Telemetry.Url.Punycode

/-- The digit that a letter or figure stands for. -/
def digit? (c : Char) : Option Nat :=
  if 'a' ≤ c && c ≤ 'z' then some (c.toNat - 97)
  else if 'A' ≤ c && c ≤ 'Z' then some (c.toNat - 65)
  else if c.isDigit then some (c.toNat - 22)
  else none

/-- The digits below this one end a number at a place. -/
def threshold (place bias : Nat) : Nat := max 1 (min 26 (place - bias))

/-- Takes thirty-fifths until a number is small, and counts a place for each. -/
def scaleDown (delta place : Nat) : Nat × Nat :=
  if 455 < delta then scaleDown (delta / 35) (place + 36) else (delta, place)
termination_by delta

/-- The bias after a number: where the next one is expected to end. The first number is expected to
be much larger than the others. -/
def nextBias (delta length : Nat) (first : Bool) : Nat :=
  let delta := if first then delta / 700 else delta / 2
  let (delta, place) := scaleDown (delta + delta / length) 0
  place + 36 * delta / (delta + 38)

/-- What has been read: the letters in their places, the last code and place, and the number that
is being read. -/
structure Progress where
  letters : List Char
  code : Nat := 128
  position : Nat := 0
  bias : Nat := 72
  number : Nat := 0
  weight : Nat := 1
  place : Nat := 36

/-- Places the letter that a number ends with. -/
def Progress.insert (p : Progress) : Option Progress :=
  let length := p.letters.length + 1
  let sum := p.position + p.number
  let code := p.code + sum / length
  let index := sum % length
  if code.isValidChar then
    some
      { letters := p.letters.take index ++ Char.ofNat code :: p.letters.drop index
        code
        position := index + 1
        bias := nextBias p.number length (p.position == 0) }
  else none

/-- Reads the digits of all numbers. -/
def Progress.read (p : Progress) : List Char → Option (List Char)
  | [] => if p.weight = 1 then some p.letters else none
  | c :: cs =>
    match digit? c with
    | none => none
    | some d =>
      let t := threshold p.place p.bias
      let longer : Progress := { p with number := p.number + d * p.weight }
      if d < t then
        match longer.insert with
        | none => none
        | some next => next.read cs
      else read { longer with weight := p.weight * (36 - t), place := p.place + 36 } cs

/-- The letters of a name. -/
def decode (s : List Char) : Option (List Char) :=
  let numbers := (s.reverse.takeWhile (· ≠ '-')).reverse
  let plain := s.take (s.length - numbers.length - 1)
  if s.head? = some '-' && plain.isEmpty then none else Progress.read { letters := plain } numbers

/-- Is it a name of another script, written in ASCII? Codes below those of the letters of other
scripts are control characters, which stand in no name. -/
def isName (s : List Char) : Bool :=
  match decode s with
  | some letters =>
    s.all (·.toNat < 128) && letters.any (128 ≤ ·.toNat) &&
      letters.all fun c => c.toNat < 128 || 160 ≤ c.toNat
  | none => false

end Telemetry.Url.Punycode
