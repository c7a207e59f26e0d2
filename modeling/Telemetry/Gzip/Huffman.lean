import Telemetry.Gzip.Bits
/-!
# Canonical codes

A compressed block names a code by the lengths of its words alone: words of one length are
consecutive numbers in the order of their symbols, and shorter words come before longer ones.

## Main definitions

* `Telemetry.Gzip.Code.ofLengths?`: the code with given word lengths, if there is one.
* `Telemetry.Gzip.Code.symbol?`: the symbol whose word comes next.
-/

namespace Telemetry.Gzip

/-- A canonical code: how many words there are of each length from 1 on, and the symbols in the
order of their words. -/
structure Code where
  counts : List Nat
  symbols : Array Nat
  deriving Repr

namespace Code

/-- The longest word. -/
def maxLength : Nat := 15

/-- The symbols whose words have a given length, in order. -/
def symbolsOfLength (lengths : List Nat) (n : Nat) : List Nat :=
  (lengths.zipIdx.filter fun p => p.1 == n).map Prod.snd

/-- How many words of the next length are still free after words of some lengths are taken, or
nothing if too many are taken. -/
def free? : Nat → List Nat → Option Nat
  | left, [] => some left
  | left, n :: ns => if n ≤ 2 * left then free? (2 * left - n) ns else none

/-- The code with the given word lengths, zero for a symbol without a word. Words must fit, and
unless there is at most one they must use up the space. -/
def ofLengths? (lengths : List Nat) : Option Code :=
  let groups := (List.range maxLength).map fun n => symbolsOfLength lengths (n + 1)
  let counts := groups.map List.length
  match free? 1 counts with
  | none => none
  | some left =>
    if left = 0 || counts.foldl (· + ·) 0 ≤ 1 then some ⟨counts, groups.flatten.toArray⟩ else none

/-- Reads on until a word is complete. `word` is what has been read, `first` the first word of the
current length and `index` the number of shorter words. -/
def symbolFrom? (symbols : Array Nat) :
    (counts : List Nat) → (word first index : Nat) → Bits → Option (Nat × Bits)
  | [], _, _, _, _ => none
  | n :: counts, word, first, index, s =>
    match s.bit? with
    | none => none
    | some (b, s) =>
      let word := 2 * word + b
      let first := 2 * first
      if word < first + n then some (symbols.getD (index + (word - first)) 0, s)
      else symbolFrom? symbols counts word (first + n) (index + n) s

/-- The symbol whose word comes next. -/
def symbol? (c : Code) (s : Bits) : Option (Nat × Bits) := symbolFrom? c.symbols c.counts 0 0 0 s

end Code
end Telemetry.Gzip
