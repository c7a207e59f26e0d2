import Telemetry.Json.Skip
/-!
# Reading documents

The brackets and commas of arrays and objects, and whole documents.

## Main definitions

* `Telemetry.Json.nextItem`, `Telemetry.Json.nextKey`: what comes before an item or a member.
* `Telemetry.Json.readArray`: the items of an array.
* `Telemetry.Json.document`: a value with nothing but blanks around it.
-/

namespace Telemetry.Json

variable {ε α : Type}

/-- Is there another item in an array? If so, what is left starts with it, otherwise with the
closing bracket. -/
def nextItem (first : Bool) (s : Bytes) : Except (Fault ε) (Bool × Bytes) :=
  match skipSpace s with
  | [] => .error .ended
  | b :: s =>
    if b = 93 then .ok (false, b :: s)
    else if first then .ok (true, b :: s)
    else if b = 44 then
      match skipSpace s with
      | [] => .error .ended
      | c :: s => if c = 93 then .error .malformed else .ok (true, c :: s)
    else .error .malformed

/-- The end of an array. -/
def endArray (s : Bytes) : Except (Fault ε) Bytes :=
  match skipSpace s with
  | [] => .error .ended
  | b :: s => if b = 93 then .ok s else .error .malformed

/-- The next key of an object, read up to behind its colon, or nothing at the closing brace. -/
def nextKey (first : Bool) (s : Bytes) : Except (Fault ε) (Option String × Bytes) :=
  let key (s : Bytes) : Except (Fault ε) (Option String × Bytes) :=
    match stringRest s with
    | .error f => .error f
    | .ok (k, s) => .ok (some k, s)
  match skipSpace s with
  | [] => .error .ended
  | b :: s =>
    if b = 125 then .ok (none, b :: s)
    else if first then if b = 34 then key s else .error .malformed
    else if b = 44 then
      match skipSpace s with
      | [] => .error .ended
      | c :: s => if c = 34 then key s else .error .malformed
    else .error .malformed

/-- The colon behind a key. -/
def colon (s : Bytes) : Except (Fault ε) Bytes :=
  match skipSpace s with
  | [] => .error .ended
  | b :: s => if b = 58 then .ok s else .error .malformed

/-- Items up to the closing bracket, kept last one first. Each takes at least one byte. -/
def items (r : Reader ε α) : Nat → Bool → List α → Reader ε (List α)
  | 0, _, _, _ => .error .ended
  | n + 1, first, acc, s =>
    match nextItem first s with
    | .error f => .error f
    | .ok (false, s) => .ok (acc.reverse, s)
    | .ok (true, s) =>
      match r s with
      | .error f => .error f
      | .ok (x, s) => items r n false (x :: acc) s

/-- An array of at most a number of items. -/
def readArray (fuel : Nat) (r : Reader ε α) : Reader ε (List α) := fun s =>
  match skipSpace s with
  | [] => .error .ended
  | b :: s =>
    if b = 91 then
      match items r fuel true [] s with
      | .error f => .error f
      | .ok (xs, s) => (endArray s).map (xs, ·)
    else .error (unexpected (b :: s))

/-- A document: a value with nothing but blanks around it. The reader is told how many rounds any
of its loops may take, which is one more than there are bytes. -/
def document (r : Nat → Reader ε α) (s : Bytes) : Except (Fault ε) α :=
  match r (s.length + 1) s with
  | .error f => .error f
  | .ok (x, s) => if (skipSpace s).isEmpty then .ok x else .error .malformed

end Telemetry.Json
