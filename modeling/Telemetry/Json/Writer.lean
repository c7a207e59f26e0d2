import Telemetry.Binary64.Text
import Telemetry.Text.Bytes
import Telemetry.Text.Integer
/-!
# Writing documents

Documents are written in one of two layouts: on one line for the wire, and indented by two blanks
a level for a file that people may open. Both come from the same two writers for arrays and
objects, which are given their parts already written.

## Main definitions

* `Telemetry.Json.quote`, `Telemetry.Json.integer`, `Telemetry.Json.number`: scalars.
* `Telemetry.Json.Layout`: compact or indented.
* `Telemetry.Json.writeArray`, `Telemetry.Json.writeObject`: from their written parts.
-/

namespace Telemetry.Json

/-- The escape of one byte inside a string: the two quoting characters and control characters are
escaped, every other byte stands for itself. -/
def escapeByte (b : UInt8) : Bytes :=
  if b = 34 then [92, 34]
  else if b = 92 then [92, 92]
  else if b = 8 then [92, 98]
  else if b = 12 then [92, 102]
  else if b = 10 then [92, 110]
  else if b = 13 then [92, 114]
  else if b = 9 then [92, 116]
  else if b < 32 then
    let low := b &&& 15
    [92, 117, 48, 48, if b < 16 then 48 else 49, if low < 10 then 48 + low else 87 + low]
  else [b]

/-- A text between quotes. -/
def quote (s : String) : Bytes := 34 :: ((Bytes.ofText s).flatMap escapeByte ++ [34])

/-- The shortest decimal digits of an integer. -/
def integer (n : Int64) : Bytes := Bytes.ofText (Integer.text n.toInt)

/-- The shortest digits of a finite number; anything else has no number to write. -/
def number (x : Binary64) : Bytes := Bytes.ofText (if x.isFinite then x.document else "null")

/-- How the parts of a document are set apart. -/
inductive Layout where
  | compact
  | indented
  deriving DecidableEq, Repr

/-- What stands before a part at some depth. -/
def Layout.gap : Layout → Nat → Bytes
  | .compact, _ => []
  | .indented, depth => 10 :: List.replicate (2 * depth) 32

/-- What stands between a key and its value. -/
def Layout.colon : Layout → Bytes
  | .compact => [58]
  | .indented => [58, 32]

/-- Parts one after the other, each set apart, with commas between them. -/
def Layout.join (l : Layout) (depth : Nat) : List Bytes → Bytes
  | [] => []
  | [p] => l.gap depth ++ p
  | p :: q :: ps => l.gap depth ++ (p ++ 44 :: l.join depth (q :: ps))

/-- Parts between brackets; without parts, only the brackets. -/
def Layout.enclose (l : Layout) (depth : Nat) (opening closing : UInt8) : List Bytes → Bytes
  | [] => [opening, closing]
  | p :: ps => opening :: (l.join (depth + 1) (p :: ps) ++ (l.gap depth ++ [closing]))

/-- An array of written items. -/
def writeArray (l : Layout) (depth : Nat) (items : List Bytes) : Bytes :=
  l.enclose depth 91 93 items

/-- An object of keys and written values. -/
def writeObject (l : Layout) (depth : Nat) (members : List (String × Bytes)) : Bytes :=
  l.enclose depth 123 125 (members.map fun m => quote m.1 ++ (l.colon ++ m.2))

end Telemetry.Json
