import Telemetry.Toml.Scalar
/-!
# Reading settings

A document is a sequence of lines: headers, items under keys, comments and blanks. Arrays may
stretch over several lines; tables between braces may not.

## Main definitions

* `Telemetry.Toml.value`: the reader of a value.
* `Telemetry.Toml.read?`: the table of a document.
-/

namespace Telemetry.Toml

/-! ### Values -/

/-- The rest of an array behind its bracket or a comma. -/
def arrayItems (readItem : Reader Item) : Nat → Reader (List Item)
  | 0, _ => none
  | n + 1, s =>
    match skipLines (s.length + 1) s with
    | none => none
    | some (']' :: s) => some ([], s)
    | some s =>
      match readItem s with
      | none => none
      | some (i, s) =>
        match skipLines (s.length + 1) s with
        | some (',' :: s) => (arrayItems readItem n s).map fun (is, s) => (i :: is, s)
        | some (']' :: s) => some ([i], s)
        | _ => none

/-- A key, an equals sign and a value. -/
def keyValue (readItem : Reader Item) (s : List Char) : Option ((List String × Item) × List Char) :=
  match key s with
  | some (path, '=' :: s) => (readItem (skipBlanks s)).map fun (i, s) => ((path, i), s)
  | _ => none

/-- The rest of a table between braces, behind its first brace or a comma. -/
def tableItems (readItem : Reader Item) : Nat → Entries → Reader Entries
  | 0, _, _ => none
  | n + 1, es, s =>
    match keyValue readItem s with
    | none => none
    | some ((path, i), s) =>
      match insert .dottedInBraces path i ⟨.braces, es⟩ with
      | none => none
      | some es =>
        match skipBlanks s with
        | ',' :: s => tableItems readItem n es s
        | '\x7d' :: s => some (es, s)
        | _ => none

/-- A value whose arrays and tables go less than so deep. -/
def value : Nat → Reader Item
  | depth, s =>
    match s with
    | [] => none
    | c :: rest =>
      if c = '"' || c = '\'' then (quoted s).map fun (x, s) => (.text x, s)
      else if c = '[' then
        match depth with
        | 0 => none
        | depth + 1 =>
          (arrayItems (value depth) (rest.length + 1) rest).map fun (is, s) => (.array is, s)
      else if c = '\x7b' then
        match depth with
        | 0 => none
        | depth + 1 =>
          match skipBlanks rest with
          | '\x7d' :: s => some (.table .braces [], s)
          | rest =>
            (tableItems (value depth) (rest.length + 1) [] rest).map fun (es, s) =>
              (.table .braces es, s)
      else
        match s with
        | 't' :: 'r' :: 'u' :: 'e' :: s => some (.boolean true, s)
        | 'f' :: 'a' :: 'l' :: 's' :: 'e' :: s => some (.boolean false, s)
        | _ => number s

/-! ### Documents -/

/-- The path of a header behind its brackets, up to its closing brackets. -/
def headerPath (closing : List Char) (s : List Char) : Option (List String × List Char) :=
  match key s with
  | none => none
  | some (path, s) =>
    if closing.isPrefixOf s then (endLine (s.drop closing.length)).map (path, ·) else none

/-- The lines of a document. -/
def readLines : Nat → Outline → List Char → Option Outline
  | 0, _, _ => none
  | n + 1, o, s =>
    match skipBlanks s with
    | [] => some o
    | '[' :: '[' :: s => do
      let (path, s) ← headerPath [']', ']'] s
      readLines n (← o.header path true) s
    | '[' :: s => do
      let (path, s) ← headerPath [']'] s
      readLines n (← o.header path false) s
    | s =>
      match lineBreak s, s with
      | some s, _ => readLines n o s
      | none, '#' :: _ => (endLine s).bind (readLines n o)
      | none, s => do
        let ((path, i), s) ← keyValue (value (depthLimit - 1)) s
        readLines n (← o.add path i) (← endLine s)

/-- The table of a document, or nothing if it is none. A byte order mark in front is skipped. -/
def read? (s : String) : Option Entries :=
  let cs := match s.toList with
    | c :: cs => if c.toNat = 0xFEFF then cs else c :: cs
    | [] => []
  (readLines (cs.length + 1) {} cs).bind Outline.finish

end Telemetry.Toml
