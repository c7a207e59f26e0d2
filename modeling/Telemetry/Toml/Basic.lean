/-!
# Tables of settings

A document of settings is a table of items under their keys. Whether a table may still get more
items depends on how it came about: by a header, along the way to one, by a dotted key, or between
braces.

## Main definitions

* `Telemetry.Toml.Item`: what stands under a key.
* `Telemetry.Toml.Entries`: a table.
* `Telemetry.Toml.Sheet`: a table with the way it came about.
* `Telemetry.Toml.edit`: the one way to change what lies under a path.
* `Telemetry.Toml.Outline`: a document as it is read, header by header.
-/

namespace Telemetry.Toml

/-- How a table came about. -/
inductive Origin where
  | header
  /-- On the way to a header. -/
  | implied
  /-- By a dotted key. -/
  | dotted
  /-- Between braces. -/
  | braces
  /-- By a dotted key between braces. -/
  | dottedInBraces
  deriving DecidableEq, Repr

/-- What stands under a key. Values that no setting uses are not told apart. -/
inductive Item where
  | text (s : String)
  | integer (n : Int)
  | boolean (b : Bool)
  | float
  | moment
  | array (items : List Item)
  | table (origin : Origin) (entries : List (String × Item))
  /-- Tables that each have a header of the same name. -/
  | tables (all : List (List (String × Item)))

/-- The items of a table under their keys, each key once. -/
abbrev Entries := List (String × Item)

/-- The table with the item of a key replaced, or added. -/
def Entries.set (es : Entries) (key : String) (i : Item) : Entries :=
  match es with
  | [] => [(key, i)]
  | e :: rest => if e.1 = key then (key, i) :: rest else e :: Entries.set rest key i

/-- The table without a key. -/
def Entries.remove (es : Entries) (key : String) : Entries := es.filter fun e => e.1 ≠ key

/-- A table with the way it came about. -/
structure Sheet where
  origin : Origin
  entries : Entries

/-- May a table of this origin be entered on a way that makes tables of another one? Braces close a
table to the outside; a dotted key may not enter what a header has defined. -/
def Origin.mayEnter (making : Origin) : Origin → Bool
  | .header => making = .implied
  | .implied => making = .implied || making = .dotted
  | .dotted => making = .implied || making = .dotted
  | .braces => making = .dottedInBraces
  | .dottedInBraces => making = .dottedInBraces

/-- Changes the table under a path and takes something out of it. Tables that are missing on the
way are made. -/
def edit {α : Type} (making : Origin) (change : Sheet → Option (α × Entries)) :
    List String → Sheet → Option (α × Entries)
  | [], t => change t
  | key :: path, t =>
    match t.entries.lookup key with
    | none =>
      (edit making change path ⟨making, []⟩).map fun (a, es) =>
        (a, t.entries.set key (.table making es))
    | some (.table origin inner) =>
      if making.mayEnter origin then
        (edit making change path ⟨origin, inner⟩).map fun (a, es) =>
          (a, t.entries.set key (.table origin es))
      else none
    | some (.tables all) =>
      match all.getLast? with
      | none => none
      | some last =>
        (edit making change path ⟨.header, last⟩).map fun (a, es) =>
          (a, t.entries.set key (.tables (all.dropLast ++ [es])))
    | some _ => none

/-- Adds an item under a key that is not taken. A dotted key adds only to a table that dotted keys
have made, and a plain one only to one that they have not. -/
def addUnder (dotted : Bool) (key : String) (i : Item) (t : Sheet) : Option (Unit × Entries) :=
  let made := t.origin = .dotted || t.origin = .dottedInBraces
  if dotted ≠ made || (t.entries.lookup key).isSome then none
  else some ((), t.entries.set key i)

/-- Adds an item under a dotted key. -/
def insert (making : Origin) (path : List String) (i : Item) (t : Sheet) : Option Entries :=
  match path.getLast? with
  | none => none
  | some key =>
    (edit making (addUnder (1 < path.length) key i) path.dropLast t).map Prod.snd

/-! ### Headers -/

/-- A document as it is read: what lies under the headers so far, and the table of the last header
with its path. Before the first header the path is empty. -/
structure Outline where
  root : Entries := []
  path : List String := []
  repeated : Bool := false
  current : Entries := []

/-- Puts a table in its place behind its header. -/
def place (repeated : Bool) (key : String) (table : Entries) (t : Sheet) :
    Option (Unit × Entries) :=
  match repeated, t.entries.lookup key with
  | true, none => some ((), t.entries.set key (.tables [table]))
  | true, some (.tables all) => some ((), t.entries.set key (.tables (all ++ [table])))
  | false, none => some ((), t.entries.set key (.table .header table))
  | _, _ => none

/-- What a header finds in its place and takes out. A header of a single table finds nothing, or a
table that was only implied, and goes on with it. A repeated one leaves its fellows in place. -/
def claim (repeated : Bool) (key : String) (t : Sheet) : Option (Entries × Entries) :=
  match repeated, t.entries.lookup key with
  | _, none => some ([], t.entries)
  | false, some (.table .implied es) => some (es, t.entries.remove key)
  | true, some (.tables _) => some ([], t.entries)
  | _, _ => none

namespace Outline

/-- Adds an item under the last header. -/
def add (o : Outline) (path : List String) (i : Item) : Option Outline :=
  (insert .dotted path i ⟨.header, o.current⟩).map fun current => { o with current }

/-- The document with the table of the last header in its place. -/
def finish (o : Outline) : Option Entries :=
  match o.path.getLast? with
  | none => some o.current
  | some key =>
    (edit .implied (place o.repeated key o.current) o.path.dropLast ⟨.header, o.root⟩).map Prod.snd

/-- Begins a table with a header. -/
def header (o : Outline) (path : List String) (repeated : Bool) : Option Outline := do
  let key ← path.getLast?
  let (current, root) ←
    edit .implied (claim repeated key) path.dropLast ⟨.header, ← o.finish⟩
  return { root, path, repeated, current }

end Outline
end Telemetry.Toml
