import Telemetry.Store.Failure
import Telemetry.Text.Split
/-!
# The disk

A disk holds files and directories under their paths. Every operation takes the next item of a
list of mishaps, which says whether it goes wrong by itself: it may be refused, and a write may
leave part of its bytes behind before it fails. Without mishaps an operation fails only when
something of the wrong sort is in its way.

## Main definitions

* `Telemetry.Path`, `Telemetry.Path.ofText`
* `Telemetry.Disk`: what there is, and the mishaps to come.
* `Telemetry.Disk.read`, `Telemetry.Disk.write`, `Telemetry.Disk.rename`,
  `Telemetry.Disk.makeDirs`: the operations.
* `Telemetry.Disk.contents`, `Telemetry.Disk.names`: what there is to see.
-/

namespace Telemetry

/-- The names on the way to a file or a directory. -/
abbrev Path := List String

/-- The names of a path, dots resolved, taken up from a path reached so far. -/
def Path.resolve (reached : Path) : List String → Path
  | [] => reached
  | n :: ns =>
    if n = "" || n = "." then resolve reached ns
    else if n = ".." then resolve reached.dropLast ns
    else resolve (reached ++ [n]) ns

/-- The path that a text spells. -/
def Path.ofText (s : String) : Path := Path.resolve [] (Text.split '/' s)

/-- What is found under a path. -/
inductive Entry where
  | file (contents : Bytes)
  | directory
  deriving DecidableEq, Repr

/-- How an operation goes wrong by itself. -/
inductive Mishap where
  | refused
  /-- A write fails after some of the bytes. -/
  | torn (kept : Nat)
  deriving DecidableEq, Repr

/-- What there is on a disk, each path once, and the mishaps to come. The path without names is a
directory that is always there. -/
structure Disk where
  entries : List (Path × Entry) := []
  mishaps : List (Option Mishap) := []
  deriving Repr

namespace Disk

/-- What is found under a path. -/
def find? (d : Disk) (p : Path) : Option Entry :=
  if p = [] then some .directory else d.entries.lookup p

/-- Removes a path. -/
def erase (d : Disk) (p : Path) : Disk :=
  { d with entries := d.entries.filter fun e => e.1 ≠ p }

/-- Puts an entry under a path. -/
def set (d : Disk) (p : Path) (e : Entry) : Disk :=
  { d with entries := (p, e) :: (d.erase p).entries }

/-- The bytes of a file, if there is one. -/
def contents (d : Disk) (p : Path) : Option Bytes :=
  match d.find? p with
  | some (.file b) => some b
  | _ => none

/-- The names in a directory. -/
def names (d : Disk) (p : Path) : List String :=
  d.entries.filterMap fun e => if e.1.dropLast = p then e.1.getLast? else none

/-- Takes the next mishap. -/
def next (d : Disk) : Option Mishap × Disk :=
  match d.mishaps with
  | [] => (none, d)
  | m :: ms => (m, { d with mishaps := ms })

/-- The fault of reaching into a path that is not a directory: nothing of that name, unless a file
stands on the way. -/
def way (d : Disk) : Path → List String → Except DiskFault Unit
  | _, [] => .ok ()
  | reached, n :: ns =>
    match d.find? reached with
    | some .directory => way d (reached ++ [n]) ns
    | some (.file _) => .error .refused
    | none => .error .missing

/-- Reads a file. -/
def read (d : Disk) (p : Path) : Except DiskFault Bytes × Disk :=
  let (mishap, d) := d.next
  match mishap, d.way [] p with
  | some _, _ => (.error .refused, d)
  | none, .error f => (.error f, d)
  | none, .ok () =>
    match d.find? p with
    | some (.file b) => (.ok b, d)
    | some .directory => (.error .refused, d)
    | none => (.error .missing, d)

/-- Writes a file, new or in place of an old one. -/
def write (d : Disk) (p : Path) (b : Bytes) : Except DiskFault Unit × Disk :=
  let (mishap, d) := d.next
  match d.way [] p with
  | .error f => (.error f, d)
  | .ok () =>
    if d.find? p = some .directory then (.error .refused, d)
    else match mishap with
      | none => (.ok (), d.set p (.file b))
      | some .refused => (.error .refused, d)
      | some (.torn n) => (.error .refused, d.set p (.file (b.take n)))

/-- Moves a file over another in one step. -/
def rename (d : Disk) (p q : Path) : Except DiskFault Unit × Disk :=
  let (mishap, d) := d.next
  match mishap, d.way [] p, d.way [] q with
  | some _, _, _ => (.error .refused, d)
  | none, .error f, _ => (.error f, d)
  | none, .ok (), .error f => (.error f, d)
  | none, .ok (), .ok () =>
    match d.find? p, d.find? q with
    | none, _ => (.error .missing, d)
    | some _, some .directory => (.error .refused, d)
    | some e, _ => (.ok (), (d.erase p).set q e)

/-- Makes the directories on the way from a path reached so far, as far as they are missing. -/
def makeDirsFrom (d : Disk) : Path → List String → Except DiskFault Unit × Disk
  | _, [] => (.ok (), d)
  | reached, n :: ns =>
    let p := reached ++ [n]
    match d.find? p with
    | some .directory => makeDirsFrom d p ns
    | some (.file _) => (.error .refused, d)
    | none => makeDirsFrom (d.set p .directory) p ns

/-- Makes a directory and those on the way to it. -/
def makeDirs (d : Disk) (p : Path) : Except DiskFault Unit × Disk := d.makeDirsFrom [] p

end Disk
end Telemetry
