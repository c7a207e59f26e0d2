import Telemetry.Agent.Report
import Telemetry.Text.Integer
import Telemetry.Text.Trim
import Telemetry.Toml.Reader
/-!
# Where settings come from

Settings come from a file and then from the environment. A file that was asked for has to be
there; one in the usual place is read if it is. Keys that no setting has are ignored, and missing
ones leave the usual value. A variable of the environment replaces a setting; the first that does
not fit is an error, and those before it stay.

## Main definitions

* `Telemetry.Settings.resolve`: settings from a file.
* `Telemetry.Settings.field`: a setting under its key.
* `Telemetry.Settings.Override`, `Telemetry.Settings.applyAll`: settings from the environment.
-/

namespace Telemetry.Settings

/-! ### Files -/

/-- Why a file is no settings. -/
inductive FileFault where
  | missing
  /-- Its bytes are no text. -/
  | notText
  | malformed
  deriving DecidableEq, Repr

/-- Why there are no settings. If a file was asked for, the fault names it. -/
structure LoadFault where
  asked : Option String
  cause : FileFault
  deriving DecidableEq, Repr

/-- The wording of a fault, in one line. -/
def LoadFault.message (f : LoadFault) : String :=
  match f.asked, f.cause with
  | some path, _ => "loading " ++ path
  | none, .missing => "No such file or directory (os error 2)"
  | none, .notText => "stream did not contain valid UTF-8"
  | none, .malformed => "TOML parse error"

variable {σ : Type}

/-- The settings in a file. -/
def load (decode : Toml.Entries → Option σ) (file : Option Bytes) : Except FileFault σ :=
  match file with
  | none => .error .missing
  | some b =>
    match Bytes.text? b with
    | none => .error .notText
    | some s =>
      match (Toml.read? s).bind decode with
      | none => .error .malformed
      | some settings => .ok settings

/-- The settings in the file that was asked for, or in the file in the usual place, or the usual
ones. -/
def resolve (decode : Toml.Entries → Option σ) (usual : σ) (file : String → Option Bytes)
    (asked : Option String) (place : String) : Except LoadFault σ :=
  match asked with
  | some path => (load decode (file path)).mapError fun f => ⟨some path, f⟩
  | none =>
    match file place with
    | none => .ok usual
    | some b => (load decode (some b)).mapError fun f => ⟨none, f⟩

/-! ### Items -/

/-- The setting under a key. -/
def field {α : Type} (es : Toml.Entries) (key : String) (read : Toml.Item → Option α) (usual : α) :
    Option α :=
  match es.lookup key with
  | none => some usual
  | some i => read i

/-- A text. -/
def asText : Toml.Item → Option String
  | .text s => some s
  | _ => none

/-- A truth value. -/
def asFlag : Toml.Item → Option Bool
  | .boolean b => some b
  | _ => none

/-- A whole number that is not negative. -/
def asNat : Toml.Item → Option Nat
  | .integer n => if 0 ≤ n then some n.toNat else none
  | _ => none

/-- Whole numbers that are not negative. -/
def asNats : Toml.Item → Option (List Nat)
  | .array items => items.mapM asNat
  | _ => none

/-- The mode that a word names. -/
def modeOfWord (s : String) : Option Agent.ReportMode :=
  if s = "batch" then some .batch
  else if s = "per_metric" then some .perMetric
  else if s = "unary" then some .unary
  else none

/-- A mode: its word, or a table with the word as its only key and nothing under it. -/
def asMode : Toml.Item → Option Agent.ReportMode
  | .text s => modeOfWord s
  | .table _ [(word, .table _ [])] => modeOfWord word
  | .table _ [(word, .array [])] => modeOfWord word
  | _ => none

/-! ### The environment -/

/-- The environment: the value of each variable that is set. -/
abbrev Environment := String → Option String

/-- Why a variable does not fit: its name and what is wrong with its value. -/
structure VariableFault where
  name : String
  cause : String
  deriving DecidableEq, Repr

/-- A variable and what its value does to the settings. -/
structure Override (σ : Type) where
  name : String
  apply : String → σ → Except String σ

/-- Applies variables in order, up to the first that does not fit. -/
def applyAll (env : Environment) : List (Override σ) → σ → Except VariableFault Unit × σ
  | [], s => (.ok (), s)
  | o :: os, s =>
    match env o.name with
    | none => applyAll env os s
    | some v =>
      match o.apply v s with
      | .error cause => (.error ⟨o.name, cause⟩, s)
      | .ok s => applyAll env os s

/-- Reads a whole number that is not negative. -/
def readNat (v : String) : Except String Nat := (Integer.readU64 v).mapError Integer.Fault.message

/-- Reads a truth value. -/
def readFlag (v : String) : Except String Bool :=
  if v = "true" then .ok true
  else if v = "false" then .ok false
  else .error "provided string was not `true` or `false`"

/-! ### Values -/

/-- Delays in milliseconds that settings hold if they say nothing. -/
def usualDelays : List Nat := [1000, 3000, 5000]

/-- A text without the blanks around it, unless nothing is left. -/
def nonBlank (s : Option String) : Option String := (s.map Text.trim).filter (· ≠ "")

end Telemetry.Settings
