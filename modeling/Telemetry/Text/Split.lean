/-!
# Splitting

A text is split at every occurrence of a separator. There is always one part more than there are
separators, so splitting loses nothing.

## Main definitions

* `Telemetry.Text.splitChars`, `Telemetry.Text.split`
* `Telemetry.Text.splitFirst`: at the first separator only.
-/

namespace Telemetry.Text

/-- The parts between separators. -/
def splitChars (sep : Char) : List Char → List (List Char)
  | [] => [[]]
  | c :: cs =>
    match splitChars sep cs with
    | [] => [[c]]
    | p :: ps => if c = sep then [] :: p :: ps else (c :: p) :: ps

/-- The parts between separators, as texts. -/
def split (sep : Char) (s : String) : List String := (splitChars sep s.toList).map String.ofList

/-- What comes before the first separator, and what comes behind it if there is one. -/
def splitFirst (sep : Char) : List Char → List Char × Option (List Char)
  | [] => ([], none)
  | c :: cs =>
    if c = sep then ([], some cs)
    else
      let (before, after) := splitFirst sep cs
      (c :: before, after)

end Telemetry.Text
