import Telemetry.Binary64.Text
import Telemetry.Text.Integer
import Telemetry.Toml.Basic
/-!
# Keys and scalars

The parts of a document that have no parts: blanks, comments, keys, texts in their four ways of
quoting, numbers, moments in time and truth values. A reader takes characters off the front of a
text, or fails.

## Main definitions

* `Telemetry.Toml.Reader`
* `Telemetry.Toml.key`: a dotted key.
* `Telemetry.Toml.quoted`: a text.
* `Telemetry.Toml.number`: a number or a moment.
-/

namespace Telemetry.Toml

/-- A reader takes something off the front of a text and leaves the rest. -/
abbrev Reader (α : Type) := List Char → Option (α × List Char)

/-! ### Blanks -/

/-- Is the character a blank within a line? -/
def isBlank (c : Char) : Bool := c = ' ' || c = '\t'

/-- The text behind blanks. -/
def skipBlanks (s : List Char) : List Char := s.dropWhile isBlank

/-- May the character stand in a comment or between quotes? Control characters may not, except the
tab. -/
def isPrintable (c : Char) : Bool := c = '\t' || (32 ≤ c.toNat && c.toNat ≠ 127)

/-- The text behind a line break, if it begins with one. -/
def lineBreak : List Char → Option (List Char)
  | '\n' :: s => some s
  | '\r' :: '\n' :: s => some s
  | _ => none

/-- The text behind a comment, if it begins with one; otherwise the text itself. -/
def skipComment : List Char → List Char
  | '#' :: s => s.dropWhile isPrintable
  | s => s

/-- The text behind the end of a line with nothing but a comment on it. -/
def endLine (s : List Char) : Option (List Char) :=
  match skipComment (skipBlanks s) with
  | [] => some []
  | s => lineBreak s

/-- The text behind blanks, line breaks and comments; each comment ends with a line break. -/
def skipLines : Nat → List Char → Option (List Char)
  | 0, s => some s
  | n + 1, s =>
    match skipBlanks s with
    | '#' :: s => (lineBreak (s.dropWhile isPrintable)).bind (skipLines n)
    | s =>
      match lineBreak s with
      | some s => skipLines n s
      | none => some s

/-! ### Texts -/

/-- The value of a hexadecimal digit. -/
def hexValue? (c : Char) : Option Nat :=
  if c.isDigit then some (c.toNat - 48)
  else if 'a' ≤ c && c ≤ 'f' then some (c.toNat - 87)
  else if 'A' ≤ c && c ≤ 'F' then some (c.toNat - 55)
  else none

/-- The character of a number of hexadecimal digits. -/
def codePoint (digits : Nat) (s : List Char) : Option (Char × List Char) :=
  match (s.take digits).mapM hexValue? with
  | none => none
  | some vs =>
    let n := vs.foldl (fun n v => 16 * n + v) 0
    if vs.length = digits && n.isValidChar then some (Char.ofNat n, s.drop digits) else none

/-- The character of an escape, behind its backslash. -/
def escape : Reader Char
  | 'b' :: s => some (Char.ofNat 8, s)
  | 't' :: s => some ('\t', s)
  | 'n' :: s => some ('\n', s)
  | 'f' :: s => some (Char.ofNat 12, s)
  | 'r' :: s => some ('\r', s)
  | '"' :: s => some ('"', s)
  | '\\' :: s => some ('\\', s)
  | 'u' :: s => codePoint 4 s
  | 'U' :: s => codePoint 8 s
  | _ => none

/-- The rest of a text between double quotes, on one line. -/
def basicRest : Nat → Reader (List Char)
  | 0, _ => none
  | n + 1, s =>
    match s with
    | [] => none
    | '"' :: s => some ([], s)
    | '\\' :: s =>
      match escape s with
      | none => none
      | some (c, s) => (basicRest n s).map fun (cs, s) => (c :: cs, s)
    | c :: s => if isPrintable c then (basicRest n s).map fun (cs, s) => (c :: cs, s) else none

/-- The rest of a text between single quotes, on one line. -/
def literalRest : Reader (List Char)
  | [] => none
  | '\'' :: s => some ([], s)
  | c :: s => if isPrintable c then (literalRest s).map fun (cs, s) => (c :: cs, s) else none

/-- The end of a text between triple quotes: three quotes, and up to two more that belong to the
text. -/
def tripleEnd (quote : Char) (s : List Char) : Option (List Char × List Char) :=
  let n := min 5 (s.takeWhile (· = quote)).length
  if 3 ≤ n then some (List.replicate (n - 3) quote, s.drop n) else none

/-- Is every carriage return part of a line break? -/
def returnsInBreaks : List Char → Bool
  | [] => true
  | ['\r'] => false
  | [_] => true
  | a :: b :: s => (a ≠ '\r' || b = '\n') && returnsInBreaks (b :: s)

/-- The text behind a backslash at the end of a line: it joins the lines and drops the blanks
between them. -/
def joinLines (s : List Char) : Option (List Char) :=
  (lineBreak (skipBlanks s)).bind fun s =>
    let spaces := s.takeWhile fun c => isBlank c || c = '\n' || c = '\r'
    if returnsInBreaks spaces then some (s.drop spaces.length) else none

/-- The rest of a text between triple quotes. Escapes mean something only between double ones. -/
def tripleRest (quote : Char) : Nat → Reader (List Char)
  | 0, _ => none
  | n + 1, s =>
    match tripleEnd quote s, lineBreak s with
    | some found, _ => some found
    | none, some s => (tripleRest quote n s).map fun (cs, s) => ('\n' :: cs, s)
    | none, none =>
      match s with
      | [] => none
      | c :: s =>
        if c = '\\' && quote = '"' then
          match escape s, joinLines s with
          | some (c, s), _ => (tripleRest quote n s).map fun (cs, s) => (c :: cs, s)
          | none, some s => tripleRest quote n s
          | none, none => none
        else if isPrintable c then (tripleRest quote n s).map fun (cs, s) => (c :: cs, s)
        else none

/-- A text between quotes of any kind. A line break right behind triple quotes does not count. -/
def quoted (s : List Char) : Option (String × List Char) :=
  let found :=
    match s with
    | '"' :: '"' :: '"' :: s => tripleRest '"' (s.length + 1) ((lineBreak s).getD s)
    | '\'' :: '\'' :: '\'' :: s => tripleRest '\'' (s.length + 1) ((lineBreak s).getD s)
    | '"' :: s => basicRest (s.length + 1) s
    | '\'' :: s => literalRest s
    | _ => none
  found.map fun (cs, s) => (String.ofList cs, s)

/-! ### Keys -/

/-- May the character stand in a key without quotes? -/
def isBare (c : Char) : Bool := c.isAlphanum || c = '_' || c = '-'

/-- A part of a key: bare, or a text on one line. -/
def keyPart (s : List Char) : Option (String × List Char) :=
  match s with
  | '"' :: s => (basicRest (s.length + 1) s).map fun (cs, s) => (String.ofList cs, s)
  | '\'' :: s => (literalRest s).map fun (cs, s) => (String.ofList cs, s)
  | s =>
    let part := s.takeWhile isBare
    if part.isEmpty then none else some (String.ofList part, s.drop part.length)

/-- Parts of a key with dots between them and blanks around them. -/
def keyParts : Nat → Reader (List String)
  | 0, _ => none
  | n + 1, s =>
    match keyPart (skipBlanks s) with
    | none => none
    | some (part, s) =>
      match skipBlanks s with
      | '.' :: s => (keyParts n s).map fun (parts, s) => (part :: parts, s)
      | s => some ([part], s)

/-- How deep a key or a value may go: tables and arrays lie less than so deep. -/
def depthLimit : Nat := 80

/-- A dotted key. -/
def key (s : List Char) : Option (List String × List Char) :=
  (keyParts (s.length + 1) s).filter fun (parts, _) => parts.length < depthLimit

/-! ### Numbers -/

/-- Digits, single underscores between them. -/
def digits (isDigit : Char → Bool) : List Char → List Char × List Char
  | [] => ([], [])
  | c :: s =>
    if isDigit c then
      match s with
      | '_' :: d :: s' =>
        if isDigit d then
          let (ds, rest) := digits isDigit (d :: s')
          (c :: ds, rest)
        else ([c], s)
      | s =>
        let (ds, rest) := digits isDigit s
        (c :: ds, rest)
    else ([], c :: s)

/-- The value of digits in a base. -/
def digitsValue (base : Nat) (ds : List Char) : Nat :=
  ds.foldl (fun n c => base * n + (hexValue? c).getD 0) 0

/-- An integer of 64 bits. -/
def integer (n : Int) : Option Item := (Integer.int64? n).map fun _ => .integer n

/-- A whole number in a base other than ten, behind its mark. -/
def based (base : Nat) (isDigit : Char → Bool) (s : List Char) : Option (Item × List Char) :=
  let (ds, s) := digits isDigit s
  if ds.isEmpty then none else (integer (digitsValue base ds)).map (·, s)

/-- A sign, if there is one: the text of it, and the rest. -/
def sign : List Char → List Char × List Char
  | '+' :: s => (['+'], s)
  | '-' :: s => (['-'], s)
  | s => ([], s)

/-- Digits that do not begin with a needless zero. -/
def wholeDigits (s : List Char) : List Char × List Char :=
  match s with
  | '0' :: rest => (['0'], rest)
  | _ => digits Char.isDigit s

/-- The decimals behind a point, with the point. -/
def decimals (s : List Char) : Option (List Char × List Char) :=
  match s with
  | '.' :: s =>
    let (ds, s) := digits Char.isDigit s
    if ds.isEmpty then none else some ('.' :: ds, s)
  | _ => none

/-- An exponent with its letter. -/
def exponent (s : List Char) : Option (List Char × List Char) :=
  match s with
  | e :: s =>
    if e = 'e' || e = 'E' then
      let (sg, s) := sign s
      let (ds, s) := digits Char.isDigit s
      if ds.isEmpty then none else some ('e' :: (sg ++ ds), s)
    else none
  | [] => none

/-- A number that is not whole, from its text; it may not be larger than all numbers. -/
def float (text : List Char) : Option Item :=
  match Binary64.read? (String.ofList text) with
  | none => none
  | some x => if !x.isFinite && !x.negative then none else some .float

/-- A decimal number: whole, or with decimals or an exponent. -/
def decimal (s : List Char) : Option (Item × List Char) :=
  let (sg, s) := sign s
  match s with
  | 'i' :: 'n' :: 'f' :: s => some (.float, s)
  | 'n' :: 'a' :: 'n' :: s => some (.float, s)
  | s =>
    let (ds, s) := wholeDigits s
    if ds.isEmpty then none
    else match decimals s, exponent s with
      | some (point, s), _ =>
        let (e, s) := (exponent s).getD ([], s)
        (float (sg ++ ds ++ point ++ e)).map (·, s)
      | none, some (e, s) => (float (sg ++ ds ++ e)).map (·, s)
      | none, none =>
        let n : Int := digitsValue 10 ds
        (integer (if sg = ['-'] then -n else n)).map (·, s)

/-! ### Moments -/

/-- A number of a fixed number of digits. -/
def fixed (count : Nat) (s : List Char) : Option (Nat × List Char) :=
  let ds := s.take count
  if ds.length = count && ds.all Char.isDigit then some (digitsValue 10 ds, s.drop count) else none

/-- How many days a month has. -/
def daysIn (year month : Nat) : Nat :=
  let leap := year % 4 = 0 && (year % 100 ≠ 0 || year % 400 = 0)
  if month = 2 then (if leap then 29 else 28)
  else if [4, 6, 9, 11].contains month then 30
  else 31

/-- The outcome of looking for something that may not be there: it is not, it is there but wrong,
or it is there and this is what comes behind it. -/
inductive Found where
  | absent
  | wrong
  | behind (rest : List Char)

/-- A date. Behind a year and a dash there has to be one. -/
def date (s : List Char) : Found :=
  match fixed 4 s with
  | some (year, '-' :: s) =>
    match fixed 2 s with
    | some (month, '-' :: s) =>
      match fixed 2 s with
      | some (day, s) =>
        if 1 ≤ month && month ≤ 12 && 1 ≤ day && day ≤ daysIn year month then .behind s else .wrong
      | none => .wrong
    | _ => .wrong
  | _ => .absent

/-- A time of day. Behind an hour and a colon there has to be one. -/
def time (s : List Char) : Found :=
  match fixed 2 s with
  | some (hour, ':' :: s) =>
    if 23 < hour then .absent
    else match fixed 2 s with
      | some (minute, ':' :: s) =>
        match fixed 2 s with
        | some (second, s) =>
          if 59 < minute || 60 < second then .wrong
          else match s with
            | '.' :: d :: s =>
              if d.isDigit then .behind (s.dropWhile Char.isDigit) else .behind ('.' :: d :: s)
            | s => .behind s
        | none => .wrong
      | _ => .wrong
  | _ => .absent

/-- An offset from universal time. -/
def offset (s : List Char) : Found :=
  match s with
  | [] => .absent
  | c :: s =>
    if c = 'Z' || c = 'z' then .behind s
    else if c = '+' || c = '-' then
      match fixed 2 s with
      | some (hour, ':' :: s) =>
        match fixed 2 s with
        | some (minute, s) => if hour ≤ 23 && minute ≤ 59 then .behind s else .wrong
        | none => .wrong
      | _ => .wrong
    else .absent

/-- A moment: a date, a date with a time and perhaps an offset, or a time. -/
def moment (s : List Char) : Found :=
  match date s with
  | .wrong => .wrong
  | .absent => time s
  | .behind rest =>
    match rest with
    | c :: s =>
      if c = 'T' || c = 't' || c = ' ' then
        match time s with
        | .wrong => .wrong
        | .absent => .behind rest
        | .behind s =>
          match offset s with
          | .wrong => .wrong
          | .absent => .behind s
          | .behind s => .behind s
      else .behind rest
    | [] => .behind []

/-- A number or a moment. -/
def number (s : List Char) : Option (Item × List Char) :=
  match moment s with
  | .wrong => none
  | .behind rest => some (.moment, rest)
  | .absent =>
    match s with
    | '0' :: 'x' :: s => based 16 (fun c => (hexValue? c).isSome) s
    | '0' :: 'o' :: s => based 8 (fun c => '0' ≤ c && c ≤ '7') s
    | '0' :: 'b' :: s => based 2 (fun c => c = '0' || c = '1') s
    | s => decimal s

end Telemetry.Toml
