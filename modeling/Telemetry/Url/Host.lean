import Telemetry.Text.Percent
import Telemetry.Text.Split
import Telemetry.Url.Punycode
/-!
# Hosts

The host of an address is a name, an address of four bytes or, between brackets, one of eight
groups. A name may be percent-encoded and is written in lower case. A name whose last part is a
number has to be an address of four bytes.

## Main definitions

* `Telemetry.Url.Fault`: why a text is no address, or none that anything can be sent to.
* `Telemetry.Url.isIpv6`, `Telemetry.Url.isIpv4`
* `Telemetry.Url.readHost`, `Telemetry.Url.readOpaqueHost`: the readers of hosts.
-/

namespace Telemetry.Url

/-- Why a text is no address, or none that anything can be sent to. -/
inductive Fault where
  | relative
  | emptyHost
  | badSocket
  | badIpv4
  | badIpv6
  | badName
  | badCharacter
  | notABase
  deriving DecidableEq, Repr

/-- The wording of a fault. -/
def Fault.message : Fault → String
  | .relative => "relative URL without a base"
  | .emptyHost => "empty host"
  | .badSocket => "invalid port number"
  | .badIpv4 => "invalid IPv4 address"
  | .badIpv6 => "invalid IPv6 address"
  | .badName => "invalid international domain name"
  | .badCharacter => "invalid domain character"
  | .notABase => "not a base URL"

/-- Is the character a hexadecimal digit? -/
def isHexDigit (c : Char) : Bool :=
  c.isDigit || ('a' ≤ c && c ≤ 'f') || ('A' ≤ c && c ≤ 'F')

/-! ### Addresses of four bytes -/

/-- The value of digits in a base, some of which may be letters. -/
def digitsValue (base : Nat) (ds : List Char) : Nat :=
  ds.foldl (fun n c =>
    base * n + if c.isDigit then c.toNat - 48 else c.toLower.toNat - 87) 0

/-- Reads a part of an address of four bytes: decimal, or octal behind a zero, or hexadecimal
behind `0x`. Nothing but `0x` is zero. -/
def ipv4Part : List Char → Option Nat
  | [] => none
  | ['0'] => some 0
  | '0' :: x :: ds =>
    if x = 'x' || x = 'X' then
      if ds.all isHexDigit then some (digitsValue 16 ds) else none
    else if (x :: ds).all fun c => '0' ≤ c && c ≤ '7' then some (digitsValue 8 (x :: ds))
    else none
  | ds => if ds.all Char.isDigit then some (digitsValue 10 ds) else none

/-- The parts between dots, without an empty last one. -/
def dotted (name : List Char) : List (List Char) :=
  let parts := Text.splitChars '.' name
  if 1 < parts.length && parts.getLast? == some [] then parts.dropLast else parts

/-- Is the last part of a name a number? Then the name has to be an address. -/
def endsInNumber (name : List Char) : Bool :=
  match (dotted name).getLast? with
  | none => false
  | some last => (!last.isEmpty && last.all Char.isDigit) || (ipv4Part last).isSome

/-- Is a name an address of four bytes? The last of fewer parts fills all bytes that are left. -/
def isIpv4 (name : List Char) : Bool :=
  let parts := dotted name
  match parts.mapM ipv4Part with
  | none => false
  | some numbers =>
    numbers.length ≤ 4 && numbers.dropLast.all (· < 256) &&
      (numbers.getLast?.getD 0) < Nat.pow 256 (5 - numbers.length)

/-! ### Addresses of eight groups -/

/-- Is a text a byte in decimal without leading zeros? -/
def isDecimalByte (ds : List Char) : Bool :=
  !ds.isEmpty && ds.all Char.isDigit && digitsValue 10 ds < 256 &&
    (ds.length = 1 || ds.head? ≠ some '0')

/-- Is a text four bytes with dots between them? -/
def isDottedQuad (s : List Char) : Bool :=
  let parts := Text.splitChars '.' s
  parts.length = 4 && parts.all isDecimalByte

/-- Is a text a group of one to four hexadecimal digits? -/
def isGroup (s : List Char) : Bool := !s.isEmpty && s.length ≤ 4 && s.all isHexDigit

/-- The number of groups that parts stand for, if they are groups; the last part may stand for two
groups as four bytes. -/
def groupCount (mayEndDotted : Bool) : List (List Char) → Option Nat
  | [] => some 0
  | [last] =>
    if isGroup last then some 1
    else if mayEndDotted && isDottedQuad last then some 2
    else none
  | p :: ps => if isGroup p then (groupCount mayEndDotted ps).map (· + 1) else none

/-- The texts on both sides of the first double colon. -/
def splitDoubleColon : List Char → Option (List Char × List Char)
  | ':' :: ':' :: rest => some ([], rest)
  | c :: rest => (splitDoubleColon rest).map fun (a, b) => (c :: a, b)
  | [] => none

/-- The number of groups in a text without a double colon; an empty text has none. -/
def groupsOf (mayEndDotted : Bool) (s : List Char) : Option Nat :=
  if s.isEmpty then some 0 else groupCount mayEndDotted (Text.splitChars ':' s)

/-- Is a text an address of eight groups? A double colon stands for at least one of them. -/
def isIpv6 (s : List Char) : Bool :=
  match splitDoubleColon s with
  | none => groupsOf true s = some 8
  | some (before, after) =>
    match groupsOf false before, groupsOf true after with
    | some a, some b => a + b ≤ 7
    | _, _ => false

/-! ### Hosts -/

/-- Characters that no name may contain. -/
def isForbidden (c : Char) : Bool :=
  c.toNat ≤ 32 || (127 ≤ c.toNat && c.toNat < 160) || c.toNat = 0xfffd ||
    "%#/:<>?@[\\]^|".toList.contains c

/-- Characters that no host of an unknown scheme may contain. -/
def isForbiddenOpaque (c : Char) : Bool :=
  c.toNat = 0 || c.toNat = 9 || c.toNat = 10 || c.toNat = 13 || " #/:<>?@[\\]^|".toList.contains c

/-- Reads an address between brackets, of which the first has been read. -/
def bracketed (s : List Char) : Except Fault Unit :=
  if s.getLast? = some ']' && isIpv6 s.dropLast then .ok () else .error .badIpv6

/-- Does a name spell out its parts that are written for other scripts? -/
def spellsOut (name : List Char) : Bool :=
  (Text.splitChars '.' name).all fun part =>
    !"xn--".toList.isPrefixOf part || Punycode.isName (part.drop 4)

/-- Reads the host of a known scheme. -/
def readHost (s : List Char) : Except Fault String :=
  match s with
  | '[' :: rest => (bracketed rest).map fun _ => String.ofList s
  | _ =>
    match Percent.decodeText? (String.ofList s) with
    | none => .error .badName
    | some name =>
      let name := name.toList.map Char.toLower
      if name.any isForbidden || !spellsOut name then .error .badName
      else if name.isEmpty then .error .emptyHost
      else if endsInNumber name && !isIpv4 name then .error .badIpv4
      else .ok (String.ofList name)

/-- Reads the host of an unknown scheme. -/
def readOpaqueHost (s : List Char) : Except Fault String :=
  match s with
  | '[' :: rest => (bracketed rest).map fun _ => String.ofList s
  | _ => if s.any isForbiddenOpaque then .error .badCharacter else .ok (String.ofList s)

end Telemetry.Url
