import Telemetry.Json.Scalar
/-!
# Skipping values

A member that nobody asked for is skipped: it has to be well formed, however deep it is, but its
numbers may have any size and its strings any bytes.

## Main definitions

* `Telemetry.Json.skipValue`
-/

namespace Telemetry.Json

variable {ε : Type}

/-- Skips a string behind its opening quote. -/
def skipString : Bytes → Except (Fault ε) Bytes
  | [] => .error .ended
  | b :: s =>
    if b = 34 then .ok s
    else if b = 92 then
      match s with
      | [] => .error .ended
      | e :: s =>
        if e = 117 then
          match s with
          | h₁ :: h₂ :: h₃ :: h₄ :: s =>
            if (hex4? h₁ h₂ h₃ h₄).isSome then skipString s else .error .malformed
          | _ => .error .ended
        else if (escape? e).isSome then skipString s else .error .malformed
    else if b < 32 then .error .malformed
    else skipString s

/-- Skips at least one digit. -/
def skipDigits (s : Bytes) : Except (Fault ε) Bytes :=
  if atDigit s then .ok (countDigits 0 s).2 else .error .malformed

/-- Skips an exponent, if there is one. -/
def skipExponent (s : Bytes) : Except (Fault ε) Bytes :=
  if atExponent s then
    match s.tail with
    | 43 :: s => skipDigits s
    | 45 :: s => skipDigits s
    | s => skipDigits s
  else .ok s

/-- Skips a number behind its sign. -/
def skipNumber : Bytes → Except (Fault ε) Bytes
  | [] => .error .malformed
  | b :: s =>
    let whole : Except (Fault ε) Bytes :=
      if b = 48 then if atDigit s then .error .malformed else .ok s
      else skipDigits (b :: s)
    match whole with
    | .error f => .error f
    | .ok (46 :: s) =>
      match skipDigits s with
      | .error f => .error f
      | .ok s => skipExponent s
    | .ok s => skipExponent s

/-- Skips a scalar of which the first byte has been seen. -/
def skipScalar (b : UInt8) (s : Bytes) : Except (Fault ε) Bytes :=
  if b = 110 then keyword [117, 108, 108] s
  else if b = 116 then keyword [114, 117, 101] s
  else if b = 102 then keyword [97, 108, 115, 101] s
  else if b = 45 then skipNumber s
  else if Bytes.isDigit b then skipNumber (b :: s)
  else if b = 34 then skipString s
  else .error .malformed

/-- What a value may stand in. -/
inductive Frame where
  | array
  | object
  deriving DecidableEq, Repr

/-- The byte that closes a frame. -/
def Frame.closing : Frame → UInt8
  | .array => 93
  | .object => 125

/-- Skips what stands before a value in a frame: a key and a colon, or nothing. -/
def Frame.skipKey : Frame → Bytes → Except (Fault ε) Bytes
  | .array, s => .ok s
  | .object, s =>
    match skipSpace s with
    | [] => .error .ended
    | b :: s =>
      if b ≠ 34 then .error .malformed
      else match skipString s with
        | .error f => .error f
        | .ok s =>
          match skipSpace s with
          | [] => .error .ended
          | c :: s => if c = 58 then .ok s else .error .malformed

/-- Skips until all frames are closed. `due` says whether a value has to come next or has just
ended. Each round reads at least one byte. -/
def skipFrames : Nat → (due : Bool) → List Frame → Bytes → Except (Fault ε) Bytes
  | _, false, [], s => .ok s
  | 0, _, _, _ => .error .ended
  | n + 1, false, f :: frames, s =>
    match skipSpace s with
    | [] => .error .ended
    | b :: s =>
      if b = 44 then
        match f.skipKey s with
        | .error e => .error e
        | .ok s => skipFrames n true (f :: frames) s
      else if b = f.closing then skipFrames n false frames s
      else .error .malformed
  | n + 1, true, frames, s =>
    match skipSpace s with
    | [] => .error .ended
    | b :: s =>
      if b = 91 || b = 123 then
        let f : Frame := if b = 91 then .array else .object
        match skipSpace s with
        | [] => .error .ended
        | c :: s' =>
          if c = f.closing then skipFrames n false frames s'
          else match f.skipKey s with
            | .error e => .error e
            | .ok s => skipFrames n true (f :: frames) s
      else match skipScalar b s with
        | .error e => .error e
        | .ok s => skipFrames n false frames s

/-- Skips a value of at most a number of tokens. -/
def skipValue (fuel : Nat) (s : Bytes) : Except (Fault ε) Bytes := skipFrames fuel true [] s

end Telemetry.Json
