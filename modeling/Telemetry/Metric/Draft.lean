import Telemetry.Metric.Basic
/-!
# Drafts

What arrives from outside is a draft of a metric: every part may be missing and nothing has been
checked. The checks look at the name, the type and the value, always in this order, so that the
first refusal does not depend on how they were asked for.

## Main definitions

* `Telemetry.Draft`: a metric as it is sent.
* `Telemetry.Refusal`: why a draft is no metric.
* `Telemetry.Draft.check`: the checks on some parts of a draft.
* `Telemetry.Draft.key?`, `Telemetry.Draft.metric?`: what a draft asks for, what it says.
* `Telemetry.Metric.draft`: a metric as it is sent.
-/

namespace Telemetry

/-- A metric as it is sent; a counter comes as `delta`, a gauge as `value`. -/
structure Draft where
  id : String := ""
  type : String := ""
  delta : Option Int64 := none
  value : Option Binary64 := none
  hash : Option String := none
  deriving DecidableEq, Repr, Inhabited

/-- Why a draft is no metric. -/
inductive Refusal where
  | emptyId
  | emptyType
  | unknownType (word : String)
  | noValue
  | badValue (kind : Kind) (raw : String)
  deriving DecidableEq, Repr

/-- The wording of a refusal. -/
def Refusal.message : Refusal → String
  | .emptyId => "metric id is empty"
  | .emptyType => "metric type is empty"
  | .unknownType w => "invalid metric type: " ++ w
  | .noValue => "metric has no value"
  | .badValue k raw => "invalid " ++ k.word ++ " value: " ++ raw

/-- The kind that a word names, or why it names none. -/
def Kind.read (s : String) : Except Refusal Kind :=
  if s = "" then .error .emptyType
  else match Kind.ofWord? s with
    | some k => .ok k
    | none => .error (.unknownType s)

/-- The value of a kind that a text gives, or the refusal that quotes the text. -/
def Value.read (k : Kind) (raw : String) : Except Refusal Value :=
  match Value.read? k raw with
  | some v => .ok v
  | none => .error (.badValue k raw)

/-- The value, unless it is no finite number. -/
def Value.finite (v : Value) : Except Refusal Value :=
  if v.isFinite then .ok v else .error (.badValue v.kind v.display)

/-- The parts of a draft that can be checked. -/
inductive Part where
  | id
  | type
  | value
  deriving DecidableEq, Repr

namespace Draft

/-- The check of one part. -/
def checkPart (d : Draft) : Part → Except Refusal Unit
  | .id => if d.id = "" then .error .emptyId else .ok ()
  | .type => (Kind.read d.type).map fun _ => ()
  | .value => if d.delta.isNone && d.value.isNone then .error .noValue else .ok ()

/-- The checks of the chosen parts, all of them if none is chosen. -/
def check (d : Draft) (parts : List Part) : Except Refusal Unit :=
  ([.id, .type, .value] : List Part).forM fun p =>
    if parts.isEmpty || parts.contains p then d.checkPart p else .ok ()

/-- The key that a draft asks for. -/
def key? (d : Draft) : Except Refusal Key := do
  d.check [.id, .type]
  return ⟨d.id, ← Kind.read d.type⟩

/-- The value in the field for a kind. -/
def valueOf (d : Draft) : Kind → Option Value
  | .gauge => d.value.map .gauge
  | .counter => d.delta.map .counter

/-- The metric that a draft says. -/
def metric? (d : Draft) : Except Refusal Metric := do
  d.check []
  match d.valueOf (← Kind.read d.type) with
  | none => throw .noValue
  | some v => return ⟨d.id, ← v.finite⟩

end Draft

/-- A metric as it is sent. -/
def Metric.draft (m : Metric) : Draft :=
  match m.value with
  | .gauge x => { id := m.id, type := m.kind.word, value := some x }
  | .counter d => { id := m.id, type := m.kind.word, delta := some d }

end Telemetry
