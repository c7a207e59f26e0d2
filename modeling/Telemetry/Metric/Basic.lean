import Telemetry.Binary64.Text
import Telemetry.Text.Integer
/-!
# Metrics

A metric is a named measurement of one of two kinds. A gauge is a level, of which only the latest
value counts; a counter is an amount to be added to what was counted before. A name may be used
once for each kind.

## Main definitions

* `Telemetry.Kind`, `Telemetry.Value`, `Telemetry.Metric`
* `Telemetry.Key`: a name and a kind, ordered by name and then by kind.
-/

namespace Telemetry

/-- The kinds of metrics, in their order. -/
inductive Kind where
  | gauge
  | counter
  deriving DecidableEq, Repr, Inhabited

/-- The word for a kind. -/
def Kind.word : Kind → String
  | .gauge => "gauge"
  | .counter => "counter"

/-- The kind that a word names. -/
def Kind.ofWord? (s : String) : Option Kind :=
  if s = "gauge" then some .gauge else if s = "counter" then some .counter else none

@[simp] theorem Kind.ofWord?_word (k : Kind) : Kind.ofWord? k.word = some k := by
  cases k <;> rfl

/-- Gauges come before counters. -/
def Kind.rank : Kind → Nat
  | .gauge => 0
  | .counter => 1

/-- What identifies a metric: its name and its kind. -/
structure Key where
  id : String
  kind : Kind
  deriving DecidableEq, Repr, Inhabited

/-- Keys are ordered by name, character by character, and then by kind. -/
instance : Ord Key := ⟨compareLex (compareOn Key.id) (compareOn fun k => k.kind.rank)⟩

/-- The text of a key: the kind, a slash and the name. -/
def Key.text (k : Key) : String := k.kind.word ++ "/" ++ k.id

/-- A measured value. -/
inductive Value where
  | gauge (level : Binary64)
  | counter (delta : Int64)
  deriving DecidableEq, Repr, Inhabited

namespace Value

/-- The kind of a value. -/
def kind : Value → Kind
  | .gauge _ => .gauge
  | .counter _ => .counter

/-- The text of a value on a page. -/
def display : Value → String
  | .gauge x => x.display
  | .counter d => Integer.text d.toInt

/-- Is the value a finite number? Counters always are. -/
def isFinite : Value → Bool
  | .gauge x => x.isFinite
  | .counter _ => true

/-- Equality of the numbers, which is not equality of the values: a level that is no number
differs even from itself. -/
def sameNumber : Value → Value → Bool
  | .gauge x, .gauge y => x.sameNumber y
  | .counter d, .counter e => d == e
  | _, _ => false

/-- The value of a kind that a text gives; a level has to be finite. -/
def read? : Kind → String → Option Value
  | .gauge, s => ((Binary64.read? s).filter Binary64.isFinite).map .gauge
  | .counter, s =>
    match Integer.read64 s with
    | .ok d => some (.counter d)
    | .error _ => none

end Value

/-- A named measurement. -/
structure Metric where
  id : String
  value : Value
  deriving DecidableEq, Repr, Inhabited

namespace Metric

/-- The kind of a metric is that of its value. -/
def kind (m : Metric) : Kind := m.value.kind

/-- What a metric is stored under. -/
def key (m : Metric) : Key := ⟨m.id, m.kind⟩

/-- Metrics that a store may hold have a name and a finite value. -/
def isSound (m : Metric) : Bool := m.id ≠ "" && m.value.isFinite

/-- Equality by numbers, as in `Value.sameNumber`. -/
def sameNumber (m n : Metric) : Bool := m.id == n.id && m.value.sameNumber n.value

end Metric

/-! ### Order of keys -/

instance : Std.TransOrd Key :=
  inferInstanceAs (Std.TransCmp (compareLex (compareOn Key.id) (compareOn fun k => k.kind.rank)))

instance : Std.LawfulEqOrd Key where
  compare_self := Std.ReflCmp.compare_self
  eq_of_compare {a b} h := by
    obtain ⟨i, k⟩ := a
    obtain ⟨j, l⟩ := b
    replace h : (compare i j).then (compare k.rank l.rank) = .eq := h
    rw [Ordering.then_eq_eq] at h
    have hi : i = j := Std.LawfulEqOrd.eq_of_compare (α := String) h.1
    have hk : k.rank = l.rank := Std.LawfulEqOrd.eq_of_compare (α := Nat) h.2
    cases k <;> cases l <;> simp_all [Kind.rank]

end Telemetry
