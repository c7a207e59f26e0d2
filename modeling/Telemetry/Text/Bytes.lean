/-!
# Bytes and the texts they spell

Bodies, keys and files are byte strings. A byte string is a list, first byte first, so that a
reader is a function that takes a list apart; its text, where it has one, is what it spells in
UTF-8.

## Main definitions

* `Telemetry.Bytes`: a byte string.
* `Telemetry.Bytes.ofText`: the UTF-8 bytes of a text.
* `Telemetry.Bytes.text?`: the text a byte string spells, if it is well formed.

## Main results

* `Telemetry.Bytes.text?_ofText`: a text comes back from its bytes.
* `Telemetry.Bytes.ofText_of_text?`: and only from them.
* `Telemetry.Bytes.ofText_eq`, `Telemetry.Bytes.ofText_ofList`: the bytes are those of the
  characters, one after the other.
-/

namespace Telemetry

/-- A byte string, first byte first. -/
abbrev Bytes := List UInt8

namespace Bytes

/-- The UTF-8 bytes of a text. -/
def ofText (s : String) : Bytes := s.toByteArray.data.toList

/-- The text that a byte string spells, or nothing if it is not well-formed UTF-8. -/
def text? (b : Bytes) : Option String := String.fromUTF8? ⟨b.toArray⟩

/-- A text comes back from its bytes. -/
@[simp] theorem text?_ofText (s : String) : text? (ofText s) = some s := by
  have e : (⟨(ofText s).toArray⟩ : ByteArray) = s.toByteArray := by simp [ofText]
  have key : ∀ b : ByteArray, b = s.toByteArray → String.fromUTF8? b = some s := by
    intro b hb
    subst hb
    exact dif_pos s.isValidUTF8
  exact key _ e

/-- A byte string with a text is that text's bytes. -/
theorem ofText_of_text? {b : Bytes} {s : String} (h : text? b = some s) : ofText s = b := by
  simp only [text?, String.fromUTF8?] at h
  split at h
  · cases h; simp [ofText, String.fromUTF8]
  · cases h

theorem ofText_injective {s t : String} (h : ofText s = ofText t) : s = t :=
  Option.some.inj (by rw [← text?_ofText s, h, text?_ofText])

/-! ### The bytes of the characters -/

theorem ofText_ofList (cs : List Char) :
    ofText (String.ofList cs) = cs.flatMap String.utf8EncodeChar := by
  simp [ofText, List.utf8Encode]

theorem ofText_eq (s : String) : ofText s = s.toList.flatMap String.utf8EncodeChar := by
  rw [← ofText_ofList, String.ofList_toList]

theorem ofText_append (s t : String) : ofText (s ++ t) = ofText s ++ ofText t := by
  rw [ofText_eq, String.toList_append, List.flatMap_append, ← ofText_eq, ← ofText_eq]

/-- The bytes of a beginning are a beginning of the bytes. -/
theorem ofText_isPrefix {p s : String} (h : p.toList <+: s.toList) : ofText p <+: ofText s := by
  obtain ⟨rest, hrest⟩ := h
  refine ⟨rest.flatMap String.utf8EncodeChar, ?_⟩
  rw [ofText_eq, ofText_eq, ← List.flatMap_append, hrest]

/-! ### ASCII -/

/-- Is the byte a decimal digit? -/
def isDigit (b : UInt8) : Bool := 48 ≤ b && b ≤ 57

/-- The value of a decimal digit. -/
def digitValue (b : UInt8) : Nat := b.toNat - 48

/-- The ASCII blanks: space, tab, line feed, form feed and carriage return. -/
def isBlank (b : UInt8) : Bool := b == 32 || b == 9 || b == 10 || b == 12 || b == 13

/-- Upper-case ASCII letters become lower-case ones; every other byte stays. -/
def lower (b : UInt8) : UInt8 := if 65 ≤ b && b ≤ 90 then b + 32 else b

end Bytes
end Telemetry
