import Telemetry.Metric.Wire
import Telemetry.Proofs.Json.Scalar
import Telemetry.Proofs.Metric.Draft
import Mathlib.Data.Bool.Basic

/-!
# Faults for other reasons

Readers of scalars, keys and skipped values reject nothing of their own accord, and those of
optional values, arrays and documents only what the readers in them reject. So nothing depends on
what the reasons for a rejection are: with the reasons renamed the same is read, and the same
faults are found.

There is one equation for each reader, and they are proved alike: the readers inside are replaced by
the renamed ones, and then both sides branch on the same bytes.

## Main definitions

* `Telemetry.Json.Fault.map` — a fault with its reason renamed

## Main results

* `Telemetry.Json.readArray_map`, `Telemetry.Json.document_map` — arrays and documents
* `Telemetry.Wire.draft_map` — drafts
-/

namespace Telemetry

namespace Json

variable {ε δ α β : Type}

/-- A fault with the reason of a rejection renamed. -/
@[grind =] def Fault.map (f : ε → δ) : Fault ε → Fault δ
  | .ended => .ended
  | .malformed => .malformed
  | .unfit => .unfit
  | .rejected r => .rejected (f r)

theorem mapError_map (φ : ε → δ) (g : α → β) (x : Except ε α) :
    (x.map g).mapError φ = (x.mapError φ).map g := by
  cases x <;> rfl

variable (f : ε → δ)

/-! ### Scalars -/

theorem keyword_map (k s : Bytes) : (keyword k s).mapError (Fault.map f) = keyword k s := by
  fun_induction keyword (ε := ε) k s <;> grind [keyword, Except.mapError]

theorem stringBody_map (acc s : Bytes) :
    (stringBody acc s).mapError (Fault.map f) = stringBody acc s := by
  fun_induction stringBody (ε := ε) acc s <;> rw [stringBody.eq_def (ε := δ)] <;>
    grind [Except.mapError]

theorem stringRest_map (s : Bytes) : (stringRest s).mapError (Fault.map f) = stringRest s := by
  rw [stringRest, stringRest, ← stringBody_map f]
  cases stringBody (ε := ε) [] s with
  | error e => rfl
  | ok x =>
    dsimp only [Except.mapError]
    cases Bytes.text? x.1 <;> rfl

theorem assemble_map (negative : Bool) (n : ℕ) (e : Int) (s : Bytes) :
    (assemble negative n e s).mapError (Fault.map f) = assemble negative n e s := by
  rw [assemble, assemble]
  split <;> rfl

theorem exponentPart_map (negative : Bool) (n : ℕ) (e : Int) (s : Bytes) :
    (exponentPart negative n e s).mapError (Fault.map f) = exponentPart negative n e s := by
  simp only [exponentPart, ← assemble_map f]
  split <;> grind [Except.mapError]

theorem numberEnd_map (negative : Bool) (n : ℕ) (e : Int) (s : Bytes) :
    (numberEnd negative n e s).mapError (Fault.map f) = numberEnd negative n e s := by
  rw [numberEnd, numberEnd, ← exponentPart_map f, ← assemble_map f]
  split <;> rfl

theorem fractionPart_map (negative : Bool) (n : ℕ) (e : Int) (s : Bytes) :
    (fractionPart negative n e s).mapError (Fault.map f) = fractionPart negative n e s := by
  simp only [fractionPart, ← numberEnd_map f]
  grind [Except.mapError]

theorem numberRest_map (negative : Bool) (n : ℕ) (s : Bytes) :
    (numberRest negative n s).mapError (Fault.map f) = numberRest negative n s := by
  simp only [numberRest, ← fractionPart_map f, ← exponentPart_map f]
  grind [Except.mapError]

theorem numberBody_map (negative : Bool) (s : Bytes) :
    (numberBody negative s).mapError (Fault.map f) = numberBody negative s := by
  cases s with
  | nil => rfl
  | cons b s =>
    simp only [numberBody, ← numberRest_map f, ← fractionPart_map f, ← numberEnd_map f]
    grind [Except.mapError]

theorem unexpected_map (s : Bytes) : (unexpected s).map f = unexpected s := by
  cases s with
  | nil => rfl
  | cons b s =>
    simp only [unexpected, ← keyword_map f, ← numberBody_map f, ← stringRest_map f]
    grind [Except.mapError]

theorem text_map (s : Bytes) : (text s).mapError (Fault.map f) = text s := by
  rw [text, text]
  cases skipSpace s with
  | nil => rfl
  | cons b s =>
    simp only [← stringRest_map f, ← unexpected_map f]
    split <;> rfl

theorem anyNumber_map (s : Bytes) : (anyNumber s).mapError (Fault.map f) = anyNumber s := by
  rw [anyNumber, anyNumber]
  cases skipSpace s with
  | nil => rfl
  | cons b s =>
    simp only [← numberBody_map f, ← unexpected_map f]
    grind [Except.mapError]

theorem int64_map (s : Bytes) : (int64 s).mapError (Fault.map f) = int64 s := by
  rw [int64, int64, ← anyNumber_map f]
  cases anyNumber (ε := ε) s <;> grind [Except.mapError]

theorem binary64_map (s : Bytes) : (binary64 s).mapError (Fault.map f) = binary64 s := by
  rw [binary64, binary64, ← anyNumber_map f]
  cases anyNumber (ε := ε) s <;> grind [Except.mapError]

/-- What a number is read as does not depend on what the reader may object to. -/
theorem binary64_congr {s : Bytes} {p : Binary64 × Bytes} (h : binary64 (ε := ε) s = .ok p) :
    binary64 (ε := δ) s = .ok p := by
  rw [← binary64_map Empty.elim, mapError_eq_ok] at h ⊢
  exact h

theorem optional_map {r : Reader ε α} {r' : Reader δ α}
    (hr : ∀ s, (r s).mapError (Fault.map f) = r' s) (s : Bytes) :
    (optional r s).mapError (Fault.map f) = optional r' s := by
  simp only [optional, ← hr, ← keyword_map f]
  split <;> exact mapError_map ..

/-! ### Skipped values -/

theorem skipString_map (s : Bytes) : (skipString s).mapError (Fault.map f) = skipString s := by
  fun_induction skipString (ε := ε) s <;> rw [skipString.eq_def (ε := δ)] <;>
    grind [Except.mapError]

theorem skipDigits_map (s : Bytes) : (skipDigits s).mapError (Fault.map f) = skipDigits s := by
  rw [skipDigits, skipDigits]
  split <;> rfl

theorem skipExponent_map (s : Bytes) :
    (skipExponent s).mapError (Fault.map f) = skipExponent s := by
  simp only [skipExponent, ← skipDigits_map f]
  grind [Except.mapError]

theorem skipNumber_map (s : Bytes) : (skipNumber s).mapError (Fault.map f) = skipNumber s := by
  cases s with
  | nil => rfl
  | cons b s =>
    simp only [skipNumber, ← skipDigits_map f, ← skipExponent_map f]
    grind [Except.mapError]

theorem skipScalar_map (b : UInt8) (s : Bytes) :
    (skipScalar b s).mapError (Fault.map f) = skipScalar b s := by
  simp only [skipScalar, ← keyword_map f, ← skipNumber_map f, ← skipString_map f]
  grind [Except.mapError]

theorem skipKey_map (frame : Frame) (s : Bytes) :
    (frame.skipKey s).mapError (Fault.map f) = frame.skipKey s := by
  cases frame with
  | array => rfl
  | object =>
    simp only [Frame.skipKey, ← skipString_map f]
    grind [Except.mapError]

theorem skipFrames_map (n : ℕ) (due : Bool) (frames : List Frame) (s : Bytes) :
    (skipFrames n due frames s).mapError (Fault.map f) = skipFrames n due frames s := by
  induction n generalizing due frames s with
  | zero => cases due <;> cases frames <;> rfl
  | succ n ih =>
    cases due with
    | true =>
      simp only [skipFrames, ← skipKey_map f, ← skipScalar_map f, ← ih]
      grind [Except.mapError]
    | false =>
      cases frames with
      | nil => rfl
      | cons frame frames =>
        simp only [skipFrames, ← skipKey_map f, ← ih]
        grind [Except.mapError]

theorem skipValue_map (fuel : ℕ) (s : Bytes) :
    (skipValue fuel s).mapError (Fault.map f) = skipValue fuel s :=
  skipFrames_map f fuel true [] s

/-! ### Arrays, objects and documents -/

theorem nextItem_map (first : Bool) (s : Bytes) :
    (nextItem first s).mapError (Fault.map f) = nextItem first s := by
  simp only [nextItem]
  grind [Except.mapError]

theorem endArray_map (s : Bytes) : (endArray s).mapError (Fault.map f) = endArray s := by
  simp only [endArray]
  grind [Except.mapError]

theorem nextKey_map (first : Bool) (s : Bytes) :
    (nextKey first s).mapError (Fault.map f) = nextKey first s := by
  simp only [nextKey, ← stringRest_map f]
  grind [Except.mapError]

theorem colon_map (s : Bytes) : (colon s).mapError (Fault.map f) = colon s := by
  simp only [colon]
  grind [Except.mapError]

variable {f} {r : Reader ε α} {r' : Reader δ α}

theorem items_map (hr : ∀ s, (r s).mapError (Fault.map f) = r' s) (n : ℕ) (first : Bool)
    (acc : List α) (s : Bytes) :
    (items r n first acc s).mapError (Fault.map f) = items r' n first acc s := by
  induction n generalizing first acc s with
  | zero => rfl
  | succ n ih =>
    simp only [items, ← nextItem_map f, ← hr, ← ih]
    grind [Except.mapError]

theorem readArray_map (hr : ∀ s, (r s).mapError (Fault.map f) = r' s) (fuel : ℕ) (s : Bytes) :
    (readArray fuel r s).mapError (Fault.map f) = readArray fuel r' s := by
  simp only [readArray, ← items_map hr, ← endArray_map f, ← unexpected_map f]
  grind [Except.mapError, mapError_map]

theorem document_map {r : ℕ → Reader ε α} {r' : ℕ → Reader δ α}
    (hr : ∀ n s, (r n s).mapError (Fault.map f) = r' n s) (b : Bytes) :
    (document r b).mapError (Fault.map f) = document r' b := by
  simp only [document, ← hr]
  grind [Except.mapError]

end Json

namespace Wire

open Json

variable {ε δ : Type} (f : ε → δ)

theorem Member.read_map (m : Member) (d : Draft) (s : Bytes) :
    (m.read d s).mapError (Fault.map f) = m.read d s := by
  cases m with
  | id => rw [read, read, ← text_map f, mapError_map]
  | type => rw [read, read, ← text_map f, mapError_map]
  | delta => rw [read, read, ← optional_map f (int64_map f), mapError_map]
  | value => rw [read, read, ← optional_map f (binary64_map f), mapError_map]
  | hash => rw [read, read, ← optional_map f (text_map f), mapError_map]

theorem draftMembers_map (fuel n : ℕ) (first : Bool) (seen : List Member) (d : Draft)
    (s : Bytes) : (draftMembers fuel n first seen d s).mapError (Fault.map f)
      = draftMembers fuel n first seen d s := by
  induction n generalizing first seen d s with
  | zero => rfl
  | succ n ih =>
    simp only [draftMembers, ← nextKey_map f, ← colon_map f, ← skipValue_map f,
      ← Member.read_map f, ← ih]
    rcases nextKey (ε := ε) first s with e | ⟨_ | k, s⟩
    · rfl
    · rfl
    · cases Member.ofKey? k with
      | none => grind [Except.mapError]
      | some m => grind [Except.mapError]

theorem draftItems_map (ms : List Member) (first : Bool) (d : Draft) (s : Bytes) :
    (draftItems ms first d s).mapError (Fault.map f) = draftItems ms first d s := by
  induction ms generalizing first d s with
  | nil => rfl
  | cons m ms ih =>
    simp only [draftItems, ← nextItem_map f, ← Member.read_map f, ← ih]
    grind [Except.mapError]

/-- **Drafts are read whatever the reasons are.** -/
theorem draft_map (fuel : ℕ) (s : Bytes) :
    (draft fuel s).mapError (Fault.map f) = draft fuel s := by
  simp only [draft, ← draftMembers_map f, ← draftItems_map f, ← endArray_map f,
    ← unexpected_map f]
  grind [Except.mapError, mapError_map]

end Wire

end Telemetry
