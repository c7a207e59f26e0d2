import Telemetry.Http.Log
import Mathlib.Data.List.Basic

/-!
# Excerpts of texts

A text that is too long for a line of the log is cut, and the cut is looked for from the last byte
that may be shown back to the first. It ends behind the longest part of whole characters that may
be shown. That part is found after three steps at most, because no character has more than four
bytes: with the next character it would be too long.

## Main definitions

* `Telemetry.Http.LongestWithin` — the longest beginning of a text that takes up so many bytes

## Main results

* `Telemetry.Http.LongestWithin.lt_length_add_four` — how much such a beginning leaves unused
* `Telemetry.Http.excerpt_of_text` — what an excerpt of a text is
-/

namespace Telemetry.Http

open Bytes (ofText isBoundary lastBoundary)

variable {body : Bytes} {max : ℕ} {s p : String}

/-- A beginning of a text that takes up at most `max` bytes, and of which every other one is a
part. -/
structure LongestWithin (max : ℕ) (s p : String) : Prop where
  isPrefix : p.toList <+: s.toList
  length_le : (ofText p).length ≤ max
  longest : ∀ q : String, q.toList <+: s.toList → (ofText q).length ≤ max → q.toList <+: p.toList

/-- A beginning that takes up as many bytes as a longer one is the longer one. -/
theorem eq_of_isPrefix (h : p.toList <+: s.toList) (hle : (ofText s).length ≤ (ofText p).length) :
    p = s :=
  Bytes.ofText_injective ((Bytes.ofText_isPrefix h).eq_of_length_le hle)

/-- **The way back ends behind the longest beginning.** -/
theorem longestWithin_of_length (hstart : p.toList <+: s.toList)
    (hp : (ofText p).length = lastBoundary (ofText s) max) : LongestWithin max s p where
  isPrefix := hstart
  length_le := hp ▸ Bytes.lastBoundary_le _ _
  longest := by
    intro q hq hle
    have hboundary : isBoundary (ofText s) (ofText q).length = true :=
      Bytes.isBoundary_ofText_iff.mpr ⟨q, hq, rfl⟩
    have hlength : (ofText q).length ≤ (ofText p).length :=
      hp ▸ Bytes.le_lastBoundary hboundary hle
    rcases List.prefix_or_prefix_of_prefix hq hstart with h | h
    · exact h
    · obtain rfl := eq_of_isPrefix h hlength
      exact List.prefix_rfl

/-- **At most three bytes are left unused** if the text is not shown as a whole. -/
theorem LongestWithin.lt_length_add_four (h : LongestWithin max s p)
    (hlt : max < (ofText s).length) : max < (ofText p).length + 4 := by
  obtain ⟨ts, hs⟩ := h.isPrefix
  cases ts with
  | nil =>
    rw [List.append_nil] at hs
    rw [← String.toList_inj.mp hs] at hlt
    exact absurd hlt (Nat.not_lt.mpr h.length_le)
  | cons c ts =>
    -- the beginning with the next character is too long
    let q := p ++ String.singleton c
    have hq : q.toList = p.toList ++ [c] := by
      rw [String.toList_append, String.toList_singleton]
    have hlength : (ofText q).length = (ofText p).length + c.utf8Size := by
      rw [Bytes.ofText_eq, hq, List.flatMap_append, ← Bytes.ofText_eq, List.length_append,
        List.flatMap_singleton, String.length_utf8EncodeChar]
    have hsize := c.utf8Size_le_four
    by_contra hge
    have hmore : q.toList <+: p.toList := by
      refine h.longest q ⟨ts, ?_⟩ (by omega)
      rw [hq, List.append_assoc, List.singleton_append, hs]
    have hle := hmore.length_le
    rw [hq, List.length_append, List.length_singleton] at hle
    omega

theorem excerpt_eq (h : excerpt? body max = some s) : excerpt body max = s :=
  Option.get_of_eq_some _ h

/-- **An excerpt of a text** exists, and it is the text itself if that is short enough. Otherwise
it is the longest beginning of whole characters that takes up at most `max` bytes, with dots behind
it, and less than four bytes are left unused. The way back from `max` ends where that beginning
does, at a boundary, and passes nothing but positions inside of a character. -/
theorem excerpt_of_text (s : String) (max : ℕ) :
    excerpt? (ofText s) max = some (excerpt (ofText s) max) ∧
    ((ofText s).length ≤ max ∧ excerpt (ofText s) max = s ∨
      max < (ofText s).length ∧
      ∃ p, excerpt (ofText s) max = p ++ "..." ∧ LongestWithin max s p ∧
        max < (ofText p).length + 4 ∧
        (ofText p).length = lastBoundary (ofText s) max ∧
        ofText p = (ofText s).take (lastBoundary (ofText s) max) ∧
        isBoundary (ofText s) (lastBoundary (ofText s) max) = true ∧
        ∀ i, lastBoundary (ofText s) max < i → i ≤ max → isBoundary (ofText s) i = false) := by
  refine ⟨(Option.some_get _).symm, ?_⟩
  have htext : Bytes.text? (ofText s) = some s := Bytes.text?_ofText s
  by_cases hle : (ofText s).length ≤ max
  · refine .inl ⟨hle, excerpt_eq ?_⟩
    simp only [excerpt?, htext, if_pos hle]
  · have hlt : max < (ofText s).length := Nat.lt_of_not_le hle
    obtain ⟨p, hstart, hp, hcut⟩ := Bytes.exists_cut?_lastBoundary s max
    have hlongest := longestWithin_of_length hstart hp
    refine .inr ⟨hlt, p, excerpt_eq ?_, hlongest, hlongest.lt_length_add_four hlt, hp, ?_,
      Bytes.isBoundary_lastBoundary s max, ?_⟩
    · simp only [excerpt?, htext, if_neg hle, hcut, Option.map_some]
    · rw [← hp]
      exact List.prefix_iff_eq_take.mp (Bytes.ofText_isPrefix hstart)
    · intro i hcuti himax
      cases hi : isBoundary (ofText s) i with
      | false => rfl
      | true => exact absurd (Bytes.le_lastBoundary hi himax) (Nat.not_le.mpr hcuti)

example : excerpt (ofText "a€é") 5 = "a€..." := by decide +kernel

end Telemetry.Http
