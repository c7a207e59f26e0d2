import Mathlib.Data.List.Perm.Basic

/-!
# Places that may be empty

What is in the places of a list, up to its order, when something is put into one of them, taken out
of it or exchanged.

## Main results

* `Telemetry.Places.set_perm` — one place, before and after it changes
* `Telemetry.Places.fill_perm`, `Telemetry.Places.empty_perm`
-/

namespace Telemetry.Places

variable {α : Type} {places : List (Option α)} {i : ℕ}

/-- What is in the other places is there before one place changes and afterwards. -/
theorem set_perm {old : Option α} (h : places[i]? = some old) (new : Option α) :
    (places.filterMap id).Perm (old.toList ++ (places.eraseIdx i).filterMap id) ∧
      ((places.set i new).filterMap id).Perm (new.toList ++ (places.eraseIdx i).filterMap id) := by
  have front : ∀ (o : Option α) (rest : List (Option α)),
      (o :: rest).filterMap id = o.toList ++ rest.filterMap id := by
    intro o rest
    cases o <;> rfl
  obtain ⟨hi, rfl⟩ := List.getElem?_eq_some_iff.mp h
  rw [← front, ← front]
  exact ⟨((List.getElem_cons_eraseIdx_perm hi).filterMap id).symm,
    (List.set_perm_cons_eraseIdx hi new).filterMap id⟩

/-- Something that is put into an empty place comes to the rest. -/
theorem fill_perm (h : places[i]? = some none) (a : α) :
    ((places.set i (some a)).filterMap id).Perm (a :: places.filterMap id) := by
  obtain ⟨hold, hnew⟩ := set_perm h (some a)
  exact hnew.trans (hold.symm.cons a)

/-- Something that is taken out of its place leaves the rest. -/
theorem empty_perm {a : α} (h : places[i]? = some (some a)) :
    (places.filterMap id).Perm (a :: (places.set i none).filterMap id) := by
  obtain ⟨hold, hnew⟩ := set_perm h none
  exact hold.trans (hnew.symm.cons a)

end Telemetry.Places
