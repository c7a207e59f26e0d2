import Telemetry.Proofs.Metric.Draft

/-!
# What is wrong with a draft

A draft may have several things wrong with it at once: no name, a type that is none, no value for
its type, a level that is no finite number. It is refused for the first of these, in this order, and
accepted if there is none. A lookup makes the first two checks only, so it finds the key of every
draft that is accepted and gives the same reason for every draft that it refuses.

Which parts are checked is a matter of which are chosen and not of how the choice is written.

## Main definitions

* `Telemetry.Draft.Says` — the metric that a draft says, if nothing is wrong with it
* `Telemetry.Draft.Fails` — a thing that is wrong with a draft, whatever else is
* `Telemetry.Draft.FailsFirst` — the first one in the order of the checks
* `Telemetry.Part.Chosen` — the parts that a list chooses

## Main results

* `Telemetry.Draft.metric?_spec` — a draft says a metric or is refused for the first thing wrong
* `Telemetry.Draft.key?_eq_error_iff` — what a lookup refuses, and why
* `Telemetry.Draft.check_congr` — equal choices of parts are equal checks
* `Telemetry.Draft.judged` — all of these together
-/

namespace Telemetry

/-! ### Kinds -/

theorem Kind.read_eq_ok_iff {word : String} {k : Kind} :
    Kind.read word = .ok k ↔ word = k.word := by
  constructor
  · intro h
    rw [Kind.read] at h
    split_ifs at h
    split at h
    · rename_i k' hk
      cases h
      rw [Kind.ofWord?] at hk
      split_ifs at hk with hgauge hcounter
      · cases hk
        exact hgauge
      · cases hk
        exact hcounter
    · cases h
  · rintro rfl
    exact Kind.read_word k

/-- A word that names no kind is refused as empty or as unknown. -/
theorem Kind.read_of_ne {word : String} (h : ∀ k : Kind, word ≠ k.word) :
    Kind.read word = .error (if word = "" then .emptyType else .unknownType word) := by
  cases hread : Kind.read word with
  | ok k => exact absurd (Kind.read_eq_ok_iff.mp hread) (h k)
  | error r =>
    have hgauge : word ≠ "gauge" := h .gauge
    have hcounter : word ≠ "counter" := h .counter
    rw [Kind.read] at hread
    split_ifs at hread ⊢ with hempty
    · exact hread.symm
    · rw [Kind.ofWord?, if_neg hgauge, if_neg hcounter] at hread
      exact hread.symm

/-! ### What a draft says and what is wrong with it -/

/-- The place of a refusal in the order of the checks. -/
def Refusal.place : Refusal → ℕ
  | .emptyId => 0
  | .emptyType => 1
  | .unknownType _ => 1
  | .noValue => 2
  | .badValue _ _ => 3

namespace Draft

/-- The metric that a draft says: it has a name, and its type is that of a value that it has; a
level has to be finite. -/
inductive Says (d : Draft) : Metric → Prop where
  | gauge {x : Binary64} (hid : d.id ≠ "") (htype : d.type = "gauge") (hvalue : d.value = some x)
      (hfinite : x.isFinite = true) : Says d ⟨d.id, .gauge x⟩
  | counter {n : Int64} (hid : d.id ≠ "") (htype : d.type = "counter")
      (hdelta : d.delta = some n) : Says d ⟨d.id, .counter n⟩

/-- A thing that is wrong with a draft, whatever else is. -/
inductive Fails (d : Draft) : Refusal → Prop where
  | emptyId (hid : d.id = "") : Fails d .emptyId
  | emptyType (htype : d.type = "") : Fails d .emptyType
  | unknownType (hempty : d.type ≠ "") (hgauge : d.type ≠ "gauge")
      (hcounter : d.type ≠ "counter") : Fails d (.unknownType d.type)
  | noLevel (htype : d.type = "gauge") (hvalue : d.value = none) : Fails d .noValue
  | noDelta (htype : d.type = "counter") (hdelta : d.delta = none) : Fails d .noValue
  | badLevel {x : Binary64} (htype : d.type = "gauge") (hvalue : d.value = some x)
      (hfinite : x.isFinite = false) : Fails d (.badValue .gauge x.display)

/-- The first thing that is wrong with a draft, in the order of the checks. -/
def FailsFirst (d : Draft) (r : Refusal) : Prop :=
  d.Fails r ∧ ∀ r', d.Fails r' → r.place ≤ r'.place

variable {d : Draft} {m : Metric} {r r' : Refusal}

/-- Nothing is wrong with a draft that says something. -/
theorem Says.not_fails (h : d.Says m) : ¬ d.Fails r := by
  intro hr
  cases h <;> cases hr <;> simp_all

theorem Says.unique {m' : Metric} (h : d.Says m) (h' : d.Says m') : m = m' := by
  cases h <;> cases h' <;> simp_all

/-- Two things that are wrong with a draft are at different places. -/
theorem Fails.eq_of_place (h : d.Fails r) (h' : d.Fails r') (hplace : r.place = r'.place) :
    r = r' := by
  cases h <;> cases h' <;> simp_all [Refusal.place]

theorem FailsFirst.unique (h : d.FailsFirst r) (h' : d.FailsFirst r') : r = r' :=
  h.1.eq_of_place h'.1 (Nat.le_antisymm (h.2 r' h'.1) (h'.2 r h.1))

/-! ### Lookups -/

/-- A lookup checks the name and then the type. -/
theorem key?_eq (d : Draft) :
    d.key? = if d.id = "" then .error .emptyId else (Kind.read d.type).map (⟨d.id, ·⟩) := by
  have hcheck : d.check [.id, .type]
      = if d.id = "" then .error .emptyId else (Kind.read d.type).map fun _ => () := by
    by_cases hid : d.id = ""
    · simp [check, checkPart, hid, bind, Except.bind]
    · cases hread : Kind.read d.type <;>
        simp [check, checkPart, hid, hread, bind, Except.bind, Except.map, pure, Except.pure]
  rw [key?, hcheck]
  split_ifs with hid
  · rfl
  · cases Kind.read d.type <;> rfl

/-- A lookup finds the key of a draft with a name and a type, and refuses any other for the first
thing that is wrong with it. -/
theorem key?_spec (d : Draft) :
    (∃ k : Kind, d.id ≠ "" ∧ d.type = k.word ∧ d.key? = .ok ⟨d.id, k⟩) ∨
      ∃ r, d.key? = .error r ∧ r.place ≤ 1 ∧ d.FailsFirst r := by
  rw [key?_eq]
  by_cases hid : d.id = ""
  · rw [if_pos hid]
    exact .inr ⟨_, rfl, Nat.zero_le 1, .emptyId hid, fun _ _ => Nat.zero_le _⟩
  rw [if_neg hid]
  by_cases hkind : ∃ k : Kind, d.type = k.word
  · obtain ⟨k, hk⟩ := hkind
    rw [hk, Kind.read_word]
    exact .inl ⟨k, hid, rfl, rfl⟩
  · have hne : ∀ k : Kind, d.type ≠ k.word := fun k hk => hkind ⟨k, hk⟩
    -- only the empty name comes before the type
    have hfirst : ∀ r', d.Fails r' → 1 ≤ r'.place := by
      intro r' hr'
      cases hr' with
      | emptyId h => exact absurd h hid
      | _ => simp [Refusal.place]
    rw [Kind.read_of_ne hne]
    split_ifs with hempty
    · exact .inr ⟨_, rfl, Nat.le_refl 1, .emptyType hempty, hfirst⟩
    · exact .inr ⟨_, rfl, Nat.le_refl 1, .unknownType hempty (hne .gauge) (hne .counter), hfirst⟩

/-! ### Updates -/

/-- An update goes on from where a lookup ends, with the value in the field for the kind. -/
theorem metric?_eq (d : Draft) :
    d.metric? = d.key?.bind fun k =>
      (d.valueOf k.kind).elim (.error .noValue) fun v => v.finite.map (⟨d.id, ·⟩) := by
  rw [key?_eq]
  by_cases hid : d.id = ""
  · simp [metric?, check, checkPart, hid, bind, Except.bind]
  cases hread : Kind.read d.type with
  | error r => simp [metric?, check, checkPart, hid, hread, bind, Except.bind, Except.map]
  | ok k =>
    have hcheck : d.check []
        = if d.delta.isNone && d.value.isNone then .error .noValue else .ok () := by
      simp only [check, checkPart, hid, hread, bind, Except.bind, Except.map, pure, Except.pure,
        List.isEmpty_nil, Bool.true_or, if_true, if_false, List.forM_eq_forM, List.forM_cons,
        List.forM_nil]
      split_ifs <;> rfl
    rw [metric?, hcheck, if_neg hid, hread]
    show _ = (d.valueOf k).elim (.error .noValue) fun v => v.finite.map (Metric.mk d.id)
    cases hvalue : d.valueOf k with
    | none =>
      -- two tests can find that, with the same refusal
      split_ifs
      · rfl
      · simp only [bind, Except.bind, hvalue]
        rfl
    | some v =>
      have hpresent : (d.delta.isNone && d.value.isNone) = false := by
        cases k with
        | gauge =>
          obtain ⟨x, hx, -⟩ := Option.map_eq_some_iff.mp hvalue
          simp [hx]
        | counter =>
          obtain ⟨n, hn, -⟩ := Option.map_eq_some_iff.mp hvalue
          simp [hn]
      simp only [hpresent, bind, Except.bind, hvalue, Option.elim_some]
      cases v.finite <;> rfl

/-- A draft with a name and a type is judged by the value in the field for its kind. -/
theorem metric?_spec_of_key {k : Kind} (hid : d.id ≠ "") (htype : d.type = k.word)
    (hkey : d.key? = .ok ⟨d.id, k⟩) :
    (∃ m, d.metric? = .ok m ∧ d.Says m) ∨ ∃ r, d.metric? = .error r ∧ d.FailsFirst r := by
  have hmetric : d.metric?
      = (d.valueOf k).elim (.error .noValue) fun v => v.finite.map (⟨d.id, ·⟩) := by
    rw [metric?_eq, hkey]
    rfl
  rw [hmetric]
  cases k with
  | gauge =>
    rw [valueOf]
    cases hvalue : d.value with
    | none =>
      refine .inr ⟨.noValue, rfl, .noLevel htype hvalue, fun r' hr' => ?_⟩
      cases hr' <;> simp_all [Refusal.place, Kind.word]
    | some x =>
      cases hfinite : x.isFinite with
      | true =>
        refine .inl ⟨_, ?_, .gauge hid htype hvalue hfinite⟩
        simp [Value.finite, Value.isFinite, hfinite, Except.map]
      | false =>
        refine .inr ⟨_, ?_, .badLevel htype hvalue hfinite, fun r' hr' => ?_⟩
        · simp [Value.finite, Value.isFinite, hfinite, Except.map, Value.kind, Value.display]
        · cases hr' <;> simp_all [Refusal.place, Kind.word]
  | counter =>
    rw [valueOf]
    cases hdelta : d.delta with
    | none =>
      refine .inr ⟨.noValue, rfl, .noDelta htype hdelta, fun r' hr' => ?_⟩
      cases hr' <;> simp_all [Refusal.place, Kind.word]
    | some n => exact .inl ⟨_, rfl, .counter hid htype hdelta⟩

/-- **A draft says a metric, or is refused for the first thing that is wrong with it.** -/
theorem metric?_spec (d : Draft) :
    (∃ m, d.metric? = .ok m ∧ d.Says m) ∨ ∃ r, d.metric? = .error r ∧ d.FailsFirst r := by
  rcases key?_spec d with ⟨k, hid, htype, hkey⟩ | ⟨r, hkey, -, hfirst⟩
  · exact metric?_spec_of_key hid htype hkey
  · rw [metric?_eq, hkey]
    exact .inr ⟨r, rfl, hfirst⟩

theorem metric?_eq_ok_iff : d.metric? = .ok m ↔ d.Says m := by
  rcases metric?_spec d with ⟨m', hm, hsaid⟩ | ⟨r, hr, hfirst⟩
  · rw [hm]
    constructor
    · rintro ⟨⟩
      exact hsaid
    · intro h
      rw [hsaid.unique h]
  · rw [hr]
    exact iff_of_false nofun fun h => h.not_fails hfirst.1

theorem metric?_eq_error_iff : d.metric? = .error r ↔ d.FailsFirst r := by
  rcases metric?_spec d with ⟨m, hm, hsaid⟩ | ⟨r', hr', hfirst⟩
  · rw [hm]
    exact iff_of_false nofun fun h => hsaid.not_fails h.1
  · rw [hr']
    constructor
    · rintro ⟨⟩
      exact hfirst
    · intro h
      rw [hfirst.unique h]

/-- **A lookup refuses for the same reason** what it refuses: an empty name, or a type that is
none. -/
theorem key?_eq_error_iff : d.key? = .error r ↔ d.FailsFirst r ∧ r.place ≤ 1 := by
  rcases key?_spec d with ⟨k, hid, htype, hkey⟩ | ⟨r', hkey, hplace, hfirst⟩
  · rw [hkey]
    refine iff_of_false nofun ?_
    rintro ⟨⟨hfails, -⟩, hplace⟩
    cases hfails with
    | emptyId h => exact hid h
    | emptyType h =>
      rw [h] at htype
      exact absurd htype.symm (by cases k <;> decide)
    | unknownType _ hgauge hcounter => cases k with
      | gauge => exact hgauge htype
      | counter => exact hcounter htype
    | _ => simp [Refusal.place] at hplace
  · rw [hkey]
    constructor
    · rintro ⟨⟩
      exact ⟨hfirst, hplace⟩
    · rintro ⟨h, -⟩
      rw [hfirst.unique h]

/-- What is stored for an update is found by a lookup of the same draft. -/
theorem Says.key? (h : d.Says m) : d.key? = .ok m.key := by
  rcases key?_spec d with ⟨k, hid, htype, hkey⟩ | ⟨r, -, -, hfirst⟩
  · rw [hkey]
    cases h with
    | gauge _ hgauge =>
      rw [Kind.word_injective (l := .gauge) (htype.symm.trans hgauge)]
      rfl
    | counter _ hcounter =>
      rw [Kind.word_injective (l := .counter) (htype.symm.trans hcounter)]
      rfl
  · exact absurd hfirst.1 h.not_fails

end Draft

/-! ### The choice of parts -/

/-- Is the part one of the chosen ones? If none is named, all are. -/
def Part.Chosen (parts : List Part) (p : Part) : Prop := parts = [] ∨ p ∈ parts

namespace Draft

/-- **Equal choices of parts are equal checks**, in whatever order and however often the parts are
named. -/
theorem check_congr (d : Draft) {parts parts' : List Part}
    (h : ∀ p, Part.Chosen parts p ↔ Part.Chosen parts' p) : d.check parts = d.check parts' := by
  have hchosen : ∀ parts p,
      (parts.isEmpty || parts.contains p) = true ↔ Part.Chosen parts p := by
    intro parts p
    rw [Part.Chosen, Bool.or_eq_true, List.isEmpty_iff, List.contains_iff_mem]
  have hsame : ∀ p, (parts.isEmpty || parts.contains p) = (parts'.isEmpty || parts'.contains p) :=
    fun p => Bool.eq_iff_iff.mpr ((hchosen parts p).trans ((h p).trans (hchosen parts' p).symm))
  rw [check, check]
  simp only [hsame]

/-! ### All together -/

/-- **How a draft is judged.** It is accepted for what it says, or refused for the first thing that
is wrong with it. What is accepted has the key that a lookup of the draft asks for, and is accepted
again when it is sent. A lookup refuses what fails by its name or its type, for the same reason. -/
theorem judged (d : Draft) :
    (∀ m, d.metric? = .ok m ↔ d.Says m) ∧
    (∀ r, d.metric? = .error r ↔ d.FailsFirst r) ∧
    (∀ m, d.metric? = .ok m → d.key? = .ok m.key ∧ m.draft.metric? = .ok m) ∧
    (∀ r, d.key? = .error r ↔ d.FailsFirst r ∧ r.place ≤ 1) ∧
    ∀ parts parts', (∀ p, Part.Chosen parts p ↔ Part.Chosen parts' p) →
      d.check parts = d.check parts' := by
  refine ⟨fun m => metric?_eq_ok_iff, fun r => metric?_eq_error_iff, fun m hm => ⟨?_, ?_⟩,
    fun r => key?_eq_error_iff, fun parts parts' => d.check_congr⟩
  · exact (metric?_eq_ok_iff.mp hm).key?
  · exact Metric.metric?_draft (isSound_of_metric? hm)

end Draft
end Telemetry
