import Telemetry.Metric.Draft
import Mathlib.Data.List.Forall2
import Mathlib.Tactic.SplitIfs

/-!
# Metrics and the drafts of them

A sound metric that is sent says what it is: its draft passes every check and gives the metric
back. What a draft says is sound, whoever sent it. No two kinds have the same word.

## Main results

* `Telemetry.Metric.metric?_draft` — a sound metric comes back from its draft
* `Telemetry.Draft.metric?_eq_ok`, `Telemetry.Draft.isSound_of_metric?` — what a draft says has
  been checked, so it is sound
-/

namespace Telemetry

theorem Kind.word_injective {k l : Kind} (h : k.word = l.word) : k = l := by
  have hread := Kind.ofWord?_word k
  rw [h, Kind.ofWord?_word] at hread
  exact (Option.some.inj hread).symm

@[simp] theorem Kind.read_word (k : Kind) : Kind.read k.word = .ok k := by
  cases k <;> rfl

/-! ### The checks -/

theorem forM_eq_ok_iff {ε α : Type} {f : α → Except ε Unit} {l : List α} :
    l.forM f = .ok () ↔ ∀ x ∈ l, f x = .ok () := by
  induction l with
  | nil => simp [pure, Except.pure]
  | cons x l ih =>
    rw [List.forall_mem_cons, ← ih]
    simp only [List.forM_eq_forM, List.forM_cons, bind, Except.bind]
    cases f x <;> simp

/-- The checks pass if those of all chosen parts do. -/
theorem Draft.check_eq_ok_iff {d : Draft} {parts : List Part} :
    d.check parts = .ok () ↔ ∀ p, parts = [] ∨ p ∈ parts → d.checkPart p = .ok () := by
  rw [check, forM_eq_ok_iff]
  constructor
  · intro h p hp
    have hpart := h p (by cases p <;> decide)
    rwa [if_pos (by simpa using hp)] at hpart
  · intro h p _
    split
    · rename_i hp
      exact h p (by simpa using hp)
    · rfl

namespace Metric

theorem isSound_iff {m : Metric} : m.isSound ↔ m.id ≠ "" ∧ m.value.isFinite = true := by
  simp [isSound]

/-! ### Drafts of metrics -/

@[simp] theorem id_draft (m : Metric) : m.draft.id = m.id := by
  obtain ⟨id, level | delta⟩ := m <;> rfl

@[simp] theorem type_draft (m : Metric) : m.draft.type = m.kind.word := by
  obtain ⟨id, level | delta⟩ := m <;> rfl

/-- A draft of a metric has its value in the field for its kind, and in no other. -/
theorem valueOf_draft (m : Metric) (k : Kind) :
    m.draft.valueOf k = if k = m.kind then some m.value else none := by
  obtain ⟨id, level | delta⟩ := m <;> cases k <;> rfl

/-- A draft of a metric with a name passes every check. -/
theorem check_draft {m : Metric} (h : m.id ≠ "") (parts : List Part) :
    m.draft.check parts = .ok () := by
  have hvalue : (m.draft.delta.isNone && m.draft.value.isNone) = false := by
    obtain ⟨id, level | delta⟩ := m <;> rfl
  have hpart : ∀ p, m.draft.checkPart p = .ok () := by
    intro p
    cases p with
    | id => simp [Draft.checkPart, h]
    | type => simp [Draft.checkPart, Except.map]
    | value => simp [Draft.checkPart, hvalue]
  exact Draft.check_eq_ok_iff.mpr fun p _ => hpart p

/-- **A sound metric that is sent says what it is.** -/
theorem metric?_draft {m : Metric} (h : m.isSound) : m.draft.metric? = .ok m := by
  obtain ⟨hid, hfin⟩ := isSound_iff.mp h
  have hfinite : m.value.finite = .ok m.value := if_pos hfin
  simp [Draft.metric?, check_draft hid, valueOf_draft, hfinite, bind, Except.bind, pure,
    Except.pure]

end Metric

/-! ### What passes the checks -/

/-- A name that is not empty and the word for a kind ask for their key. -/
theorem Draft.key?_word {id : String} (hid : id ≠ "") (k : Kind) :
    ({ id, type := k.word } : Draft).key? = .ok ⟨id, k⟩ := by
  have hcheck : ({ id, type := k.word } : Draft).check [.id, .type] = .ok () := by
    refine check_eq_ok_iff.mpr fun p hp => ?_
    cases p with
    | id => exact if_neg hid
    | type => rw [checkPart, Kind.read_word]; rfl
    | value => simp at hp
  simp only [key?, hcheck, Kind.read_word]
  rfl

theorem Draft.id_ne_empty_of_check {d : Draft} {parts : List Part} (h : d.check parts = .ok ())
    (hp : parts = [] ∨ .id ∈ parts) : d.id ≠ "" := by
  intro hid
  have hpart := check_eq_ok_iff.mp h .id hp
  rw [checkPart, if_pos hid] at hpart
  cases hpart

/-- A key that a draft asks for has a name. -/
theorem Draft.id_ne_empty_of_key? {d : Draft} {k : Key} (h : d.key? = .ok k) : k.id ≠ "" := by
  simp only [key?, bind, Except.bind] at h
  split at h
  · cases h
  · rename_i hcheck
    split at h
    · cases h
    · cases h
      exact id_ne_empty_of_check hcheck (by simp)

/-- What a draft says has its name and the value in the field for its type, and both are checked. -/
theorem Draft.metric?_eq_ok {d : Draft} {m : Metric} (h : d.metric? = .ok m) :
    d.id ≠ "" ∧ m.id = d.id ∧ m.value.isFinite = true ∧
      ∃ k, Kind.read d.type = .ok k ∧ d.valueOf k = some m.value := by
  simp only [metric?, bind, Except.bind] at h
  split at h
  · cases h
  · rename_i hcheck
    split at h
    · cases h
    · rename_i k hkind
      split at h
      · cases h
      · rename_i v hvalue
        split at h
        · cases h
        · rename_i hfinite
          cases h
          rw [Value.finite] at hfinite
          split_ifs at hfinite with hv
          cases hfinite
          exact ⟨id_ne_empty_of_check hcheck (.inl rfl), rfl, hv, k, hkind, hvalue⟩

/-- **What a draft says is sound.** -/
theorem Draft.isSound_of_metric? {d : Draft} {m : Metric} (h : d.metric? = .ok m) : m.isSound := by
  obtain ⟨hne, hid, hfinite, -⟩ := metric?_eq_ok h
  exact Metric.isSound_iff.mpr ⟨hid ▸ hne, hfinite⟩

theorem mapError_eq_ok {ε δ α : Type} {φ : ε → δ} {x : Except ε α} {a : α} :
    x.mapError φ = .ok a ↔ x = .ok a := by
  cases x <;> simp [Except.mapError]

theorem mapM_cons_eq_ok {ε α β : Type} {f : α → Except ε β} {a : α} {l : List α} {l' : List β} :
    (a :: l).mapM f = .ok l' ↔ ∃ b bs, f a = .ok b ∧ l.mapM f = .ok bs ∧ l' = b :: bs := by
  rw [List.mapM_cons]
  cases f a with
  | error e => simp [bind, Except.bind]
  | ok b => cases l.mapM f <;> simp [bind, Except.bind, pure, Except.pure, eq_comm]

theorem forall₂_of_mapM {ε α β : Type} {f : α → Except ε β} {l : List α} {l' : List β}
    (h : l.mapM f = .ok l') : List.Forall₂ (fun a b => f a = .ok b) l l' := by
  induction l generalizing l' with
  | nil =>
    cases h
    exact .nil
  | cons a l ih =>
    obtain ⟨b, bs, hb, hbs, rfl⟩ := mapM_cons_eq_ok.mp h
    exact .cons hb (ih hbs)

theorem forall_of_mapM {ε α β : Type} {f : α → Except ε β} {p : β → Prop}
    (hf : ∀ a b, f a = .ok b → p b) {l : List α} {l' : List β} (h : l.mapM f = .ok l') :
    ∀ b ∈ l', p b := by
  have hall := forall₂_of_mapM h
  clear h
  induction hall with
  | nil => exact List.forall_mem_nil p
  | cons hb _ ih => exact List.forall_mem_cons.mpr ⟨hf _ _ hb, ih⟩

/-- A value that is read from a text is finite. -/
theorem Value.isFinite_of_read {k : Kind} {raw : String} {v : Value}
    (h : Value.read k raw = .ok v) : v.isFinite = true := by
  rw [Value.read] at h
  split at h
  · rename_i hread
    cases h
    cases k with
    | gauge =>
      obtain ⟨x, hx, rfl⟩ := Option.map_eq_some_iff.mp hread
      exact (Option.filter_eq_some_iff.mp hx).2
    | counter =>
      rw [Value.read?] at hread
      split at hread <;> cases hread
      rfl
  · cases h

end Telemetry
