import Telemetry.Store.Snapshot
import Mathlib.Data.List.Basic
import Mathlib.Tactic.Linarith

/-!
# A disk and the snapshot file on it

What the operations of a disk do to the contents of a path, and why writing a new version of the
snapshot file beside it never touches the file: the new version has another name. From that,
replacing the contents of the file does so altogether or not at all, whatever mishaps there are.

## Main results

* `Telemetry.Disk.write_cases`, `Telemetry.Disk.rename_cases` — all that can come of them
* `Telemetry.Snapshot.temporary_ne` — the new version has another path
* `Telemetry.Snapshot.persist_cases` — the file is replaced, or it is as it was
-/

namespace Telemetry

namespace Disk

/-! ### Looking up a path -/

theorem lookup_filter_of_ne {p q : Path} (h : q ≠ p) (es : List (Path × Entry)) :
    (es.filter fun e => e.1 ≠ p).lookup q = es.lookup q := by
  induction es with
  | nil => rfl
  | cons e es ih =>
    obtain ⟨r, x⟩ := e
    by_cases hr : r = p
    · have hqr : (q == r) = false := by simpa [hr] using h
      rw [List.filter_cons_of_neg (by simpa using hr), List.lookup_cons, hqr, ih]
    · rw [List.filter_cons_of_pos (by simpa using hr), List.lookup_cons, List.lookup_cons, ih]

@[simp] theorem find?_root (d : Disk) : d.find? [] = some .directory := rfl

theorem find?_erase_of_ne (d : Disk) {p q : Path} (h : q ≠ p) :
    (d.erase p).find? q = d.find? q := by
  simp only [find?, erase, lookup_filter_of_ne h]

theorem find?_set_self (d : Disk) {p : Path} (h : p ≠ []) (e : Entry) :
    (d.set p e).find? p = some e := by
  simp [find?, set, h]

theorem find?_set_of_ne (d : Disk) {p q : Path} (h : q ≠ p) (e : Entry) :
    (d.set p e).find? q = d.find? q := by
  have hqp : (q == p) = false := by simpa using h
  have herase := d.find?_erase_of_ne h
  simp only [find?, set, List.lookup_cons, hqp] at herase ⊢
  exact herase

theorem contents_set_self (d : Disk) {p : Path} (h : p ≠ []) (b : Bytes) :
    (d.set p (.file b)).contents p = some b := by
  rw [contents, d.find?_set_self h]

theorem contents_set_of_ne (d : Disk) {p q : Path} (h : q ≠ p) (e : Entry) :
    (d.set p e).contents q = d.contents q := by
  rw [contents, contents, d.find?_set_of_ne h]

/-- The contents of a path are those of what is found there. -/
theorem contents_congr {d e : Disk} {p : Path} (h : e.find? p = d.find? p) :
    e.contents p = d.contents p := by
  rw [contents, contents, h]

/-- Taking a mishap changes nothing that is found. -/
@[simp] theorem find?_next (d : Disk) (p : Path) : d.next.2.find? p = d.find? p := by
  simp only [next]
  split <;> rfl

/-! ### What comes of an operation -/

/-- A read takes a mishap and changes nothing else. -/
theorem read_snd (d : Disk) (p : Path) : (d.read p).2 = d.next.2 := by
  simp only [read]
  repeat' split
  all_goals simp_all only

/-- A write puts its bytes under the path, or it fails and touches no other path. -/
theorem write_cases (d : Disk) (p : Path) (b : Bytes) :
    (p ≠ [] ∧ ∃ e : Disk, d.write p b = (.ok (), e.set p (.file b)) ∧ e.find? = d.find?) ∨
      ∃ f e, d.write p b = (.error f, e) ∧ ∀ q, q ≠ p → e.find? q = d.find? q := by
  have hsame : d.next.2.find? = d.find? := funext fun q => d.find?_next q
  simp only [write]
  split
  · exact .inr ⟨_, _, rfl, fun q _ => by rw [hsame]⟩
  · split
    · exact .inr ⟨_, _, rfl, fun q _ => by rw [hsame]⟩
    · rename_i hdir
      split
      · exact .inl ⟨by rintro rfl; exact hdir rfl, _, rfl, hsame⟩
      · exact .inr ⟨_, _, rfl, fun q _ => by rw [hsame]⟩
      · exact .inr ⟨_, _, rfl, fun q hq => by rw [find?_set_of_ne _ hq, hsame]⟩

/-- A move puts what it finds under the other path, or it fails and changes nothing. -/
theorem rename_cases (d : Disk) (p q : Path) :
    (q ≠ [] ∧ ∃ e x, d.rename p q = (.ok (), (e : Disk).set q x) ∧ d.find? p = some x) ∨
      ∃ f e, d.rename p q = (.error f, e) ∧ e.find? = d.find? := by
  have hsame : d.next.2.find? = d.find? := funext fun q => d.find?_next q
  simp only [rename]
  split
  · exact .inr ⟨_, _, rfl, hsame⟩
  · exact .inr ⟨_, _, rfl, hsame⟩
  · exact .inr ⟨_, _, rfl, hsame⟩
  · split
    · exact .inr ⟨_, _, rfl, hsame⟩
    · exact .inr ⟨_, _, rfl, hsame⟩
    · rename_i x hp hq
      refine .inl ⟨?_, _, x, rfl, by rw [← hsame]; exact hp⟩
      rintro rfl
      exact hq (find?_root _)

end Disk

namespace Snapshot

/-! ### The name of a new version -/

/-- A name is not what its own stem becomes. -/
theorem stem_append_ne (name : List Char) : stem name ++ ".json.tmp".toList ≠ name := by
  intro h
  have hlen := congrArg List.length h
  simp only [stem] at h hlen
  split at h
  · rename_i hdot
    rw [if_pos hdot] at hlen
    -- the last dot of the longer name is the one before `tmp`, so the stem would contain itself
    generalize hs : (name.reverse.dropWhile (· ≠ '.')).tail.reverse = s at h hlen
    rw [← h] at hs
    have hcut : ((s ++ ".json.tmp".toList).reverse.dropWhile (· ≠ '.')).tail.reverse
        = s ++ ".json".toList := by simp
    rw [hcut] at hs
    simpa using congrArg List.length hs
  · rename_i hdot
    rw [if_neg hdot] at hlen
    simp at hlen

/-- **A new version of a file is written under another path.** -/
theorem temporary_ne {p : Path} (h : p ≠ []) : temporary p ≠ p := by
  obtain ⟨dir, name, rfl⟩ := List.eq_nil_or_concat p |>.resolve_left h
  simp only [temporary, List.concat_eq_append, List.getLast?_append, List.getLast?_singleton,
    Option.some_or, List.dropLast_concat]
  intro heq
  have hname : temporaryName name = name := by simpa using heq
  have hlist : (temporaryName name).toList = stem name.toList ++ ".json.tmp".toList :=
    String.toList_ofList
  exact stem_append_ne name.toList (by rw [← hlist, hname])

/-! ### Reading the file -/

theorem load_snd (d : Disk) (p : Path) : (load d p).2 = d.next.2 := by
  rw [← d.read_snd p, load]
  rcases d.read p with ⟨(_ | _) | b, e⟩ <;> rfl

/-! ### Replacing the file -/

/-- Writing a new version leaves it beside the file, or fails; the file is as it was. -/
theorem draft_cases (d : Disk) (p : Path) (ms : List Metric) :
    ((∃ e, draft d p ms = (.ok (), e) ∧ e.contents (temporary p) = some (format ms)) ∨
      ∃ f e, draft d p ms = (.error (.disk f), e)) ∧
    (draft d p ms).2.contents p = d.contents p := by
  by_cases hroot : p = []
  · subst hroot
    refine ⟨?_, rfl⟩
    rcases d.write_cases (temporary []) (format ms) with ⟨hne, -⟩ | ⟨f, e, h, -⟩
    · exact absurd rfl hne
    · exact .inr ⟨f, e, by rw [draft, h]⟩
  · have hother : p ≠ temporary p := (temporary_ne hroot).symm
    rcases d.write_cases (temporary p) (format ms) with ⟨hne, e, h, hsame⟩ | ⟨f, e, h, hsame⟩
    · have hdraft : draft d p ms = (.ok (), e.set (temporary p) (.file (format ms))) := by
        rw [draft, h]
      rw [hdraft]
      refine ⟨.inl ⟨_, rfl, e.contents_set_self hne _⟩, ?_⟩
      rw [e.contents_set_of_ne hother]
      exact Disk.contents_congr (congrFun hsame p)
    · have hdraft : draft d p ms = (.error (.disk f), e) := by rw [draft, h]
      rw [hdraft]
      exact ⟨.inr ⟨f, e, rfl⟩, Disk.contents_congr (hsame p hother)⟩

/-- Moving the new version puts its contents into the file, or fails and leaves the file. -/
theorem publish_cases (d : Disk) (p : Path) {b : Bytes}
    (h : d.contents (temporary p) = some b) :
    (∃ e, publish d p = (.ok (), e) ∧ e.contents p = some b) ∨
      ∃ f e, publish d p = (.error (.disk f), e) ∧ e.contents p = d.contents p := by
  rcases d.rename_cases (temporary p) p with ⟨hne, e, x, hmove, hx⟩ | ⟨f, e, hmove, hsame⟩
  · have hfile : x = .file b := by
      rw [Disk.contents, hx] at h
      cases x with
      | file c => simpa using h
      | directory => cases h
    refine .inl ⟨_, by rw [publish, hmove], ?_⟩
    rw [hfile, e.contents_set_self hne]
  · exact .inr ⟨f, e, by rw [publish, hmove], Disk.contents_congr (congrFun hsame p)⟩

/-- **The file is replaced altogether or not at all.** -/
theorem persist_cases (d : Disk) (p : Path) (ms : List Metric) :
    (∃ e, persist d p ms = (.ok (), e) ∧ e.contents p = some (format ms)) ∨
      ∃ f e, persist d p ms = (.error (.disk f), e) ∧ e.contents p = d.contents p := by
  obtain ⟨⟨e, hdraft, hnew⟩ | ⟨f, e, hdraft⟩, hfile⟩ := draft_cases d p ms
  · rw [hdraft] at hfile
    rcases publish_cases e p hnew with ⟨g, hpub, hg⟩ | ⟨f, g, hpub, hg⟩
    · exact .inl ⟨g, by rw [persist, hdraft]; exact hpub, hg⟩
    · exact .inr ⟨f, g, by rw [persist, hdraft]; exact hpub, hg.trans hfile⟩
  · rw [hdraft] at hfile
    exact .inr ⟨f, e, by rw [persist, hdraft], hfile⟩

variable {d e : Disk} {p : Path} {ms : List Metric}

theorem contents_of_persist (h : persist d p ms = (.ok (), e)) :
    e.contents p = some (format ms) := by
  rcases persist_cases d p ms with ⟨e', hok, he⟩ | ⟨f, e', hfail, -⟩
  · rw [hok] at h
    cases h
    exact he
  · rw [hfail] at h
    cases h

theorem contents_of_persist_error {f : StoreError} (h : persist d p ms = (.error f, e)) :
    e.contents p = d.contents p := by
  rcases persist_cases d p ms with ⟨e', hok, -⟩ | ⟨f', e', hfail, he⟩
  · rw [hok] at h
    cases h
  · rw [hfail] at h
    cases h
    exact he

end Snapshot
end Telemetry
