import Telemetry.Http.Listing
import Telemetry.Proofs.Metric.Display
import Telemetry.Proofs.Metric.Draft
import Telemetry.Proofs.Text.Split

/-!
# What the page of all metrics tells

A name may be any text, that of another item of the page or of an escaped character too. It still
cannot change the page: no bracket of it is left, so that every item ends where the page ends it,
and an item is taken apart from its end, where there is nothing but the text of a value and the word
for a kind. What is left in front of them is the escaped name, which is read as the name. So a page
tells of every metric what its name, its kind and the text of its value are.

## Main definitions

* `Telemetry.Http.unescape` — how an escaped text is read
* `Telemetry.Http.Entry`, `Telemetry.Http.page` — a page around any texts

## Main results

* `Telemetry.Http.unescape_escape` — an escaped text is read as the text
* `Telemetry.Http.page_injective` — entries without brackets can be told from their page
* `Telemetry.Http.listing_tells` — a page has no brackets from metrics, and tells what they are
-/

namespace Telemetry.Http

/-! ### Escaped texts -/

/-- How an escaped text is read. -/
def unescape : List Char → List Char
  | '&' :: 'a' :: 'm' :: 'p' :: ';' :: cs => '&' :: unescape cs
  | '&' :: 'l' :: 't' :: ';' :: cs => '<' :: unescape cs
  | '&' :: 'g' :: 't' :: ';' :: cs => '>' :: unescape cs
  | '&' :: 'q' :: 'u' :: 'o' :: 't' :: ';' :: cs => '"' :: unescape cs
  | '&' :: '#' :: '3' :: '9' :: ';' :: cs => '\'' :: unescape cs
  | c :: cs => c :: unescape cs
  | [] => []

theorem unescape_cons {c : Char} (hc : c ≠ '&') (cs : List Char) :
    unescape (c :: cs) = c :: unescape cs := by
  rw [unescape.eq_def]
  split <;> simp_all

/-- The five characters that are escaped, and how. -/
def entities : List (Char × List Char) :=
  [('&', ['&', 'a', 'm', 'p', ';']), ('<', ['&', 'l', 't', ';']), ('>', ['&', 'g', 't', ';']),
    ('"', ['&', 'q', 'u', 'o', 't', ';']), ('\'', ['&', '#', '3', '9', ';'])]

theorem escapeChar_cases (c : Char) :
    (c, escapeChar c) ∈ entities ∨ escapeChar c = [c] ∧ c ≠ '&' ∧ c ≠ '<' ∧ c ≠ '>' := by
  rw [escapeChar]
  split_ifs with hand hless hgreater
  case neg => exact .inr ⟨rfl, hand, hless, hgreater⟩
  all_goals
    left
    subst c
    decide

theorem unescape_escapeChar (c : Char) (cs : List Char) :
    unescape (escapeChar c ++ cs) = c :: unescape cs := by
  rcases escapeChar_cases c with h | ⟨h, hand, -⟩
  · simp only [entities, List.mem_cons, List.not_mem_nil, or_false, Prod.mk.injEq] at h
    rcases h with ⟨hc, h⟩ | ⟨hc, h⟩ | ⟨hc, h⟩ | ⟨hc, h⟩ | ⟨hc, h⟩ <;>
    · rw [h, hc]
      rfl
  · rw [h, List.singleton_append, unescape_cons hand]

/-- **An escaped text is read as the text**, even if the text looks like an escaped one. -/
theorem unescape_escape (s : String) : unescape (escape s).toList = s.toList := by
  rw [escape, String.toList_ofList]
  induction s.toList with
  | nil => rfl
  | cons c cs ih => rw [List.flatMap_cons, unescape_escapeChar, ih]

example : escape "<&lt;>" = "&lt;&amp;lt;&gt;" := by decide

theorem escape_injective {s t : String} (h : escape s = escape t) : s = t := by
  have hlist := congrArg (fun text => unescape text.toList) h
  simp only [unescape_escape] at hlist
  exact String.toList_inj.mp hlist

/-- Is the character a bracket? -/
def isBracket (c : Char) : Bool := c = '<' || c = '>'

theorem isBracket_of_mem_escape {s : String} {c : Char} (hc : c ∈ (escape s).toList) :
    isBracket c = false := by
  rw [escape, String.toList_ofList, List.mem_flatMap] at hc
  obtain ⟨d, -, hc⟩ := hc
  rcases escapeChar_cases d with h | ⟨h, -, hless, hgreater⟩
  · have hentities : ∀ e ∈ entities, e.2.any isBracket = false := by decide
    exact Bool.eq_false_iff.mpr (List.any_eq_false.mp (hentities _ h) c hc)
  · rw [h, List.mem_singleton] at hc
    subst hc
    simp [isBracket, hless, hgreater]

/-! ### Entries -/

/-- The texts that an item of a page is made of. -/
structure Entry where
  id : String
  kind : String
  value : String

namespace Entry

/-- What an item says. -/
def text (e : Entry) : String := e.id ++ " (" ++ e.kind ++ "): " ++ e.value

/-- An entry whose texts have no brackets, and no blanks in the kind and in the value. -/
structure IsPlain (e : Entry) : Prop where
  id : ∀ c ∈ e.id.toList, isBracket c = false
  kind : ∀ c ∈ e.kind.toList, isBracket c = false ∧ c ≠ ' '
  value : ∀ c ∈ e.value.toList, isBracket c = false ∧ c ≠ ' '

variable {e f : Entry}

theorem toList_text (e : Entry) :
    e.text.toList
      = (e.id.toList ++ ' ' :: ('(' :: e.kind.toList ++ [')', ':'])) ++ ' ' :: e.value.toList := by
  simp [text]

theorem IsPlain.isBracket_of_mem_text (he : e.IsPlain) {c : Char} (hc : c ∈ e.text.toList) :
    isBracket c = false := by
  rw [toList_text] at hc
  simp only [List.mem_append, List.mem_cons, List.not_mem_nil, or_false] at hc
  rcases hc with (hc | rfl | (rfl | hc) | rfl | rfl) | rfl | hc
  · exact he.id c hc
  · rfl
  · rfl
  · exact (he.kind c hc).1
  · rfl
  · rfl
  · rfl
  · exact (he.value c hc).1

theorem IsPlain.open_not_mem_text (he : e.IsPlain) : '<' ∉ e.text.toList :=
  fun hmem => absurd (he.isBracket_of_mem_text hmem) (by decide)

theorem IsPlain.blank_not_mem_value (he : e.IsPlain) : ' ' ∉ e.value.toList :=
  fun hmem => (he.value _ hmem).2 rfl

theorem IsPlain.blank_not_mem_kind (he : e.IsPlain) :
    ' ' ∉ '(' :: e.kind.toList ++ [')', ':'] := by
  intro hmem
  rcases List.mem_append.mp hmem with hmem | hmem
  · rcases List.mem_cons.mp hmem with hmem | hmem
    · exact absurd hmem (by decide)
    · exact (he.kind _ hmem).2 rfl
  · exact absurd hmem (by decide)

/-- **An entry is told by what it says**: the last two blanks part it. -/
theorem IsPlain.eq_of_text (he : e.IsPlain) (hf : f.IsPlain) (h : e.text = f.text) : e = f := by
  have hlist := congrArg String.toList h
  rw [toList_text, toList_text] at hlist
  obtain ⟨hfront, hvalue⟩ := Text.eq_of_last he.blank_not_mem_value hf.blank_not_mem_value hlist
  obtain ⟨hid, hword⟩ := Text.eq_of_last he.blank_not_mem_kind hf.blank_not_mem_kind hfront
  have hkind := (List.cons.inj (List.append_cancel_right hword)).2
  obtain ⟨i, k, v⟩ := e
  obtain ⟨j, l, w⟩ := f
  rw [Entry.mk.injEq]
  exact ⟨String.toList_inj.mp hid, String.toList_inj.mp hkind, String.toList_inj.mp hvalue⟩

end Entry

/-! ### Pages -/

/-- A page around the texts of its items. -/
def page (es : List Entry) : String :=
  listingHead ++ String.join (es.map fun e => "<li>" ++ e.text ++ "</li>\n") ++ listingTail

/-- The characters of the items of a page. -/
def items (es : List Entry) : List Char :=
  es.flatMap fun e => '<' :: 'l' :: 'i' :: '>' :: (e.text.toList ++ '<' :: "/li>\n".toList)

theorem toList_page (es : List Entry) :
    (page es).toList = listingHead.toList ++ (items es ++ listingTail.toList) := by
  simp [page, items, List.flatMap_map]

/-- Brackets end the items, and what comes behind one tells whether there is another one. -/
theorem eq_of_items : ∀ {es fs : List Entry}, (∀ e ∈ es, e.IsPlain) → (∀ f ∈ fs, f.IsPlain) →
    items es ++ listingTail.toList = items fs ++ listingTail.toList → es = fs
  | [], [], _, _, _ => rfl
  | [], f :: fs, _, _, h => by
    cases h
  | e :: es, [], _, _, h => by
    cases h
  | e :: es, f :: fs, hes, hfs, h => by
    obtain ⟨he, hes⟩ := List.forall_mem_cons.mp hes
    obtain ⟨hf, hfs⟩ := List.forall_mem_cons.mp hfs
    simp only [items, List.flatMap_cons, List.cons_append, List.append_assoc,
      List.cons.injEq, true_and] at h
    obtain ⟨htext, hrest⟩ := Text.eq_of_first he.open_not_mem_text hf.open_not_mem_text h
    rw [he.eq_of_text hf (String.toList_inj.mp htext),
      eq_of_items hes hfs (List.append_cancel_left hrest)]

/-- **Entries without brackets are told by their page.** -/
theorem page_injective {es fs : List Entry} (hes : ∀ e ∈ es, e.IsPlain) (hfs : ∀ f ∈ fs, f.IsPlain)
    (h : page es = page fs) : es = fs := by
  have hlist := congrArg String.toList h
  rw [toList_page, toList_page] at hlist
  exact eq_of_items hes hfs (List.append_cancel_left hlist)

/-- The brackets of items are their own. -/
theorem filter_isBracket_items {es : List Entry} (hes : ∀ e ∈ es, e.IsPlain) :
    (items es).filter isBracket = (List.replicate es.length ['<', '>', '<', '>']).flatten := by
  induction es with
  | nil => rfl
  | cons e es ih =>
    obtain ⟨he, hes⟩ := List.forall_mem_cons.mp hes
    have htext : e.text.toList.filter isBracket = [] :=
      List.filter_eq_nil_iff.mpr fun c hc => by simp [he.isBracket_of_mem_text hc]
    have hitem : items (e :: es)
        = "<li>".toList ++ (e.text.toList ++ ("</li>\n".toList ++ items es)) := by
      simp [items]
    rw [hitem, List.filter_append, List.filter_append, List.filter_append, htext, ih hes]
    rfl

/-- **Entries add no brackets to a page**: it has those of the page of as many empty entries. -/
theorem filter_isBracket_page {es : List Entry} (hes : ∀ e ∈ es, e.IsPlain) :
    (page es).toList.filter isBracket
      = (page (List.replicate es.length ⟨"", "", ""⟩)).toList.filter isBracket := by
  have hempty : ∀ e ∈ List.replicate es.length (⟨"", "", ""⟩ : Entry), e.IsPlain := by
    intro e he
    rw [List.eq_of_mem_replicate he]
    exact ⟨nofun, nofun, nofun⟩
  simp only [toList_page, List.filter_append, filter_isBracket_items hes,
    filter_isBracket_items hempty, List.length_replicate]

/-! ### Metrics -/

/-- The entry of a metric. -/
def entryOf (m : Metric) : Entry := ⟨escape m.id, m.kind.word, m.value.display⟩

theorem listing_eq_page (ms : List Metric) : listing ms = page (ms.map entryOf) := by
  have hitem : listingItem = fun m => "<li>" ++ (entryOf m).text ++ "</li>\n" := by
    funext m
    simp only [listingItem, entryOf, Entry.text, String.append_assoc]
  rw [listing, page, List.map_map, hitem]
  rfl

theorem isPlain_entryOf (m : Metric) : (entryOf m).IsPlain where
  id _ := isBracket_of_mem_escape
  kind := by
    cases hkind : m.kind <;> simp [entryOf, hkind, Kind.word, isBracket]
  value := by
    intro c hc
    have hallowed := Value.isAlphanum_of_mem_display hc
    have hne : c ≠ '<' ∧ c ≠ '>' ∧ c ≠ ' ' := by
      refine ⟨?_, ?_, ?_⟩ <;>
      · rintro rfl
        revert hallowed
        decide
    exact ⟨by simp [isBracket, hne], hne.2.2⟩

theorem isPlain_of_mem_map {ms : List Metric} : ∀ e ∈ ms.map entryOf, e.IsPlain := by
  intro e he
  obtain ⟨m, -, rfl⟩ := List.mem_map.mp he
  exact isPlain_entryOf m

theorem entryOf_eq_iff {m n : Metric} :
    entryOf m = entryOf n ↔ m.id = n.id ∧ m.kind = n.kind ∧ m.value.display = n.value.display := by
  rw [entryOf, entryOf, Entry.mk.injEq]
  constructor
  · rintro ⟨hid, hkind, hvalue⟩
    exact ⟨escape_injective hid, Kind.word_injective hkind, hvalue⟩
  · rintro ⟨hid, hkind, hvalue⟩
    exact ⟨congrArg escape hid, congrArg Kind.word hkind, hvalue⟩

/-- **What a page tells.** The page of a list of metrics is a page around their entries, in which
there are no brackets; so its brackets are those of a page of as many empty entries. Two lists have
the same page only if they have the same names, kinds and texts of values, in the same order. -/
theorem listing_tells (ms ns : List Metric) :
    listing ms = page (ms.map entryOf) ∧
    (∀ m, ∀ c ∈ (entryOf m).text.toList, c ≠ '<' ∧ c ≠ '>') ∧
    (listing ms).toList.filter isBracket
      = (page (List.replicate ms.length ⟨"", "", ""⟩)).toList.filter isBracket ∧
    (listing ms = listing ns ↔ List.Forall₂ (fun m n =>
      m.id = n.id ∧ m.kind = n.kind ∧ m.value.display = n.value.display) ms ns) := by
  refine ⟨listing_eq_page ms, ?_, ?_, ?_⟩
  · intro m c hc
    have hbracket := (isPlain_entryOf m).isBracket_of_mem_text hc
    simpa [isBracket] using hbracket
  · rw [listing_eq_page, filter_isBracket_page isPlain_of_mem_map, List.length_map]
  · have hentries : listing ms = listing ns ↔ ms.map entryOf = ns.map entryOf := by
      rw [listing_eq_page, listing_eq_page]
      exact ⟨page_injective isPlain_of_mem_map isPlain_of_mem_map, congrArg page⟩
    simp only [hentries, ← entryOf_eq_iff]
    rw [← List.forall₂_eq_eq_eq, List.forall₂_map_left_iff, List.forall₂_map_right_iff]

end Telemetry.Http
