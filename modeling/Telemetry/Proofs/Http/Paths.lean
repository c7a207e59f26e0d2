import Telemetry.Http.Route
import Telemetry.Proofs.Text.Percent
import Telemetry.Proofs.Text.Split
import Telemetry.Url.Basic
import Mathlib.Data.Nat.Notation

/-!
# Names in addresses and in paths

A name that is added to an address is encoded, so that it cannot be taken for more than one name.
Whoever takes the path apart finds as many names as were added, and each of them comes back when it
is decoded. Two things are lost on the way: names that stand for directories are skipped or
resolved, and tabs and line breaks are dropped.

## Main definitions

* `Telemetry.Url.Keeps` — the names that an address keeps
* `Telemetry.Url.kept?` — what an address keeps of a name

## Main results

* `Telemetry.Url.extend_path` — names that are kept are added one by one
* `Telemetry.Http.pathNames_target` — the names of a path are those of the address
* `Telemetry.Http.route_updateByPath` — and are told apart when they are looked at
* `Telemetry.Http.route_dropped` — a name of which nothing is kept leads nowhere
-/

namespace Telemetry

/-! ### Addresses -/

namespace Url

/-- The names that an address keeps: those without tabs and line breaks that stand for no
directory. -/
structure Keeps (name : String) : Prop where
  ne_here : name ≠ "."
  ne_above : name ≠ ".."
  unbroken : ∀ c ∈ name.toList, c ≠ '\t' ∧ c ≠ '\n' ∧ c ≠ '\r'

theorem keeps_iff {name : String} :
    Keeps name ↔ name ≠ "." ∧ name ≠ ".." ∧
      (name.toList.all fun c => c ≠ '\t' && c ≠ '\n' && c ≠ '\r') = true := by
  have hall : (name.toList.all fun c => c ≠ '\t' && c ≠ '\n' && c ≠ '\r') = true ↔
      ∀ c ∈ name.toList, c ≠ '\t' ∧ c ≠ '\n' ∧ c ≠ '\r' := by
    simp [and_assoc]
  rw [hall]
  exact ⟨fun h => ⟨h.ne_here, h.ne_above, h.unbroken⟩, fun ⟨hhere, habove, h⟩ => ⟨hhere, habove, h⟩⟩

instance (name : String) : Decidable (Keeps name) := decidable_of_iff' _ keeps_iff

/-- A name without tabs and line breaks. -/
def unbroken (name : String) : String :=
  String.ofList (name.toList.filter fun c => c ≠ '\t' && c ≠ '\n' && c ≠ '\r')

/-- What an address keeps of a name, if there is anything left that is a name. -/
def kept? (name : String) : Option String :=
  if name ∈ [".", ".."] ∨ unbroken name ∈ ["", ".", ".."] then none else some (unbroken name)

/-- A name as it stands in an address. -/
def encoded (known : Bool) (name : String) : String :=
  Percent.encode (reservedInName known) name.toList

variable {known : Bool} {name : String}

theorem percent_mem_reservedInName (known : Bool) : '%' ∈ reservedInName known := by
  cases known <;> decide

theorem encoded_injective {name' : String} (h : encoded known name = encoded known name') :
    name = name' :=
  Percent.encode_injective (percent_mem_reservedInName known) h

theorem decodeText?_encoded (known : Bool) (name : String) :
    Percent.decodeText? (encoded known name) = some name :=
  Percent.decodeText?_encode (percent_mem_reservedInName known) name

/-- What separates the parts of an address does not stand in a name. -/
theorem not_mem_encoded (known : Bool) (name : String) {c : Char} (hc : c ∈ ['/', '?', '#']) :
    c ∉ (encoded known name).toList := by
  simp only [List.mem_cons, List.not_mem_nil, or_false] at hc
  have hreserved : c ∈ reservedInName known := by
    rcases hc with rfl | rfl | rfl <;> cases known <;> decide
  have hsign : c ≠ '%' := by
    rintro rfl
    exact absurd hc (by decide)
  have hdigit : ∀ n : Fin 16, c ≠ Percent.digit n := by
    rcases hc with rfl | rfl | rfl <;> decide
  exact Percent.not_mem_encode hreserved hsign hdigit

theorem encoded_empty (known : Bool) : encoded known "" = "" := by
  cases known <;> rfl

theorem encoded_eq_dot_iff : encoded known name = "." ↔ name = "." := by
  have hdot : encoded known "." = "." := by cases known <;> decide
  exact ⟨fun h => encoded_injective (h.trans hdot.symm), fun h => by rw [h, hdot]⟩

theorem encoded_eq_dots_iff : encoded known name = ".." ↔ name = ".." := by
  have hdots : encoded known ".." = ".." := by cases known <;> decide
  exact ⟨fun h => encoded_injective (h.trans hdots.symm), fun h => by rw [h, hdots]⟩

/-- What becomes of a path to which any name is added. -/
theorem addName_eq {path : List String} (hpath : path ≠ [""]) (name : String) :
    addName known path name =
      if name = "." ∨ name = ".." then path
      else if unbroken name = ".." then path.dropLast ++ [""]
      else if unbroken name = "." then path ++ [""]
      else path ++ [encoded known (unbroken name)] := by
  have hencode : Percent.encode (reservedInName known)
      (name.toList.filter fun c => c ≠ '\t' && c ≠ '\n' && c ≠ '\r')
      = encoded known (unbroken name) := by
    rw [encoded, unbroken, String.toList_ofList]
  simp only [addName, hencode, if_neg hpath, encoded_eq_dot_iff, encoded_eq_dots_iff,
    Bool.or_eq_true, decide_eq_true_eq]

theorem Keeps.unbroken_eq (h : Keeps name) : Url.unbroken name = name := by
  have hfilter : name.toList.filter (fun c => c ≠ '\t' && c ≠ '\n' && c ≠ '\r')
      = name.toList := by
    refine List.filter_eq_self.mpr fun c hc => ?_
    simpa [and_assoc] using h.unbroken c hc
  rw [Url.unbroken, hfilter, String.ofList_toList]

theorem addName_of_keeps (h : Keeps name) {path : List String} (hpath : path ≠ [""]) :
    addName known path name = path ++ [encoded known name] := by
  rw [addName_eq hpath, h.unbroken_eq, if_neg (not_or.mpr ⟨h.ne_here, h.ne_above⟩),
    if_neg h.ne_above, if_neg h.ne_here]

/-- A name that an address keeps is what it keeps of the name. -/
theorem Keeps.kept? (h : Keeps name) (hempty : name ≠ "") : Url.kept? name = some name := by
  rw [Url.kept?, h.unbroken_eq, if_neg]
  simp [hempty, h.ne_here, h.ne_above]

theorem ne_empty_of_kept? {kept : String} (h : Url.kept? name = some kept) : kept ≠ "" := by
  rw [Url.kept?] at h
  split_ifs at h with hlost
  cases h
  simp only [List.mem_cons, List.not_mem_nil, or_false, not_or] at hlost
  exact hlost.2.1

theorem foldl_addName {names path : List String} (hpath : path ≠ []) (hempty : path ≠ [""])
    (h : ∀ name ∈ names, Keeps name) :
    names.foldl (addName known) path = path ++ names.map (encoded known) := by
  induction names generalizing path with
  | nil => simp
  | cons name names ih =>
    obtain ⟨hname, hnames⟩ := List.forall_mem_cons.mp h
    have hlonger : path ++ [encoded known name] ≠ [""] := by
      intro hone
      have hlength := congrArg List.length hone
      rw [List.length_append] at hlength
      exact hpath (List.length_eq_zero_iff.mp (by simpa using hlength))
    rw [List.foldl_cons, addName_of_keeps hname hempty, ih (by simp) hlonger hnames,
      List.append_assoc]
    rfl

/-- Is the path that of a server as a whole? -/
def IsRoot (u : Url) : Prop := u.path = [] ∨ u.path = [""]

theorem addName_root {u : Url} (hu : u.IsRoot) (hname : Keeps name) :
    addName known (dropEmptyEnd u.path) name = [encoded known name] := by
  have hroot : addName known (dropEmptyEnd u.path) name = addName known [] name := by
    rcases hu with h | h
    · rw [h]
      rfl
    · simp [h, addName, dropEmptyEnd, hname.ne_here, hname.ne_above]
  rw [hroot, addName_of_keeps hname (by decide), List.nil_append]

/-- **Names that are kept are added one by one** behind the root of a server. -/
theorem extend_path {u : Url} (hu : u.IsRoot) {names : List String} (hname : Keeps name)
    (hempty : name ≠ "") (hnames : ∀ name ∈ names, Keeps name) :
    (u.extend (name :: names)).path = (name :: names).map (encoded (isKnown u.scheme)) := by
  have hne : [encoded (isKnown u.scheme) name] ≠ [""] := by
    intro h
    have hname : encoded (isKnown u.scheme) name = encoded (isKnown u.scheme) "" := by
      rw [encoded_empty]
      exact (List.cons.inj h).1
    exact hempty (encoded_injective hname)
  rw [extend, List.foldl_cons, addName_root hu hname,
    foldl_addName (List.cons_ne_nil _ _) hne hnames]
  rfl

/-- The names behind the root of a server when any name is added between others. -/
theorem extend_path_between {u : Url} (hu : u.IsRoot) {before after : String}
    (hbefore : Keeps before) (hafter : Keeps after) (name : String) :
    (u.extend ["update", before, name, after]).path
      = (if name = "." ∨ name = ".." then ["update", before, after]
        else if unbroken name = ".." then ["update", "", after]
        else if unbroken name = "." then ["update", before, "", after]
        else ["update", before, unbroken name, after]).map (encoded (isKnown u.scheme)) := by
  have hstart : ["update", before].foldl (addName (isKnown u.scheme)) (dropEmptyEnd u.path)
      = ["update", before].map (encoded (isKnown u.scheme)) :=
    extend_path hu (by decide) (by decide) (List.forall_mem_singleton.mpr hbefore)
  have hlast : ∀ path : List String, 2 ≤ path.length →
      addName (isKnown u.scheme) path after = path ++ [encoded (isKnown u.scheme) after] := by
    intro path hlength
    refine addName_of_keeps hafter fun h => ?_
    rw [h] at hlength
    exact absurd hlength (by decide)
  have hextend : (u.extend ["update", before, name, after]).path
      = addName (isKnown u.scheme) (addName (isKnown u.scheme)
          (["update", before].foldl (addName (isKnown u.scheme)) (dropEmptyEnd u.path)) name)
          after := rfl
  have hlonger : ["update", before].map (encoded (isKnown u.scheme)) ≠ [""] := by simp
  rw [hextend, hstart, addName_eq hlonger]
  split_ifs <;> rw [hlast _ (by simp)] <;> simp [encoded_empty]

end Url

/-! ### Targets -/

namespace Http

/-- **The names of a path are those of the address**, if none of them holds a separator. -/
theorem pathNames_target {u : Url} (hpath : u.path ≠ [])
    (h : ∀ name ∈ u.path, ∀ c ∈ ['/', '?', '#'], c ∉ name.toList) :
    pathNames (targetPath u.target) = u.path := by
  obtain ⟨name, names, hu⟩ := List.exists_cons_of_ne_nil hpath
  rw [hu] at h ⊢
  obtain ⟨hname, hnames⟩ := List.forall_mem_cons.mp h
  have hparts : ∀ q ∈ names.map String.toList, '/' ∉ q := by
    intro q hq
    obtain ⟨n, hn, rfl⟩ := List.mem_map.mp hq
    exact hnames n hn '/' (by decide)
  let path := name.toList ++ (names.map String.toList).flatMap fun q => '/' :: q
  have htext : u.pathText.toList = '/' :: path := by
    simp [Url.pathText, hu, path, String.toList_join, List.flatMap_map]
  have hfree : ∀ c ∈ '/' :: path, (c ≠ '?' && c ≠ '#') = true := by
    have hmarks : ∀ n ∈ name :: names, ∀ c ∈ n.toList, (c ≠ '?' && c ≠ '#') = true := by
      intro n hn c hc
      have hquestion : c ≠ '?' := fun heq => h n hn '?' (by decide) (heq ▸ hc)
      have hhash : c ≠ '#' := fun heq => h n hn '#' (by decide) (heq ▸ hc)
      simp [hquestion, hhash]
    simp only [path, List.mem_cons, List.mem_append, List.mem_flatMap, List.mem_map]
    rintro c (rfl | hc | ⟨_, ⟨n, hn, rfl⟩, rfl | hc⟩)
    · decide
    · exact hmarks name List.mem_cons_self c hc
    · decide
    · exact hmarks n (List.mem_cons_of_mem _ hn) c hc
  have htarget : (targetPath u.target).toList = '/' :: path := by
    have htake : u.target.toList.takeWhile (fun c => c ≠ '?' && c ≠ '#') = '/' :: path := by
      rw [Url.target, String.toList_append, htext, List.takeWhile_append_of_pos hfree]
      cases u.query <;> simp
    have hslash : ∃ rest, u.target.toList = '/' :: rest := by
      rw [Url.target, String.toList_append, htext]
      exact ⟨_, rfl⟩
    obtain ⟨rest, hrest⟩ := hslash
    rw [hrest] at htake
    simp only [targetPath, hrest, htake, String.toList_ofList]
    rfl
  rw [pathNames, htarget]
  have hsplit : Text.splitChars '/' path = name.toList :: names.map String.toList :=
    Text.splitChars_append_flatMap (h name List.mem_cons_self '/' (by decide)) hparts
  simp [hsplit, Function.comp_def]

/-! ### Routes -/

theorem textOf_encoded (what : String) (known : Bool) (s : String) :
    textOf what (Url.encoded known s) = .ok s := by
  rw [textOf, Url.decodeText?_encoded]

theorem encoded_update (known : Bool) : Url.encoded known "update" = "update" := by
  cases known <;> rfl

theorem encoded_ne_empty {known : Bool} {name : String} (h : name ≠ "") :
    Url.encoded known name ≠ "" := by
  intro hempty
  exact h (Url.encoded_injective (hempty.trans (Url.encoded_empty known).symm))

theorem pathNames_of_path {known : Bool} {v : Url} {names : List String} (hne : names ≠ [])
    (hpath : v.path = names.map (Url.encoded known)) :
    pathNames (targetPath v.target) = names.map (Url.encoded known) := by
  rw [pathNames_target (by simp [hpath, hne]) ?_, hpath]
  rw [hpath]
  intro n hn c hc
  obtain ⟨x, -, rfl⟩ := List.mem_map.mp hn
  exact Url.not_mem_encoded _ x hc

/-- Four names are those of an update. -/
theorem route_four {known : Bool} {v : Url} {type id raw : String} (hempty : raw ≠ "")
    (hpath : v.path = ["update", type, id, raw].map (Url.encoded known)) :
    route .post (targetPath v.target) = .found (.updateByPath type id raw) := by
  have hword := encoded_update known
  rw [route, pathNames_of_path (List.cons_ne_nil _ _) hpath]
  simp only [List.map_cons, List.map_nil, hword, callOf, encoded_ne_empty hempty, if_false,
    Call.accepts, Call.isGet, Call.decode, textOf_encoded]
  rfl

/-- Three names are not. -/
theorem route_three {known : Bool} {v : Url} {type raw : String}
    (hpath : v.path = ["update", type, raw].map (Url.encoded known)) :
    route .post (targetPath v.target) = .nowhere := by
  have hcall : ∀ a b, callOf ["update", a, b] = none := fun a b => by simp [callOf]
  have hword := encoded_update known
  rw [route, pathNames_of_path (List.cons_ne_nil _ _) hpath]
  simp only [List.map_cons, List.map_nil, hword, hcall]

section

variable {u : Url} (hu : u.IsRoot)

include hu

theorem route_updateOne :
    route .post (targetPath (u.extend ["update", ""]).target) = .found .updateOne := by
  rw [route, pathNames_of_path (List.cons_ne_nil _ _)
    (Url.extend_path hu (by decide) (by decide) (by decide))]
  cases Url.isKnown u.scheme <;> rfl

theorem route_updateMany :
    route .post (targetPath (u.extend ["updates", ""]).target) = .found .updateMany := by
  rw [route, pathNames_of_path (List.cons_ne_nil _ _)
    (Url.extend_path hu (by decide) (by decide) (by decide))]
  cases Url.isKnown u.scheme <;> rfl

variable {type raw : String} (htype : Url.Keeps type) (hraw : Url.Keeps raw) (hempty : raw ≠ "")

include htype hraw hempty

/-- **What an address keeps of a name comes back**, whatever characters it has, with the names on
either side. -/
theorem route_updateByPath {id kept : String} (hid : Url.kept? id = some kept) :
    route .post (targetPath (u.extend ["update", type, id, raw]).target)
      = .found (.updateByPath type kept raw) := by
  rw [Url.kept?] at hid
  split_ifs at hid with hlost
  cases hid
  simp only [List.mem_cons, List.not_mem_nil, or_false, not_or] at hlost
  obtain ⟨⟨hhere, habove⟩, -, hhere', habove'⟩ := hlost
  have hpath := Url.extend_path_between hu htype hraw id
  rw [if_neg (not_or.mpr ⟨hhere, habove⟩), if_neg habove', if_neg hhere'] at hpath
  exact route_four hempty hpath

/-- **A name of which nothing is kept leads nowhere**, or to a metric without a name. -/
theorem route_dropped {id : String} (hid : Url.kept? id = none) :
    route .post (targetPath (u.extend ["update", type, id, raw]).target) = .nowhere ∨
      route .post (targetPath (u.extend ["update", type, id, raw]).target)
        = .found (.updateByPath type "" raw) := by
  rw [Url.kept?] at hid
  split_ifs at hid with hlost
  simp only [List.mem_cons, List.not_mem_nil, or_false] at hlost
  have hpath := Url.extend_path_between hu htype hraw id
  split_ifs at hpath with hhere habove hhere'
  · exact .inl (route_three hpath)
  · exact .inl (route_three hpath)
  · exact .inr (route_four hempty hpath)
  · have hnothing : Url.unbroken id = "" := by tauto
    rw [hnothing] at hpath
    exact .inr (route_four hempty hpath)

end

end Http
end Telemetry
