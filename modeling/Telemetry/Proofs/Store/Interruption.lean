import Telemetry.Proofs.Store.FileRefinement
import Telemetry.Proofs.Store.Steps

/-!
# A snapshot file that survives interruptions

The program may come to an end between any two steps that it does to the file, and any step may
fail, a write after any part of its bytes. The program is then started again and reads the file. It
finds what it would have found before, or what the operation leaves when it comes to its end: only
the last step touches the file, and that step is a move, which the disk does altogether or not at
all. What is left beside the file makes no difference to anything that follows. A new version is
always written from its beginning before it is moved.

## Main definitions

* `Telemetry.SnapshotFile.LoadsAs` — a file that is read as another one
* `Telemetry.SnapshotFile.Operation` — what is done to a file, with its steps
* `Telemetry.SnapshotFile.Event`, `Telemetry.SnapshotFile.outcomes` — operations, some of them cut
  off, and what is heard of them
* `Telemetry.SnapshotFile.Beside` — files that differ in what is left beside them

## Main results

* `Telemetry.SnapshotFile.Operation.keeps` — what is read wherever an operation stands
* `Telemetry.SnapshotFile.Operation.lockstep` — nothing that is left beside the file is seen
* `Telemetry.SnapshotFile.Operation.survives` — both, for every operation and everything after it
-/

namespace Telemetry

open PersistentTable (Saving)

/-! ### Disks with other mishaps -/

namespace Disk

variable {d e : Disk} {p q : Path}

/-- The same disk, with other mishaps to come. -/
def amid (d : Disk) (mishaps : List (Option Mishap)) : Disk := { d with mishaps }

@[simp] theorem find?_amid (d : Disk) (r : List (Option Mishap)) (p : Path) :
    (d.amid r).find? p = d.find? p := rfl

@[simp] theorem way_amid (d : Disk) (r : List (Option Mishap)) (p : Path) :
    (d.amid r).way [] p = d.way [] p :=
  way_congr fun _ _ _ _ => rfl

@[simp] theorem way_next (d : Disk) (p : Path) : d.next.2.way [] p = d.way [] p :=
  way_congr fun _ _ _ _ => d.find?_next _

/-- To take a mishap is to have others to come. -/
@[simp] theorem amid_next (d : Disk) (r : List (Option Mishap)) :
    d.next.2.amid r = d.amid r := by
  rw [next]
  split <;> rfl

theorem amid_set (d : Disk) (r : List (Option Mishap)) (p : Path) (x : Entry) :
    (d.set p x).amid r = (d.amid r).set p x := rfl

theorem amid_erase (d : Disk) (r : List (Option Mishap)) (p : Path) :
    (d.erase p).amid r = (d.amid r).erase p := rfl

theorem next_calm (d : Disk) : (d.amid []).next = (none, d.amid []) := rfl

/-- An operation that meets no mishap does what it does on a disk without any. -/
theorem read_calm (h : d.next.1 = none) (p : Path) :
    (d.amid []).read p = ((d.read p).1, (d.read p).2.amid []) := by
  refine Prod.ext ?_ (by rw [read_snd, read_snd, next_calm, amid_next])
  simp only [read, h, next_calm, way_next, find?_next, way_amid, find?_amid]
  rcases d.way [] p with f | ⟨⟩
  · rfl
  · rcases d.find? p with _ | _ | _ <;> rfl

theorem write_calm (h : d.next.1 = none) (p : Path) (b : Bytes) :
    (d.amid []).write p b = ((d.write p b).1, (d.write p b).2.amid []) := by
  by_cases hdir : d.find? p = some .directory
  · simp only [write, h, next_calm, way_next, find?_next, way_amid, find?_amid, hdir, if_true]
    split <;> rw [amid_next]
  · simp only [write, h, next_calm, way_next, find?_next, way_amid, find?_amid, hdir, if_false]
    split
    · rw [amid_next]
    · rw [amid_set, amid_next]

theorem rename_calm (h : d.next.1 = none) (p q : Path) :
    (d.amid []).rename p q = ((d.rename p q).1, (d.rename p q).2.amid []) := by
  simp only [rename, h, next_calm, way_next, find?_next, way_amid, find?_amid]
  split
  · rw [amid_next]
  · rw [amid_next]
  · rw [amid_next]
  · split
    · rw [amid_next]
    · rw [amid_next]
    · rw [amid_set, amid_erase, amid_next]

/-- What is not refused has met no mishap. -/
theorem next_of_read (h : (d.read p).1 ≠ .error .refused) : d.next.1 = none := by
  cases hm : d.next.1 with
  | none => rfl
  | some m =>
    simp only [read, hm] at h
    exact absurd rfl h

theorem next_of_write {b : Bytes} (h : (d.write p b).1 = .ok ()) : d.next.1 = none := by
  cases hm : d.next.1 with
  | none => rfl
  | some m =>
    rcases m with _ | n <;> simp only [write, hm] at h
    all_goals
      split at h
      · cases h
      · split at h <;> cases h

theorem next_of_rename (h : (d.rename p q).1 = .ok ()) : d.next.1 = none := by
  cases hm : d.next.1 with
  | none => rfl
  | some m =>
    simp only [rename, hm] at h
    cases h

/-- What is read depends on the next mishap, on the way and on what is found. -/
theorem read_fst_congr (hnext : e.next.1 = d.next.1) (hway : e.way [] p = d.way [] p)
    (hfile : e.find? p = d.find? p) : (e.read p).1 = (d.read p).1 := by
  simp only [read, way_next, find?_next, hnext, hway, hfile]
  rcases d.next.1 with _ | m
  · rcases d.way [] p with f | ⟨⟩
    · rfl
    · rcases d.find? p with _ | _ | _ <;> rfl
  · rfl

/-! ### Disks that differ in one file -/

/-- The disks differ at most in whether there is a file under one path, and in what it holds. -/
structure DiffersAt (p : Path) (d e : Disk) : Prop where
  mishaps : e.mishaps = d.mishaps
  others : ∀ q, q ≠ p → e.find? q = d.find? q
  left : d.find? p ≠ some .directory
  right : e.find? p ≠ some .directory

namespace DiffersAt

theorem next_fst (h : DiffersAt p d e) : e.next.1 = d.next.1 := by
  simp only [Disk.next, h.mishaps]
  split <;> rfl

theorem next (h : DiffersAt p d e) : DiffersAt p d.next.2 e.next.2 where
  mishaps := by
    simp only [Disk.next, h.mishaps]
    split <;> simp [h.mishaps, *]
  others q hq := by rw [find?_next, find?_next, h.others q hq]
  left := by rw [find?_next]; exact h.left
  right := by rw [find?_next]; exact h.right

/-- The file is not on the way to any path that is no longer. -/
theorem way (h : DiffersAt p d e) (hlen : q.length ≤ p.length) : e.way [] q = d.way [] q := by
  refine way_congr fun ms n rest hq => h.others _ ?_
  rintro rfl
  rw [hq, List.nil_append, List.length_append, List.length_cons] at hlen
  omega

theorem read (h : DiffersAt p d e) (hq : q ≠ p) (hlen : q.length ≤ p.length) :
    (e.read q).1 = (d.read q).1 ∧ DiffersAt p (d.read q).2 (e.read q).2 := by
  refine ⟨read_fst_congr h.next_fst (h.way hlen) (h.others q hq), ?_⟩
  rw [read_snd, read_snd]
  exact h.next

theorem set (h : DiffersAt p d e) (hp : p ≠ []) (b c : Bytes) :
    DiffersAt p (d.set p (.file b)) (e.set p (.file c)) where
  mishaps := h.mishaps
  others q hq := by rw [find?_set_of_ne _ hq, find?_set_of_ne _ hq, h.others q hq]
  left := by rw [find?_set_self _ hp]; exact nofun
  right := by rw [find?_set_self _ hp]; exact nofun

/-- A file that is written from its beginning is the same on both disks. -/
theorem write (h : DiffersAt p d e) (hp : p ≠ []) (b : Bytes) :
    (e.write p b).1 = (d.write p b).1 ∧ DiffersAt p (d.write p b).2 (e.write p b).2 ∧
      ((d.write p b).1 = .ok () → (e.write p b).2.find? p = (d.write p b).2.find? p) := by
  have hway : e.next.2.way [] p = d.next.2.way [] p := h.next.way (Nat.le_refl _)
  simp only [Disk.write, h.next_fst, hway, if_neg h.next.left, if_neg h.next.right]
  rcases d.next.2.way [] p with f | ⟨⟩
  · exact ⟨rfl, h.next, fun hok => by cases hok⟩
  · rcases d.next.1 with _ | _ | n
    · exact ⟨rfl, h.next.set hp b b, fun _ => by rw [find?_set_self _ hp, find?_set_self _ hp]⟩
    · exact ⟨rfl, h.next, fun hok => by cases hok⟩
    · exact ⟨rfl, h.next.set hp _ _, fun hok => by cases hok⟩

/-- It leaves no trace where it was when it is moved. -/
theorem moved (h : DiffersAt p d e) (hp : p ≠ []) (hq : q ≠ []) (hqp : q ≠ p) (x : Entry) :
    DiffersAt p ((d.erase p).set q x) ((e.erase p).set q x) where
  mishaps := h.mishaps
  others r hr := by
    by_cases hrq : r = q
    · rw [hrq, find?_set_self _ hq, find?_set_self _ hq]
    · rw [find?_set_of_ne _ hrq, find?_set_of_ne _ hrq, find?_erase_of_ne _ hr,
        find?_erase_of_ne _ hr, h.others r hr]
  left := by
    rw [find?_set_of_ne _ hqp.symm, find?_erase_self _ hp]
    exact nofun
  right := by
    rw [find?_set_of_ne _ hqp.symm, find?_erase_self _ hp]
    exact nofun

/-- A move succeeds on both disks or on none, if the file is the same on both. -/
theorem rename (h : DiffersAt p d e) (hsame : e.find? p = d.find? p) (hp : p ≠ []) (hq : q ≠ [])
    (hqp : q ≠ p) (hlen : q.length ≤ p.length) :
    (e.rename p q).1 = (d.rename p q).1 ∧ DiffersAt p (d.rename p q).2 (e.rename p q).2 := by
  have hfound : e.next.2.find? p = d.next.2.find? p := by rw [find?_next, find?_next, hsame]
  simp only [Disk.rename, h.next_fst, h.next.way (Nat.le_refl _), h.next.way hlen, hfound,
    h.next.others q hqp]
  rcases d.next.1 with _ | m
  · rcases d.next.2.way [] p with f | ⟨⟩
    · exact ⟨rfl, h.next⟩
    · rcases d.next.2.way [] q with f | ⟨⟩
      · exact ⟨rfl, h.next⟩
      · rcases d.next.2.find? p with _ | x
        · exact ⟨rfl, h.next⟩
        · rcases d.next.2.find? q with _ | _ | _
          · exact ⟨rfl, h.next.moved hp hq hqp x⟩
          · exact ⟨rfl, h.next.moved hp hq hqp x⟩
          · exact ⟨rfl, h.next⟩
  · exact ⟨rfl, h.next⟩

end DiffersAt

end Disk

/-! ### Files -/

namespace Snapshot

theorem load_fst_congr {d e : Disk} {p : Path} (h : (e.read p).1 = (d.read p).1) :
    (load e p).1 = (load d p).1 := by
  rcases hd : d.read p with ⟨r, d'⟩
  rcases he : e.read p with ⟨r', e'⟩
  rw [hd, he] at h
  obtain rfl : r' = r := h
  simp only [load, hd, he]
  rcases r' with (_ | _) | b <;> rfl

end Snapshot

namespace SnapshotFile

variable {s e n : SnapshotFile} {ms saved : List Metric}

theorem draft_eq (s : SnapshotFile) (ms : List Metric) :
    s.draft ms = ((s.disk.write (Snapshot.temporary s.path) (Snapshot.format ms)).1.mapError .disk,
      { s with disk := (s.disk.write (Snapshot.temporary s.path) (Snapshot.format ms)).2 }) := by
  simp only [draft, Snapshot.draft]
  rcases s.disk.write (Snapshot.temporary s.path) (Snapshot.format ms) with ⟨_ | _, d⟩ <;> rfl

theorem publish_eq (s : SnapshotFile) :
    s.publish = ((s.disk.rename (Snapshot.temporary s.path) s.path).1.mapError .disk,
      { s with disk := (s.disk.rename (Snapshot.temporary s.path) s.path).2 }) := by
  simp only [publish, Snapshot.publish]
  rcases s.disk.rename (Snapshot.temporary s.path) s.path with ⟨_ | _, d⟩ <;> rfl

theorem load_snd (s : SnapshotFile) : s.load.2 = { s with disk := s.disk.next.2 } := by
  rw [← Snapshot.load_snd s.disk s.path]
  rfl

/-! ### What is read again -/

/-- The same file, on a disk with other mishaps to come. -/
def amid (s : SnapshotFile) (mishaps : List (Option Mishap)) : SnapshotFile :=
  { s with disk := s.disk.amid mishaps }

/-- The file is read as the other one, or the reading of both is refused. -/
def LoadsAs (e s : SnapshotFile) : Prop :=
  ∀ mishaps, (e.amid mishaps).load.1 = (s.amid mishaps).load.1

theorem LoadsAs.refl (s : SnapshotFile) : s.LoadsAs s := fun _ => rfl

theorem LoadsAs.trans (hn : n.LoadsAs e) (h : e.LoadsAs s) : n.LoadsAs s :=
  fun mishaps => (hn mishaps).trans (h mishaps)

theorem loadsAs_of_find?_eq (hpath : e.path = s.path)
    (hfile : e.disk.find? s.path = s.disk.find? s.path)
    (hway : e.disk.way [] s.path = s.disk.way [] s.path) : e.LoadsAs s := by
  intro mishaps
  have hread : ((e.disk.amid mishaps).read s.path).1 = ((s.disk.amid mishaps).read s.path).1 := by
    refine Disk.read_fst_congr ?_ (by simpa using hway) hfile
    cases mishaps <;> rfl
  show (Snapshot.load (e.disk.amid mishaps) e.path).1 = _
  rw [hpath]
  exact Snapshot.load_fst_congr hread

theorem load_loadsAs (s : SnapshotFile) : s.load.2.LoadsAs s := by
  rw [load_snd]
  exact loadsAs_of_find?_eq rfl (s.disk.find?_next _) (s.disk.way_next _)

/-- A new version beside the file leaves the file, written or not. -/
theorem draft_loadsAs (hname : s.path ≠ []) (ms : List Metric) : (s.draft ms).2.LoadsAs s := by
  have hother : s.path ≠ Snapshot.temporary s.path := (Snapshot.temporary_ne hname).symm
  have hlen : s.path.length ≤ (Snapshot.temporary s.path).length :=
    Nat.le_of_eq (Snapshot.length_temporary s.path).symm
  rw [draft_eq]
  refine loadsAs_of_find?_eq rfl ?_ (s.disk.way_write hlen _)
  rcases s.disk.write_cases (Snapshot.temporary s.path) (Snapshot.format ms) with
    ⟨-, d, h, hsame⟩ | ⟨f, d, h, hsame⟩
  · rw [h, Disk.find?_set_of_ne _ hother, hsame]
  · rw [h, hsame _ hother]

/-- A move that fails leaves the file. -/
theorem publish_loadsAs {f : StoreError} (h : s.publish = (.error f, e)) : e.LoadsAs s := by
  rw [publish_eq] at h
  rcases hmove : s.disk.rename (Snapshot.temporary s.path) s.path with ⟨f' | ⟨⟩, d⟩
  · rw [hmove] at h
    cases h
    refine loadsAs_of_find?_eq rfl ?_ (Disk.way_rename_of_error hmove _)
    rcases s.disk.rename_cases (Snapshot.temporary s.path) s.path with
      ⟨-, d', x, hok, -⟩ | ⟨f'', d', herror, hsame⟩
    · rw [hmove] at hok
      cases hok
    · rw [hmove] at herror
      cases herror
      exact congrFun hsame _
  · rw [hmove] at h
    cases h

/-! ### What comes of an operation without mishaps -/

theorem load_calm (h : s.load.1 = .ok ms) : (s.amid []).load = (.ok ms, s.amid []) := by
  have hnone : s.disk.next.1 = none := by
    refine Disk.next_of_read (p := s.path) fun hrefused => ?_
    have hload : (Snapshot.load s.disk s.path).1 = .ok ms := h
    rcases hread : s.disk.read s.path with ⟨r, d⟩
    rw [hread] at hrefused
    obtain rfl : r = .error .refused := hrefused
    rw [Snapshot.load, hread] at hload
    cases hload
  have hread : ((s.disk.amid []).read s.path).1 = (s.disk.read s.path).1 := by
    rw [Disk.read_calm hnone]
  refine Prod.ext ?_ (load_snd _)
  rw [← h]
  exact Snapshot.load_fst_congr hread

theorem draft_calm (h : s.draft ms = (.ok (), e)) :
    (s.amid []).draft ms = (.ok (), e.amid []) := by
  rw [draft_eq] at h
  rcases hwrite : s.disk.write (Snapshot.temporary s.path) (Snapshot.format ms) with ⟨f | ⟨⟩, d⟩
  · rw [hwrite] at h
    cases h
  · have hcalm : (s.disk.amid []).write (Snapshot.temporary s.path) (Snapshot.format ms)
        = (.ok (), d.amid []) := by
      rw [Disk.write_calm (Disk.next_of_write (congrArg Prod.fst hwrite)), hwrite]
    rw [hwrite] at h
    cases h
    rw [draft_eq]
    simp only [amid, hcalm]
    rfl

theorem publish_calm (h : s.publish = (.ok (), e)) :
    (s.amid []).publish = (.ok (), e.amid []) := by
  rw [publish_eq] at h
  rcases hmove : s.disk.rename (Snapshot.temporary s.path) s.path with ⟨f | ⟨⟩, d⟩
  · rw [hmove] at h
    cases h
  · have hcalm : (s.disk.amid []).rename (Snapshot.temporary s.path) s.path
        = (.ok (), d.amid []) := by
      rw [Disk.rename_calm (Disk.next_of_rename (congrArg Prod.fst hmove)), hmove]
    rw [hmove] at h
    cases h
    rw [publish_eq]
    simp only [amid, hcalm]
    rfl

/-! ### Operations -/

/-- What is done to a snapshot file. -/
inductive Operation where
  | load
  | persist (ms : List Metric)
  | merge (call : Saving)

/-- The steps of replacing the metrics in the file, and what is told of it. -/
def replacing (ms saved : List Metric) :
    Procedure SnapshotFile (Except StoreError (List Metric)) :=
  .call (fun s => s.draft ms) fun
    | .error e => .done (.error e)
    | .ok () => .call publish fun r => .done (r.map fun _ => saved)

theorem run_replacing (s : SnapshotFile) (ms saved : List Metric) :
    (replacing ms saved).run s = ((s.persist ms).1.map fun _ => saved, (s.persist ms).2) := by
  rw [replacing, Procedure.run_call, persist_eq]
  rcases s.draft ms with ⟨_ | ⟨⟩, s⟩ <;> rfl

theorem merging_eq (ms : List Metric) :
    merging ms = .call load fun
      | .error e => .done (.error e)
      | .ok stored =>
        match (Table.ofList stored).applyAll ms with
        | (.error e, _) => .done (.error e)
        | (.ok saved, t) => replacing t.entries saved := rfl

namespace Operation

/-- What comes of an operation. Of a file that is replaced there is nothing to tell. -/
def perform (s : SnapshotFile) : Operation → Except StoreError (List Metric) × SnapshotFile
  | load => s.load
  | persist ms => ((s.persist ms).1.map fun _ => [], (s.persist ms).2)
  | merge call => s.fulfil call

/-- Its steps. -/
def steps : Operation → Procedure SnapshotFile (Except StoreError (List Metric))
  | load => .call SnapshotFile.load .done
  | persist ms => replacing ms []
  | merge call => merging call.metrics

/-- Without an interruption the steps amount to the operation. -/
theorem run_steps (o : Operation) (s : SnapshotFile) : o.steps.run s = o.perform s := by
  cases o with
  | load => rfl
  | persist ms => exact run_replacing s ms []
  | merge call => rw [steps, perform, run_merging, fulfil_eq]

/-- The file is read as the operation leaves it when nothing fails. -/
def Completes (o : Operation) (s e : SnapshotFile) : Prop :=
  ∃ xs full, o.perform (s.amid []) = (.ok xs, full) ∧ e.LoadsAs full

end Operation

/-- As long as the file is not replaced it is read as it was, and from then on it is the file that
is there when nothing fails. -/
theorem replacing_keeps {completed : SnapshotFile → Prop} (hname : s.path ≠ [])
    (hn : n.LoadsAs s) (hcalm : n.amid [] = s.amid []) (ms saved : List Metric)
    (hcompleted : ∀ e, (s.amid []).persist ms = (.ok (), e.amid []) → completed e) :
    (replacing ms saved).Keeps (fun e => e.LoadsAs s ∨ completed e)
      (fun r e => (∃ f, r = .error f) ∧ e.LoadsAs s ∨ (∃ xs, r = .ok xs) ∧ completed e) n := by
  have hpath : (n.amid []).path = s.path := by rw [hcalm]; rfl
  have hdrafted : (n.draft ms).2.LoadsAs s := (draft_loadsAs (s := n) (hpath ▸ hname) ms).trans hn
  refine Procedure.keeps_call.mpr ⟨.inl hn, ?_⟩
  rcases hdraft : n.draft ms with ⟨f | ⟨⟩, d⟩
  · rw [hdraft] at hdrafted
    exact ⟨.inl hdrafted, .inl ⟨⟨f, rfl⟩, hdrafted⟩⟩
  · rw [hdraft] at hdrafted
    refine Procedure.keeps_call.mpr ⟨.inl hdrafted, ?_⟩
    rcases hpublish : d.publish with ⟨f | ⟨⟩, e⟩
    · have he : e.LoadsAs s := (publish_loadsAs hpublish).trans hdrafted
      exact ⟨.inl he, .inl ⟨⟨f, rfl⟩, he⟩⟩
    · -- neither the write nor the move has met a mishap, so both do the same without any
      have he : completed e := by
        refine hcompleted e ?_
        rw [← hcalm, persist_eq, draft_calm hdraft]
        exact publish_calm hpublish
      exact ⟨.inr he, .inr ⟨⟨saved, rfl⟩, he⟩⟩

namespace Operation

/-- **Wherever an operation stands, the file is read as before or as if it had been completed.** An
operation that fails leaves it as before. -/
theorem keeps (hname : s.path ≠ []) (o : Operation) :
    o.steps.Keeps (fun e => e.LoadsAs s ∨ o.Completes s e)
      (fun r e => (∃ f, r = .error f) ∧ e.LoadsAs s ∨ (∃ xs, r = .ok xs) ∧ o.Completes s e)
      s := by
  have hloads : s.load.2.LoadsAs s := s.load_loadsAs
  cases o with
  | load =>
    refine Procedure.keeps_call.mpr ⟨.inl (.refl s), .inl hloads, ?_⟩
    cases hload : s.load.1 with
    | error f => exact .inl ⟨⟨f, rfl⟩, hloads⟩
    | ok ms => exact .inr ⟨⟨ms, rfl⟩, ms, s.amid [], load_calm hload, hloads⟩
  | persist ms =>
    refine replacing_keeps hname (.refl s) rfl ms [] fun e he => ?_
    exact ⟨[], e.amid [], by rw [perform, he]; rfl, fun _ => rfl⟩
  | merge call =>
    rw [steps, merging_eq]
    refine Procedure.keeps_call.mpr ⟨.inl (.refl s), ?_⟩
    cases hload : s.load.1 with
    | error f => exact ⟨.inl hloads, .inl ⟨⟨f, rfl⟩, hloads⟩⟩
    | ok stored =>
      dsimp only
      rcases happly : (Table.ofList stored).applyAll call.metrics with ⟨f | saved, t⟩
      · exact ⟨.inl hloads, .inl ⟨⟨f, rfl⟩, hloads⟩⟩
      · -- the reading has taken a mishap, but without mishaps the disk is as it was
        have hcalm : s.load.2.amid [] = s.amid [] := by
          rw [load_snd, amid, Disk.amid_next]
          rfl
        refine replacing_keeps hname hloads hcalm t.entries saved fun e he => ?_
        have hmerge : (s.amid []).saveAll call.metrics = (.ok saved, e.amid []) := by
          simp only [saveAll, load_calm hload, happly, he]
        exact ⟨saved, e.amid [], by rw [perform, fulfil_eq, hmerge], fun _ => rfl⟩

end Operation

/-! ### What is left beside a file -/

/-- The files differ at most in what is left beside them, which is no directory. -/
structure Beside (s e : SnapshotFile) : Prop where
  named : s.path ≠ []
  path : e.path = s.path
  disks : Disk.DiffersAt (Snapshot.temporary s.path) s.disk e.disk

/-- The same file without what is left beside it. -/
def tidied (s : SnapshotFile) : SnapshotFile :=
  { s with disk := s.disk.erase (Snapshot.temporary s.path) }

theorem beside_tidied (hname : s.path ≠ [])
    (hleft : s.disk.find? (Snapshot.temporary s.path) ≠ some .directory) :
    s.Beside s.tidied where
  named := hname
  path := rfl
  disks :=
    { mishaps := rfl
      others := fun q hq => s.disk.find?_erase_of_ne hq
      left := hleft
      right := by
        rw [tidied, Disk.find?_erase_self _ (Snapshot.temporary_ne_nil hname)]
        exact nofun }

namespace Beside

theorem load (h : s.Beside e) : e.load.1 = s.load.1 ∧ s.load.2.Beside e.load.2 := by
  obtain ⟨p, d⟩ := s
  obtain ⟨hname, rfl, hdisks⟩ := h
  have hread := hdisks.read (Snapshot.temporary_ne hname).symm
    (Nat.le_of_eq (Snapshot.length_temporary e.path).symm)
  refine ⟨Snapshot.load_fst_congr hread.1, hname, rfl, ?_⟩
  rw [load_snd, load_snd]
  exact hdisks.next

/-- The new version is the same if it is written. -/
theorem draft (h : s.Beside e) (ms : List Metric) :
    (e.draft ms).1 = (s.draft ms).1 ∧ (s.draft ms).2.Beside (e.draft ms).2 ∧
      ((s.draft ms).1 = .ok () → (e.draft ms).2.disk.find? (Snapshot.temporary s.path)
        = (s.draft ms).2.disk.find? (Snapshot.temporary s.path)) := by
  obtain ⟨p, d⟩ := s
  obtain ⟨hname, rfl, hdisks⟩ := h
  obtain ⟨hsame, hwritten, hfound⟩ :=
    hdisks.write (Snapshot.temporary_ne_nil hname) (Snapshot.format ms)
  rw [draft_eq, draft_eq]
  refine ⟨by rw [hsame], ⟨hname, rfl, hwritten⟩, fun hok => hfound ?_⟩
  cases hwrite : (d.write (Snapshot.temporary e.path) (Snapshot.format ms)).1 with
  | ok => rfl
  | error f =>
    rw [hwrite] at hok
    cases hok

/-- It is moved from both or from none. -/
theorem publish (h : s.Beside e) (hfound : e.disk.find? (Snapshot.temporary s.path)
      = s.disk.find? (Snapshot.temporary s.path)) :
    e.publish.1 = s.publish.1 ∧ s.publish.2.Beside e.publish.2 := by
  obtain ⟨p, d⟩ := s
  obtain ⟨hname, rfl, hdisks⟩ := h
  obtain ⟨hsame, hmoved⟩ := hdisks.rename hfound (Snapshot.temporary_ne_nil hname) hname
    (Snapshot.temporary_ne hname).symm (Nat.le_of_eq (Snapshot.length_temporary e.path).symm)
  rw [publish_eq, publish_eq]
  exact ⟨by rw [hsame], hname, rfl, hmoved⟩

end Beside

theorem replacing_lockstep (h : s.Beside e) (ms saved : List Metric) :
    (replacing ms saved).Lockstep Beside s e := by
  obtain ⟨hsame, hdrafted, hfound⟩ := h.draft ms
  refine Procedure.lockstep_call h hsame ?_
  cases hdraft : (s.draft ms).1 with
  | error f => exact hdrafted
  | ok =>
    obtain ⟨hsame, hpublished⟩ := hdrafted.publish (hfound hdraft)
    exact Procedure.lockstep_call hdrafted hsame hpublished

/-- **What is left beside a file is not seen by any operation.** -/
theorem Operation.lockstep (h : s.Beside e) (o : Operation) : o.steps.Lockstep Beside s e := by
  obtain ⟨hsame, hloaded⟩ := h.load
  cases o with
  | load => exact Procedure.lockstep_call h hsame hloaded
  | persist ms => exact replacing_lockstep h ms []
  | merge call =>
    rw [steps, merging_eq]
    refine Procedure.lockstep_call h hsame ?_
    cases s.load.1 with
    | error f => exact hloaded
    | ok stored =>
      dsimp only
      rcases (Table.ofList stored).applyAll call.metrics with ⟨f | saved, t⟩
      · exact hloaded
      · exact replacing_lockstep hloaded t.entries saved

/-! ### Everything that follows -/

/-- An operation that comes to its end, or one that is cut off after some of its steps. -/
inductive Event where
  | whole (o : Operation)
  | cut (o : Operation) (steps : ℕ)

namespace Event

/-- What is heard of an operation, if it comes to its end. -/
def outcome (s : SnapshotFile) : Event → Option (Except StoreError (List Metric))
  | whole o => some (o.perform s).1
  | cut _ _ => none

/-- What it leaves. -/
def after (s : SnapshotFile) : Event → SnapshotFile
  | whole o => (o.perform s).2
  | cut o k => o.steps.stateAfter k s

theorem beside (h : s.Beside e) (v : Event) :
    v.outcome e = v.outcome s ∧ (v.after s).Beside (v.after e) := by
  cases v with
  | whole o =>
    obtain ⟨hsame, hleft⟩ := (o.lockstep h).run
    rw [o.run_steps, o.run_steps] at hsame hleft
    exact ⟨congrArg some hsame, hleft⟩
  | cut o k => exact ⟨rfl, (o.lockstep h).stateAfter k⟩

end Event

/-- What is heard of operations, one after the other. -/
def outcomes (s : SnapshotFile) : List Event → List (Option (Except StoreError (List Metric)))
  | [] => []
  | v :: vs => v.outcome s :: (v.after s).outcomes vs

theorem Beside.outcomes (h : s.Beside e) (events : List Event) :
    e.outcomes events = s.outcomes events := by
  induction events generalizing s e with
  | nil => rfl
  | cons v vs ih =>
    obtain ⟨hsame, hleft⟩ := v.beside h
    rw [SnapshotFile.outcomes, SnapshotFile.outcomes, hsame, ih hleft]

/-- **A snapshot file survives interruptions.** Wherever an operation is cut off, the file is read
as before or as if the operation had been completed; as before if it comes to its end and fails,
and as completed if it succeeds. What is left beside the file is never heard of in anything that
follows. -/
theorem Operation.survives (hname : s.path ≠ []) (o : Operation) :
    (∀ k, (o.steps.stateAfter k s).LoadsAs s ∨ o.Completes s (o.steps.stateAfter k s)) ∧
      ((∃ f, (o.perform s).1 = .error f) ∧ (o.perform s).2.LoadsAs s ∨
        (∃ xs, (o.perform s).1 = .ok xs) ∧ o.Completes s (o.perform s).2) ∧
      ∀ e, s.Beside e → ∀ later, e.outcomes later = s.outcomes later := by
  have hkeeps := o.keeps hname
  refine ⟨hkeeps.stateAfter, ?_, fun e he later => he.outcomes later⟩
  rw [← o.run_steps]
  exact hkeeps.run

/-- The write of a new version breaks off after three bytes. -/
theorem Operation.survives_torn :
    let polls : Metric := ⟨"polls", .counter 1⟩
    let s : SnapshotFile := ⟨["metrics.json"],
      { entries := [(["metrics.json"], .file (Snapshot.format [polls]))]
        mishaps := [none, some (.torn 3)] }⟩
    let o : Operation := .merge (.one polls)
    let e := o.steps.stateAfter 2 s
    s.path ≠ [] ∧ e.disk.find? ["metrics.json.tmp"] = some (.file (Bytes.ofText "[\n ")) ∧
      (e.LoadsAs s ∨ o.Completes s e) ∧ e.Beside e.tidied ∧
      ∀ later, e.tidied.outcomes later = e.outcomes later := by
  intro polls s o e
  have hname : s.path ≠ [] := by decide
  have hleft : e.disk.find? ["metrics.json.tmp"] = some (.file (Bytes.ofText "[\n ")) := by
    decide +kernel
  have hpath : e.path = ["metrics.json"] := by decide +kernel
  have htemporary : Snapshot.temporary e.path = ["metrics.json.tmp"] := by
    rw [hpath]
    decide +kernel
  have hbeside : e.Beside e.tidied := by
    refine beside_tidied (by rw [hpath]; decide) ?_
    rw [htemporary, hleft]
    exact nofun
  obtain ⟨hcut, -, -⟩ := Operation.survives hname o
  obtain ⟨-, -, hlater⟩ := Operation.survives hbeside.named o
  exact ⟨hname, hleft, hcut 2, hbeside, hlater e.tidied hbeside⟩

end SnapshotFile
end Telemetry
