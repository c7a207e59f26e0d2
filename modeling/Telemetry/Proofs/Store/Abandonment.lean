import Telemetry.Proofs.Store.Steps

/-!
# Calls that are given up while they save

A call that saves at once waits for the disk after it has changed the table. If it is given up
there, nobody puts the earlier table back: the table keeps a change that the file does not have, and
that no call has returned. The next call that succeeds writes it along with its own.

## Main definitions

* `Telemetry.PersistentTable.Lags` — how the file falls behind the table

## Main results

* `Telemetry.PersistentTable.file_lags` — table and file whenever no call has the turn
* `Telemetry.PersistentTable.file_left_behind` — a change that the file never gets
-/

namespace Telemetry.PersistentTable

/-! ### Table and file -/

/-- The metrics of calls, given by their numbers. -/
def metricsOf (calls : List Saving) (is : List ℕ) : List Metric :=
  is.flatMap fun i => calls[i]?.elim [] Saving.metrics

theorem metricsOf_append (calls : List Saving) (is js : List ℕ) :
    metricsOf calls (is ++ js) = metricsOf calls is ++ metricsOf calls js :=
  List.flatMap_append

/-- How the file falls behind the table: it holds what some calls have merged, and the table has
what others have merged as well, all in the order of their turns. Calls that returned are saved,
those that failed have left nothing, and a call is not saved only if it was given up after the last
call that returned. -/
structure Lags (m : PersistentTable) (calls : List Saving) (past : Past) (saved unsaved : List ℕ)
    (n : PersistentTable) : Prop where
  order : (saved ++ unsaved).Sublist (past.map Prod.fst)
  returned : ∀ i rs, (i, some (.ok rs)) ∈ past → i ∈ saved
  failed : ∀ i e, (i, some (.error e)) ∈ past → i ∉ saved ++ unsaved
  givenUp : ∀ i ∈ unsaved, (i, none) ∈ past
  recent : ∀ before i rs after, past = before ++ (i, some (.ok rs)) :: after →
    unsaved.Sublist (after.map Prod.fst)
  contents : ∃ t rs us, m.table.Merges (metricsOf calls saved) rs t ∧
    t.Merges (metricsOf calls unsaved) us n.table ∧
    n.bytes = if saved = [] then m.bytes else some (Snapshot.format t.entries)

section Lags

variable {m n n' : PersistentTable} {calls : List Saving} {past : Past} {saved unsaved : List ℕ}
  {i : ℕ} {o : Option (Except StoreError (List Metric))} {call : Saving}

/-- A call that has the turn is none of those before. -/
theorem Lags.notMem (h : Lags m calls past saved unsaved n) (hi : i ∉ past.map Prod.fst) :
    i ∉ saved ++ unsaved := fun hmem => hi (h.order.subset hmem)

theorem metricsOf_concat (hi : calls[i]? = some call) (is : List ℕ) :
    metricsOf calls (is ++ [i]) = metricsOf calls is ++ call.metrics := by
  rw [metricsOf_append, metricsOf, metricsOf]
  simp [hi]

/-- The last of the past, and those before. -/
theorem eq_or_of_concat_eq {x y : ℕ × Option (Except StoreError (List Metric))}
    {before after : Past} (h : past ++ [x] = before ++ y :: after) :
    x = y ∧ after = [] ∨ ∃ after', after = after' ++ [x] ∧ past = before ++ y :: after' := by
  rcases List.eq_nil_or_concat after with rfl | ⟨after', z, rfl⟩
  · exact .inl ⟨List.singleton_inj.mp (List.append_inj' h rfl).2, rfl⟩
  · have hsplit : past ++ [x] = (before ++ y :: after') ++ [z] := by
      simpa [List.concat_eq_append] using h
    obtain ⟨hpast, hx⟩ := List.append_inj' hsplit rfl
    exact .inr ⟨after', by rw [List.concat_eq_append, hx], hpast⟩

theorem lags_nil (m : PersistentTable) (calls : List Saving) : Lags m calls [] [] [] m where
  order := .slnil
  returned _ _ h := absurd h List.not_mem_nil
  failed _ _ h := absurd h List.not_mem_nil
  givenUp _ h := absurd h List.not_mem_nil
  recent before j rs after h := by simp at h
  contents := ⟨m.table, [], [], .nil _, .nil _, rfl⟩

/-- A call has failed or was given up, and has left nothing. -/
theorem Lags.unchanged (h : Lags m calls past saved unsaved n) (hi : i ∉ past.map Prod.fst)
    (ho : ∀ rs, o ≠ some (.ok rs)) (htable : n'.table = n.table) (hbytes : n'.bytes = n.bytes) :
    Lags m calls (past ++ [(i, o)]) saved unsaved n' where
  order := by
    rw [List.map_append]
    exact h.order.trans (List.sublist_append_left _ _)
  returned j rs hj := by
    rcases List.mem_append.mp hj with hj | hj
    · exact h.returned j rs hj
    · cases List.mem_singleton.mp hj
      exact absurd rfl (ho rs)
  failed j e hj := by
    rcases List.mem_append.mp hj with hj | hj
    · exact h.failed j e hj
    · cases List.mem_singleton.mp hj
      exact h.notMem hi
  givenUp j hj := List.mem_append_left _ (h.givenUp j hj)
  recent before j rs after heq := by
    rcases eq_or_of_concat_eq heq with ⟨hlast, -⟩ | ⟨after', rfl, hpast⟩
    · cases hlast
      exact absurd rfl (ho rs)
    · rw [List.map_append]
      exact (h.recent before j rs after' hpast).trans (List.sublist_append_left _ _)
  contents := by
    rw [htable, hbytes]
    exact h.contents

/-- A call was given up before it could write the table that it has changed. -/
theorem Lags.stands (h : Lags m calls past saved unsaved n) (hi : i ∉ past.map Prod.fst)
    (hcall : calls[i]? = some call) {rs : List Metric}
    (hchange : call.change n.table = (.ok rs, n'.table)) (hbytes : n'.bytes = n.bytes) :
    Lags m calls (past ++ [(i, none)]) saved (unsaved ++ [i]) n' where
  order := by
    rw [List.map_append, ← List.append_assoc]
    exact h.order.append (.refl _)
  returned j rs hj := by
    rcases List.mem_append.mp hj with hj | hj
    · exact h.returned j rs hj
    · cases List.mem_singleton.mp hj
  failed j e hj := by
    rcases List.mem_append.mp hj with hpast | hj
    · rw [← List.append_assoc, List.mem_append, List.mem_singleton]
      rintro (hmem | rfl)
      · exact h.failed j e hpast hmem
      · exact hi (List.mem_map_of_mem hpast)
    · cases List.mem_singleton.mp hj
  givenUp j hj := by
    rcases List.mem_append.mp hj with hj | hj
    · exact List.mem_append_left _ (h.givenUp j hj)
    · cases List.mem_singleton.mp hj
      exact List.mem_append_right _ List.mem_cons_self
  recent before j rs after heq := by
    rcases eq_or_of_concat_eq heq with ⟨hlast, -⟩ | ⟨after', rfl, hpast⟩
    · cases hlast
    · rw [List.map_append]
      exact (h.recent before j rs after' hpast).append (.refl _)
  contents := by
    obtain ⟨t, qs, us, hsaved, hunsaved, hfile⟩ := h.contents
    refine ⟨t, qs, us ++ rs, hsaved, ?_, hbytes.trans hfile⟩
    rw [metricsOf_concat hcall]
    exact hunsaved.append (Saving.change_eq_ok_iff.mp hchange)

/-- A call has written the table, and with its own change all that was not saved before. -/
theorem Lags.saves (h : Lags m calls past saved unsaved n) (hi : i ∉ past.map Prod.fst)
    (hcall : calls[i]? = some call) {rs : List Metric}
    (hchange : call.change n.table = (.ok rs, n'.table)) (hagrees : n'.Agrees)
    (ho : ∀ e, o ≠ some (.error e)) :
    Lags m calls (past ++ [(i, o)]) (saved ++ unsaved ++ [i]) [] n' where
  order := by
    rw [List.map_append, List.append_nil]
    exact h.order.append (.refl _)
  returned j rs hj := by
    rcases List.mem_append.mp hj with hj | hj
    · exact List.mem_append_left _ (List.mem_append_left _ (h.returned j rs hj))
    · cases List.mem_singleton.mp hj
      exact List.mem_append_right _ List.mem_cons_self
  failed j e hj := by
    rcases List.mem_append.mp hj with hpast | hj
    · rw [List.append_nil, List.mem_append, List.mem_singleton]
      rintro (hmem | rfl)
      · exact h.failed j e hpast hmem
      · exact hi (List.mem_map_of_mem hpast)
    · cases List.mem_singleton.mp hj
      exact absurd rfl (ho e)
  givenUp _ hj := absurd hj List.not_mem_nil
  recent _ _ _ _ _ := List.nil_sublist _
  contents := by
    obtain ⟨t, qs, us, hsaved, hunsaved, -⟩ := h.contents
    refine ⟨n'.table, qs ++ us ++ rs, [], ?_, .nil _, ?_⟩
    · rw [metricsOf_concat hcall, metricsOf_append]
      exact (hsaved.append hunsaved).append (Saving.change_eq_ok_iff.mp hchange)
    · rw [if_neg (by simp), hagrees, getAll]

/-- When everything is saved, the file holds exactly the table. -/
theorem Lags.agrees (h : Lags m calls past saved [] n) (hsaved : saved ≠ []) : n.Agrees := by
  obtain ⟨t, rs, us, -, hunsaved, hfile⟩ := h.contents
  rw [Agrees, hfile, if_neg hsaved, getAll, hunsaved.eq_of_nil]

/-- When nothing was to be saved, nothing has changed. -/
theorem Lags.eq_start (h : Lags m calls past [] [] n) :
    n.table = m.table ∧ n.bytes = m.bytes := by
  obtain ⟨t, rs, us, hsaved, hunsaved, hfile⟩ := h.contents
  exact ⟨hunsaved.eq_of_nil.trans hsaved.eq_of_nil, hfile⟩

end Lags

/-! ### All courses of calls -/

/-- Calls that save at once, and can be given up wherever they wait. -/
def serveImpatient (m : PersistentTable) (calls : List Saving) :
    Shared PersistentTable (Except StoreError (List Metric)) :=
  .create m (calls.map fun call => saving call.change)

theorem lags_of_settled {m n n' : PersistentTable} {calls : List Saving} {past : Past} {i : ℕ}
    {call : Saving} {r : Except StoreError (List Metric)}
    (h : ∃ saved unsaved, Lags m calls past saved unsaved n) (hi : i ∉ past.map Prod.fst)
    (hcall : calls[i]? = some call) (hn : Settled call.change n r n') :
    ∃ saved unsaved, Lags m calls (past ++ [(i, some r)]) saved unsaved n' := by
  obtain ⟨saved, unsaved, h⟩ := h
  rcases hn with ⟨rs, rfl, hchange, hagrees⟩ | ⟨e, rfl, htable, hbytes⟩
  · exact ⟨_, _, h.saves hi hcall hchange hagrees fun _ => nofun⟩
  · exact ⟨_, _, h.unchanged hi (fun _ => nofun) htable hbytes⟩

theorem lags_of_underWay {m n n' : PersistentTable} {calls : List Saving} {past : Past} {i : ℕ}
    {call : Saving} (h : ∃ saved unsaved, Lags m calls past saved unsaved n)
    (hi : i ∉ past.map Prod.fst) (hcall : calls[i]? = some call)
    (hn : UnderWay call.change n n') :
    ∃ saved unsaved, Lags m calls (past ++ [(i, none)]) saved unsaved n' := by
  obtain ⟨saved, unsaved, h⟩ := h
  rcases hn with ⟨htable, hbytes⟩ | ⟨⟨rs, hchange⟩, hbytes | hagrees⟩
  · exact ⟨_, _, h.unchanged hi (fun _ => nofun) htable hbytes⟩
  · exact ⟨_, _, h.stands hi hcall hchange hbytes⟩
  · exact ⟨_, _, h.saves hi hcall hchange hagrees fun _ => nofun⟩

/-- **How table and file go together** whenever no call has the turn, whatever there is in the
beginning, whatever happens to the disk, and whichever calls are given up before their turns or
while they wait for the disk. The file falls behind the table by calls that were given up after the
last one that returned, and by nothing else. So it holds exactly the table right after a call that
returned, and as long as no call was given up in its turn, unless nothing has changed.

A step that is under way when its call is given up is taken to be done before that or never: a disk
that finishes it later, in the turn of another call, is not spoken of here. -/
theorem file_lags (table : Table) (file : SnapshotFile) (calls : List Saving)
    (moves : List Shared.Move) :
    let m : PersistentTable := ⟨table, file, .immediate⟩
    let c := (m.serveImpatient calls).run moves
    c.isFree →
      (∀ i r, c.tasks[i]? = some (.finished r) → (i, some r) ∈ c.past) ∧
      (∃ saved unsaved, Lags m calls c.past saved unsaved c.state) ∧
      (∀ before i rs, c.past = before ++ [(i, some (.ok rs))] → c.state.Agrees) ∧
      ((∀ i, (i, none) ∉ c.past) →
        c.state.Agrees ∨ c.state.table = table ∧ c.state.bytes = m.bytes) := by
  intro m c hfree
  let idle : Past → PersistentTable → Prop := fun past n =>
    ∃ saved unsaved, Lags m calls past saved unsaved n
  have hkept : c.Kept (calls.map fun call => saving call.change) idle
      (fun past i => idle (past ++ [(i, none)])) := by
    refine Shared.run_keeps ⟨[], [], lags_nil m calls⟩ (fun {past i p n} hp hi hidle => ?_)
      fun _ _ h => h
    obtain ⟨call, hcall, rfl⟩ : ∃ call, calls[i]? = some call ∧ saving call.change = p := by
      simpa using hp
    exact (saving_keeps call.change n).imp (fun n' hn' => lags_of_underWay hidle hi hcall hn')
      fun r n' hn' => lags_of_settled hidle hi hcall hn'
  obtain ⟨saved, unsaved, hlags⟩ := hkept.free hfree
  refine ⟨fun i r hi => hkept.orderly.mem_past hi, ⟨saved, unsaved, hlags⟩,
    fun before i rs hpast => ?_, fun hnone => ?_⟩
  · obtain rfl : unsaved = [] := List.sublist_nil.mp (hlags.recent before i rs [] hpast)
    have hsaved : i ∈ saved := hlags.returned i rs (hpast ▸ List.mem_concat_self)
    exact hlags.agrees (List.ne_nil_of_mem hsaved)
  · obtain rfl : unsaved = [] :=
      List.eq_nil_iff_forall_not_mem.mpr fun i hi => hnone i (hlags.givenUp i hi)
    by_cases hsaved : saved = []
    · exact .inr (hsaved ▸ hlags).eq_start
    · exact .inl (hlags.agrees hsaved)

/-- A call is given up when it has changed the table. The next one saves its change as well. -/
theorem file_lags_caught_up :
    let x : Metric := ⟨"n", .counter 1⟩
    let y : Metric := ⟨"n", .counter 2⟩
    let moves : List Shared.Move :=
      [.enter 0, .advance 0, .giveUp 0, .enter 1, .advance 1, .advance 1, .advance 1, .advance 1]
    let m : PersistentTable := ⟨.empty, ⟨["metrics.json"], {}⟩, .immediate⟩
    let c := (m.serveImpatient [.one x, .batch [y]]).run moves
    c.isFree ∧ c.past = [(0, none), (1, some (.ok [⟨"n", .counter 3⟩]))] ∧
      c.state.getAll = [⟨"n", .counter 3⟩] ∧ c.state.Agrees := by
  intro x y moves m c
  have hfree : c.isFree := by decide +kernel
  have hpast : c.past = [(0, none), (1, some (.ok [⟨"n", .counter 3⟩]))] := by decide +kernel
  obtain ⟨-, -, hagrees, -⟩ :=
    file_lags .empty ⟨["metrics.json"], {}⟩ [.one x, .batch [y]] moves hfree
  exact ⟨hfree, hpast, by decide +kernel, hagrees [(0, none)] 1 _ hpast⟩

/-- **A change that the file does not have.** The only call is given up while the new version of the
file is to be written, or when it is to be moved over the file. No call has the turn, nothing was
returned and there is no file, but reads show the metric. -/
theorem file_left_behind :
    let x : Metric := ⟨"n", .counter 1⟩
    let m : PersistentTable := ⟨.empty, ⟨["metrics.json"], {}⟩, .immediate⟩
    ∀ moves ∈ [[Shared.Move.enter 0, .advance 0, .giveUp 0],
        [.enter 0, .advance 0, .advance 0, .giveUp 0]],
      let c := (m.serveImpatient [.one x]).run moves
      c.isFree ∧ c.past = [(0, none)] ∧ c.state.bytes = none ∧ c.state.getAll = [x] := by
  decide +kernel

end Telemetry.PersistentTable
