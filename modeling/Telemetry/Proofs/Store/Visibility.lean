import Telemetry.Proofs.Store.Steps

/-!
# What reads show while others write

Calls that save at once take turns, but a read waits for nobody. While no call has the turn, a read
shows what the calls that returned have merged, in the order of their turns. While a call has the
turn, a read may show what that call has changed already. If the file cannot be written then, the
change is taken back, and the read has shown something that was never committed.

## Main definitions

* `Telemetry.PersistentTable.serve` — calls that save at once, and take turns
* `Telemetry.PersistentTable.returned`, `Telemetry.PersistentTable.records` — the metrics of the
  calls that returned, and what they returned
* `Telemetry.PersistentTable.Shows` — what reads show

## Main results

* `Telemetry.PersistentTable.reads_current` — all that a read can show
* `Telemetry.PersistentTable.reads_uncommitted` — a read of a metric that is taken back
-/

namespace Telemetry.PersistentTable

/-- Calls that save at once. Each comes to its turn when it may. -/
def serve (m : PersistentTable) (calls : List Saving) :
    Shared PersistentTable (Except StoreError (List Metric)) :=
  .create m (calls.map fun call => writing call.change)

/-- The metrics of the calls that returned. -/
def returned (calls : List Saving) (past : Past) : List Metric :=
  past.flatMap fun
    | (i, some (.ok _)) => calls[i]?.elim [] Saving.metrics
    | _ => []

/-- The records that they returned. -/
def records (past : Past) : List Metric :=
  past.flatMap fun
    | (_, some (.ok rs)) => rs
    | _ => []

/-- Reads show one table, whether they ask for all metrics or for one key. -/
def Shows (m : PersistentTable) (t : Table) : Prop :=
  m.getAll = t.entries ∧ ∀ k, m.get? k = t.get? k

theorem shows_of_table_eq {m : PersistentTable} {t : Table} (h : m.table = t) : m.Shows t :=
  ⟨by rw [getAll, h], fun k => by rw [get?, h]⟩

variable {calls : List Saving} {past : Past} {i : ℕ}

theorem returned_concat (calls : List Saving) (past : Past)
    (x : ℕ × Option (Except StoreError (List Metric))) :
    returned calls (past ++ [x]) = returned calls past ++ returned calls [x] :=
  List.flatMap_append ..

theorem records_concat (past : Past) (x : ℕ × Option (Except StoreError (List Metric))) :
    records (past ++ [x]) = records past ++ records [x] :=
  List.flatMap_append ..

/-- What a call leaves behind is what the calls up to it have merged. -/
theorem merges_of_settled {t : Table} {call : Saving} {m n : PersistentTable}
    {r : Except StoreError (List Metric)}
    (hpast : t.Merges (returned calls past) (records past) m.table) (hi : calls[i]? = some call)
    (h : Settled call.change m r n) :
    t.Merges (returned calls (past ++ [(i, some r)])) (records (past ++ [(i, some r)]))
      n.table := by
  rw [returned_concat, records_concat]
  rcases h with ⟨rs, rfl, hchange, -⟩ | ⟨e, rfl, htable, -⟩
  · have hmetrics : returned calls [(i, some (.ok rs))] = call.metrics := by
      simp [returned, hi]
    have hrecords : records [(i, some (.ok rs))] = rs := by simp [records]
    rw [hmetrics, hrecords]
    exact hpast.append (Saving.change_eq_ok_iff.mp hchange)
  · rw [htable]
    exact (List.append_nil _).symm ▸ (List.append_nil _).symm ▸ hpast

/-- **All that a read can show.** Whatever table there is in the beginning, whatever happens to the
disk and however the steps of calls follow one another, there is one table that the calls which
have returned so far have merged, in the order of their turns, and that answered them. A read shows
this table while no call has the turn. While a call has it, a read shows this table, or what the
call has made of it. -/
theorem reads_current (table : Table) (file : SnapshotFile) (calls : List Saving)
    {moves : List Shared.Move} (hmoves : ∀ i, .giveUp i ∉ moves) :
    let m : PersistentTable := ⟨table, file, .immediate⟩
    let c := (m.serve calls).run moves
    (∀ i rs, c.tasks[i]? = some (.finished (.ok rs)) → (i, some (.ok rs)) ∈ c.past) ∧
      ∃ t, table.Merges (returned calls c.past) (records c.past) t ∧
        (c.isFree → c.state.Shows t) ∧
        ∀ i, c.HasTurn i →
          ∃ call, calls[i]? = some call ∧
            (c.state.Shows t ∨ c.state.Shows (call.change t).2) := by
  intro m c
  let idle : Past → PersistentTable → Prop := fun past n =>
    table.Merges (returned calls past) (records past) n.table
  let mid : Past → ℕ → PersistentTable → Prop := fun past i n =>
    ∃ t call, table.Merges (returned calls past) (records past) t ∧ calls[i]? = some call ∧
      (n.table = t ∨ n.table = (call.change t).2)
  have hkept : c.Kept (calls.map fun call => writing call.change) idle mid := by
    refine Shared.run_keeps (.nil table) (fun {past i p n} hp _ hidle => ?_)
      fun hmem => absurd hmem (hmoves _)
    obtain ⟨call, hcall, rfl⟩ : ∃ call, calls[i]? = some call ∧ writing call.change = p := by
      simpa using hp
    refine (writing_keeps call.change n).imp (fun n' hn' => ?_) fun r n' hn' => ?_
    · exact ⟨n.table, call, hidle, hcall, hn'⟩
    · exact merges_of_settled hidle hcall hn'
  refine ⟨fun i rs hi => hkept.orderly.mem_past hi, ?_⟩
  by_cases hfree : c.isFree
  · refine ⟨c.state.table, hkept.free hfree, fun _ => shows_of_table_eq rfl, fun i hi => ?_⟩
    exact absurd hi (Shared.isFree_iff.mp hfree i)
  · obtain ⟨i, hi⟩ : ∃ i, c.HasTurn i := by
      simpa [Shared.isFree_iff] using hfree
    obtain ⟨t, call, hpast, hcall, htable⟩ := hkept.hasTurn hi
    refine ⟨t, hpast, fun h => absurd h hfree, fun j hj => ?_⟩
    obtain rfl := hkept.orderly.exclusive hi hj
    exact ⟨call, hcall, htable.imp shows_of_table_eq shows_of_table_eq⟩

/-- The first call has returned, the second one has changed the table and not yet written it. -/
theorem reads_current_amid :
    let x : Metric := ⟨"n", .counter 1⟩
    let y : Metric := ⟨"n", .counter 2⟩
    let moves : List Shared.Move :=
      [.enter 0, .advance 0, .enter 1, .advance 0, .advance 0, .advance 0, .enter 1, .advance 1]
    let m : PersistentTable := ⟨.empty, ⟨["metrics.json"], {}⟩, .immediate⟩
    let c := (m.serve [.one x, .batch [y]]).run moves
    (∀ i, .giveUp i ∉ moves) ∧ c.HasTurn 1 ∧ c.state.getAll = [⟨"n", .counter 3⟩] ∧
      ∃ t, Table.Merges .empty [x] [x] t ∧
        (c.state.Shows t ∨ c.state.Shows ((Saving.batch [y]).change t).2) := by
  intro x y moves m c
  have hmoves : ∀ i, .giveUp i ∉ moves := fun i => by simp [moves]
  have hturn : c.HasTurn 1 := by decide +kernel
  have hpast : c.past = [(0, some (.ok [x]))] := by decide +kernel
  obtain ⟨-, t, hmerges, -, hactive⟩ :=
    reads_current .empty ⟨["metrics.json"], {}⟩ [.one x, .batch [y]] hmoves
  change Table.Merges .empty (returned _ c.past) (records c.past) t at hmerges
  rw [hpast] at hmerges
  obtain ⟨call, hcall, hshows⟩ := hactive 1 hturn
  cases Option.some.inj hcall
  exact ⟨hmoves, hturn, by decide +kernel, t, hmerges, hshows⟩

/-- **A read of what is never committed.** The disk refuses the new version of the file. In between,
reads show a metric that the call, which fails, takes back. -/
theorem reads_uncommitted :
    let x : Metric := ⟨"n", .counter 1⟩
    let m : PersistentTable := ⟨.empty, ⟨["metrics.json"], ⟨[], [some .refused]⟩⟩, .immediate⟩
    let between := (m.serve [.one x]).run [.enter 0, .advance 0]
    let after := between.run [.advance 0, .advance 0, .advance 0]
    between.state.getAll = [x] ∧ between.state.get? x.key = some x ∧
      after.past = [(0, some (.error (.disk .refused)))] ∧ after.state.getAll = [] := by
  decide +kernel

end Telemetry.PersistentTable
