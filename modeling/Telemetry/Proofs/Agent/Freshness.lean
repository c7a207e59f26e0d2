import Telemetry.Proofs.Agent.Chronicle
import Telemetry.Proofs.Agent.Echoes

/-!
# The newest level

When everything has been delivered, a server has the newest level of a gauge if the requests that
have a level for it have reached the server in the order of their jobs. A single worker sees to
that, unless a request comes late. With several workers an older level may overtake a newer one,
and stay.

## Main definitions

* `Telemetry.Agent.Chronicle.InOrder` — the requests for a gauge have arrived in order

## Main results

* `Telemetry.Agent.Chronicle.Sound.level?` — a gauge stands at its newest level
* `Telemetry.Agent.Chronicle.newest_level_kept` — any course of events
* `Telemetry.Agent.Chronicle.newest_level_lost` — two workers, and one with a late request
-/

namespace Telemetry.Agent

/-- What one list has to do with another, each of its members has to do with a member of that. -/
theorem exists_of_forall₂ {α β : Type} {R : α → β → Prop} {as : List α} {bs : List β}
    (h : List.Forall₂ R as bs) {a : α} (ha : a ∈ as) : ∃ b ∈ bs, R a b := by
  induction h with
  | nil => cases ha
  | @cons x y as bs hxy _ ih =>
    rcases List.mem_cons.mp ha with rfl | ha
    · exact ⟨y, List.mem_cons_self, hxy⟩
    · obtain ⟨b, hb, hab⟩ := ih ha
      exact ⟨b, List.mem_cons_of_mem y hb, hab⟩

/-- What comes behind the last member and is the same does not change the last. -/
theorem getLast?_append_of_forall_eq {α : Type} {as bs : List α} {x : α}
    (has : as.getLast? = some x) (hbs : ∀ b ∈ bs, b = x) : (as ++ bs).getLast? = some x := by
  rw [List.getLast?_append]
  cases hlast : bs.getLast? with
  | none => exact has
  | some b => exact congrArg some (hbs b (List.mem_of_getLast? hlast))

namespace Chronicle

/-- Have the requests that have a level for a name reached the server in the order of the numbers
of their jobs? -/
def InOrder (c : Chronicle) (id : String) : Prop :=
  c.arrivals.Pairwise fun r r' =>
    r.job.levels id ≠ [] → r'.job.levels id ≠ [] → r.number ≤ r'.number

variable {mode : ReportMode} {limit : ℕ} {t : Courier} {past : List Metric} {l : Line}
  {c : Chronicle} {id : String} {x : Binary64}

theorem inOrder_of_sorted (h : Sorted c.arrivals) (id : String) : c.InOrder id :=
  h.imp fun hle _ _ => hle

/-- What a request has merged of the levels for a name. -/
theorem levels_of_merged {j : Job} {success late : Prop} {part : List Metric}
    (h : Http.Merged (t.request j.delivery).received.metrics? success late part)
    (ht : t.base.IsRoot) (hkeeps : j.delivery.Keeps id) :
    levels id part <+: j.levels id ∧ (success → levels id part = j.levels id) := by
  have hgives : ∀ ms, (t.request j.delivery).received.metrics? = some ms →
      levels id ms = j.levels id := fun ms hms =>
    (Http.Server.gives_of_metrics? ht hms).levels hkeeps
  constructor
  · have hfront := h.isPrefix
    cases hms : (t.request j.delivery).received.metrics? with
    | none =>
      rw [hms, Option.getD_none, List.prefix_nil] at hfront
      rw [hfront]
      exact List.nil_prefix
    | some ms =>
      rw [hms, Option.getD_some] at hfront
      rw [← hgives ms hms]
      exact hfront.filterMap _
  · exact fun hsuccess => hgives part (h.all hsuccess)

/-- A gauge stands at the level of a request that was accepted, if those that have arrived behind it
have no other. -/
theorem Served.level? {b : Store} {before after : List Arrival} {r : Arrival}
    (h : Served t past b (before ++ r :: after)) (ht : t.base.IsRoot)
    (hkeeps : ∀ r' ∈ r :: after, r'.job.delivery.Keeps id) (haccepted : r.accepted = true)
    (hr : r.job.levels id = [x]) (hafter : ∀ r' ∈ after, ∀ y ∈ r'.job.levels id, y = x) :
    b.level? id = some x := by
  obtain ⟨table, parts, hshows, hholds, hparts⟩ := h
  obtain ⟨hfirst, hbehind⟩ := List.forall_mem_cons.mp hkeeps
  obtain ⟨part, parts', hpart, hparts', hrest⟩ :=
    List.forall₂_cons_right_iff.mp (List.forall₂_drop_append _ _ _ hparts)
  obtain ⟨_, hmerged⟩ := hpart
  have hlevels : levels id part = [x] := ((levels_of_merged hmerged ht hfirst).2 haccepted).trans hr
  have hsame : ∀ y ∈ levels id parts'.flatten, y = x := by
    intro y hy
    obtain ⟨part', hpart', hmem⟩ := List.mem_flatten.mp (mem_levels_iff.mp hy)
    obtain ⟨r', hr', _, hmerged⟩ := exists_of_forall₂ hparts' hpart'
    have hfront := (levels_of_merged hmerged ht (hbehind r' hr')).1
    exact hafter r' hr' y (hfront.subset (mem_levels_iff.mpr hmem))
  rw [hshows.level?, hholds.level?, ← List.take_append_drop before.length parts, hrest,
    List.flatten_append, List.flatten_cons, ← List.append_assoc, ← List.append_assoc,
    levels_append, levels_append, hlevels]
  exact getLast?_append_of_forall_eq List.getLast?_concat hsame

theorem Sound.accepted_of_delivered (h : Sound mode limit t past l c) {n : ℕ}
    (hn : n ∈ c.delivered) : c.Accepted n := by
  obtain ⟨j, -, -, haccepted⟩ := exists_of_forall₂ h.delivered.flip hn
  exact haccepted

/-- A job has no more than one level for a name. -/
theorem Sound.length_levels (h : Sound mode limit t past l c) {j : Job}
    (hj : j ∈ c.jobs mode) (id : String) : (j.levels id).length ≤ 1 := by
  obtain ⟨report, hreport, hmem⟩ := List.mem_flatMap.mp hj
  exact (length_levels_of_mem_plan hmem id).trans (h.numbered.single report hreport id)

/-- The newest level is that of a job, behind which no job has one. -/
theorem Sound.exists_newest_job (h : Sound mode limit t past l c)
    (hx : Newest c.reports id x) :
    ∃ (n : ℕ) (j : Job), (c.jobs mode)[n]? = some j ∧ j.levels id = [x] ∧
      ∀ k > n, ∀ j' : Job, (c.jobs mode)[k]? = some j' → j'.levels id = [] := by
  have hmetrics : (c.jobs mode).flatMap (fun j => j.delivery.metrics)
      = c.reports.flatten := by
    simp only [reports, jobs, Numbering.jobs, List.flatMap_assoc, metrics_plan, List.flatMap_id']
  have hlast := hx.getLast? fun report hreport => h.numbered.single report hreport id
  rw [← hmetrics] at hlast
  obtain ⟨n, j, hn, hj, hbehind⟩ := exists_last_job hlast
  refine ⟨n, j, hn, ?_, hbehind⟩
  have hle := h.length_levels (List.mem_of_getElem? hn) id
  obtain ⟨y, hy⟩ := List.length_eq_one_iff.mp
    (Nat.le_antisymm hle (List.length_pos_of_mem (List.mem_of_getLast? hj)))
  rw [hy] at hj ⊢
  exact congrArg (fun z => [z]) (Option.some.inj hj)

/-- **A gauge stands at its newest level** when everything has been delivered, if the requests for
it have arrived in order. -/
theorem Sound.level? (h : Sound mode limit t past l c) (ht : t.base.IsRoot)
    (hdelivered : ∀ n < (c.jobs mode).length, n ∈ c.delivered)
    (hx : Newest c.reports id x)
    (hkeeps : ∀ j ∈ c.jobs mode, j.delivery.Keeps id) (horder : c.InOrder id) :
    l.server.store.level? id = some x := by
  obtain ⟨n, j, hn, hj, hbehind⟩ := h.exists_newest_job hx
  obtain ⟨r, hr, rfl, haccepted⟩ :=
    h.accepted_of_delivered (hdelivered n (List.getElem?_eq_some_iff.mp hn).1)
  obtain ⟨before, after, hsplit⟩ := List.append_of_mem hr
  have hjobs : ∀ r' ∈ c.arrivals, (c.jobs mode)[r'.number]? = some r'.job :=
    fun r' hr' => (h.arrivals r' hr').2
  obtain rfl : j = r.job := Option.some.inj (hn.symm.trans (hjobs r hr))
  have harrived : ∀ r' ∈ r :: after, r' ∈ c.arrivals := fun r' hr' => by
    rw [hsplit]
    exact List.mem_append_right before hr'
  have hafter : ∀ r' ∈ after, ∀ y ∈ r'.job.levels id, y = x := by
    intro r' hr' y hy
    have hjob' := hjobs r' (harrived r' (List.mem_cons_of_mem r hr'))
    -- the newest job cannot have come before, nor another behind it
    have hle : r.number ≤ r'.number := by
      rw [InOrder, hsplit] at horder
      have hr₀ : r.job.levels id ≠ [] := hj ▸ List.cons_ne_nil x []
      exact List.rel_of_pairwise_cons (List.pairwise_append.mp horder).2.1 hr' hr₀
        (List.ne_nil_of_mem hy)
    have hge : r'.number ≤ r.number := by
      by_contra hlt
      rw [hbehind r'.number (Nat.lt_of_not_le hlt) r'.job hjob'] at hy
      cases hy
    rw [Nat.le_antisymm hge hle, hn] at hjob'
    rw [← Option.some.inj hjob', hj] at hy
    exact List.mem_singleton.mp hy
  have hserved := h.served
  rw [hsplit] at hserved
  exact hserved.level? ht
    (fun r' hr' => hkeeps r'.job (List.mem_of_getElem? (hjobs r' (harrived r' hr')))) haccepted hj
    hafter

/-! ### Any course of events -/

/-- **The newest level of a gauge is kept.** If all jobs have been delivered, in any mode and by any
number of workers, to a server that starts with any store, and if the requests that have a level
for a name have arrived in the order of their jobs, then the server has the level of the last report
that has one for that name. With one worker all requests arrive in that order, but for those that
come when nobody waits for them any more. The delivered jobs are told by their numbers.

Nothing is said of names that an address does not keep, nor of levels that are not read as they
are written. -/
theorem newest_level_kept (mode : ReportMode) (limit : ℕ) {t : Courier} (ht : t.base.IsRoot)
    {s : Http.Server} (hs : s.store.Reliable) (events : List Event) :
    let start := Line.create mode limit s
    let l := start.run t events
    let c := Chronicle.run t start {} events
    List.Forall₂ (fun j n => (c.jobs mode)[n]? = some j) l.ledger.delivered c.delivered ∧
      ((∀ n < (c.jobs mode).length, n ∈ c.delivered) →
        ∀ id x, Newest c.reports id x → (∀ j ∈ c.jobs mode, j.delivery.Keeps id) → c.InOrder id →
          l.server.store.level? id = some x) ∧
      (limit ≤ 1 → (∀ e ∈ events, ∀ i o, e ≠ .arrive i o) → ∀ id, c.InOrder id) := by
  intro start l c
  obtain ⟨past, hstart⟩ := sound_create mode limit t hs
  have hsound : Sound mode limit t past l c := hstart.run ht events
  refine ⟨hsound.delivered.imp fun j n h => h.1.2, fun hdelivered id x hx hkeeps horder => ?_,
    fun hlimit hevents id => ?_⟩
  · exact hsound.level? ht hdelivered hx hkeeps horder
  · exact inOrder_of_sorted (hstart.sorted_run ht hlimit hevents List.Pairwise.nil) id

/-- A poll of one level, and a report of it. -/
def measured (id : String) (x : Binary64) : List Event :=
  [.step (.poll [⟨"fixed", .ok [⟨id, .gauge x⟩]⟩]), .step .report]

/-- A worker takes a job and sends its request. -/
def sends (w : ℕ) : List Event := [.step .enqueue, .step (.dequeue w), .send w]

/-- The server answers the request of a worker, which hears so. -/
def isAnswered (w : ℕ) : List Event := [.reach w { trace := "" }, .hear w]

/-- Two levels of a gauge. The response to the first is lost, and so is the request of the second,
so a single worker sends each of them again. -/
def sentAgain : List Event :=
  measured "a" ⟨0⟩ ++ sends 0 ++ [.reach 0 { trace := "" }, .giveUp 0, .send 0] ++ isAnswered 0 ++
    sends 0 ++ isAnswered 0 ++ measured "a" ⟨0x3FF0000000000000⟩ ++ sends 0 ++
    [.giveUp 0, .send 0] ++ isAnswered 0 ++ sends 0 ++ isAnswered 0

theorem newest_level_kept_retried :
    let start := Line.create .unary 1 { store := .memory .empty }
    let t := Line.plainCourier [1000]
    let c := Chronicle.run t start {} sentAgain
    (∀ n < (c.jobs .unary).length, n ∈ c.delivered) ∧ c.InOrder "a" ∧
      Newest c.reports "a" ⟨0x3FF0000000000000⟩ ∧
      (start.run t sentAgain).server.store.level? "a" = some ⟨0x3FF0000000000000⟩ := by
  have hroot : (Line.plainCourier [1000]).base.IsRoot := .inr rfl
  have hreliable : (Store.memory .empty).Reliable := trivial
  have hevents : ∀ e ∈ sentAgain, ∀ i o, e ≠ .arrive i o := by
    simp [sentAgain, measured, sends, isAnswered]
  have h := newest_level_kept .unary 1 hroot (s := { store := .memory .empty }) hreliable sentAgain
  have hc :
      let start := Line.create .unary 1 { store := .memory .empty }
      let c := Chronicle.run (Line.plainCourier [1000]) start {} sentAgain
      c.reports = [[⟨"a", .gauge ⟨0⟩⟩, ⟨"PollCount", .counter 1⟩],
        [⟨"a", .gauge ⟨0x3FF0000000000000⟩⟩, ⟨"PollCount", .counter 1⟩]] ∧
      c.delivered = [0, 1, 2, 3] := by decide +kernel
  dsimp only at h hc ⊢
  -- from here on nothing is to be computed from the events
  generalize Chronicle.run _ _ _ sentAgain = c at h hc ⊢
  obtain ⟨hreports, hdelivered⟩ := hc
  have hall : ∀ n < (c.jobs .unary).length, n ∈ c.delivered := by
    rw [c.jobs_eq, hreports, hdelivered]
    decide
  have hnewest : Newest c.reports "a" ⟨0x3FF0000000000000⟩ :=
    ⟨[_], _, [], hreports, List.mem_cons_self, nofun⟩
  have hkeeps : ∀ j ∈ c.jobs .unary, j.delivery.Keeps "a" := by
    have hkept : ∀ kept ∈ Url.kept? "a", kept = "a" := by decide
    rw [c.jobs_eq, hreports]
    simpa [plan, Delivery.Keeps] using hkept
  obtain ⟨-, hlevel, hinOrder⟩ := h
  have horder : c.InOrder "a" := hinOrder (Nat.le_refl 1) hevents "a"
  exact ⟨hall, horder, hnewest, hlevel hall "a" _ hnewest hkeeps horder⟩

/-- Two levels of a gauge. The request of the first is overtaken by all others. -/
def overtaken : List Event :=
  measured "a" ⟨0⟩ ++ sends 0 ++ sends 1 ++ isAnswered 1 ++ measured "a" ⟨0x3FF0000000000000⟩ ++
    sends 1 ++ isAnswered 1 ++ sends 1 ++ isAnswered 1 ++ isAnswered 0

/-- Two levels of a gauge. The first is sent twice, and one of the two requests comes late. -/
def tooLate : List Event :=
  measured "a" ⟨0⟩ ++ sends 0 ++ [.giveUp 0, .send 0] ++ isAnswered 0 ++ sends 0 ++ isAnswered 0 ++
    measured "a" ⟨0x3FF0000000000000⟩ ++ sends 0 ++ isAnswered 0 ++ sends 0 ++ isAnswered 0 ++
    [.arrive 0 { trace := "" }]

/-- One level of a gauge, by a single worker, with nothing lost. -/
def undisturbed (id : String) (x : Binary64) : List Event :=
  measured id x ++ sends 0 ++ isAnswered 0 ++ sends 0 ++ isAnswered 0

/-- What a run has come to that has delivered everything: the newest level of a gauge, and the one
that the server has. -/
def EndsWith (mode : ReportMode) (limit : ℕ) (delays : List ℕ) (events : List Event) (id : String)
    (newest : Binary64) (stored? : Option Binary64) : Prop :=
  let start := Line.create mode limit { store := .memory .empty }
  let t := Line.plainCourier delays
  let c := Chronicle.run t start {} events
  (∀ n < (c.jobs mode).length, n ∈ c.delivered) ∧
    Newest c.reports id newest ∧ (start.run t events).server.store.level? id = stored?

/-- The last report has the newest level. -/
theorem endsWith_of_last {mode : ReportMode} {limit : ℕ} {delays : List ℕ} {events : List Event}
    {id : String} {x : Binary64} {stored? : Option Binary64} (before : List (List Metric))
    (h : let start := Line.create mode limit { store := .memory .empty }
      let c := Chronicle.run (Line.plainCourier delays) start {} events
      c.reports = before ++ [[⟨id, .gauge x⟩, ⟨"PollCount", .counter 1⟩]] ∧
        (∀ n < (c.jobs mode).length, n ∈ c.delivered) ∧
        (start.run (Line.plainCourier delays) events).server.store.level? id = stored?) :
    EndsWith mode limit delays events id x stored? :=
  ⟨h.2.1, ⟨before, _, [], h.1, List.mem_cons_self, nofun⟩, h.2.2⟩

/-- **A server may end with an older level**: if one of two workers is overtaken by the other, and
if a request comes late. It may also end with none, if the address does not keep the name, or with
another, if the level is not read as it is written. -/
theorem newest_level_lost :
    let one : Binary64 := ⟨0x3FF0000000000000⟩
    EndsWith .unary 2 [] overtaken "a" one (some ⟨0⟩) ∧
      EndsWith .unary 1 [1000] tooLate "a" one (some ⟨0⟩) ∧
      EndsWith .unary 1 [] (undisturbed "a\tb" one) "a\tb" one none ∧
      EndsWith .perMetric 1 [] (undisturbed "a" ⟨0x410A0F8E7B06CAAC⟩) "a" ⟨0x410A0F8E7B06CAAC⟩
        (some ⟨0x410A0F8E7B06CAAB⟩) := by
  intro one
  let first : List Metric := [⟨"a", .gauge ⟨0⟩⟩, ⟨"PollCount", .counter 1⟩]
  refine ⟨endsWith_of_last [first] ?_, endsWith_of_last [first] ?_,
    endsWith_of_last [] ?_, endsWith_of_last [] ?_⟩
  · decide +kernel
  · decide +kernel
  · decide +kernel
  · decide +kernel

end Chronicle

end Telemetry.Agent
