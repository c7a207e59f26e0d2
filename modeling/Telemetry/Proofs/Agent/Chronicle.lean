import Telemetry.Proofs.Agent.Numbering

/-!
# The chronicle of a line

Beside a line there is a chronicle, of which the line takes no notice: which jobs have been taken,
which requests have reached the server, in the order in which they did, and which jobs have been
delivered. What the server stores is what the requests have merged, one after the other.

The queue hands the jobs out in order. But nothing is said about the order in which the workers'
requests reach the server, nor about how often they do, unless there is one worker and no request
that comes late.

## Main definitions

* `Telemetry.Agent.Chronicle`, `Telemetry.Agent.Chronicle.run` — what is written down of a line
* `Telemetry.Agent.Chronicle.Sound` — what holds of a line and its chronicle at any time

## Main results

* `Telemetry.Agent.Chronicle.Sound.hear` — a worker hears of its attempt
* `Telemetry.Agent.Chronicle.Sound.next`, `Telemetry.Agent.Chronicle.Sound.run` — one event, and any
* `Telemetry.Agent.Chronicle.Sound.sorted_run` — the requests of a single worker arrive in order
-/

namespace Telemetry.Agent

/-- A request that the server has answered: the number of its job, the job, and whether the answer
was one of success. -/
structure Arrival where
  number : ℕ
  job : Job
  accepted : Bool
  deriving DecidableEq

/-- What is written down of a line. -/
structure Chronicle where
  numbering : Numbering := {}
  /-- The jobs whose requests are adrift, with their numbers. -/
  adrift : List (ℕ × Job) := []
  arrivals : List Arrival := []
  /-- The numbers of the jobs that have been delivered. -/
  delivered : List ℕ := []

/-- Has a worker heard this answer, or is it about to? -/
def Attempts.Has (x : Attempts) (a : Answer) : Prop := some a ∈ x.heard ∨ x.current = .answered a

theorem Attempts.not_has_empty (a : Answer) : ¬ ({} : Attempts).Has a := by
  rintro (ha | ha)
  · cases ha
  · cases ha

namespace Chronicle

/-- The number of the job that a worker has taken. -/
def number (c : Chronicle) (w : ℕ) : ℕ := c.numbering.number w

/-- The reports that have been made. -/
def reports (c : Chronicle) : List (List Metric) := c.numbering.reports

/-- Their jobs, in the order of their numbers. -/
def jobs (c : Chronicle) (mode : ReportMode) : List Job := c.numbering.jobs mode

theorem jobs_eq (c : Chronicle) (mode : ReportMode) :
    c.jobs mode = c.reports.flatMap (plan mode) := rfl

/-- Has the server accepted the job of a number? -/
def Accepted (c : Chronicle) (n : ℕ) : Prop := ∃ r ∈ c.arrivals, r.number = n ∧ r.accepted = true

/-- The server answers the request of a job. -/
def serve (c : Chronicle) (t : Courier) (l : Line) (n : ℕ) (j : Job) (o : Http.Occasion) :
    Chronicle :=
  { c with arrivals := c.arrivals ++ [⟨n, j, (l.answer t j o).1.isSuccess⟩] }

/-- A delivery ends. -/
def finish (c : Chronicle) (w : ℕ) (delivered : Bool) : Chronicle :=
  { c with delivered := c.delivered ++ if delivered then [c.number w] else [] }

/-- A worker hears of its attempt, or that nothing came of it. -/
def hear (c : Chronicle) (t : Courier) (l : Line) (w : ℕ) (j : Job) (answer? : Option Answer) :
    Chronicle :=
  let heard := (l.attempts w).heard ++ [answer?]
  let e := t.replay j.delivery heard
  if e.state ≤ heard.length then c.finish w (Courier.accepted e) else c

/-- Writes down an event. -/
def note (t : Courier) (l : Line) (c : Chronicle) : Event → Chronicle
  | .step s => { c with numbering := c.numbering.step l.ledger.pipeline s }
  | .send _ => c
  | .reach w o =>
    match l.job? w, (l.attempts w).current with
    | some j, .sent => c.serve t l (c.number w) j o
    | _, _ => c
  | .hear w =>
    match l.job? w, (l.attempts w).current with
    | some j, .answered a => c.hear t l w j (some a)
    | _, _ => c
  | .giveUp w =>
    match l.job? w, (l.attempts w).current with
    | some j, .sent => { c with adrift := (c.number w, j) :: c.adrift }.hear t l w j none
    | some j, .answered _ => c.hear t l w j none
    | _, _ => c
  | .arrive i o =>
    match c.adrift[i]? with
    | some (n, j) => { c.serve t l n j o with adrift := c.adrift.eraseIdx i }
    | none => c

/-- Writes down a course of events. -/
def run (t : Courier) (l : Line) (c : Chronicle) : List Event → Chronicle
  | [] => c
  | e :: events => run t (l.next t e) (c.note t l e) events

/-! ### What a server has been told -/

/-- What the requests that have arrived have merged into the table of a store, which held the past
already. The answer to one that was not accepted may have come too late. -/
def Served (t : Courier) (past : List Metric) (b : Store) (arrivals : List Arrival) : Prop :=
  ∃ table parts, b.Shows table ∧ table.Holds (past ++ parts.flatten) ∧
    List.Forall₂ (fun part (r : Arrival) => ∃ late,
      Http.Merged (t.request r.job.delivery).received.metrics? (r.accepted = true) late part)
      parts arrivals

variable {mode : ReportMode} {limit : ℕ} {t : Courier} {past : List Metric} {l : Line}
  {c : Chronicle} {w n : ℕ} {j : Job}

theorem Served.answer (h : Served t past l.server.store c.arrivals) (ht : t.base.IsRoot) (n : ℕ)
    (j : Job) (o : Http.Occasion) :
    Served t past (l.answer t j o).2.server.store (c.serve t l n j o).arrivals := by
  obtain ⟨table, parts, hshows, hholds, hparts⟩ := h
  obtain ⟨-, part, rs, u, hmerges, hu, hmerged⟩ :=
    Http.Server.respond_merges hshows ht o j.delivery
  replace hmerged : Http.Merged _ (Http.Succeeds (l.answer t j o).1.status) _ part := hmerged
  rw [← propext (Http.isSuccess_iff _)] at hmerged
  refine ⟨u, parts ++ [part], hu, ?_, List.rel_append hparts (.cons ⟨_, hmerged⟩ .nil)⟩
  rw [List.flatten_append, List.flatten_singleton, ← List.append_assoc]
  exact hholds.merges hmerges

/-! ### What holds at any time -/

/-- What holds of a line and its chronicle: the jobs are numbered, a worker without a job has heard
nothing, and what a worker has heard of as accepted, the server has accepted. -/
structure Sound (mode : ReportMode) (limit : ℕ) (t : Courier) (past : List Metric) (l : Line)
    (c : Chronicle) : Prop where
  numbered : l.ledger.pipeline.Numbered mode limit c.numbering
  idle : ∀ w, l.job? w = none → l.attempts w = {}
  heard : ∀ w a, (l.attempts w).Has a → a.isSuccess = true → c.Accepted (c.number w)
  adrift : l.adrift = c.adrift.map Prod.snd
  adrift_took : ∀ r ∈ c.adrift, c.numbering.Took mode r.1 r.2
  arrivals : ∀ r ∈ c.arrivals, c.numbering.Took mode r.number r.job
  delivered : List.Forall₂ (fun j n => c.numbering.Took mode n j ∧ c.Accepted n)
    l.ledger.delivered c.delivered
  served : Served t past l.server.store c.arrivals

theorem Accepted.serve (h : c.Accepted n) (t : Courier) (l : Line) (n' : ℕ) (j : Job)
    (o : Http.Occasion) : (c.serve t l n' j o).Accepted n := by
  obtain ⟨r, hr, hn⟩ := h
  exact ⟨r, List.mem_append_left _ hr, hn⟩

/-- A worker is somewhere else with its attempts. -/
theorem Sound.update (h : Sound mode limit t past l c) (hj : l.job? w = some j) {x : Attempts}
    (hx : ∀ a, x.Has a → a.isSuccess = true → c.Accepted (c.number w)) :
    Sound mode limit t past { l with attempts := Function.update l.attempts w x } c where
  numbered := h.numbered
  idle :=
    (Function.forall_update_iff l.attempts fun u y => l.job? u = none → y = {}).mpr
      ⟨fun hnone => absurd (hj.symm.trans hnone) (Option.some_ne_none j), fun u _ => h.idle u⟩
  heard :=
    (Function.forall_update_iff l.attempts fun u y =>
      ∀ a, y.Has a → a.isSuccess = true → c.Accepted (c.number u)).mpr ⟨hx, fun u _ => h.heard u⟩
  adrift := h.adrift
  adrift_took := h.adrift_took
  arrivals := h.arrivals
  delivered := h.delivered
  served := h.served

/-- The server answers the request of a job that was taken. -/
theorem Sound.serve (h : Sound mode limit t past l c) (ht : t.base.IsRoot)
    (hj : c.numbering.Took mode n j) (o : Http.Occasion) :
    Sound mode limit t past (l.answer t j o).2 (c.serve t l n j o) ∧
      ((l.answer t j o).1.isSuccess = true → (c.serve t l n j o).Accepted n) := by
  refine ⟨⟨h.numbered, h.idle, fun w a ha hsuccess => ?_, h.adrift, h.adrift_took,
    fun r hr => ?_, ?_, h.served.answer ht n j o⟩, fun hsuccess => ?_⟩
  · exact (h.heard w a ha hsuccess).serve t l n j o
  · rcases List.mem_append.mp hr with hr | hr
    · exact h.arrivals r hr
    · rw [List.mem_singleton.mp hr]
      exact hj
  · exact h.delivered.imp fun k i hk => ⟨hk.1, hk.2.serve t l n j o⟩
  · exact ⟨_, List.mem_append_right _ (List.mem_singleton_self _), rfl, hsuccess⟩

/-- A delivery ends. Only what the server has accepted is delivered. -/
theorem Sound.finish (h : Sound mode limit t past l c) (hj : l.job? w = some j) {delivered : Bool}
    (haccepted : delivered = true → c.Accepted (c.number w)) :
    Sound mode limit t past
      { l with
        ledger := l.ledger.next (.finish w delivered)
        attempts := Function.update l.attempts w {} } (c.finish w delivered) := by
  obtain ⟨hdelivered, hworkers⟩ := l.ledger.next_finish hj delivered
  have hnumbered := Ledger.numbered_next h.numbered (.finish w delivered)
  rw [Numbering.step_finish] at hnumbered
  refine ⟨hnumbered, ?_, ?_, h.adrift, h.adrift_took, h.arrivals, ?_, h.served⟩
  · refine (Function.forall_update_iff l.attempts fun u y =>
      (l.ledger.next (.finish w delivered)).pipeline.job? u = none → y = {}).mpr
      ⟨fun _ => rfl, fun u hu hnone => h.idle u ?_⟩
    rwa [Pipeline.job?, hworkers, List.getElem?_set_ne (Ne.symm hu)] at hnone
  · exact (Function.forall_update_iff l.attempts fun u y =>
      ∀ a, y.Has a → a.isSuccess = true → c.Accepted (c.number u)).mpr
      ⟨fun a ha => absurd ha (Attempts.not_has_empty a), fun u _ => h.heard u⟩
  · show List.Forall₂ _ (l.ledger.next (.finish w delivered)).delivered _
    rw [hdelivered]
    refine List.rel_append h.delivered ?_
    cases delivered with
    | false => exact .nil
    | true => exact .cons ⟨h.numbered.workers w j hj, haccepted rfl⟩ .nil

/-- **A worker hears of its attempt.** It takes its job for delivered only if the server has
accepted it. -/
theorem Sound.hear (h : Sound mode limit t past l c) (hj : l.job? w = some j)
    {answer? : Option Answer}
    (hanswer : ∀ a, answer? = some a → a.isSuccess = true → c.Accepted (c.number w)) :
    Sound mode limit t past (l.hear t w j answer?) (c.hear t l w j answer?) := by
  have hheard : ∀ a, some a ∈ (l.attempts w).heard ++ [answer?] → a.isSuccess = true →
      c.Accepted (c.number w) := by
    intro a ha hsuccess
    rcases List.mem_append.mp ha with ha | ha
    · exact h.heard w a (.inl ha) hsuccess
    · exact hanswer a (List.mem_singleton.mp ha).symm hsuccess
  simp only [Line.hear, Chronicle.hear]
  split_ifs with hended
  · refine h.finish hj fun haccepted => ?_
    obtain ⟨a, ha, hsuccess⟩ := Courier.exists_of_accepted_replay haccepted
    exact hheard a ha hsuccess
  · refine h.update hj fun a ha hsuccess => ?_
    rcases ha with ha | ha
    · exact hheard a ha hsuccess
    · cases ha

/-- An answer that nobody hears of. -/
theorem Sound.echo (h : Sound mode limit t past l c) (j : Job) (a : Answer) :
    Sound mode limit t past (l.echo j a) c := by
  rw [Line.echo]
  split
  · exact ⟨h.numbered, h.idle, h.heard, h.adrift, h.adrift_took, h.arrivals, h.delivered, h.served⟩
  · exact h

/-- A step of the pipeline. -/
theorem Sound.step (h : Sound mode limit t past l c) (s : Step) :
    Sound mode limit t past (l.next t (.step s)) (c.note t l (.step s)) := by
  by_cases hfinish : ∃ w delivered, s = .finish w delivered
  · obtain ⟨w, delivered, rfl⟩ := hfinish
    rw [note, Numbering.step_finish]
    exact h
  have hnot : ∀ w delivered, s ≠ .finish w delivered := fun w delivered hs =>
    hfinish ⟨w, delivered, hs⟩
  obtain ⟨hdelivered, -, hjobs⟩ := Ledger.next_of_ne_finish (l := l.ledger) hnot
  rw [Line.next_step hnot]
  refine ⟨Ledger.numbered_next h.numbered s, fun w hw => ?_, fun w a ha hsuccess => ?_, h.adrift,
    fun r hr => (h.adrift_took r hr).step _ s, fun r hr => (h.arrivals r hr).step _ s, ?_, h.served⟩
  · rcases hjobs w with hsame | hnone
    · exact h.idle w (hsame.symm.trans hw)
    · exact h.idle w hnone
  · cases hj : l.job? w with
    | none =>
      rw [show ({ l with ledger := _ } : Line).attempts w = {} from h.idle w hj] at ha
      exact absurd ha (Attempts.not_has_empty a)
    | some j =>
      have hnumber : (c.note t l (.step s)).number w = c.number w :=
        Numbering.number_step_of_job? hj s
      rw [hnumber]
      exact h.heard w a ha hsuccess
  · show List.Forall₂ _ (l.ledger.next s).delivered c.delivered
    rw [hdelivered]
    exact h.delivered.imp fun k i hk => ⟨hk.1.step _ s, hk.2⟩

/-- A worker sends its request. -/
theorem Sound.send (h : Sound mode limit t past l c) (w : ℕ) :
    Sound mode limit t past (l.next t (.send w)) c := by
  simp only [Line.next]
  split
  · rename_i j hj _
    refine h.update hj fun a ha hsuccess => ?_
    rcases ha with ha | ha
    · exact h.heard w a (.inl ha) hsuccess
    · cases ha
  · exact h

/-- The server answers the request that a worker has sent. -/
theorem Sound.reach (h : Sound mode limit t past l c) (ht : t.base.IsRoot) (w : ℕ)
    (o : Http.Occasion) :
    Sound mode limit t past (l.next t (.reach w o)) (c.note t l (.reach w o)) := by
  cases hj : l.job? w with
  | none =>
    simp only [Line.next, note, hj]
    exact h
  | some j =>
    cases hcurrent : (l.attempts w).current with
    | sent =>
      simp only [Line.next, note, hj, hcurrent]
      obtain ⟨hserve, haccepted⟩ := h.serve ht (h.numbered.workers w j hj) o
      refine hserve.update hj fun a ha hsuccess => ?_
      rcases ha with ha | ha
      · exact (h.heard w a (.inl ha) hsuccess).serve t l _ j o
      · cases ha
        exact haccepted hsuccess
    | _ =>
      simp only [Line.next, note, hj, hcurrent]
      exact h

/-- A worker hears a response. -/
theorem Sound.hears (h : Sound mode limit t past l c) (w : ℕ) :
    Sound mode limit t past (l.next t (.hear w)) (c.note t l (.hear w)) := by
  cases hj : l.job? w with
  | none =>
    simp only [Line.next, note, hj]
    exact h
  | some j =>
    cases hcurrent : (l.attempts w).current with
    | answered a =>
      simp only [Line.next, note, hj, hcurrent]
      refine h.hear hj fun a' ha' hsuccess => h.heard w a' (.inr ?_) hsuccess
      rw [hcurrent, Option.some.inj ha']
    | _ =>
      simp only [Line.next, note, hj, hcurrent]
      exact h

/-- A worker gives up an attempt. -/
theorem Sound.giveUp (h : Sound mode limit t past l c) (w : ℕ) :
    Sound mode limit t past (l.next t (.giveUp w)) (c.note t l (.giveUp w)) := by
  cases hj : l.job? w with
  | none =>
    simp only [Line.next, note, hj]
    exact h
  | some j =>
    cases hcurrent : (l.attempts w).current with
    | unsent =>
      simp only [Line.next, note, hj, hcurrent]
      exact h
    | sent =>
      simp only [Line.next, note, hj, hcurrent]
      have hadrift : Sound mode limit t past { l with adrift := j :: l.adrift }
          { c with adrift := (c.number w, j) :: c.adrift } :=
        ⟨h.numbered, h.idle, h.heard, congrArg (j :: ·) h.adrift,
          List.forall_mem_cons.mpr ⟨h.numbered.workers w j hj, h.adrift_took⟩, h.arrivals,
          h.delivered, h.served⟩
      exact hadrift.hear hj nofun
    | answered a =>
      simp only [Line.next, note, hj, hcurrent]
      obtain ⟨hledger, hattempts⟩ := l.echo_frame j a
      have hj' : (l.echo j a).job? w = some j := by rw [Line.job?, hledger, ← hj, Line.job?]
      have hsame : c.hear t l w j none = c.hear t (l.echo j a) w j none := by
        rw [Chronicle.hear, Chronicle.hear, hattempts]
      rw [hsame]
      exact (h.echo j a).hear hj' nofun

/-- The server answers a request for which nobody waits any more. -/
theorem Sound.arrive (h : Sound mode limit t past l c) (ht : t.base.IsRoot) (i : ℕ)
    (o : Http.Occasion) :
    Sound mode limit t past (l.next t (.arrive i o)) (c.note t l (.arrive i o)) := by
  have hadrift : l.adrift[i]? = c.adrift[i]?.map Prod.snd := by
    rw [h.adrift, List.getElem?_map]
  cases hi : c.adrift[i]? with
  | none =>
    rw [hi] at hadrift
    simp only [Line.next, note, hadrift, hi, Option.map_none]
    exact h
  | some r =>
    obtain ⟨n, j⟩ := r
    rw [hi] at hadrift
    simp only [Line.next, note, hadrift, hi, Option.map_some]
    obtain ⟨hserve, -⟩ := h.serve ht (h.adrift_took (n, j) (List.mem_of_getElem? hi)) o
    refine Sound.echo ?_ j _
    refine ⟨hserve.numbered, hserve.idle, hserve.heard, ?_,
      fun r hr => h.adrift_took r (List.mem_of_mem_eraseIdx hr), hserve.arrivals,
      hserve.delivered, hserve.served⟩
    show l.adrift.eraseIdx i = (c.adrift.eraseIdx i).map Prod.snd
    rw [h.adrift, List.eraseIdx_map]

/-- **One event** keeps the chronicle. -/
theorem Sound.next (h : Sound mode limit t past l c) (ht : t.base.IsRoot) (e : Event) :
    Sound mode limit t past (l.next t e) (c.note t l e) := by
  cases e with
  | step s => exact h.step s
  | send w => exact h.send w
  | reach w o => exact h.reach ht w o
  | hear w => exact h.hears w
  | giveUp w => exact h.giveUp w
  | arrive i o => exact h.arrive ht i o

theorem sound_create (mode : ReportMode) (limit : ℕ) (t : Courier) {s : Http.Server}
    (hs : s.store.Reliable) : ∃ past, Sound mode limit t past (.create mode limit s) {} := by
  obtain ⟨table, hshows⟩ := Store.reliable_iff.mp hs
  refine ⟨table.entries, Pipeline.numbered_create mode limit, fun w _ => rfl,
    fun w a ha => absurd ha (Attempts.not_has_empty a), rfl, List.forall_mem_nil _,
    List.forall_mem_nil _, .nil, table, [], hshows, ?_, .nil⟩
  rw [List.flatten_nil, List.append_nil]
  exact table.holds_entries

/-- So do any events. -/
theorem Sound.run (h : Sound mode limit t past l c) (ht : t.base.IsRoot) (events : List Event) :
    Sound mode limit t past (l.run t events) (c.run t l events) := by
  induction events generalizing l c with
  | nil => exact h
  | cons e events ih => exact ih (h.next ht e)

/-! ### A single worker -/

/-- Have the requests reached the server in the order of the numbers of their jobs? A request may
be sent again. -/
def Sorted (arrivals : List Arrival) : Prop := arrivals.Pairwise fun r r' => r.number ≤ r'.number

/-- A single worker sends requests of the last job that was taken. -/
theorem Sound.sorted_note (h : Sound mode limit t past l c) (hlimit : limit ≤ 1) {e : Event}
    (he : ∀ i o, e ≠ .arrive i o) (hsorted : Sorted c.arrivals) :
    Sorted (c.note t l e).arrivals := by
  have hhear : ∀ (c : Chronicle) w j answer?, (c.hear t l w j answer?).arrivals = c.arrivals := by
    intro c w j answer?
    simp only [Chronicle.hear, Chronicle.finish]
    split_ifs <;> rfl
  cases e with
  | step s => exact hsorted
  | send w => exact hsorted
  | reach w o =>
    simp only [note]
    split
    · rename_i j hj hsent
      refine List.pairwise_append.mpr ⟨hsorted, List.pairwise_singleton .., fun r hr r' hr' => ?_⟩
      obtain ⟨hlt, -⟩ := h.arrivals r hr
      have hlast := h.numbered.lone hlimit w j hj
      rw [List.mem_singleton.mp hr']
      show r.number ≤ c.numbering.number w
      omega
    · exact hsorted
  | hear w =>
    simp only [note]
    split
    · rwa [hhear]
    · exact hsorted
  | giveUp w =>
    simp only [note]
    split
    · rwa [hhear]
    · rwa [hhear]
    · exact hsorted
  | arrive i o => exact absurd rfl (he i o)

/-- **The requests of a single worker arrive in order**, if none of them comes late. -/
theorem Sound.sorted_run (h : Sound mode limit t past l c) (ht : t.base.IsRoot)
    (hlimit : limit ≤ 1) {events : List Event} (he : ∀ e ∈ events, ∀ i o, e ≠ .arrive i o)
    (hsorted : Sorted c.arrivals) : Sorted (c.run t l events).arrivals := by
  induction events generalizing l c with
  | nil => exact hsorted
  | cons e events ih =>
    obtain ⟨hfirst, hrest⟩ := List.forall_mem_cons.mp he
    exact ih (h.next ht e) hrest (h.sorted_note hlimit hfirst hsorted)

end Chronicle

end Telemetry.Agent
