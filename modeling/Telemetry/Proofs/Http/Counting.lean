import Telemetry.Proofs.Http.Merging
import Telemetry.Proofs.Store.Counting

/-!
# What a delivery adds to counters

A delivery tells a server of metrics. If the server answers with success it has added their deltas
to its counters, once. If it answers with anything else it may have merged some of the metrics
before the one that was refused, but not the last of them; only an answer that comes too late may
have added all the deltas as well. None of this depends on the keys of the two, on the length of the
document or on what becomes of levels that are written and read.

## Main definitions

* `Telemetry.Metric.SameDeltas` — two metrics that give all counters the same
* `Telemetry.Agent.Delivery.told` — the metrics that a server is told of
* `Telemetry.Http.Adds` — what an answer to some metrics leaves in the counters

## Main results

* `Telemetry.Agent.Delivery.Gives.sameDeltas` — what a delivery gives the counters
* `Telemetry.Http.Server.respond_delivery` — what the request of a delivery adds
-/

namespace Telemetry

open Agent (Courier Delivery)

/-- The metrics that a delivery tells a server of. A path names what the address keeps of the name
of its metric. -/
def Agent.Delivery.told : Delivery → List Metric
  | .document m => [m]
  | .batch ms => ms
  | .path m => ((Url.kept? m.id).map fun kept => ⟨kept, m.value⟩).toList

/-! ### What a delivery gives the counters -/

namespace Metric

/-- The other metric gives every counter what the one gives it. -/
def SameDeltas (m m' : Metric) : Prop := ∀ id, deltas id [m'] = deltas id [m]

theorem deltas_of_sameDeltas {ms ms' : List Metric} (h : List.Forall₂ SameDeltas ms ms')
    (id : String) : deltas id ms' = deltas id ms := by
  induction h with
  | nil => rfl
  | @cons m m' ms ms' hm _ ih =>
    rw [← List.singleton_append, deltas_append, hm id, ih, ← deltas_append, List.singleton_append]

/-- Only levels can be changed by being written and read. -/
theorem ReadsAs.sameDeltas {m m' : Metric} (h : m.ReadsAs m') : m.SameDeltas m' := by
  obtain ⟨name, x | n⟩ := m
  · obtain ⟨name', v⟩ := m'
    obtain ⟨-, -, y, -, -, rfl⟩ := h
    exact fun id => rfl
  · obtain ⟨name', v⟩ := m'
    obtain ⟨-, rfl, rfl⟩ := h
    exact fun id => rfl

end Metric

/-- **What a delivery gives the counters** is what the server is told of. -/
theorem Agent.Delivery.Gives.sameDeltas {d : Delivery} {ms : List Metric} (h : d.Gives ms) :
    List.Forall₂ Metric.SameDeltas d.told ms := by
  cases h with
  | document h => exact .cons h.sameDeltas .nil
  | batch h => exact h.imp fun _ _ => Metric.ReadsAs.sameDeltas
  | path h =>
    rw [told, h]
    exact .cons (fun id => rfl) .nil

namespace Http

/-! ### What an answer leaves -/

/-- An answer adds the deltas of metrics to the counters if it is one of success, and otherwise
adds nothing to a counter that only the last of the metrics counts, unless it comes too late. -/
structure Adds (b : Store) (ms : List Metric) (a : Answer) : Prop where
  reliable : a.2.Reliable
  success : Succeeds a.status → ∀ id, a.2.count id = b.count id + (deltas id ms).sum
  failure : ¬ Succeeds a.status → ∀ id, deltas id ms.dropLast = [] →
    a.2.count id = b.count id ∨
      a.status = 408 ∧ a.2.count id = b.count id + (deltas id ms).sum

variable {b : Store} {ms : List Metric}

/-- Metrics from the front, without the last, give a counter nothing that only the last counts. -/
theorem deltas_of_front {part : List Metric} {given? : Option (List Metric)} {id : String}
    (hsame : ∀ ms', given? = some ms' → List.Forall₂ Metric.SameDeltas ms ms')
    (hid : deltas id ms.dropLast = []) (hfront : part <+: (given?.getD []).dropLast) :
    deltas id part = [] := by
  obtain ⟨after, hfront⟩ := hfront
  cases hgiven : given? with
  | none =>
    rw [hgiven] at hfront
    rw [(List.append_eq_nil_iff.mp hfront).1]
    rfl
  | some ms' =>
    have hbefore : List.Forall₂ Metric.SameDeltas ms.dropLast ms'.dropLast := by
      rw [List.dropLast_eq_take, List.dropLast_eq_take, (hsame ms' hgiven).length_eq]
      exact List.forall₂_take _ (hsame ms' hgiven)
    have hrefused : deltas id ms'.dropLast = [] :=
      (Metric.deltas_of_sameDeltas hbefore id).trans hid
    rw [hgiven, Option.getD_some] at hfront
    rw [← hfront, deltas_append] at hrefused
    exact (List.append_eq_nil_iff.mp hrefused).1

/-- **What is merged is added**, if the metrics that were given give all counters the same. -/
theorem Merged.adds {t u : Table} {part rs : List Metric} {given? : Option (List Metric)}
    {a : Answer} (h : Merged given? (Succeeds a.status) (a.status = 408) part) (hb : b.Shows t)
    (hmerges : t.Merges part rs u) (hu : a.2.Shows u)
    (hsame : ∀ ms', given? = some ms' → List.Forall₂ Metric.SameDeltas ms ms') : Adds b ms a := by
  have hcount : ∀ id, a.2.count id = b.count id + (deltas id part).sum := fun id => by
    rw [hu.count, hb.count, hmerges.count id]
  have hall : given? = some part → ∀ id, a.2.count id = b.count id + (deltas id ms).sum :=
    fun hgiven id => by rw [hcount, Metric.deltas_of_sameDeltas (hsame part hgiven)]
  refine ⟨Store.reliable_iff.mpr ⟨u, hu⟩, fun hsuccess => hall (h.all hsuccess),
    fun hfailed id hid => ?_⟩
  rcases h.front hfailed with hfront | ⟨hlate, hgiven⟩
  · left
    rw [hcount, deltas_of_front hsame hid hfront, List.sum_nil, add_zero]
  · exact .inr ⟨hlate, hall hgiven id⟩

namespace Server

variable {s : Server} {t : Courier}

/-- **What the request of a delivery adds** to the counters of a server that can rely on its store:
all that the server is told of if the response is one of success, and otherwise nothing, but for
metrics before the last and for a response that comes too late. -/
theorem respond_delivery (hs : s.store.Reliable) (ht : t.base.IsRoot) (o : Occasion)
    (d : Delivery) :
    let reply := s.respond o (t.request d).received
    reply.server = { s with store := reply.server.store } ∧
      Adds s.store d.told (some reply.response, reply.server.store) := by
  intro reply
  obtain ⟨table, htable⟩ := Store.reliable_iff.mp hs
  obtain ⟨hserver, part, rs, u, hmerges, hu, hmerged⟩ := respond_merges htable ht o d
  refine ⟨hserver, ?_⟩
  exact Merged.adds (a := (some reply.response, reply.server.store)) hmerged htable hmerges hu
    fun ms' hms' => (gives_of_metrics? ht hms').sameDeltas

end Server

end Http
end Telemetry
