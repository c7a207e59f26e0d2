import Telemetry.Heap
import Telemetry.Proofs.Places
import Mathlib.Data.List.Infix
import Mathlib.Algebra.BigOperators.Group.List.Basic
import Mathlib.Algebra.GroupWithZero.Nat
import Mathlib.Algebra.Order.BigOperators.Group.List
import Mathlib.Algebra.Order.Group.Nat
import Mathlib.Order.Bounds.Basic

/-!
# The counters of a heap are exact

As long as the totals stay below the width of the counters, the counters of an allocator say what
its history and its live blocks say, after any calls, granted or refused. Nothing that is given
back is more than what is counted, so no subtraction wraps around.

## Main definitions

* `Telemetry.Heap.liveBytes`, `Telemetry.Heap.heapBytes` — what the live blocks amount to
* `Telemetry.Heap.handedOut`, `Telemetry.Heap.allocations`, `Telemetry.Heap.sizes` — what calls
  have granted
* `Telemetry.Heap.isLegal`, `Telemetry.Heap.Bounded` — calls that name live blocks, and whose totals
  stay below the width of the counters
* `Telemetry.Heap.Tally.exchange` — what the counters of bytes say when live blocks are exchanged
* `Telemetry.Heap.Amounts`, `Telemetry.Heap.Accounts` — the invariant of a heap

## Main results

* `Telemetry.Heap.Block.footprint_spec` — whole chunks, and no more of them than needed
* `Telemetry.Heap.Amounts.exchange` — the bytes that one call moves
* `Telemetry.Heap.Accounts.step` — one call
* `Telemetry.Heap.tally_exact` — any calls
-/

namespace Telemetry.Heap

/-! ### Chunks -/

/-- **A block takes up whole chunks, and no more of them than it needs.** -/
theorem Block.footprint_spec (b : Block) :
    IsLeast {n | max b.align 16 ∣ n ∧ max b.size 1 ≤ n} b.footprint := by
  have hpos : 0 < max b.align 16 := by omega
  set chunk := max b.align 16 with hchunk
  have hfootprint : b.footprint = (max b.size 1 + chunk - 1) / chunk * chunk := rfl
  refine ⟨⟨?_, ?_⟩, ?_⟩
  · rw [hfootprint]
    exact Nat.dvd_mul_left _ _
  · have hdiv := Nat.div_add_mod (max b.size 1 + chunk - 1) chunk
    have hmod := Nat.mod_lt (max b.size 1 + chunk - 1) hpos
    rw [hfootprint, Nat.mul_comm]
    omega
  · rintro _ ⟨⟨k, rfl⟩, hle⟩
    rw [hfootprint, Nat.mul_comm chunk k]
    refine Nat.mul_le_mul_right _ (Nat.lt_succ_iff.mp ((Nat.div_lt_iff_lt_mul hpos).mpr ?_))
    rw [Nat.succ_mul, Nat.mul_comm k]
    omega

/-! ### What calls grant -/

/-- The bytes of the live blocks. -/
def liveBytes (h : Heap) : ℕ := (h.blocks.map Block.size).sum

/-- The bytes that the live blocks take up. -/
def heapBytes (h : Heap) : ℕ := (h.blocks.map Block.footprint).sum

/-- Does a call that resizes a block or gives one back name a live one? -/
def Call.isLegal (h : Heap) : Call → Bool
  | .allocate _ _ _ => true
  | .resize slot _ _ => (h.block? slot).isSome
  | .free slot => (h.block? slot).isSome

/-- Do all calls name live blocks, each at its time? -/
def isLegal (h : Heap) : List Call → Bool
  | [] => true
  | c :: cs => c.isLegal h && (h.step c).isLegal cs

/-- Did the system grant the call? -/
def Call.isGranted : Call → Bool
  | .allocate _ _ granted => granted
  | .resize _ _ granted => granted
  | .free _ => true

/-- The bytes that a call hands out: those of a new block, or those by which a block grows. -/
def growth (h : Heap) : Call → ℕ
  | .allocate b _ true => b.size
  | .resize slot size true =>
    match h.block? slot with
    | some b => size - b.size
    | none => 0
  | _ => 0

/-- The bytes that calls hand out. -/
def handedOut (h : Heap) : List Call → ℕ
  | [] => 0
  | c :: cs => h.growth c + handedOut (h.step c) cs

/-- The number of allocations that are granted. -/
def allocations (calls : List Call) : ℕ :=
  calls.countP fun
    | .allocate _ _ granted => granted
    | _ => false

/-- The sizes that are granted, to new blocks and to those that get another size. -/
def sizes (calls : List Call) : List ℕ :=
  calls.filterMap fun
    | .allocate b _ true => some b.size
    | .resize _ size true => some size
    | _ => none

/-- Calls whose totals stay below the width of the counters: the bytes handed out, the bytes taken
up at any time, and the number of allocations. -/
structure Bounded (calls : List Call) : Prop where
  bytes : handedOut {} calls < 2 ^ 64
  chunks : ∀ before, before <+: calls → (run {} before).heapBytes < 2 ^ 64
  blocks : allocations calls < 2 ^ 64

variable {h : Heap} {calls : List Call} {c : Call}

theorem run_concat (h : Heap) (calls : List Call) (c : Call) :
    h.run (calls ++ [c]) = (h.run calls).step c :=
  List.foldl_concat ..

theorem handedOut_concat (h : Heap) (calls : List Call) (c : Call) :
    h.handedOut (calls ++ [c]) = h.handedOut calls + (h.run calls).growth c := by
  induction calls generalizing h with
  | nil => exact Nat.add_comm _ _
  | cons d calls ih =>
    rw [List.cons_append, handedOut, ih, handedOut, Nat.add_assoc]
    rfl

theorem isLegal_concat (h : Heap) (calls : List Call) (c : Call) :
    h.isLegal (calls ++ [c]) = (h.isLegal calls && c.isLegal (h.run calls)) := by
  induction calls generalizing h with
  | nil => exact Bool.and_comm _ _
  | cons d calls ih =>
    rw [List.cons_append, isLegal, ih, isLegal, Bool.and_assoc]
    rfl

theorem Bounded.of_concat (hb : Bounded (calls ++ [c])) : Bounded calls where
  bytes := by
    have hall := hb.bytes
    rw [handedOut_concat] at hall
    omega
  chunks before h := hb.chunks before (h.trans (List.prefix_append _ _))
  blocks := by
    have hall := hb.blocks
    rw [allocations, List.countP_append] at hall
    exact Nat.lt_of_le_of_lt (Nat.le_add_right _ _) hall

/-! ### Counters of 64 bits -/

theorem toNat_add_ofNat {x : UInt64} {n : ℕ} (h : x.toNat + n < 2 ^ 64) :
    (x + UInt64.ofNat n).toNat = x.toNat + n := by
  rw [UInt64.toNat_add, UInt64.toNat_ofNat_of_lt' (Nat.lt_of_le_of_lt (Nat.le_add_left _ _) h),
    Nat.mod_eq_of_lt h]

theorem toNat_sub_ofNat {x : UInt64} {n : ℕ} (h : n ≤ x.toNat) :
    (x - UInt64.ofNat n).toNat = x.toNat - n := by
  have hn : (UInt64.ofNat n).toNat = n :=
    UInt64.toNat_ofNat_of_lt' (Nat.lt_of_le_of_lt h x.toNat_lt)
  rw [UInt64.toNat_sub_of_le _ _ (UInt64.le_iff_toNat_le.mpr (hn.trans_le h)), hn]

theorem ofNat_zero : UInt64.ofNat 0 = 0 := rfl

theorem max_of_le {x y : UInt64} (h : y ≤ x) : max x y = x := by
  rw [← UInt64.toNat_inj, UInt64.toNat_max, max_eq_left (UInt64.le_iff_toNat_le.mp h)]

/-- A live block among the places of all. -/
theorem slot_eq {slot : ℕ} {b : Block} (hb : h.block? slot = some b) :
    h.slots[slot]? = some (some b) :=
  Option.join_eq_some_iff.mp hb

/-! ### Blocks that are exchanged -/

/-- The bytes that blocks were asked for. -/
def bytes (bs : List Block) : ℕ := (bs.map Block.size).sum

/-- The bytes that blocks take up. -/
def chunkBytes (bs : List Block) : ℕ := (bs.map Block.footprint).sum

@[simp] theorem bytes_nil : bytes [] = 0 := rfl

@[simp] theorem bytes_singleton (b : Block) : bytes [b] = b.size := Nat.add_zero _

@[simp] theorem chunkBytes_nil : chunkBytes [] = 0 := rfl

@[simp] theorem chunkBytes_singleton (b : Block) : chunkBytes [b] = b.footprint := Nat.add_zero _

/-- What the counters of bytes say when some live blocks are exchanged for others. One of the two
differences is zero. -/
def Tally.exchange (t : Tally) (old new : List Block) : Tally :=
  { t with
    live := t.live + .ofNat (bytes new - bytes old) - .ofNat (bytes old - bytes new)
    heap := t.heap - .ofNat (chunkBytes old) + .ofNat (chunkBytes new)
    peak := max t.peak (t.live + .ofNat (bytes new - bytes old))
    allocated := t.allocated + .ofNat (bytes new - bytes old)
    freed := t.freed + .ofNat (bytes old - bytes new) }

variable {t : Tally} {b : Block}

/-- A block is exchanged for none, class by class. -/
theorem Tally.allocate_eq (t : Tally) (b : Block) (zeroed : Bool) :
    t.allocate b zeroed =
      { t.exchange [] [b] with
        mallocs := t.mallocs + 1
        zeroed := if zeroed then t.zeroed + 1 else t.zeroed
        largest := max t.largest (.ofNat b.size)
        small := if SizeClass.ofSize b.size = .small then t.small + 1 else t.small
        medium := if SizeClass.ofSize b.size = .medium then t.medium + 1 else t.medium
        large := if SizeClass.ofSize b.size = .large then t.large + 1 else t.large } := by
  rw [allocate, exchange]
  cases SizeClass.ofSize b.size <;> simp [grow, classify, ofNat_zero]

/-- A block is exchanged for one of another size. -/
theorem Tally.resize_eq (hpeak : t.live ≤ t.peak) (b : Block) (size : ℕ) :
    t.resize b size =
      { t.exchange [b] [⟨size, b.align⟩] with
        reallocs := t.reallocs + 1
        largest := max t.largest (.ofNat size) } := by
  rw [resize, exchange]
  by_cases hgrows : b.size ≤ size
  · simp [if_pos hgrows, Nat.sub_eq_zero_of_le hgrows, grow, ofNat_zero]
  · simp [if_neg hgrows, Nat.sub_eq_zero_of_le (Nat.le_of_not_le hgrows), shrink, ofNat_zero,
      max_of_le hpeak]

/-- A block is exchanged for none. -/
theorem Tally.free_eq (hpeak : t.live ≤ t.peak) (b : Block) :
    t.free b = { t.exchange [b] [] with frees := t.frees + 1 } := by
  simp [free, shrink, exchange, ofNat_zero, max_of_le hpeak]

theorem Tally.exchange_nil (hpeak : t.live ≤ t.peak) : t.exchange [] [] = t := by
  simp [exchange, ofNat_zero, max_of_le hpeak]

/-! ### The invariant -/

/-- What counters of bytes say after calls: what the calls have granted, and what is live of it. -/
structure Amounts (calls : List Call) (h : Heap) (t : Tally) : Prop where
  live : t.live.toNat = h.liveBytes
  heap : t.heap.toNat = h.heapBytes
  peak : IsGreatest {n | ∃ before, before <+: calls ∧ n = (run {} before).liveBytes} t.peak.toNat
  allocated : t.allocated.toNat = handedOut {} calls
  freed : t.freed.toNat + h.liveBytes = handedOut {} calls

/-- What all counters say after calls. -/
structure Accounts (calls : List Call) (h : Heap) : Prop where
  amounts : Amounts calls h h.tally
  mallocs : h.tally.mallocs.toNat = allocations calls
  frees : h.tally.frees.toNat + h.blocks.length = allocations calls
  zeroed : h.tally.zeroed.toNat ≤ allocations calls
  classes : h.tally.small.toNat + h.tally.medium.toNat + h.tally.large.toNat = allocations calls
  largest : IsGreatest (insert 0 {n | n ∈ sizes calls}) h.tally.largest.toNat

/-- The heaps up to the last call are those before it and the last one. -/
theorem peaks_concat (calls : List Call) (c : Call) :
    {n | ∃ before, before <+: calls ++ [c] ∧ n = (run {} before).liveBytes}
      = insert (run {} (calls ++ [c])).liveBytes
        {n | ∃ before, before <+: calls ∧ n = (run {} before).liveBytes} := by
  ext n
  simp only [Set.mem_ofPred_eq, Set.mem_insert_iff, List.prefix_concat_iff]
  constructor
  · rintro ⟨before, rfl | hbefore, rfl⟩
    · exact .inl rfl
    · exact .inr ⟨before, hbefore, rfl⟩
  · rintro (rfl | ⟨before, hbefore, rfl⟩)
    · exact ⟨_, .inl rfl, rfl⟩
    · exact ⟨before, .inr hbefore, rfl⟩

theorem sizes_concat (calls : List Call) (c : Call) :
    sizes (calls ++ [c]) = sizes calls ++ sizes [c] :=
  List.filterMap_append

theorem allocations_concat (calls : List Call) (c : Call) :
    allocations (calls ++ [c]) = allocations calls + allocations [c] :=
  List.countP_append

/-! ### One call -/

section Step

variable {h : Heap} {calls : List Call} {c : Call} {b : Block} {slot size : ℕ} {zeroed : Bool}

theorem accounts_empty : Accounts [] {} where
  amounts := by
    refine ⟨rfl, rfl, ⟨⟨[], List.prefix_rfl, rfl⟩, ?_⟩, rfl, rfl⟩
    rintro _ ⟨before, hbefore, rfl⟩
    rw [List.prefix_nil.mp hbefore]
    exact Nat.le_refl 0
  mallocs := rfl
  frees := rfl
  zeroed := Nat.le_refl 0
  classes := rfl
  largest := ⟨Set.mem_insert _ _, by
    rintro n (rfl | hn)
    · exact Nat.le_refl 0
    · cases hn⟩

/-- What is live is not above the peak. -/
theorem Amounts.live_le_peak (ha : Amounts calls h t) (hrun : run {} calls = h) :
    t.live ≤ t.peak := by
  rw [UInt64.le_iff_toNat_le, ha.live]
  exact ha.peak.2 ⟨calls, List.prefix_rfl, by rw [hrun]⟩

/-- **The bytes that one call moves.** A call exchanges some live blocks for others, and hands out
what these have more. What is added stays below the totals, and what is taken off was counted, so no
counter wraps around. -/
theorem Amounts.exchange (ha : Amounts calls h h.tally) (hrun : run {} calls = h)
    (hb : Bounded (calls ++ [c])) {old new rest : List Block} (hold : h.blocks.Perm (old ++ rest))
    (hnew : (h.step c).blocks.Perm (new ++ rest)) (hgrowth : h.growth c = bytes new - bytes old) :
    Amounts (calls ++ [c]) (h.step c) (h.tally.exchange old new) := by
  have hsum : ∀ {f : Block → ℕ} {bs ps : List Block}, bs.Perm (ps ++ rest) →
      (bs.map f).sum = (ps.map f).sum + (rest.map f).sum := fun {f bs ps} hperm => by
    rw [(hperm.map f).sum_eq, List.map_append, List.sum_append]
  have hlive : h.liveBytes = bytes old + bytes rest := hsum hold
  have hlive' : (h.step c).liveBytes = bytes new + bytes rest := hsum hnew
  have hheap : h.heapBytes = chunkBytes old + chunkBytes rest := hsum hold
  have hheap' : (h.step c).heapBytes = chunkBytes new + chunkBytes rest := hsum hnew
  have hhanded : handedOut {} (calls ++ [c]) = handedOut {} calls + (bytes new - bytes old) := by
    rw [handedOut_concat, hrun, hgrowth]
  have hbytes := hb.bytes
  have hchunks := hb.chunks _ List.prefix_rfl
  rw [hhanded] at hbytes
  rw [run_concat, hrun, hheap'] at hchunks
  have ⟨hcounted, htaken, hpeak, hallocated, hfreed⟩ := ha
  have hgrown : (h.tally.live + .ofNat (bytes new - bytes old)).toNat
      = h.liveBytes + (bytes new - bytes old) := by
    rw [toNat_add_ofNat (by omega), hcounted]
  have hdropped : (h.tally.heap - .ofNat (chunkBytes old)).toNat = chunkBytes rest := by
    rw [toNat_sub_ofNat (by omega)]
    omega
  have hreached := UInt64.le_iff_toNat_le.mp (ha.live_le_peak hrun)
  constructor
  case live =>
    show (h.tally.live + _ - _).toNat = _
    rw [toNat_sub_ofNat (by omega), hgrown]
    omega
  case heap =>
    show (h.tally.heap - _ + _).toNat = _
    rw [toNat_add_ofNat (by omega), hdropped, hheap', Nat.add_comm]
  case peak =>
    have hmost : (h.tally.exchange old new).peak.toNat
        = max (h.step c).liveBytes h.tally.peak.toNat := by
      show (max h.tally.peak (h.tally.live + _)).toNat = _
      rw [UInt64.toNat_max, hgrown]
      omega
    rw [peaks_concat, run_concat, hrun, hmost]
    exact hpeak.insert _
  case allocated =>
    show (h.tally.allocated + _).toNat = _
    rw [toNat_add_ofNat (by omega), hallocated, hhanded]
  case freed =>
    show (h.tally.freed + _).toNat + _ = _
    rw [toNat_add_ofNat (by omega)]
    omega

/-- The size of a live block is no more than what was handed out. -/
theorem Amounts.size_lt (ha : Amounts calls h t) (hb : Bounded calls) (hblock : b ∈ h.blocks) :
    b.size < 2 ^ 64 := by
  have hle : b.size ≤ h.liveBytes := List.le_sum_of_mem (List.mem_map_of_mem hblock)
  have hhanded := ha.freed
  have hbytes := hb.bytes
  omega

/-- The largest size after one more that is granted. -/
theorem Accounts.largest_concat (ha : Accounts calls h) (hsize : sizes [c] = [size])
    (hlt : size < 2 ^ 64) :
    IsGreatest (insert 0 {n | n ∈ sizes (calls ++ [c])})
      (max h.tally.largest (.ofNat size)).toNat := by
  have hset : insert 0 {n | n ∈ sizes (calls ++ [c])}
      = insert size (insert 0 {n | n ∈ sizes calls}) := by
    ext n
    simp only [sizes_concat, hsize, Set.mem_insert_iff, Set.mem_ofPred_eq, List.mem_append,
      List.mem_singleton]
    tauto
  rw [hset, UInt64.toNat_max, UInt64.toNat_ofNat_of_lt' hlt, max_comm]
  exact ha.largest.insert _

/-- A refused call changes neither the counters nor what is live. -/
theorem step_refused (h : Heap) (hc : c.isGranted = false) :
    (h.step c).tally = h.tally ∧ (h.step c).blocks = h.blocks := by
  match c, hc with
  | .allocate b zeroed false, _ =>
    refine ⟨rfl, ?_⟩
    show (h.slots ++ [none]).filterMap id = h.slots.filterMap id
    rw [List.filterMap_append]
    exact List.append_nil _
  | .resize slot size false, _ => exact ⟨rfl, rfl⟩

theorem Accounts.refused (ha : Accounts calls h) (hrun : run {} calls = h)
    (hb : Bounded (calls ++ [c])) (hc : c.isGranted = false) :
    Accounts (calls ++ [c]) (h.step c) := by
  obtain ⟨htally, hblocks⟩ := step_refused h hc
  obtain ⟨hgrowth, hallocations, hsizes⟩ :
      h.growth c = 0 ∧ allocations [c] = 0 ∧ sizes [c] = [] := by
    match c, hc with
    | .allocate _ _ false, _ => exact ⟨rfl, rfl, rfl⟩
    | .resize _ _ false, _ => exact ⟨rfl, rfl, rfl⟩
  have hold : h.blocks.Perm ([] ++ h.blocks) := .refl _
  have hnew : (h.step c).blocks.Perm ([] ++ h.blocks) := .of_eq hblocks
  have hmoved := ha.amounts.exchange hrun hb hold hnew hgrowth
  rw [Tally.exchange_nil (ha.amounts.live_le_peak hrun)] at hmoved
  have hcount : allocations (calls ++ [c]) = allocations calls := by
    rw [allocations_concat, hallocations, Nat.add_zero]
  constructor <;> rw [htally]
  case amounts => exact hmoved
  case mallocs => rw [hcount, ha.mallocs]
  case frees => rw [hcount, hblocks, ha.frees]
  case zeroed =>
    rw [hcount]
    exact ha.zeroed
  case classes => rw [hcount, ha.classes]
  case largest =>
    rw [sizes_concat, hsizes, List.append_nil]
    exact ha.largest

/-- A new block is counted. -/
theorem Accounts.allocate (ha : Accounts calls h) (hrun : run {} calls = h)
    (hb : Bounded (calls ++ [.allocate b zeroed true])) :
    Accounts (calls ++ [.allocate b zeroed true]) (h.step (.allocate b zeroed true)) := by
  have hblocks : (h.step (.allocate b zeroed true)).blocks = h.blocks ++ [b] :=
    List.filterMap_append
  have hold : h.blocks.Perm ([] ++ h.blocks) := .refl _
  have hnew : (h.step (.allocate b zeroed true)).blocks.Perm ([b] ++ h.blocks) :=
    hblocks ▸ List.perm_append_comm
  have hmoved := ha.amounts.exchange hrun hb hold hnew (bytes_singleton b).symm
  have hcount : allocations (calls ++ [.allocate b zeroed true]) = allocations calls + 1 :=
    allocations_concat _ _
  have htally : (h.step (.allocate b zeroed true)).tally = _ := h.tally.allocate_eq b zeroed
  have htotal := hb.blocks
  rw [hcount] at htotal
  have ⟨_, hmallocs, hfrees, hzeroed, hclasses, _⟩ := ha
  have hone : ∀ x : UInt64, x.toNat ≤ allocations calls → (x + 1).toNat = x.toNat + 1 :=
    fun x hx => toNat_add_ofNat (n := 1) (by omega)
  constructor <;> rw [htally]
  case amounts =>
    exact ⟨hmoved.live, hmoved.heap, hmoved.peak, hmoved.allocated, hmoved.freed⟩
  case mallocs =>
    rw [hcount, ← hmallocs]
    exact hone _ hmallocs.le
  case frees =>
    rw [hcount, hblocks, List.length_append, List.length_singleton]
    show h.tally.frees.toNat + _ = _
    omega
  case zeroed =>
    rw [hcount]
    cases zeroed with
    | false => exact Nat.le_succ_of_le hzeroed
    | true => exact (hone _ hzeroed).trans_le (Nat.succ_le_succ hzeroed)
  case classes =>
    rw [hcount]
    cases SizeClass.ofSize b.size with
    | small =>
      show (h.tally.small + 1).toNat + h.tally.medium.toNat + h.tally.large.toNat = _
      rw [hone _ (by omega)]
      omega
    | medium =>
      show h.tally.small.toNat + (h.tally.medium + 1).toNat + h.tally.large.toNat = _
      rw [hone _ (by omega)]
      omega
    | large =>
      show h.tally.small.toNat + h.tally.medium.toNat + (h.tally.large + 1).toNat = _
      rw [hone _ (by omega)]
      omega
  case largest =>
    have hlt : b.size < 2 ^ 64 := hmoved.size_lt hb (hnew.mem_iff.mpr List.mem_cons_self)
    exact ha.largest_concat rfl hlt

/-- A block that gets another size is counted with the new one. -/
theorem Accounts.resize (ha : Accounts calls h) (hrun : run {} calls = h)
    (hblock : h.block? slot = some b) (hb : Bounded (calls ++ [.resize slot size true])) :
    Accounts (calls ++ [.resize slot size true]) (h.step (.resize slot size true)) := by
  have hstep : h.step (.resize slot size true)
      = ⟨h.tally.resize b size, h.slots.set slot (some ⟨size, b.align⟩)⟩ := by
    rw [Heap.step, hblock]
  obtain ⟨hold, hnew⟩ := Places.set_perm (slot_eq hblock) (some ⟨size, b.align⟩)
  have hblocks : (h.step (.resize slot size true)).blocks.Perm
      ([⟨size, b.align⟩] ++ (h.slots.eraseIdx slot).filterMap id) := by
    rw [hstep]
    exact hnew
  have hgrowth : h.growth (.resize slot size true) = size - b.size := by rw [growth, hblock]
  have hmoved := ha.amounts.exchange hrun hb hold hblocks (by simpa using hgrowth)
  have hcount : allocations (calls ++ [.resize slot size true]) = allocations calls :=
    allocations_concat _ _
  have hlength : (h.step (.resize slot size true)).blocks.length = h.blocks.length :=
    hblocks.length_eq.trans hold.length_eq.symm
  have htally : (h.step (.resize slot size true)).tally = _ :=
    (congrArg tally hstep).trans (Tally.resize_eq (ha.amounts.live_le_peak hrun) b size)
  have ⟨_, hmallocs, hfrees, hzeroed, hclasses, _⟩ := ha
  constructor <;> rw [htally]
  case amounts =>
    exact ⟨hmoved.live, hmoved.heap, hmoved.peak, hmoved.allocated, hmoved.freed⟩
  case mallocs => exact hmallocs.trans hcount.symm
  case frees => exact (congrArg _ hlength).trans (hfrees.trans hcount.symm)
  case zeroed => exact hzeroed.trans hcount.ge
  case classes => exact hclasses.trans hcount.symm
  case largest =>
    have hlt : size < 2 ^ 64 := hmoved.size_lt hb (hblocks.mem_iff.mpr List.mem_cons_self)
    exact ha.largest_concat rfl hlt

/-- A block that is given back is no longer counted as live. -/
theorem Accounts.free (ha : Accounts calls h) (hrun : run {} calls = h)
    (hblock : h.block? slot = some b) (hb : Bounded (calls ++ [.free slot])) :
    Accounts (calls ++ [.free slot]) (h.step (.free slot)) := by
  have hstep : h.step (.free slot) = ⟨h.tally.free b, h.slots.set slot none⟩ := by
    rw [step, hblock]
  obtain ⟨hold, hnew⟩ := Places.set_perm (slot_eq hblock) none
  have hblocks : (h.step (.free slot)).blocks.Perm
      ([] ++ (h.slots.eraseIdx slot).filterMap id) := by
    rw [hstep]
    exact hnew
  have hmoved := ha.amounts.exchange hrun hb hold hblocks (Nat.zero_sub _).symm
  have hcount : allocations (calls ++ [.free slot]) = allocations calls := allocations_concat _ _
  have hlength : h.blocks.length = (h.step (.free slot)).blocks.length + 1 :=
    hold.length_eq.trans (congrArg (· + 1) hblocks.length_eq.symm)
  have htally : (h.step (.free slot)).tally = _ :=
    (congrArg tally hstep).trans (Tally.free_eq (ha.amounts.live_le_peak hrun) b)
  have htotal := hb.blocks
  rw [hcount] at htotal
  have ⟨_, hmallocs, hfrees, hzeroed, hclasses, _⟩ := ha
  have hfrees' : (h.tally.frees + 1).toNat = h.tally.frees.toNat + 1 :=
    toNat_add_ofNat (n := 1) (by omega)
  constructor <;> rw [htally]
  case amounts =>
    exact ⟨hmoved.live, hmoved.heap, hmoved.peak, hmoved.allocated, hmoved.freed⟩
  case mallocs => exact hmallocs.trans hcount.symm
  case frees =>
    show (h.tally.frees + 1).toNat + _ = _
    omega
  case zeroed => exact hzeroed.trans hcount.ge
  case classes => exact hclasses.trans hcount.symm
  case largest =>
    rw [sizes_concat]
    exact (List.append_nil (sizes calls)).symm ▸ ha.largest

/-- **One call keeps the accounts.** -/
theorem Accounts.step (ha : Accounts calls h) (hrun : run {} calls = h) (hlegal : c.isLegal h)
    (hb : Bounded (calls ++ [c])) : Accounts (calls ++ [c]) (h.step c) := by
  cases c with
  | allocate b zeroed granted =>
    cases granted with
    | true => exact ha.allocate hrun hb
    | false => exact ha.refused hrun hb rfl
  | resize slot size granted =>
    cases granted with
    | true =>
      obtain ⟨b, hblock⟩ := Option.isSome_iff_exists.mp hlegal
      exact ha.resize hrun hblock hb
    | false => exact ha.refused hrun hb rfl
  | free slot =>
    obtain ⟨b, hblock⟩ := Option.isSome_iff_exists.mp hlegal
    exact ha.free hrun hblock hb

end Step

/-! ### Any calls -/

theorem accounts_run {calls : List Call} (hl : isLegal {} calls) (hb : Bounded calls) :
    Accounts calls (run {} calls) := by
  induction calls using List.reverseRecOn with
  | nil => exact accounts_empty
  | append_singleton calls c ih =>
    rw [isLegal_concat, Bool.and_eq_true] at hl
    rw [run_concat]
    exact (ih hl.1 hb.of_concat).step rfl hl.2 hb

/-- **The counters are exact**, after any calls that name live blocks, granted or refused, whose
totals stay below the width of the counters. What is live, what it takes up and how many blocks
there are is what the live blocks say, the peak is the most that has been live, and the largest size
is the largest that was granted. What is given back next is no more than what is counted, so that
no subtraction wraps around, and a call that is refused next changes nothing. -/
theorem tally_exact {calls : List Call} (hl : isLegal {} calls) (hb : Bounded calls) :
    let h := run {} calls
    h.tally.live.toNat = (h.blocks.map Block.size).sum ∧
    h.tally.heap.toNat = (h.blocks.map Block.footprint).sum ∧
    (∀ b ∈ h.blocks, IsLeast {n | max b.align 16 ∣ n ∧ max b.size 1 ≤ n} b.footprint) ∧
    IsGreatest {n | ∃ before, before <+: calls ∧ n = (run {} before).liveBytes}
      h.tally.peak.toNat ∧
    (h.tally.freed ≤ h.tally.allocated ∧ h.tally.allocated - h.tally.freed = h.tally.live) ∧
    (h.tally.frees ≤ h.tally.mallocs ∧ h.tally.mallocs - h.tally.frees = h.tally.objects ∧
      h.tally.objects.toNat = h.blocks.length) ∧
    h.tally.small.toNat + h.tally.medium.toNat + h.tally.large.toNat = h.tally.mallocs.toNat ∧
    h.tally.zeroed ≤ h.tally.mallocs ∧
    IsGreatest (insert 0 {n | n ∈ sizes calls}) h.tally.largest.toNat ∧
    (∀ slot b, h.block? slot = some b →
      b.size ≤ h.tally.live.toNat ∧ b.footprint ≤ h.tally.heap.toNat) ∧
    ∀ c : Call, c.isGranted = false →
      (h.step c).tally = h.tally ∧ (h.step c).blocks = h.blocks := by
  intro h
  have ha := accounts_run hl hb
  have hbytes := ha.amounts
  have hfreed : h.tally.freed ≤ h.tally.allocated := by
    rw [UInt64.le_iff_toNat_le, hbytes.allocated, ← hbytes.freed]
    exact Nat.le_add_right _ _
  have hfrees : h.tally.frees ≤ h.tally.mallocs := by
    rw [UInt64.le_iff_toNat_le, ha.mallocs, ← ha.frees]
    exact Nat.le_add_right _ _
  have hobjects : h.tally.mallocs - h.tally.frees = h.tally.objects := (if_pos hfrees).symm
  refine ⟨hbytes.live, hbytes.heap, fun b _ => b.footprint_spec, hbytes.peak, ⟨hfreed, ?_⟩,
    ⟨hfrees, hobjects, ?_⟩, ?_, ?_, ha.largest, fun slot b hblock => ?_,
    fun c hc => step_refused h hc⟩
  · rw [← UInt64.toNat_inj, UInt64.toNat_sub_of_le _ _ hfreed, hbytes.allocated, ← hbytes.freed,
      hbytes.live, Nat.add_sub_cancel_left]
  · rw [← hobjects, UInt64.toNat_sub_of_le _ _ hfrees, ha.mallocs, ← ha.frees,
      Nat.add_sub_cancel_left]
  · rw [ha.classes, ha.mallocs]
  · rw [UInt64.le_iff_toNat_le, ha.mallocs]
    exact ha.zeroed
  · have hperm : h.blocks.Perm (b :: _) := Places.empty_perm (slot_eq hblock)
    have hsizes := (hperm.map Block.size).sum_eq
    have hfootprints := (hperm.map Block.footprint).sum_eq
    rw [List.map_cons, List.sum_cons] at hsizes hfootprints
    rw [hbytes.live, hbytes.heap, liveBytes, heapBytes, hsizes, hfootprints]
    exact ⟨Nat.le_add_right _ _, Nat.le_add_right _ _⟩

/-- Blocks that are allocated, zeroed, refused, shrunk, grown and given back. -/
theorem tally_exact_mixed :
    let calls : List Call :=
      [.allocate ⟨100, 8⟩ false true, .allocate ⟨1024, 64⟩ true true, .allocate ⟨0, 1⟩ false true,
        .allocate ⟨7, 1⟩ true false, .resize 0 10 true, .resize 1 131072 true, .resize 1 1 false,
        .free 0]
    let h := run {} calls
    isLegal {} calls ∧ Bounded calls ∧ h.tally.live.toNat = 131072 ∧ h.tally.heap.toNat = 131088 ∧
      h.tally.objects.toNat = 2 ∧ IsGreatest (insert 0 {n | n ∈ sizes calls}) 131072 := by
  intro calls h
  have hlegal : isLegal {} calls := by decide +kernel
  have hbounded : Bounded calls := by
    refine ⟨by decide +kernel, fun before hbefore => ?_, by decide +kernel⟩
    have hall : ∀ before ∈ calls.inits, (run {} before).heapBytes < 2 ^ 64 := by decide +kernel
    exact hall before ((List.mem_inits _ _).mpr hbefore)
  obtain ⟨hlive, hheap, -, -, -, ⟨-, -, hobjects⟩, -, -, hlargest, -⟩ := tally_exact hlegal hbounded
  exact ⟨hlegal, hbounded, hlive.trans (by decide +kernel), hheap.trans (by decide +kernel),
    hobjects.trans (by decide +kernel), hlargest⟩

end Telemetry.Heap
