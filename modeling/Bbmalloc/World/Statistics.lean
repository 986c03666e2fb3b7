import Bbmalloc.Malloc.Statistics
import Bbmalloc.World.Runs

/-! Statistics over whole runs of the public interface: counters that start at zero on a heap
without blocks and sheets agree with the heap from then on.
-/

namespace Bbmalloc

open Bbmalloc.Foundations

namespace World

-----------------------------------------------------------------------------------------
-- Counted runs
-----------------------------------------------------------------------------------------

/-- `reset_stats`. -/
def resetStats {C : Config} (w : World C) : World C :=
  { w with heap := { w.heap with stats := Stats.zero } }

/-- The runs of the public interface from a reached world without blocks and sheets in which
the counters are set to zero, as long as neither `reset` nor `reset_stats` is called.
-/
inductive Tallied {C : Config} (ok : Op → Prop) : World C → Prop
  | start {w : World C} (reached : Reached ok w) (empty : ∀ p, w.ledger p = none)
      (sheetless : ∀ i < w.heap.count, (w.heap.region i).tlsf.sheets = [])
      : Tallied ok w.resetStats
  | step {w w' : World C} {op : Op} (before : Tallied ok w) (kind : op.isPublic = true)
      (counted : op ≠ .reset) (allowed : w.Allowed op) (next : w.step op = some w')
      : Tallied ok w'

section Tallied

variable {C : Config} {ok : Op → Prop} {w w' : World C} {op : Op} {v : Nat → RegionView}
  {held : Nat → Option Block}

/-- `ensure` keeps the accounts. -/
theorem ensure_accounted (h : WorldInv w) (fits : C.PoolFits) (supply : w.heap.Supplied)
    (accounted : Accounted w.heap)
    : Accounted w.heap.ensure.1 := by
  obtain ⟨v, rep⟩ := h.rep
  obtain ⟨v', step, _⟩ := rep.ensure fits (fun _ => supply.now)
  exact accounted.audited rep step w.heap.ensure_audited

/-- Every public step but `reset` keeps the accounts. -/
theorem step_accounted (h : WorldInv w) (fits : C.PoolFits) (on : C.collectStats = true)
    (accounted : Accounted w.heap) (kind : op.isPublic = true) (counted : op ≠ .reset)
    (allowed : w.Allowed op) (next : w.step op = some w')
    : Accounted w'.heap := by
  obtain ⟨v, rep⟩ := h.rep
  cases op with
  | heapAlloc | heapAllocAligned | heapDealloc | shrinkAt | growAt | heapLargestFree => cases kind
  | reset => exact absurd rfl counted
  | attach mem len tags cap =>
      cases Option.some.inj next
      have audited := w.heap.attachPool_audited mem len tags cap false
      cases rep.attachPool (z := false) allowed with
      | accepted _ _ _ step _ _ _ => exact accounted.audited rep step audited
      | refused _ step _ _ => exact accounted.audited rep step audited
  | init =>
      cases Option.some.inj next
      rw [w.heap.init_ensure]
      exact ensure_accounted h fits allowed accounted
  | used =>
      cases Option.some.inj next
      exact ensure_accounted h fits allowed accounted
  | available =>
      cases Option.some.inj next
      exact ensure_accounted h fits allowed accounted
  | total =>
      cases Option.some.inj next
      exact ensure_accounted h fits allowed accounted
  | querySize p =>
      cases Option.some.inj next
      obtain ⟨_, _, _, _, same⟩ :=
        rep.locate_ready fits (fun _ => (allowed : w.heap.Supplied).now) p
      change Accounted (w.heap.locate p).1
      rw [same]
      exact ensure_accounted h fits allowed accounted
  | store a b =>
      obtain ⟨v', stored⟩ := (h.store allowed b).rep
      cases Option.some.inj next
      exact .of stored ((accounted v _ rep).congr rfl rfl)
  | largestFree =>
      cases Option.some.inj next
      obtain ⟨v', step⟩ := rep.largestFree_step fits (allowed : w.heap.Supplied).now
      exact accounted.audited rep step (w.heap.largestFree_audited on)
  | which =>
      cases Option.some.inj next
      rw [rep.which_state fits (allowed : w.heap.Supplied).now]
      obtain ⟨v', step⟩ := rep.largestFree_step fits (allowed : w.heap.Supplied).now
      exact accounted.audited rep step (w.heap.largestFree_audited on)
  | balloc size =>
      obtain ⟨_, rfl⟩ := next_some next
      exact rep.balloc_accounted fits allowed accounted on size
  | zalloc size =>
      obtain ⟨_, rfl⟩ := next_some next
      exact rep.zalloc_accounted fits allowed accounted on size
  | alignedBalloc a size =>
      obtain ⟨_, rfl⟩ := next_some next
      exact rep.alignedBalloc_accounted fits allowed accounted on a size
  | dealloc p =>
      obtain ⟨_, rfl⟩ := next_some next
      exact rep.bbDealloc_accounted fits (fun _ => (allowed : w.heap.Supplied).now) accounted on p
  | destroy p =>
      obtain ⟨_, rfl⟩ := next_some next
      rw [w.heap.destroy_eq]
      exact rep.bbDealloc_accounted fits (fun _ => (allowed : w.heap.Supplied).now) accounted on p
  | resize old size preserve a =>
      obtain ⟨_, rfl⟩ := next_some next
      exact rep.resize_accounted fits allowed accounted on old size preserve a
  | create bytes a =>
      obtain ⟨_, rfl⟩ := next_some next
      by_cases zero : bytes = 0
      · simpa only [HeapState.create, zero, if_true] using accounted
      · simp only [HeapState.create, zero, if_false, HeapState.andThen_advertise]
        exact rep.allocFor_accounted fits allowed accounted on bytes a
  | containerResize old bytes preserve a =>
      obtain ⟨_, rfl⟩ := next_some next
      by_cases zero : bytes = 0
      · have freed := rep.bbDealloc_accounted fits
          (fun _ => (allowed : w.heap.Supplied).now) accounted on old.ptr
        simp only [HeapState.containerResize, zero, if_true, w.heap.destroy_eq]
        cases result : (w.heap.bbDealloc old.ptr).2 <;>
          simpa only [HeapState.andThen, result] using freed
      · simp only [HeapState.containerResize, zero, if_false, HeapState.andThen_advertise]
        exact rep.resize_accounted fits allowed accounted on old bytes preserve a

/-- The counters agree with a heap without blocks and sheets when they are set to zero. -/
theorem resetStats_accounted (h : WorldInv w) (empty : ∀ p, w.ledger p = none)
    (sheetless : ∀ i < w.heap.count, (w.heap.region i).tlsf.sheets = [])
    : WorldInv w.resetStats ∧ Accounted w.resetStats.heap := by
  obtain ⟨v, rep⟩ := h.rep
  have inv : HeapInv w.resetStats.heap v w.ledger.blocks := rep.sameHeap rfl rfl
  have none : ∀ p b, w.ledger.blocks p ≠ some b := by
    intro p b known
    obtain ⟨g, grant, _⟩ := Ledger.blocks_eq_some.mp known
    rw [empty p] at grant
    cases grant
  have weightless : ∀ weight : Block → Nat,
      blockSum weight C.buddy.word w.ledger.blocks = 0 := fun weight =>
    blockSum_eq_zero (fun p b known => absurd known (none p b))
  have sheets : w.resetStats.heap.sheetCount = 0 := by
    refine Finset.sum_eq_zero (fun i inside => ?_)
    have less := Finset.mem_range.mp inside
    have counted : (w.heap.region i).tlsf.count = (w.heap.region i).tlsf.sheets.length :=
      (rep.regions i less).tlsf.counted
    rw [sheetless i less] at counted
    exact counted
  refine ⟨⟨⟨v, inv⟩, h.sane⟩, .of inv ⟨?_, ?_, ?_, rfl, ?_⟩⟩
  · rw [blockCount, weightless]
    rfl
  · rw [blockBytes, weightless]
    rfl
  · rw [blockBytes, weightless]
    rfl
  · rw [sheets]
    rfl

/-- The counters agree with the heap throughout a counted run. -/
theorem Tallied.accounted (tallied : Tallied ok w) (on : C.collectStats = true)
    : WorldInv w ∧ C.PoolFits ∧ Accounted w.heap := by
  induction tallied with
  | start reached empty sheetless =>
      obtain ⟨inv, accounted⟩ := resetStats_accounted reached.inv empty sheetless
      exact ⟨inv, reached.fits, accounted⟩
  | step _ kind counted allowed next ih =>
      obtain ⟨inv, fits, accounted⟩ := ih
      exact ⟨inv_step inv fits allowed next, fits,
        step_accounted inv fits on accounted kind counted allowed next⟩

end Tallied

-----------------------------------------------------------------------------------------
-- Agreement
-----------------------------------------------------------------------------------------

/-- The addresses at which live blocks start. -/
def liveBlocks {C : Config} (w : World C) : Finset Nat :=
  (Finset.range C.buddy.word).filter (fun p => (w.ledger p).isSome)

section Agreement

variable {C : Config} {ok : Op → Prop} {w : World C}

/-- A sum over the live blocks by address. -/
theorem sum_liveBlocks (weight : Block → Nat)
    : blockSum weight C.buddy.word w.ledger.blocks
      = ∑ p ∈ w.liveBlocks, (w.ledger.blocks p).elim 0 weight := by
  rw [liveBlocks, Finset.sum_filter, blockSum]
  refine Finset.sum_congr rfl (fun p _ => ?_)
  cases known : w.ledger p <;> simp [Ledger.blocks, known]

/-- The difference of two 64-bit counters that is known modulo the word. -/
theorem counter_sub {a b n : Nat} (same : a % 2 ^ 64 = (b + n) % 2 ^ 64) (fits : n < 2 ^ 64)
    : (UInt64.ofNat a - UInt64.ofNat b).toNat = n := by
  rw [UInt64.toNat_sub, UInt64.toNat_ofNat', UInt64.toNat_ofNat']
  omega

/-- Statistics agree with the heap. In every counted run of a build with statistics, the
allocations less the deallocations are the number of live blocks; the bytes granted less the
bytes freed are the current usage, which is the sum of the lengths that `locate` reports for
the live blocks; the sheets acquired less the sheets released are the sheets of all regions;
and the usage was never clamped. All counters are words of 64 bits.
-/
theorem Tallied.statistics (tallied : Tallied ok w) (on : C.collectStats = true)
    : (UInt64.ofNat w.heap.stats.allocRequests
        - UInt64.ofNat w.heap.stats.deallocRequests).toNat = w.liveBlocks.card
      ∧ (UInt64.ofNat w.heap.stats.bytesGranted - UInt64.ofNat w.heap.stats.bytesFreed).toNat
        = w.heap.stats.currentUsage
      ∧ w.heap.stats.currentUsage = ∑ p ∈ w.liveBlocks, (w.heap.locate p).2.len
      ∧ (UInt64.ofNat w.heap.stats.sheetsAcquired
          - UInt64.ofNat w.heap.stats.sheetsReleased).toNat
        = ∑ i ∈ Finset.range w.heap.count, (w.heap.region i).tlsf.sheets.length
      ∧ w.heap.stats.clamps = 0
      ∧ ∀ p, p ∈ w.liveBlocks ↔ w.ledger p ≠ none := by
  obtain ⟨⟨⟨v, rep⟩, sane⟩, _, accounted⟩ := tallied.accounted on
  obtain ⟨requests, bytes, usage, clamps, sheets⟩ := accounted v _ rep
  have room := rep.blockBytes_lt
  have known : ∀ p ∈ w.liveBlocks, ∃ b, w.ledger.blocks p = some b := by
    intro p member
    obtain ⟨g, grant⟩ := Option.isSome_iff_exists.mp (Finset.mem_filter.mp member).2
    exact ⟨g.block, Ledger.blocks_eq_some.mpr ⟨g, grant, rfl⟩⟩
  have count : blockCount C w.ledger.blocks = w.liveBlocks.card := by
    rw [blockCount, sum_liveBlocks, Finset.card_eq_sum_ones]
    refine Finset.sum_congr rfl (fun p member => ?_)
    obtain ⟨b, block⟩ := known p member
    rw [block, Option.elim_some]
  have lengths : blockBytes C w.ledger.blocks = ∑ p ∈ w.liveBlocks, (w.heap.locate p).2.len := by
    rw [blockBytes, sum_liveBlocks]
    refine Finset.sum_congr rfl (fun p member => ?_)
    obtain ⟨b, block⟩ := known p member
    obtain ⟨i, less, _⟩ := rep.held_inside block
    have found := (rep.locate (rep.inited_of_count (by omega)) p).2
    rw [block, Option.elim_some, (found.held_len rep block).1]
  have fewer : blockCount C w.ledger.blocks ≤ blockBytes C w.ledger.blocks := by
    refine blockSum_le (fun p _ => ?_)
    cases block : w.ledger.blocks p with
    | none => exact le_rfl
    | some b =>
        obtain ⟨_, _, _, _, positive⟩ := rep.held_inside block
        exact positive
  have counted : ∀ i < w.heap.count,
      (w.heap.regions i).tlsf.count = (w.heap.region i).tlsf.sheets.length
        ∧ (w.heap.regions i).tlsf.count ≤ 64 := by
    intro i less
    have inv := (rep.regions i less).tlsf
    exact ⟨inv.counted, inv.budget.trans C.tlsf.maxSheets_range.2⟩
  have sheetSum : w.heap.sheetCount
      = ∑ i ∈ Finset.range w.heap.count, (w.heap.region i).tlsf.sheets.length :=
    Finset.sum_congr rfl (fun i inside => (counted i (Finset.mem_range.mp inside)).1)
  have fewSheets : w.heap.sheetCount < 2 ^ 64 := by
    have bound : w.heap.sheetCount ≤ ∑ i ∈ Finset.range w.heap.count, 64 :=
      Finset.sum_le_sum (fun i inside => (counted i (Finset.mem_range.mp inside)).2)
    rw [Finset.sum_const, Finset.card_range, smul_eq_mul] at bound
    have few := rep.few
    have regions := C.region_count.2
    omega
  refine ⟨?_, ?_, usage.trans lengths, ?_, clamps, fun p => ?_⟩
  · rw [← count]
    exact counter_sub requests (by omega)
  · rw [usage]
    exact counter_sub bytes room
  · rw [← sheetSum]
    exact counter_sub sheets fewSheets
  · rw [liveBlocks, Finset.mem_filter, Option.isSome_iff_ne_none, Finset.mem_range]
    refine ⟨And.right, fun live => ⟨?_, live⟩⟩
    obtain ⟨g, grant⟩ := Option.ne_none_iff_exists'.mp live
    have inside := (rep.held_lt (Ledger.blocks_eq_some.mpr ⟨g, grant, rfl⟩)).2
    omega

end Agreement

-----------------------------------------------------------------------------------------
-- A build with statistics
-----------------------------------------------------------------------------------------

section Counting

/-- A run of calls without a page source continues a counted run. -/
theorem Tallied.run {C : Config} {ok : Op → Prop} (none : ∀ l n, C.pageAlloc l n = .none)
    (ops : List Op)
    : ∀ {w w' : World C}, Tallied ok w →
      (∀ op ∈ ops, op.isPublic = true ∧ op ≠ .reset ∧ Calls op) → w.run ops = some w' →
      Tallied ok w' := by
  induction ops with
  | nil =>
      intro w w' tallied _ done
      cases done
      exact tallied
  | cons op ops ih =>
      intro w w' tallied calls done
      obtain ⟨w₁, first, rest⟩ := Option.bind_eq_some_iff.mp done
      obtain ⟨kind, counted, call⟩ := calls op (by simp)
      exact ih (.step tallied kind counted (call.allowed none w) first)
        (fun op member => calls op (by simp [member])) rest

/-- The bare build with statistics. -/
def countingBuild : Config := { bareBuild with collectStats := true }

/-- The counting build with one region. -/
def countingRegion : World countingBuild :=
  ⟨((HeapState.zero countingBuild (fun _ => ⟨0, 0⟩)).attach 4096 4224 0 0).1, fun _ => none⟩

theorem countingRegion_tallied
    : Tallied (fun op => op.isPublic = true) countingRegion.resetStats := by
  have reached : Reached (fun op => op.isPublic = true) countingRegion := by
    refine .step (w := ⟨HeapState.zero countingBuild (fun _ => ⟨0, 0⟩), fun _ => none⟩)
      (.start ?_ ?_) (rfl : (Op.attach 4096 4224 0 0).isPublic = true) ?_ rfl
    · exact ⟨fun _ _ _ same => (by cases same), fun _ _ same => (by cases same)⟩
    · exact fun a static => rfl
    · refine ⟨by decide +kernel, by decide +kernel, fun i less => ?_,
        fun wrong => (by cases wrong), fun wrong => (by cases wrong)⟩
      exact absurd less (Nat.not_lt_zero i)
  refine .start reached (fun _ => rfl) (fun i less => ?_)
  have zero : i = 0 := Nat.lt_one_iff.mp less
  rw [zero]
  decide +kernel

/-- The calls that grant three blocks, release one, resize one in place and then to a new place,
and pass on a pointer that starts no block.
-/
def countingCalls : List Op :=
  [.balloc 20, .balloc 200, .balloc 40, .dealloc 4272, .resize ⟨4320, 48⟩ 60 48 16,
    .resize ⟨4320, 64⟩ 100 64 16, .dealloc 77]

/-- The counting build after these calls. -/
def countingWorld : World countingBuild :=
  (countingRegion.resetStats.run countingCalls).getD countingRegion

theorem countingWorld_tallied : Tallied (fun op => op.isPublic = true) countingWorld := by
  have live : (countingRegion.resetStats.run countingCalls).isSome = true := by decide +kernel
  obtain ⟨w, done⟩ := Option.isSome_iff_exists.mp live
  rw [countingWorld, done, Option.getD_some]
  exact countingRegion_tallied.run (fun _ _ => rfl) countingCalls
    (by simp [countingCalls, Op.isPublic, Calls]) done

theorem Tallied.statistics_small
    : (UInt64.ofNat countingWorld.heap.stats.allocRequests
        - UInt64.ofNat countingWorld.heap.stats.deallocRequests).toNat
        = countingWorld.liveBlocks.card
      ∧ (UInt64.ofNat countingWorld.heap.stats.bytesGranted
          - UInt64.ofNat countingWorld.heap.stats.bytesFreed).toNat
        = countingWorld.heap.stats.currentUsage
      ∧ countingWorld.heap.stats.currentUsage
        = ∑ p ∈ countingWorld.liveBlocks, (countingWorld.heap.locate p).2.len
      ∧ (UInt64.ofNat countingWorld.heap.stats.sheetsAcquired
          - UInt64.ofNat countingWorld.heap.stats.sheetsReleased).toNat
        = ∑ i ∈ Finset.range countingWorld.heap.count,
          (countingWorld.heap.region i).tlsf.sheets.length
      ∧ countingWorld.heap.stats.clamps = 0
      ∧ ∀ p, p ∈ countingWorld.liveBlocks ↔ countingWorld.ledger p ≠ none :=
  countingWorld_tallied.statistics rfl

end Counting

end World

end Bbmalloc
