import Bbmalloc.Heap.Attaching
import Bbmalloc.Heap.Gauges
import Bbmalloc.Heap.Growth
import Bbmalloc.Heap.Placement

/-! Which requests add a region, read off the heap before the call: those that no attached region
is tried for with success, where growth gets pages that can be attached.
-/

namespace Bbmalloc

open Bbmalloc.Foundations

-----------------------------------------------------------------------------------------
-- The condition
-----------------------------------------------------------------------------------------

namespace HeapState

variable {C : Config}

/-- No attached region serves the request, or none is tried: a large request that finds the
heap never used passes by the region of the pool.
-/
def Skips (s : HeapState C) (n a : Nat) : Prop :=
  if a ≤ nativeAlignment then s.ensure.1.choice n = none ∨ s.inited = false ∧ ¬n ≤ C.classSmall
  else s.ensure.1.choiceAligned n a = none

/-- The request adds a region: the heap was used before or has a region from the pool, no
region serves the request, and `__grow` succeeds.
-/
def AddsRegion (s : HeapState C) (n a : Nat) : Prop :=
  (s.inited = true ∨ 0 < s.ensure.1.count) ∧ s.Skips n a
    ∧ (s.ensure.1.grow (growthFor C n a)).2 = true

/-- A region that is added for the request serves it: up to a gigabyte, a small request or one
to a heap that has a region; an alignment within the cap, and pages that hold an aligned block
where it is a gigabyte.
-/
def RegionServes (s : HeapState C) (growBytes n a : Nat) : Prop :=
  n ≤ 2 ^ 30
    ∧ if a ≤ nativeAlignment then n ≤ C.classSmall ∨ 0 < s.ensure.1.count
      else a ≤ C.maxAlignment
        ∧ (a < 2 ^ 30 ∨ a = 2 ^ 30 ∧ ∃ d,
          s.ensure.1.pagesFor growBytes (alignedGrowth C n a) = some d
            ∧ HoldsAligned C.buddy d.ptr d.len a)

/-- A call that adds a region returns a block, so one that is refused leaves the number of
regions and the total as they are.
-/
structure GrowthKept (s : HeapState C) (c : HeapState C × Chunk) : Prop where
  used : s.ensure.1.count < c.1.count → c.2.ptr ≠ 0
  refused : c.2.ptr = 0 → c.1.count = s.ensure.1.count ∧ c.1.total.2 = s.total.2

end HeapState

-----------------------------------------------------------------------------------------
-- Growth after a scan
-----------------------------------------------------------------------------------------

section Growing

variable {C : Config} {s t : HeapState C} {v w : Nat → RegionView} {held : Nat → Option Block}
  {n a i bytes : Nat} {scan : HeapState C → HeapState C × Chunk}

/-- Whether a range is accepted depends on the regions in use. -/
theorem HeapState.attachPool_congr {mem len tags cap : Nat} {z : Bool} (count : t.count = s.count)
    (same : ∀ i < s.count, ∀ lo len, (t.region i).overlaps lo len = (s.region i).overlaps lo len)
    : (t.attachPool mem len tags cap z).2 = (s.attachPool mem len tags cap z).2 := by
  have clear : ∀ lo len, t.clearOfAll lo len = s.clearOfAll lo len := by
    intro lo len
    rw [Bool.eq_iff_iff, clearOfAll, clearOfAll, count, List.all_eq_true, List.all_eq_true]
    simp only [List.mem_range]
    exact forall₂_congr (fun i less => by rw [same i less])
  rw [t.attachPool_eq, s.attachPool_eq]
  simp only [count, clear, tagsRefused]

/-- Growth succeeds after a quiet part exactly if it did before. -/
theorem Quiet.grow (h : HeapInv s v held) (quiet : Quiet s v held t w)
    : (t.grow bytes).2 = (s.grow bytes).2 := by
  have count := quiet.steady.count
  have overlaps : ∀ i < s.count, ∀ lo len,
      (t.region i).overlaps lo len = (s.region i).overlaps lo len := by
    intro i less lo len
    have live := (h.regions i less).live
    have live' := (quiet.step.inv.regions i (by rw [count]; exact less)).live
    have geo : (t.region i).buddy.toBuddyGeometry = (s.region i).buddy.toBuddyGeometry :=
      quiet.step.geo i less
    rw [RegionState.overlaps, RegionState.overlaps, live, live',
      congrArg BuddyGeometry.rawMem geo, congrArg BuddyGeometry.rawLen geo]
  unfold HeapState.grow
  cases C.growBytes with
  | none => rfl
  | some growBytes =>
      simp only [count, HeapState.growPool_congr quiet.steady.requests]
      split
      · rfl
      split
      · rfl
      obtain ⟨regions, counts⟩ := s.growPool_regions growBytes (HeapState.growWant C bytes)
      obtain ⟨regions', counts'⟩ := t.growPool_regions growBytes (HeapState.growWant C bytes)
      refine HeapState.attachPool_congr (by rw [counts, counts', count]) (fun i less lo len => ?_)
      rw [counts] at less
      have same := overlaps i less lo len
      simp only [RegionState.overlaps, HeapState.region, regions, regions'] at same ⊢
      exact same

/-- The call is the slow path of a scan on an initialised heap; the scan finds no block in the
attached regions exactly if `refuses`.
-/
inductive Routed {C : Config} (t : HeapState C) (held : Nat → Option Block) (bytes : Nat)
    (refuses : Prop) (c : HeapState C × Chunk)
    : Prop
  | slow {v : Nat → RegionView} {scan : HeapState C → HeapState C × Chunk} (inv : HeapInv t v held)
      (inited : t.inited = true) (pages : t.FreshPages) (call : c = t.slowWith scan bytes)
      (keeps : ∀ u, (scan u).1.count = u.count)
      (outcome : (scan t).2.ptr ≠ 0 ∧ ¬refuses
        ∨ ((scan t).2 = .null ∧ ∃ w, Quiet t v held (scan t).1 w) ∧ refuses)

/-- What such a call does: a scan that succeeds, or one that finds nothing, followed by growth
that fails or by growth and another scan.
-/
theorem Routed.cases {refuses : Prop} {c : HeapState C × Chunk}
    (routed : Routed t held bytes refuses c)
    : (¬refuses ∧ c.2.ptr ≠ 0 ∧ c.1.count = t.count)
      ∨ (refuses ∧ (t.grow bytes).2 = false ∧ c.1.count = t.count ∧ c.1.inited = true
        ∧ ∀ i < t.count, c.1.geo i = t.geo i)
      ∨ (refuses ∧ (t.grow bytes).2 = true ∧ c.1.count = t.count + 1) := by
  obtain @⟨v, scan, inv, inited, pages, call, keeps, outcome⟩ := routed
  rcases outcome with ⟨granted, found⟩ | ⟨⟨null, w, quiet⟩, refused⟩
  · rw [call, HeapState.slowWith_granted inited granted]
    exact Or.inl ⟨found, granted, keeps t⟩
  refine Or.inr ?_
  have turn : c = if ((scan t).1.grow bytes).2 then scan ((scan t).1.grow bytes).1
      else (((scan t).1.grow bytes).1, .null) := by
    simp only [call, HeapState.slowWith, inited, null, Chunk.null, Bool.not_true,
      Bool.false_eq_true, if_false, if_true]
  rw [turn, ← quiet.grow inv]
  have count := quiet.steady.count
  cases quiet.step.inv.grow (quiet.pages pages) bytes with
  | same no step same =>
      rw [if_neg (by simp [no])]
      refine Or.inl ⟨refused, no, same.trans count, step.inited (quiet.step.inited inited), ?_⟩
      intro i less
      rw [step.geo i (by rw [count]; exact less), quiet.step.geo i less]
  | added ok _ _ added _ =>
      rw [if_pos ok]
      exact Or.inr ⟨refused, ok, by rw [keeps, added, count]⟩

/-- It adds a region exactly if the scan finds nothing and growth succeeds. -/
theorem Routed.adds_iff {refuses : Prop} {c : HeapState C × Chunk}
    (routed : Routed t held bytes refuses c)
    : t.count < c.1.count ↔ refuses ∧ (t.grow bytes).2 = true := by
  rcases routed.cases with ⟨found, _, count⟩ | ⟨_, no, count, _⟩ | ⟨refused, ok, count⟩
  · exact iff_of_false (by omega) (fun both => found both.1)
  · exact iff_of_false (by omega) (by simp [no])
  · exact iff_of_true (by omega) ⟨refused, ok⟩

/-- If it is refused without a new region, the regions are what they were. -/
theorem Routed.refused_same {refuses : Prop} {c : HeapState C × Chunk}
    (routed : Routed t held bytes refuses c) (ready : t.inited = true) (null : c.2.ptr = 0)
    (same : ¬t.count < c.1.count)
    : c.1.count = t.count ∧ c.1.total.2 = t.total.2 := by
  rcases routed.cases with ⟨_, some, _⟩ | ⟨_, _, count, inited, geo⟩ | ⟨_, _, count⟩
  · exact absurd null some
  · obtain ⟨_, _, total⟩ := HeapState.gauges_ready ready
    obtain ⟨_, _, total'⟩ := HeapState.gauges_ready inited
    rw [total, total']
    refine ⟨count, ?_⟩
    exact HeapState.sumRegions_congr (f := fun r => r.buddy.total) (g := fun r => r.buddy.total)
      count (fun i less => congrArg BuddyGeometry.total (geo i less))
  · omega

end Growing

-----------------------------------------------------------------------------------------
-- The routes of a request
-----------------------------------------------------------------------------------------

section Requests

variable {C : Config} {s : HeapState C} {v : Nat → RegionView} {held : Nat → Option Block}
  {n a : Nat}

theorem HeapState.plainScan_count (s : HeapState C) (n : Nat)
    : (s.plainScan n).1.count = s.count := by
  rw [plainScan]
  split
  · simp only
    split
    · exact tryFrom_count _ _ _ _
    · exact (tryFrom_count _ _ _ _).trans (tryFrom_count _ _ _ _)
  · exact tryFrom_count _ _ _ _

/-- No region is chosen where there is none. -/
theorem HeapState.choice_empty (empty : s.count = 0) : s.choice n = none := by
  have unable : ∀ f, s.firstAble f = none := by
    intro f
    rw [firstAble, empty]
    rfl
  simp [choice, unable]

/-- A request to an initialised heap. -/
theorem HeapInv.alloc_routed (h : HeapInv s v held) (inited : s.inited = true)
    (fits : C.PoolFits) (supply : s.Supplied) (positive : 0 < n)
    : Routed s held n (s.choice n = none) (s.alloc n) := by
  by_cases some : n ≤ C.classSmall ∨ 0 < s.count
  · have plain : s.plainAlloc n = s.slowWith (fun s => s.plainScan n) n := if_neg (by omega)
    refine .slow h inited supply.now ((h.alloc_plain fits supply some).trans plain)
      (fun u => u.plainScan_count n) ?_
    rcases h.plainScan_choice positive with ⟨i, k, picked, chosen⟩ | ⟨none, null, quiet⟩
    · exact Or.inl ⟨chosen.notNull, by simp [picked]⟩
    · exact Or.inr ⟨⟨null, quiet⟩, none⟩
  · have empty : s.count = 0 := by omega
    obtain ⟨null, quiet⟩ := h.allocScan_empty empty n
    refine .slow h inited supply.now ?_ (fun u => u.allocScan_count n)
      (Or.inr ⟨⟨null, v, quiet⟩, HeapState.choice_empty empty⟩)
    rw [HeapState.alloc, if_pos empty, s.allocSlow_eq positive]

/-- An over-aligned request to an initialised heap. -/
theorem HeapInv.allocAlignedSlow_routed (h : HeapInv s v held) (inited : s.inited = true)
    (pages : s.FreshPages) (positive : 0 < n) (pow : isPow2 a = true)
    : Routed s held (HeapState.alignedGrowth C n a) (s.choiceAligned n a = none)
        (s.allocAlignedSlow n a) := by
  refine .slow h inited pages (s.allocAlignedSlow_eq n a)
    (fun u => HeapState.tryFrom_count _ _ _ _) ?_
  rcases h.scan_choice (t := .buddy) (fun region => region.largeAllocAligned_room positive pow)
    (fun _ suits _ => suits.in_blocks) with ⟨i, first, chosen⟩ | ⟨none, null, quiet⟩
  · exact Or.inl ⟨chosen.notNull, by simp [HeapState.choiceAligned, first]⟩
  · exact Or.inr ⟨⟨null, quiet⟩, by simp [HeapState.choiceAligned, none]⟩

/-- The first request of a heap: the slow path of the heap that `init` leaves, which for a large
request does not look at its one region.
-/
theorem HeapInv.first_routed (h : HeapInv s v held) (fresh : s.inited = false)
    (fits : C.PoolFits) (supply : s.Supplied) (positive : 0 < n) (some : 0 < s.init.1.count)
    : Routed s.init.1 held n (s.init.1.choice n = none ∨ ¬n ≤ C.classSmall) (s.alloc n) := by
  obtain ⟨first, ok⟩ := h.init_first fresh fits supply.now
  have pages := supply.afterInit fresh
  have route : s.init.1.inited = true → s.alloc n = s.init.1.allocSlow n := by
    intro inited
    rw [HeapState.alloc, if_pos (h.ready fresh), s.allocSlow_eq positive,
      HeapState.slowWith_init fresh inited, ok, if_pos (by simpa using some),
      s.init.1.allocSlow_eq positive]
  generalize s.init.1 = t at first pages route some ⊢
  cases first with
  | empty _ _ _ count _ => omega
  | region _ inv inited count _ region =>
      rw [route inited]
      by_cases small : n ≤ C.classSmall
      · have supply' : t.Supplied := ⟨pages, fun not => by rw [inited] at not; cases not⟩
        rw [← HeapState.alloc_slow count region positive (Or.inl small)]
        simpa [small] using inv.alloc_routed inited fits supply' positive
      · have scan : t.allocScan n = (t, .null) := by
          rw [HeapState.allocScan_behind small region.noSpare, count]
          rfl
        refine .slow inv inited pages (t.allocSlow_eq positive) (fun u => u.allocScan_count n)
          (Or.inr ⟨?_, Or.inr small⟩)
        rw [scan]
        exact ⟨rfl, _, .refl inv⟩

/-- The routes of a native request are those of `alloc`. -/
theorem HeapState.allocAligned_native (s : HeapState C) (positive : 0 < n) (pow : isPow2 a = true)
    (native : a ≤ nativeAlignment)
    : s.allocAligned n a = s.alloc n := by
  rw [allocAligned, if_neg (by simp [pow, show n ≠ 0 by omega]), if_pos native]

/-- After `__ensure` the heap is initialised. -/
theorem HeapInv.ensure_inited (h : HeapInv s v held) (fits : C.PoolFits) (supply : s.Supplied)
    : s.ensure.1.inited = true := by
  cases inited : s.inited with
  | true => rwa [HeapState.ensure, if_pos inited]
  | false =>
      rw [HeapState.ensure, if_neg (by simp [inited])]
      exact (h.init_first inited fits supply.now).1.ready

/-- A request to a heap that cannot be used, or the route of a request. -/
theorem HeapInv.request_routed (h : HeapInv s v held) (fits : C.PoolFits) (supply : s.Supplied)
    (positive : 0 < n) (pow : isPow2 a = true)
    : (¬(s.inited = true ∨ 0 < s.ensure.1.count) ∧ s.allocAligned n a = (s.ensure.1, .null))
      ∨ (s.inited = true ∨ 0 < s.ensure.1.count)
        ∧ Routed s.ensure.1 held (growthFor C n a) (s.Skips n a) (s.allocAligned n a) := by
  have beyond : ¬a ≤ nativeAlignment → s.allocAligned n a = s.allocAlignedSlow n a := by
    intro above
    rw [h.allocAligned_plain fits supply (Or.inr (Or.inr (by omega))),
      HeapState.plainAllocAligned, if_neg (by simp [pow, show n ≠ 0 by omega]), if_neg above]
  cases inited : s.inited with
  | true =>
      have same : s.ensure.1 = s := by
        rw [HeapState.ensure, if_pos inited]
      refine Or.inr ⟨Or.inl rfl, ?_⟩
      rw [same, growthFor, HeapState.Skips, same]
      by_cases native : a ≤ nativeAlignment
      · rw [if_pos native, if_pos native, s.allocAligned_native positive pow native]
        simpa [inited] using h.alloc_routed inited fits supply positive
      · rw [if_neg native, if_neg native, beyond native]
        exact h.allocAlignedSlow_routed inited supply.now positive pow
  | false =>
      have same : s.ensure.1 = s.init.1 := by
        rw [HeapState.ensure, if_neg (by simp [inited])]
      obtain ⟨first, ok⟩ := h.init_first inited fits supply.now
      have ready := h.ensure_inited fits supply
      rw [same] at ready
      have route : ∀ (scan : HeapState C → HeapState C × Chunk) bytes, s.slowWith scan bytes
          = if 0 < s.init.1.count then s.init.1.slowWith scan bytes else (s.init.1, .null) := by
        intro scan bytes
        rw [HeapState.slowWith_init inited ready, ok]
        simp only [decide_eq_true_eq]
      rw [same]
      by_cases some : 0 < s.init.1.count
      · refine Or.inr ⟨Or.inr some, ?_⟩
        rw [growthFor, HeapState.Skips, same]
        by_cases native : a ≤ nativeAlignment
        · rw [if_pos native, if_pos native, s.allocAligned_native positive pow native]
          simpa [inited] using h.first_routed inited fits supply positive some
        · obtain ⟨w, inv⟩ : ∃ w, HeapInv s.init.1 w held := by
            cases first with
            | region _ inv _ _ _ _ => exact ⟨_, inv⟩
            | empty _ inv _ _ _ => exact ⟨_, inv⟩
          rw [if_neg native, if_neg native, beyond native, s.allocAlignedSlow_eq, route,
            if_pos some]
          exact inv.allocAlignedSlow_routed ready (supply.afterInit inited) positive pow
      · refine Or.inl ⟨by simp [some], ?_⟩
        by_cases native : a ≤ nativeAlignment
        · rw [s.allocAligned_native positive pow native, HeapState.alloc,
            if_pos (h.ready inited), s.allocSlow_eq positive, route, if_neg some]
        · rw [beyond native, s.allocAlignedSlow_eq, route, if_neg some]

/-- A region that is added for a request serves it exactly if it can. -/
theorem HeapInv.request_served {growBytes : Nat} (h : HeapInv s v held) (fits : C.PoolFits)
    (supply : s.Supplied) (enough : C.PagesSuffice) (growable : C.growBytes = some growBytes)
    (positive : 0 < n) (pow : isPow2 a = true)
    (more : s.ensure.1.count < (s.allocAligned n a).1.count)
    : (s.allocAligned n a).2.ptr ≠ 0 ↔ s.RegionServes growBytes n a := by
  rw [HeapState.RegionServes]
  by_cases native : a ≤ nativeAlignment
  · rw [s.allocAligned_native positive pow native] at more ⊢
    rw [if_pos native]
    rcases h.alloc_grew fits supply growable positive more with
      ⟨place, d, grew, used⟩ | ⟨misplaced, null⟩
    · rw [used, grew.grown.order_iff (enough.pagesFor grew.asked) positive, and_iff_left place]
    · exact iff_of_false (fun some => some null) (fun both => misplaced both.2)
  · obtain ⟨d, grew, used⟩ :=
      h.allocAligned_grew fits supply growable positive pow (by omega) more
    rw [if_neg native, used, grew.grown.aligned_iff (enough.pagesFor grew.asked) positive pow]
    simp only [grew.asked, Option.some.injEq, exists_eq_left']

/-- Growth is kept exactly if a region that the request adds would serve it. -/
theorem HeapInv.growthKept_iff {growBytes : Nat} (h : HeapInv s v held) (fits : C.PoolFits)
    (supply : s.Supplied) (enough : C.PagesSuffice) (growable : C.growBytes = some growBytes)
    (positive : 0 < n) (pow : isPow2 a = true)
    : s.GrowthKept (s.allocAligned n a) ↔ (s.AddsRegion n a → s.RegionServes growBytes n a) := by
  have served := h.request_served fits supply enough growable positive pow
  have ensured := h.ensure_inited fits supply
  have total : s.ensure.1.total.2 = s.total.2 := by
    rw [HeapState.total, HeapState.total, HeapState.ensure, if_pos ensured]
  rcases h.request_routed fits supply positive pow with ⟨unready, call⟩ | ⟨ready, routed⟩
  · rw [call]
    exact iff_of_true ⟨fun more => absurd more (lt_irrefl _), fun _ => ⟨rfl, total⟩⟩
      (fun added => absurd added.1 unready)
  · have adds : s.ensure.1.count < (s.allocAligned n a).1.count ↔ s.AddsRegion n a := by
      rw [routed.adds_iff, HeapState.AddsRegion, and_iff_right ready]
    constructor
    · rintro ⟨used, -⟩ added
      have more := adds.mpr added
      exact (served more).mp (used more)
    · intro fit
      have used : s.ensure.1.count < (s.allocAligned n a).1.count →
          (s.allocAligned n a).2.ptr ≠ 0 := fun more => (served more).mpr (fit (adds.mp more))
      refine ⟨used, fun null => ?_⟩
      rw [← total]
      exact routed.refused_same ensured null (fun more => used more null)

end Requests

end Bbmalloc
