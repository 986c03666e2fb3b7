import Bbmalloc.Heap.Allocation
import Bbmalloc.Heap.Lookup
import Bbmalloc.Region.Statistics

/-! What the calls of the heap do to the statistics: like those of its regions, they count
sheets and nothing else that the public interface counts.
-/

namespace Bbmalloc

open Bbmalloc.Foundations

-----------------------------------------------------------------------------------------
-- Audits of the heap
-----------------------------------------------------------------------------------------

/-- The number of active sheets of all regions. -/
def HeapState.sheetCount {C : Config} (s : HeapState C) : Nat :=
  ∑ i ∈ Finset.range s.count, (s.regions i).tlsf.count

/-- How often the tiers of a region disagreed about a sheet. -/
def HeapState.rollbackCount {C : Config} (s : HeapState C) : Nat :=
  ∑ i ∈ Finset.range s.count, (s.regions i).rollbacks

/-- A heap call that does not touch the tally; unless two tiers disagreed about a sheet, the
sheet counters follow the number of sheets.
-/
structure HeapState.Audited {C : Config} (s t : HeapState C) : Prop where
  tally : s.stats.SameTally t.stats
  rollbacks : s.rollbackCount ≤ t.rollbackCount
  sheets : t.rollbackCount = s.rollbackCount →
    s.stats.SheetsFollow s.sheetCount t.stats t.sheetCount

namespace HeapState

section Audits

variable {C : Config} {s t u : HeapState C} {i : Nat}

/-- A sum over the regions after a call on one of them. -/
theorem sum_update {n : Nat} (less : i < n) (regions : Nat → Region) (r : Region)
    (f : Region → Nat)
    : ∑ j ∈ Finset.range n, f (Function.update regions i r j) + f (regions i)
      = ∑ j ∈ Finset.range n, f (regions j) + f r := by
  have member : i ∈ Finset.range n := Finset.mem_range.mpr less
  rw [← Finset.add_sum_erase _ _ member, ← Finset.add_sum_erase _ (fun j => f (regions j)) member]
  have rest : ∑ j ∈ (Finset.range n).erase i, f (Function.update regions i r j)
      = ∑ j ∈ (Finset.range n).erase i, f (regions j) := by
    refine Finset.sum_congr rfl (fun j inside => ?_)
    rw [Function.update_of_ne (Finset.ne_of_mem_erase inside)]
  rw [rest, Function.update_self]
  omega

/-- A sum over regions that are all in front of the changed one. -/
theorem sum_update_beyond {n : Nat} (beyond : n ≤ i) (regions : Nat → Region) (r : Region)
    (f : Region → Nat)
    : ∑ j ∈ Finset.range n, f (Function.update regions i r j)
      = ∑ j ∈ Finset.range n, f (regions j) := by
  refine Finset.sum_congr rfl (fun j inside => ?_)
  have less := Finset.mem_range.mp inside
  rw [Function.update_of_ne (by omega)]

theorem Audited.refl (s : HeapState C) : s.Audited s := ⟨.refl _, le_rfl, fun _ => rfl⟩

theorem Audited.trans (first : s.Audited t) (second : t.Audited u) : s.Audited u := by
  have up := first.rollbacks
  have more := second.rollbacks
  exact ⟨first.tally.trans second.tally, by omega, fun same =>
    (first.sheets (by omega)).trans (second.sheets (by omega))⟩

/-- A part that changes neither the regions nor the counters. -/
theorem Audited.of_same (stats : t.stats = s.stats) (regions : t.regions = s.regions)
    (count : t.count = s.count)
    : s.Audited t := by
  refine ⟨?_, ?_, fun _ => ?_⟩
  · rw [stats]
    exact .refl _
  · rw [rollbackCount, rollbackCount, regions, count]
  · rw [Stats.SheetsFollow, stats, sheetCount, sheetCount, regions, count]

/-- Counting something outside the tally. -/
theorem Audited.collect (s : HeapState C) {k : StatType} (n : Nat)
    (other : k = .requested ∨ k = .fallback ∨ k = .failure)
    : s.Audited (s.collect k n) := by
  have tally : s.stats.SameTally (s.stats.collect C.collectStats k n) := by
    refine .collect s.stats _ n ?_
    rcases other with rfl | rfl | rfl <;> exact ⟨nofun, nofun, nofun, nofun⟩
  refine ⟨tally, le_rfl, fun _ => ?_⟩
  change s.stats.SheetsFollow s.sheetCount (s.stats.collect C.collectStats k n) s.sheetCount
  rw [Stats.SheetsFollow]
  cases C.collectStats with
  | false => rfl
  | true => rcases other with rfl | rfl | rfl <;> rfl

/-- A call on one region is audited as the region audits it. -/
theorem Audited.setRegion (less : i < s.count) {r : RegionState C}
    (audited : (s.region i).Audited r)
    : s.Audited (s.setRegion i r) := by
  have sheets : (s.setRegion i r).sheetCount + (s.regions i).tlsf.count
      = s.sheetCount + r.tlsf.count :=
    sum_update less s.regions r.toRegion (fun r => r.tlsf.count)
  have rollbacks : (s.setRegion i r).rollbackCount + (s.regions i).rollbacks
      = s.rollbackCount + r.rollbacks :=
    sum_update less s.regions r.toRegion Region.rollbacks
  have more : (s.regions i).rollbacks ≤ r.rollbacks := audited.rollbacks
  refine ⟨audited.tally, by omega, fun same => ?_⟩
  have equal : r.rollbacks = (s.regions i).rollbacks := by omega
  have follow : s.stats.SheetsFollow (s.regions i).tlsf.count r.stats r.tlsf.count :=
    audited.sheets equal
  change s.stats.SheetsFollow s.sheetCount r.stats (s.setRegion i r).sheetCount
  unfold Stats.SheetsFollow at *
  omega

theorem Audited.onRegion {α : Type} (less : i < s.count) {f : RegionState C → RegionState C × α}
    (audited : ∀ r : RegionState C, r.Audited (f r).1)
    : s.Audited (s.onRegion i f).1 :=
  .setRegion less (audited _)

/-- The scan over the regions. -/
theorem tryFrom_audited {f : RegionState C → RegionState C × Chunk}
    (audited : ∀ r : RegionState C, r.Audited (f r).1) (k : Nat)
    : ∀ (i : Nat) (c : HeapState C × Chunk),
      i + k ≤ c.1.count → c.1.Audited (tryFrom f k i c).1 := by
  induction k with
  | zero => exact fun _ c _ => .refl c.1
  | succ k ih =>
      intro i c room
      rw [tryFrom]
      split
      · exact .refl c.1
      · exact Audited.trans (.onRegion (by omega) audited) (ih (i + 1) _ (by
          change i + 1 + k ≤ c.1.count
          omega))

end Audits

-----------------------------------------------------------------------------------------
-- New regions
-----------------------------------------------------------------------------------------

section Growth

variable {C : Config}

/-- A call on a region that is not attached yet changes no sum over the others. -/
theorem Audited.setBeyond (s : HeapState C) {r : RegionState C} (stats : r.stats = s.stats)
    : s.Audited (s.setRegion s.count r) := by
  have sheets : (s.setRegion s.count r).sheetCount = s.sheetCount :=
    sum_update_beyond le_rfl s.regions r.toRegion (fun r => r.tlsf.count)
  have rollbacks : (s.setRegion s.count r).rollbackCount = s.rollbackCount :=
    sum_update_beyond le_rfl s.regions r.toRegion Region.rollbacks
  refine ⟨?_, rollbacks.ge, fun _ => ?_⟩
  · change s.stats.SameTally r.stats
    rw [stats]
    exact .refl _
  · change s.stats.SheetsFollow s.sheetCount r.stats (s.setRegion s.count r).sheetCount
    rw [Stats.SheetsFollow, stats, sheets]

/-- One more region that has no sheet. -/
theorem Audited.widened {s t : HeapState C} (stats : t.stats = s.stats)
    (regions : t.regions = s.regions) (count : t.count = s.count + 1)
    (empty : (s.regions s.count).tlsf.count = 0)
    : s.Audited t := by
  have sheets : t.sheetCount = s.sheetCount := by
    rw [sheetCount, sheetCount, regions, count, Finset.sum_range_succ, empty, Nat.add_zero]
  refine ⟨?_, ?_, fun _ => ?_⟩
  · rw [stats]
    exact .refl _
  · rw [rollbackCount, rollbackCount, regions, count, Finset.sum_range_succ]
    omega
  · rw [Stats.SheetsFollow, stats, sheets]

/-- A new region has no sheets, and a refused one is not counted. -/
theorem attachPool_audited (s : HeapState C) (mem len tags cap : Nat) (zeroed : Bool)
    : s.Audited (s.attachPool mem len tags cap zeroed).1 := by
  obtain ⟨stats, rollbacks, fresh⟩ :=
    (s.region s.count).attach_counts mem len tags cap zeroed
  rw [attachPool]
  split
  · exact .refl s
  split
  · exact .refl s
  split
  · exact .refl s
  split
  · exact .refl s
  have beyond : s.Audited (s.onRegion s.count (fun r => r.attach mem len tags cap zeroed)).1 :=
    .setBeyond s stats
  have last : (s.onRegion s.count (fun r => r.attach mem len tags cap zeroed)).1.regions s.count
      = ((s.region s.count).attach mem len tags cap zeroed).1.toRegion :=
    Function.update_self _ _ _
  simp only
  split
  · exact beyond
  · next accepted =>
      have live : (s.onRegion s.count (fun r => r.attach mem len tags cap zeroed)).2 = true := by
        simpa using accepted
      refine beyond.trans (.widened rfl rfl rfl ?_)
      change ((s.onRegion s.count (fun r => r.attach mem len tags cap zeroed)).1.regions
        s.count).tlsf.count = 0
      rw [last]
      exact fresh live

theorem init_audited (s : HeapState C) : s.Audited s.init.1 := by
  rw [init]
  split
  · exact .refl s
  have pool : s.Audited ({ s with inited := true } : HeapState C).configuredPool.1 := by
    rw [configuredPool]
    split
    · exact .of_same rfl rfl rfl
    · exact .of_same rfl rfl rfl
    · exact .of_same rfl rfl rfl
    · exact .of_same rfl rfl rfl
  simp only
  split
  · exact pool.trans (attachPool_audited _ _ _ _ _ _)
  · exact pool

theorem ensure_audited (s : HeapState C) : s.Audited s.ensure.1 := by
  rw [ensure]
  split
  · exact .refl s
  · exact s.init_audited

theorem grow_audited (s : HeapState C) (bytes : Nat) : s.Audited (s.grow bytes).1 := by
  rw [grow]
  split
  · exact .refl s
  split
  · exact .refl s
  next growBytes _ _ =>
    have pages : s.Audited (s.growPool growBytes (growWant C bytes)).1 := by
      rw [growPool]
      simp only
      generalize (if growWant C bytes < growBytes then growBytes else growWant C bytes) = n
      generalize (if n > C.maxRegionBytes then C.maxRegionBytes else n) = m
      split
      · exact .refl s
      · exact .of_same rfl rfl rfl
    simp only
    split
    · exact pages
    · exact pages.trans (attachPool_audited _ _ _ _ _ _)

end Growth

-----------------------------------------------------------------------------------------
-- Allocation
-----------------------------------------------------------------------------------------

section Allocation

variable {C : Config} {s : HeapState C} {v : Nat → RegionView} {held : Nat → Option Block}

theorem allocScan_audited (s : HeapState C) (on : C.collectStats = true) (some : 0 < s.count)
    (n : Nat)
    : s.Audited (s.allocScan n).1 := by
  rw [allocScan]
  split
  · have first : s.Audited (s.onRegion 0 (fun r => r.smallAllocSlow n)).1 :=
      .onRegion some (fun r => r.smallAllocSlow_audited on n)
    have second := first.trans (tryFrom_audited (fun r => r.smallAlloc_audited on n) (s.count - 1) 1
      (s.onRegion 0 (fun r => r.smallAllocSlow n))
      (by change 1 + (s.count - 1) ≤ s.count; omega))
    simp only
    have count := tryFrom_count (fun r => r.smallAlloc n) (s.count - 1) 1
      (s.onRegion 0 (fun r => r.smallAllocSlow n))
    change _ = s.count at count
    generalize tryFrom (fun r => r.smallAlloc n) (s.count - 1) 1
      (s.onRegion 0 (fun r => r.smallAllocSlow n)) = c at second count ⊢
    split
    · exact second
    · have third := second.trans (Audited.collect c.1 0 (Or.inr (Or.inl rfl)))
      have fourth := third.trans (.onRegion (s := c.1.collect .fallback 0) (i := 0)
        (show 0 < c.1.count by omega) (fun r => r.largeAlloc_audited on n))
      exact fourth.trans (tryFrom_audited (fun r => r.largeAlloc_audited on n) (s.count - 1) 1 _
        (by change 1 + (s.count - 1) ≤ c.1.count; omega))
  · have first : s.Audited (s.onRegion 0 (fun r => r.largeAllocSlow n)).1 :=
      .onRegion some (fun r => r.largeAllocSlow_audited on n)
    exact first.trans (tryFrom_audited (fun r => r.largeAlloc_audited on n) (s.count - 1) 1
      (s.onRegion 0 (fun r => r.largeAllocSlow n))
      (by change 1 + (s.count - 1) ≤ s.count; omega))

/-- An empty heap is scanned without effect but the count of a fallback. -/
theorem allocScan_empty_audited (h : HeapInv s v held) (empty : s.count = 0) (n : Nat)
    : s.Audited (s.allocScan n).1 := by
  rw [h.allocScan_none empty]
  split
  · exact .collect s 0 (Or.inr (Or.inl rfl))
  · exact .refl s

/-- A region that is accepted is counted. -/
theorem attachPool_ready (s : HeapState C) (mem len tags cap : Nat) (zeroed : Bool)
    (accepted : (s.attachPool mem len tags cap zeroed).2 = true)
    : 0 < (s.attachPool mem len tags cap zeroed).1.count := by
  unfold attachPool at accepted ⊢
  split_ifs at accepted ⊢ with full wraps meets tags
  simp only at accepted ⊢
  split at accepted
  · next refused => simp [accepted] at refused
  · next taken =>
      rw [if_neg taken]
      exact Nat.succ_pos s.count

theorem grow_ready (s : HeapState C) (bytes : Nat) (grown : (s.grow bytes).2 = true)
    : 0 < (s.grow bytes).1.count := by
  rw [grow] at grown ⊢
  split at grown
  · cases grown
  · next growBytes known =>
      split at grown
      · cases grown
      · next room =>
          simp only at grown ⊢
          rw [if_neg room]
          split at grown
          · cases grown
          · next served =>
              rw [if_neg served]
              exact attachPool_ready _ _ _ _ _ _ grown

/-- A slow path is audited if its scans are: the first one of a heap that may be empty, the
others of heaps with a region.
-/
theorem slowWith_audited {scan : HeapState C → HeapState C × Chunk}
    (first : s.inited = true → s.Audited (scan s).1)
    (rest : ∀ t : HeapState C, 0 < t.count → t.Audited (scan t).1) (bytes : Nat)
    : s.Audited (s.slowWith scan bytes).1 := by
  have ready : s.Audited (if !s.inited then s.init else (s, true)).1
      ∧ ((if !s.inited then s.init else (s, true)).2 = true →
        (if !s.inited then s.init else (s, true)).1.Audited
          (scan (if !s.inited then s.init else (s, true)).1).1) := by
    by_cases inited : s.inited = true
    · simp only [inited, Bool.not_true, Bool.false_eq_true, if_false]
      exact ⟨.refl s, fun _ => first inited⟩
    · simp only [inited, Bool.not_false, if_true]
      exact ⟨s.init_audited, fun ready => rest _ (by
        rw [init_ready] at ready
        exact of_decide_eq_true ready)⟩
  rw [slowWith]
  generalize (if !s.inited then s.init else (s, true)) = c at ready ⊢
  obtain ⟨start, scanned⟩ := ready
  simp only
  split
  · exact start
  · next live =>
      have once := start.trans (scanned (by simpa using live))
      split
      · have grown := once.trans (grow_audited _ bytes)
        split
        · next more => exact grown.trans (rest _ (grow_ready _ _ more))
        · exact grown
      · exact once

/-- Requests count sheets only. -/
theorem alloc_audited (h : HeapInv s v held) (on : C.collectStats = true) (n : Nat)
    : s.Audited (s.alloc n).1 := by
  have slow : ∀ t : HeapState C, (t.inited = true → t.Audited (t.allocScan n).1) →
      t.Audited (t.allocSlow n).1 := by
    intro t first
    by_cases positive : 0 < n
    · rw [allocSlow_eq t positive]
      exact slowWith_audited first (fun u some => u.allocScan_audited on some n) n
    · rw [allocSlow, if_pos (by omega)]
      exact .refl t
  rw [alloc]
  split
  · next empty => exact slow s (fun _ => allocScan_empty_audited h empty n)
  · next some =>
      split
      · have first : s.Audited (s.onRegion 0 (fun r => r.tlsfAlloc n)).1 :=
          .onRegion (by omega) (fun r => r.tlsfAlloc_audited n)
        simp only
        split
        · exact first
        · exact first.trans (slow _ (fun _ => allocScan_audited _ on (by
            change 0 < s.count
            omega) n))
      · have first : s.Audited (s.onRegion 0 (fun r => r.buddyAlloc n)).1 :=
          .onRegion (by omega) (fun r => .setBuddy r _)
        simp only
        split
        · exact first
        · exact first.trans (slow _ (fun _ => allocScan_audited _ on (by
            change 0 < s.count
            omega) n))

/-- Requests with an alignment count sheets only. -/
theorem allocAligned_audited (h : HeapInv s v held) (on : C.collectStats = true) (n a : Nat)
    : s.Audited (s.allocAligned n a).1 := by
  have scan : ∀ t : HeapState C, t.Audited (t.allocAlignedScan n a).1 := fun t =>
    tryFrom_audited (fun r => r.largeAllocAligned_audited on n a) t.count 0 (t, .null)
      (by simp only; omega)
  have slow : ∀ t : HeapState C, t.Audited (t.allocAlignedSlow n a).1 := by
    intro t
    rw [allocAlignedSlow_eq]
    exact slowWith_audited (fun _ => scan t) (fun u _ => scan u) _
  rw [allocAligned]
  split
  · exact .refl s
  split
  · exact alloc_audited h on n
  split
  · exact slow s
  · next some =>
      have first : s.Audited (s.onRegion 0 (fun r => r.buddyAllocAligned n a)).1 :=
        .onRegion (by omega) (fun r => .setBuddy r _)
      simp only
      split
      · exact first
      · exact first.trans (slow _)

end Allocation

-----------------------------------------------------------------------------------------
-- The other calls
-----------------------------------------------------------------------------------------

section Calls

variable {C : Config} {s : HeapState C} {v : Nat → RegionView} {held : Nat → Option Block}
  {p : Nat} {l : Located}

/-- The release of a live block counts sheets only. -/
theorem release_audited (found : LocatedAt s v held p l) (on : C.collectStats = true)
    : s.Audited (s.release l p).1 := by
  cases found with
  | small less _ _ => exact .setRegion less (RegionState.smallFree_audited _ on _)
  | large less _ _ => exact .setRegion less (.setBuddy _ _)
  | @absent i _ => cases i <;> exact .refl s

/-- A block that shrinks counts nothing. -/
theorem shrinkAt_audited (found : LocatedAt s v held p l) (n : Nat)
    : s.Audited (s.shrinkAt l n).1 := by
  cases found with
  | small less _ _ => exact .setRegion less (.setTlsf (TlsfState.shrink_count _ _ _))
  | large less _ _ => exact .refl s
  | @absent i _ => cases i <;> exact .refl s

/-- A block that grows counts nothing. -/
theorem growAt_audited (found : LocatedAt s v held p l) (n : Nat)
    : s.Audited (s.growAt l p n).1 := by
  cases found with
  | small less _ _ =>
      simp only [growAt]
      split
      · exact .refl s
      · exact .setRegion less (.setTlsf (TlsfState.grow_count _ _ _))
  | large less _ _ => exact .setRegion less (.setBuddy _ _)
  | @absent i _ => cases i <;> exact .refl s

/-- The loop of `largest_free` flushes spare sheets. -/
theorem largestFrom_audited (on : C.collectStats = true) (k : Nat)
    : ∀ (i m : Nat) (s : HeapState C), i + k ≤ s.count → s.Audited (largestFrom k i m s).1 := by
  induction k with
  | zero => exact fun _ _ s _ => .refl s
  | succ k ih =>
      intro i m s room
      have first : s.Audited (s.onRegion i RegionState.largestFree).1 :=
        .onRegion (by omega) (fun r => r.largestFree_audited on)
      exact first.trans (ih (i + 1) _ _ (by
        change i + 1 + k ≤ s.count
        omega))

theorem largestFree_audited (s : HeapState C) (on : C.collectStats = true)
    : s.Audited s.largestFree.1 :=
  s.ensure_audited.trans (largestFrom_audited on s.ensure.1.count 0 0 s.ensure.1 (by omega))

end Calls

end HeapState

end Bbmalloc
