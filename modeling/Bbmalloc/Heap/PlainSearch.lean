import Bbmalloc.Heap.Allocation

/-! The fast paths of `alloc` and `alloc_aligned` try region 0 first and let the slow path
leave out what has just failed. The plain search does without them: it takes one region after
the other from the first on, each with its whole allocation path. Both end in the same state.
-/

namespace Bbmalloc

open Bbmalloc.Foundations

-----------------------------------------------------------------------------------------
-- Buddy lists that are at their end
-----------------------------------------------------------------------------------------

/-- No order from `o` on is listed, and the cache is empty: an allocation does nothing. -/
def BuddyList.Exhausted (b : BuddyList) (o : Nat) : Prop :=
  b.maxOrder ≤ o ∨ (∀ i, b.cacheHead i = 0 ∧ b.cacheCount i = 0) ∧ b.freeMask >>> o = 0

section Exhausted

variable {P : BuddyParams} {s : BuddyState P} {v : BuddyView} {o : Nat}

/-- Flushing an empty cache does nothing. -/
theorem BuddyState.flushFrom_empty (empty : ∀ i, s.cacheHead i = 0 ∧ s.cacheCount i = 0)
    (count : Nat)
    : ∀ o, s.flushFrom count o = s := by
  induction count with
  | zero => exact fun _ => rfl
  | succ count ih =>
      intro o
      have order : s.flushOrder o 256 = s := by
        rw [flushOrder, if_neg (by simp [(empty o).1])]
      have counts : Function.update s.cacheCount o 0 = s.cacheCount := by
        rw [← (empty o).2, Function.update_eq_self]
      rw [flushFrom]
      simp only [order, counts]
      exact ih (o + 1)

theorem BuddyState.allocateOrder_exhausted (exhausted : s.toBuddyList.Exhausted o)
    : s.allocateOrder o = (s, .null) := by
  rw [allocateOrder]
  rcases exhausted with high | ⟨empty, none⟩
  · rw [if_pos high]
  · have top : s.findFreeOrder o = s.maxOrder := by
      rw [findFreeOrder]
      simp [none]
    have flushed : s.flushCache = s := by
      rw [flushCache]
      split
      · exact flushFrom_empty empty _ _
      · rfl
    split
    · rfl
    · rw [if_neg (by simp [(empty o).1])]
      simp only [top, flushed, ge_iff_le, le_refl, if_true]

/-- A refused allocation leaves a list that is at its end. -/
theorem BuddyInv.exhausted (h : BuddyInv s v) (refused : (s.allocateOrder o).2 = .null)
    : (s.allocateOrder o).1.toBuddyList.Exhausted o := by
  have mask : ∀ {t : BuddyState P} {w : BuddyView}, BuddyInv t w →
      (∀ i, o ≤ i → w.lists i = []) → t.freeMask >>> o = 0 := by
    intro t w inv empty
    refine Nat.eq_of_testBit_eq (fun i => ?_)
    rw [Nat.testBit_shiftRight, Nat.zero_testBit, Bool.eq_false_iff]
    exact fun set => (inv.mask (o + i)).mp set (empty _ (Nat.le_add_right _ _))
  unfold BuddyState.allocateOrder at refused ⊢
  by_cases high : o ≥ s.maxOrder
  · rw [if_pos high]
    exact Or.inl high
  rw [if_neg high] at refused ⊢
  by_cases hit : BuddyState.cacheable P o && decide (s.cacheHead o ≠ 0)
  · rw [if_pos hit] at refused
    have live : s.cacheHead o ≠ 0 := by simpa using ((Bool.and_eq_true _ _).mp hit).2
    exact absurd (congrArg Chunk.ptr refused) live
  rw [if_neg hit] at refused ⊢
  simp only at refused ⊢
  have taken : ∀ {t : BuddyState P} {w : BuddyView} {i : Nat}, BuddyInv t w → w.lists i ≠ [] →
      o ≤ i → (t.takeOrder i o).2 ≠ .null := by
    intro t w i inv some le null
    obtain ⟨x, _, chunk, _⟩ := inv.takeOrder some le
    have := inv.rep.geometry.base_pos
    rw [null] at chunk
    have := congrArg Chunk.ptr chunk
    simp only [Chunk.null] at this
    omega
  rcases BuddyState.findFreeOrder_spec h.rep h.mask (o := o) with ⟨top, _⟩ | ⟨le, lt, some⟩
  · rw [if_pos (by omega)] at refused ⊢
    obtain ⟨w, inv, _, cached⟩ := h.flushCache
    rcases BuddyState.findFreeOrder_spec inv.rep inv.mask (o := o) with
      ⟨top', none'⟩ | ⟨le', lt', some'⟩
    · rw [if_pos (by omega)]
      refine Or.inr ⟨fun i => ⟨(inv.rep.cache i).front_null.mpr (cached i), ?_⟩, mask inv none'⟩
      have count := (inv.counts i).1
      rw [cached i] at count
      exact count
    · rw [if_neg (by omega)] at refused
      exact absurd refused (taken inv some' le')
  · rw [if_neg (by omega)] at refused
    exact absurd refused (taken h some le)

end Exhausted

-----------------------------------------------------------------------------------------
-- Regions that have refused a request
-----------------------------------------------------------------------------------------

section Regions

variable {C : Config} {r : RegionState C} {v : RegionView} {n a o : Nat}

/-- Sheets that have no block to offer are left alone. -/
theorem RegionInv.tlsfAlloc_none (h : RegionInv r v)
    (none : ¬v.tlsf.Offers C.tlsf (TlsfState.adjusted C.tlsf n))
    : r.tlsfAlloc n = (r, .null) := by
  rcases h.tlsf.allocate (r.tlsfState.allocate_narrow C.sheet_narrow n) with
      ⟨_, _, _, _, _, offers, _⟩ | ⟨refused, _⟩
  · exact absurd offers none
  · simp only [RegionState.tlsfAlloc, refused]
    rfl

theorem RegionState.buddyAlloc_exhausted (positive : 0 < n)
    (exhausted : r.buddy.Exhausted (C.buddy.orderForSize n))
    : r.buddyAlloc n = (r, .null) := by
  have refused : r.buddyState.allocateOrder (C.buddy.orderForSize n) = (r.buddyState, .null) :=
    BuddyState.allocateOrder_exhausted exhausted
  rw [r.buddyAlloc_eq positive]
  simp only [orderAlloc, refused]
  rfl

/-- The slow path of a region at its end leaves it there, if it finds nothing. -/
theorem RegionInv.largeAllocSlow_exhausted (h : RegionInv r v) (positive : 0 < n)
    (before : r.buddy.Exhausted (C.buddy.orderForSize n))
    (refused : (r.largeAllocSlow n).2 = .null)
    : (r.largeAllocSlow n).1.buddy.Exhausted (C.buddy.orderForSize n) := by
  unfold RegionState.largeAllocSlow at refused ⊢
  split
  · exact before
  · next retry =>
      rw [if_neg retry] at refused
      obtain ⟨w, flushed, _⟩ := h.flushSpare_unchanged
      rw [RegionState.buddyAlloc_eq _ positive] at refused ⊢
      exact flushed.step.inv.buddy.exhausted refused

/-- The whole path of a region whose first attempt does nothing is its slow path. -/
theorem RegionState.smallAlloc_slow (refused : r.tlsfAlloc n = (r, .null))
    : r.smallAlloc n = r.smallAllocSlow n := by
  have same : r.setTlsf (r.tlsfState.allocateNarrow C.sheet_narrow n).1 = r :=
    congrArg Prod.fst refused
  have null : (r.tlsfState.allocateNarrow C.sheet_narrow n).2 = .null := congrArg Prod.snd refused
  rw [smallAlloc]
  simp only [same, null, Chunk.null, if_true]

theorem RegionState.largeAlloc_slow (refused : r.buddyAlloc n = (r, .null))
    : r.largeAlloc n = r.largeAllocSlow n := by
  rw [largeAlloc]
  simp only [refused, Chunk.null, if_true]

/-- The whole path of a region whose first attempt succeeds is that attempt. -/
theorem RegionState.smallAlloc_fast (granted : (r.tlsfAlloc n).2.ptr ≠ 0)
    : r.smallAlloc n = r.tlsfAlloc n :=
  if_neg granted

theorem RegionState.largeAlloc_fast (granted : (r.buddyAlloc n).2.ptr ≠ 0)
    : r.largeAlloc n = r.buddyAlloc n :=
  if_neg granted

theorem RegionState.largeAllocAligned_fast (granted : (r.buddyAllocAligned n a).2.ptr ≠ 0)
    : r.largeAllocAligned n a = r.buddyAllocAligned n a := by
  rw [largeAllocAligned]
  simp [granted]

/-- A first attempt that fails may be left out or repeated. -/
theorem RegionInv.largeAlloc_again (h : RegionInv r v) (positive : 0 < n)
    (refused : (r.buddyAlloc n).2 = .null)
    : (r.buddyAlloc n).1.buddy.Exhausted (C.buddy.orderForSize n)
        ∧ (r.buddyAlloc n).1.largeAlloc n = r.largeAlloc n := by
  rw [r.buddyAlloc_eq positive] at refused
  have exhausted := h.buddy.exhausted refused
  have again := RegionState.buddyAlloc_exhausted (r := (r.orderAlloc (C.buddy.orderForSize n)).1)
    positive exhausted
  rw [r.buddyAlloc_eq positive]
  refine ⟨exhausted, ?_⟩
  rw [RegionState.largeAlloc_slow again, RegionState.largeAlloc, r.buddyAlloc_eq positive]
  simp only [refused, Chunk.null, if_true]

theorem RegionInv.buddyAllocAligned_null (h : RegionInv r v)
    (none : (r.buddyAllocAligned n a).2.ptr = 0)
    : (r.buddyAllocAligned n a).2 = .null := by
  simp only [RegionState.buddyAllocAligned, BuddyState.allocateAligned] at none ⊢
  split
  · rfl
  · next valid =>
      rw [if_neg valid] at none
      split
      · rfl
      · next low =>
          rw [if_neg low] at none
          obtain ⟨_, ⟨x, chunk, _⟩ | ⟨null, _⟩⟩ :=
            h.buddy.allocateOrder (BuddyState.alignedOrder C.buddy n a)
          · rw [chunk] at none
            have := h.buddy.rep.geometry.base_pos
            simp only at none
            omega
          · exact null

theorem RegionInv.largeAllocAligned_again (h : RegionInv r v)
    (refused : (r.buddyAllocAligned n a).2 = .null)
    : (r.buddyAllocAligned n a).1.largeAllocAligned n a = r.largeAllocAligned n a := by
  have again : (r.buddyAllocAligned n a).1.buddyAllocAligned n a
      = ((r.buddyAllocAligned n a).1, .null) := by
    simp only [RegionState.buddyAllocAligned] at refused ⊢
    have buddy : (r.setBuddy (r.buddyState.allocateAligned n a).1).buddyState
        = (r.buddyState.allocateAligned n a).1 := rfl
    rw [buddy]
    have twice : ((r.buddyState.allocateAligned n a).1).allocateAligned n a
        = ((r.buddyState.allocateAligned n a).1, .null) := by
      have step := h.buddy.allocateOrder (BuddyState.alignedOrder C.buddy n a)
      unfold BuddyState.allocateAligned at refused ⊢
      split
      · rfl
      · next valid =>
          rw [if_neg valid] at refused
          split
          · rfl
          · next low =>
              rw [if_neg low] at refused
              obtain ⟨_, ⟨_, _, _, step⟩ | ⟨_, _, step⟩⟩ := step
              all_goals
                rw [if_neg (by rw [congrArg BuddyGeometry.baseAlign step.geometry]; exact low)]
                exact BuddyState.allocateOrder_exhausted (h.buddy.exhausted refused)
    rw [twice]
    rfl
  rw [RegionState.largeAllocAligned, again]
  conv_rhs => rw [RegionState.largeAllocAligned]
  simp only [refused]
  split
  · rfl
  · exact Prod.ext rfl refused.symm

end Regions

-----------------------------------------------------------------------------------------
-- The plain search
-----------------------------------------------------------------------------------------

namespace HeapState

variable {C : Config}

/-- The plain search: each region from the first on, with its whole path. -/
def plainScan (h : HeapState C) (n : Nat) : HeapState C × Chunk :=
  if n ≤ C.classSmall then
    let c := tryFrom (fun r => r.smallAlloc n) h.count 0 (h, .null)
    if c.2.ptr ≠ 0 then c
    else tryFrom (fun r => r.largeAlloc n) h.count 0 (c.1.collect .fallback 0, .null)
  else tryFrom (fun r => r.largeAlloc n) h.count 0 (h, .null)

/-- `alloc` without its fast path. -/
def plainAlloc (h : HeapState C) (n : Nat) : HeapState C × Chunk :=
  if n = 0 then (h, .null) else h.slowWith (fun s => s.plainScan n) n

/-- `alloc_aligned` without its fast path. -/
def plainAllocAligned (h : HeapState C) (n alignment : Nat) : HeapState C × Chunk :=
  if n = 0 || !isPow2 alignment then (h, .null)
  else if alignment ≤ nativeAlignment then h.plainAlloc n
  else h.allocAlignedSlow n alignment

end HeapState

section Search

variable {C : Config} {s : HeapState C} {v : Nat → RegionView} {held : Nat → Option Block}
  {n a i j : Nat} {f g : RegionState C → RegionState C × Chunk}

theorem HeapState.onRegion_congr (same : f (s.region i) = g (s.region i))
    : s.onRegion i f = s.onRegion i g := by
  simp only [onRegion, same]

/-- A search begins with the first region, if there is one. -/
theorem HeapState.tryFrom_first {count : Nat} (some : 0 < count)
    : tryFrom f count 0 (s, .null) = tryFrom f (count - 1) 1 (s.onRegion 0 f) := by
  obtain ⟨k, rfl⟩ := Nat.exists_eq_succ_of_ne_zero (Nat.ne_of_gt some)
  rw [tryFrom, if_neg (by simp [Chunk.null])]
  rfl

/-- A search leaves the regions before it alone. -/
theorem HeapState.tryFrom_before (k : Nat)
    : ∀ (i : Nat) (c : HeapState C × Chunk), j < i →
      (tryFrom f k i c).1.regions j = c.1.regions j := by
  induction k with
  | zero => exact fun _ _ _ => rfl
  | succ k ih =>
      intro i c less
      rw [tryFrom]
      split
      · rfl
      · rw [ih (i + 1) _ (by omega)]
        exact Function.update_of_ne (Nat.ne_of_lt less) _ _

/-- What the slow path takes for granted: region 0 has nothing left for the request at the first
attempt of its path.
-/
def Settled (n : Nat) (s : HeapState C) (v : Nat → RegionView) : Prop :=
  ScanReady C n s.count v
  ∧ (¬n ≤ C.classSmall → 0 < s.count ∧ (s.regions 0).buddy.Exhausted (C.buddy.orderForSize n))

/-- The slow path takes up where the fast path stopped. -/
theorem HeapInv.allocScan_plain (h : HeapInv s v held) (positive : 0 < n)
    (settled : Settled n s v)
    : s.allocScan n = s.plainScan n := by
  by_cases small : n ≤ C.classSmall
  · rcases Nat.eq_zero_or_pos s.count with empty | some
    · rw [h.allocScan_none empty, HeapState.plainScan, if_pos small, if_pos small, empty]
      rfl
    · rw [HeapState.allocScan, HeapState.plainScan, if_pos small, if_pos small]
      have first : s.onRegion 0 (fun r => r.smallAllocSlow n)
          = s.onRegion 0 (fun r => r.smallAlloc n) :=
        HeapState.onRegion_congr (RegionState.smallAlloc_slow
          ((h.regions 0 some).tlsfAlloc_none (settled.1 small some))).symm
      rw [first, HeapState.tryFrom_first some]
      simp only
      split
      · rfl
      · rw [HeapState.tryFrom_first some]
  · obtain ⟨some, exhausted⟩ := settled.2 small
    rw [HeapState.allocScan, HeapState.plainScan, if_neg small, if_neg small,
      HeapState.tryFrom_first some]
    have first : s.onRegion 0 (fun r => r.largeAllocSlow n)
        = s.onRegion 0 (fun r => r.largeAlloc n) :=
      HeapState.onRegion_congr (RegionState.largeAlloc_slow
        (RegionState.buddyAlloc_exhausted positive exhausted)).symm
    rw [first]

/-- A scan that finds nothing leaves region 0 as it should be for the next one. -/
theorem HeapInv.allocScan_settled (h : HeapInv s v held) (positive : 0 < n)
    (settled : Settled n s v) (refused : (s.allocScan n).2.ptr = 0)
    : ∃ v', Quiet s v held (s.allocScan n).1 v' ∧ Settled n (s.allocScan n).1 v' := by
  rcases h.allocScan_again positive settled.1 with granted | ⟨v', null, quiet, again⟩
  · exact absurd refused granted.notNull
  refine ⟨v', quiet, by rwa [quiet.steady.count], fun large => ?_⟩
  obtain ⟨some, exhausted⟩ := settled.2 large
  refine ⟨by rwa [quiet.steady.count], ?_⟩
  rw [HeapState.allocScan, if_neg large] at refused ⊢
  have null₀ : ((s.region 0).largeAllocSlow n).2 = .null := by
    rcases (h.regions 0 some).largeAllocSlow positive with granted | ⟨⟨null, _⟩, _⟩
    · have live := granted.live (h.regions 0 some)
      simp only at refused
      rw [HeapState.tryFrom_done live] at refused
      exact absurd refused live
    · exact null
  simp only
  rw [HeapState.tryFrom_before _ _ _ (by omega)]
  have after := (h.regions 0 some).largeAllocSlow_exhausted positive exhausted null₀
  simpa only [HeapState.onRegion, HeapState.setRegion, Function.update_self] using after

/-- So does growth. -/
theorem Settled.grow {u : RegionView} {s' : HeapState C} (settled : Settled n s v)
    (empty : u.tlsf = TlsfView.empty) (count : s'.count = s.count + 1)
    (before : ∀ i < s.count, s'.regions i = s.regions i)
    : Settled n s' (Function.update v s.count u) := by
  refine ⟨?_, fun large => ?_⟩
  · rw [count]
    exact settled.1.add empty
  · obtain ⟨some, exhausted⟩ := settled.2 large
    rw [count, before 0 some]
    exact ⟨by omega, exhausted⟩

end Search

-----------------------------------------------------------------------------------------
-- The two searches agree
-----------------------------------------------------------------------------------------

section Agreement

variable {C : Config} {s s' : HeapState C} {v : Nat → RegionView} {held : Nat → Option Block}
  {n a bytes : Nat} {scan scan' : HeapState C → HeapState C × Chunk}
  {P : HeapState C → (Nat → RegionView) → Prop}

/-- The slow paths of two scans that agree, by their turns: a scan, and one more after growth. -/
theorem HeapInv.slowWith_congr (h : HeapInv s v held) (fits : C.PoolFits) (supply : s.Supplied)
    (pre : P s v)
    (agree : ∀ {t : HeapState C} {w : Nat → RegionView}, HeapInv t w held → P t w →
      scan t = scan' t)
    (again : ∀ {t : HeapState C} {w : Nat → RegionView}, HeapInv t w held → P t w →
      (scan t).2.ptr = 0 → ∃ w', Quiet t w held (scan t).1 w' ∧ P (scan t).1 w')
    (grown : ∀ {t t' : HeapState C} {w : Nat → RegionView} {u : RegionView}, P t w →
      u.tlsf = TlsfView.empty → t'.count = t.count + 1 →
      (∀ i < t.count, t'.regions i = t.regions i) → P t' (Function.update w t.count u))
    : s.slowWith scan bytes = s.slowWith scan' bytes := by
  have turn : ∀ {t : HeapState C} {w : Nat → RegionView}, HeapInv t w held → P t w →
      t.FreshPages →
      (let c := scan t
        if c.2.ptr = 0 then
          let g := c.1.grow bytes
          if g.2 then scan g.1 else (g.1, c.2)
        else c)
      = (let c := scan' t
        if c.2.ptr = 0 then
          let g := c.1.grow bytes
          if g.2 then scan' g.1 else (g.1, c.2)
        else c) := by
    intro t w inv pre pages
    simp only [← agree inv pre]
    by_cases null : (scan t).2.ptr = 0
    · rw [if_pos null, if_pos null]
      obtain ⟨w', quiet, pre'⟩ := again inv pre null
      cases quiet.step.inv.grow (quiet.pages pages) bytes with
      | same no _ _ => rw [if_neg (by simp [no]), if_neg (by simp [no])]
      | added ok fresh step count _ =>
          rw [if_pos ok, if_pos ok]
          exact agree step.inv (grown pre' fresh.noBlock count
            (fun i less => HeapState.grow_regions _ _ (Nat.ne_of_lt less)))
    · rw [if_neg null, if_neg null]
  cases ready : s.inited with
  | true =>
      simp only [HeapState.slowWith, ready, Bool.not_true, Bool.false_eq_true, if_false]
      exact turn h pre supply.now
  | false =>
      simp only [HeapState.slowWith, ready, Bool.not_false, if_true]
      obtain ⟨extended, _⟩ := h.init ready fits supply.now
      cases extended with
      | same no _ _ => simp only [no, Bool.not_false, if_true]
      | added ok fresh step count _ =>
          simp only [ok, Bool.not_true, Bool.false_eq_true, if_false]
          have none := h.ready ready
          exact turn step.inv (grown pre fresh.noBlock count (fun i less => by omega))
            (supply.afterInit ready)

/-- The slow path of an initialised heap depends on what the scan finds. -/
theorem HeapState.slowWith_scan (ready : s.inited = true) (ready' : s'.inited = true)
    (same : scan s = scan s')
    : s.slowWith scan bytes = s'.slowWith scan bytes := by
  simp only [slowWith, ready, ready', same, Bool.not_true, Bool.false_eq_true, if_false]

/-- A slow path whose first scan succeeds. -/
theorem HeapState.slowWith_granted (ready : s.inited = true) (granted : (scan s).2.ptr ≠ 0)
    : s.slowWith scan bytes = scan s := by
  simp only [slowWith, ready, granted, Bool.not_true, Bool.false_eq_true, if_false]

/-- The slow path of `alloc`, once the fast path has failed. -/
theorem HeapInv.allocSlow_plain (h : HeapInv s v held) (fits : C.PoolFits) (supply : s.Supplied)
    (positive : 0 < n) (settled : Settled n s v)
    : s.allocSlow n = s.plainAlloc n := by
  rw [s.allocSlow_eq positive, HeapState.plainAlloc, if_neg (by omega)]
  exact h.slowWith_congr (P := Settled n) fits supply settled
    (fun inv settled => inv.allocScan_plain positive settled)
    (fun inv settled refused => inv.allocScan_settled positive settled refused)
    (fun settled empty count before => settled.grow empty count before)

/-- A region whose first attempt changed it, but found nothing. -/
theorem HeapState.tryFrom_again {f : RegionState C → RegionState C × Chunk} {r : RegionState C}
    (some : 0 < s.count) (again : f r = f (s.region 0))
    : tryFrom f (s.setRegion 0 r).count 0 (s.setRegion 0 r, .null)
      = tryFrom f s.count 0 (s, .null) := by
  have changed : 0 < (s.setRegion 0 r).count := some
  rw [tryFrom_first changed, tryFrom_first some]
  have first : (s.setRegion 0 r).onRegion 0 f = s.onRegion 0 f := by
    simp only [onRegion, region_setRegion, again]
    simp only [setRegion, Function.update_idem]
  rw [first]
  rfl

/-- `alloc` agrees with the plain search, if the request is small or there is a region. -/
theorem HeapInv.alloc_plain (h : HeapInv s v held) (fits : C.PoolFits) (supply : s.Supplied)
    (some : n ≤ C.classSmall ∨ 0 < s.count)
    : s.alloc n = s.plainAlloc n := by
  rcases Nat.eq_zero_or_pos n with rfl | positive
  · have slow : s.allocSlow 0 = (s, .null) := if_pos rfl
    rw [HeapState.plainAlloc, if_pos rfl, HeapState.alloc, if_pos (Nat.zero_le _)]
    have fast := (s.region 0).tlsfAlloc_zero
    simp only [HeapState.onRegion_same (f := fun r => r.tlsfAlloc 0) fast, slow, Chunk.null,
      ne_eq, not_true_eq_false, ite_self]
  rcases Nat.eq_zero_or_pos s.count with empty | attached
  · rw [HeapState.alloc, if_pos empty]
    exact h.allocSlow_plain fits supply positive
      ⟨fun _ some => by omega, fun large => absurd some (by omega)⟩
  have region := h.regions 0 attached
  have ready := h.inited_of_count attached
  have plain : ∀ t : HeapState C, t.plainAlloc n = t.slowWith (fun s => s.plainScan n) n :=
    fun t => if_neg (by omega)
  rw [HeapState.alloc, if_neg (by omega)]
  by_cases small : n ≤ C.classSmall
  · rw [if_pos small]
    rcases region.tlsfAlloc positive small (C.buddy.orderForSize n) with granted | ⟨same, none⟩
    · have live := granted.live region
      have fast : s.plainScan n = s.onRegion 0 (fun r => r.tlsfAlloc n) := by
        have first : s.onRegion 0 (fun r => r.smallAlloc n)
            = s.onRegion 0 (fun r => r.tlsfAlloc n) :=
          HeapState.onRegion_congr (RegionState.smallAlloc_fast live)
        rw [HeapState.plainScan, if_pos small, HeapState.tryFrom_first attached, first,
          HeapState.tryFrom_done live]
        exact if_pos live
      rw [plain, HeapState.slowWith_granted ready (by rw [fast]; exact live), fast]
      exact if_pos live
    · simp only [HeapState.onRegion_same (f := fun r => r.tlsfAlloc n) same, Chunk.null, ne_eq,
        not_true_eq_false, if_false]
      exact h.allocSlow_plain fits supply positive
        ⟨fun _ _ => none, fun large => absurd small large⟩
  · rw [if_neg small]
    have scan : ∀ t : HeapState C, t.plainScan n
        = HeapState.tryFrom (fun r => r.largeAlloc n) t.count 0 (t, .null) :=
      fun t => if_neg small
    have outcome := region.orderAlloc n (C.buddy.orderForSize n)
    rw [← RegionState.buddyAlloc_eq _ positive] at outcome
    rcases outcome with granted | ⟨null, _, _, w, unchanged, _⟩
    · have live := granted.live region
      have fast : s.plainScan n = s.onRegion 0 (fun r => r.buddyAlloc n) := by
        have first : s.onRegion 0 (fun r => r.largeAlloc n)
            = s.onRegion 0 (fun r => r.buddyAlloc n) :=
          HeapState.onRegion_congr (RegionState.largeAlloc_fast live)
        rw [scan, HeapState.tryFrom_first attached, first, HeapState.tryFrom_done live]
      rw [plain, HeapState.slowWith_granted ready (by rw [fast]; exact live), fast]
      exact if_pos live
    · -- The fast attempt may have flushed the order cache; the plain search does the same.
      obtain ⟨exhausted, again⟩ := region.largeAlloc_again positive null
      have first := h.regionUnchanged attached unchanged
      have result : s.onRegion 0 (fun r => r.buddyAlloc n)
          = (s.setRegion 0 ((s.region 0).buddyAlloc n).1, .null) := Prod.ext rfl null
      simp only [result, Chunk.null, ne_eq, not_true_eq_false, if_false]
      have settled : Settled n (s.setRegion 0 ((s.region 0).buddyAlloc n).1)
          (Function.update v 0 w) := by
        refine ⟨fun fits => absurd fits small, fun _ => ⟨attached, ?_⟩⟩
        simpa only [HeapState.setRegion, Function.update_self] using exhausted
      have supply' : (s.setRegion 0 ((s.region 0).buddyAlloc n).1).Supplied :=
        ⟨first.pages supply.now, fun not => by
          rw [first.steady.inited, ready] at not
          cases not⟩
      rw [first.step.inv.allocSlow_plain fits supply' positive settled, plain, plain]
      refine HeapState.slowWith_scan (first.steady.inited.trans ready) ready ?_
      rw [scan, scan]
      exact HeapState.tryFrom_again attached again

/-- `alloc_aligned` agrees with the plain search. -/
theorem HeapInv.allocAligned_plain (h : HeapInv s v held) (fits : C.PoolFits)
    (supply : s.Supplied) (some : n ≤ C.classSmall ∨ 0 < s.count ∨ nativeAlignment < a)
    : s.allocAligned n a = s.plainAllocAligned n a := by
  rw [HeapState.allocAligned, HeapState.plainAllocAligned]
  by_cases valid : (n = 0 || !isPow2 a) = true
  · rw [if_pos valid, if_pos valid]
  rw [if_neg valid, if_neg valid]
  by_cases native : a ≤ nativeAlignment
  · rw [if_pos native, if_pos native]
    exact h.alloc_plain fits supply (some.imp_right (fun some => some.resolve_right (by omega)))
  rw [if_neg native, if_neg native]
  rcases Nat.eq_zero_or_pos s.count with empty | attached
  · rw [if_pos empty]
  have region := h.regions 0 attached
  have ready := h.inited_of_count attached
  simp only [Bool.or_eq_true, decide_eq_true_eq, Bool.not_eq_true', not_or,
    Bool.not_eq_false] at valid
  rw [if_neg (by omega), s.allocAlignedSlow_eq]
  have scan : ∀ t : HeapState C, t.allocAlignedScan n a
      = HeapState.tryFrom (fun r => r.largeAllocAligned n a) t.count 0 (t, .null) := fun _ => rfl
  by_cases null : ((s.region 0).buddyAllocAligned n a).2.ptr = 0
  · have chunk := region.buddyAllocAligned_null null
    have result : s.onRegion 0 (fun r => r.buddyAllocAligned n a)
        = (s.setRegion 0 ((s.region 0).buddyAllocAligned n a).1, .null) := Prod.ext rfl chunk
    simp only [result, Chunk.null, ne_eq, not_true_eq_false, if_false,
      HeapState.allocAlignedSlow_eq]
    refine HeapState.slowWith_scan (s := s.setRegion 0 _) ready ready ?_
    rw [scan, scan]
    exact HeapState.tryFrom_again attached (region.largeAllocAligned_again chunk)
  · have fast : s.allocAlignedScan n a = s.onRegion 0 (fun r => r.buddyAllocAligned n a) := by
      have first : s.onRegion 0 (fun r => r.largeAllocAligned n a)
          = s.onRegion 0 (fun r => r.buddyAllocAligned n a) :=
        HeapState.onRegion_congr (RegionState.largeAllocAligned_fast null)
      rw [scan, HeapState.tryFrom_first attached, first, HeapState.tryFrom_done null]
    rw [HeapState.slowWith_granted ready (by rw [fast]; exact null), fast]
    exact if_pos null

end Agreement

end Bbmalloc
