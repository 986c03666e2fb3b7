import Bbmalloc.Heap.Allocation

/-! The first allocation of a heap: what `init` leaves behind, and which way a request takes
from there.
-/

namespace Bbmalloc

open Bbmalloc.Foundations

-----------------------------------------------------------------------------------------
-- Fresh regions
-----------------------------------------------------------------------------------------

section Fresh

variable {C : Config} {r : RegionState C} {w : RegionView} {n o a : Nat}

/-- A fresh region has room for a block of any order that its data area can hold. -/
theorem FreshRegion.room (fresh : FreshRegion r w) (fits : C.buddy.orderSize o ≤ r.buddy.total)
    : Room C.buddy r.buddy.total w.buddy.owned o 0 := by
  refine ⟨Nat.dvd_zero _, by omega, fun y b owned => ?_⟩
  rw [fresh.noOwner] at owned
  cases owned

/-- Without a spare sheet the second attempt on a region gives up. -/
theorem RegionState.largeAllocSlow_bare (bare : r.spare = nullOff) (n : Nat)
    : r.largeAllocSlow n = (r, .null) := by
  rw [RegionState.largeAllocSlow, if_pos (by simp [bare])]

/-- An order that the region does not have is refused at once. -/
theorem RegionState.orderAlloc_high (high : r.buddy.maxOrder ≤ o)
    : r.orderAlloc o = (r, .null) := by
  have refused : r.buddyState.allocateOrder o = (r.buddyState, .null) := by
    rw [BuddyState.allocateOrder]
    exact if_pos high
  rw [RegionState.orderAlloc, refused]
  rfl

/-- The fast attempt of a small request finds no sheet in a fresh region. -/
theorem FreshRegion.tlsfAlloc (fresh : FreshRegion r w) (n : Nat)
    : r.tlsfAlloc n = (r, .null) := by
  rcases fresh.tlsf.allocate (r.tlsfState.allocate_narrow C.sheet_narrow n) with
      ⟨_, _, _, _, _, offers, _⟩ | ⟨refused, _⟩
  · exact absurd offers (TlsfView.empty_offers fresh.noBlock)
  · simp only [RegionState.tlsfAlloc, refused]
    rfl

/-- The fast attempt of a large request finds room in a fresh region unless the region does
not have the order.
-/
theorem FreshRegion.orderAlloc (fresh : FreshRegion r w) (less : o < r.buddy.maxOrder)
    : (r.orderAlloc o).2.ptr ≠ 0 := by
  rcases fresh.toRegionInv.orderAlloc 0 o with granted | ⟨_, full, _⟩
  · exact granted.live fresh.toRegionInv
  · exact absurd (fresh.room (fresh.buddy.rep.geometry.order_lt_iff.mp less)) (full 0)

/-- An over-aligned request to a fresh region gets a block or changes nothing. -/
theorem FreshRegion.buddyAllocAligned (fresh : FreshRegion r w) (n a : Nat)
    : r.buddyAllocAligned n a = (r, .null) ∨ (r.buddyAllocAligned n a).2.ptr ≠ 0 := by
  have call : r.buddyAllocAligned n a = (r, .null)
      ∨ r.buddyAllocAligned n a = r.orderAlloc (BuddyState.alignedOrder C.buddy n a) := by
    simp only [RegionState.buddyAllocAligned, BuddyState.allocateAligned]
    split
    · exact Or.inl rfl
    · split
      · exact Or.inl rfl
      · exact Or.inr rfl
  rcases call with refused | call
  · exact Or.inl refused
  · rw [call]
    by_cases high : r.buddy.maxOrder ≤ BuddyState.alignedOrder C.buddy n a
    · exact Or.inl (r.orderAlloc_high high)
    · exact Or.inr (fresh.orderAlloc (Nat.not_le.mp high))

/-- Without a spare sheet there is no second attempt for an over-aligned request. -/
theorem RegionState.largeAllocAligned_bare (bare : r.spare = nullOff) (n a : Nat)
    : r.largeAllocAligned n a = r.buddyAllocAligned n a := by
  have kept : (r.buddyAllocAligned n a).1.spare = nullOff := bare
  rw [RegionState.largeAllocAligned]
  exact if_neg (by simp [kept])

end Fresh

-----------------------------------------------------------------------------------------
-- The first region
-----------------------------------------------------------------------------------------

/-- A heap without regions refuses the pool before it looks at its size. -/
def PoolDesc.refused (C : Config) (d : PoolDesc) : Bool :=
  d.mem = 0 || d.len = 0 || (d.mem + d.len) % C.buddy.word < d.mem
    || (d.tags ≠ 0
      && (d.tagCap = 0
        || (d.tags + d.tagCap) % C.buddy.word < d.tags
        || (d.tags < (d.mem + d.len) % C.buddy.word
          && d.mem < (d.tags + d.tagCap) % C.buddy.word)))

/-- The region that a heap without regions makes of a pool, or none where it cannot. -/
def PoolDesc.geometry (C : Config) (d : PoolDesc) : Option BuddyGeometry :=
  if d.refused C then none
  else (Region.zero.buddy.aimedAt d.mem d.len d.tags d.tagCap C.maxAlignment).layout C.buddy

/-- The region that `init` makes of the configured pool. -/
def HeapState.poolGeometry {C : Config} (s : HeapState C) : Option BuddyGeometry :=
  s.configuredPool.2.geometry C

/-- The region that growing for `bytes` adds to a heap without regions. -/
def HeapState.growGeometry {C : Config} (s : HeapState C) (bytes : Nat) : Option BuddyGeometry :=
  C.growBytes.bind (fun growBytes =>
    (s.growPool growBytes (growWant C bytes)).2.geometry C)

section FirstRegion

variable {C : Config} {s : HeapState C} {v : Nat → RegionView} {held : Nat → Option Block}
  {mem len tags cap bytes : Nat} {z : Bool}

theorem PoolDesc.geometry_null {d : PoolDesc} (null : d.mem = 0) : d.geometry C = none := by
  rw [PoolDesc.geometry, if_pos (by simp [PoolDesc.refused, null])]

/-- The checks of `__attach` on a heap without regions. -/
theorem HeapState.attachPool_first (empty : s.count = 0)
    : s.attachPool mem len tags cap z
      = if (⟨mem, len, tags, cap, z⟩ : PoolDesc).refused C then (s, false)
        else
          let r := s.onRegion s.count (fun r => r.attach mem len tags cap z)
          if !r.2 then r else ({ r.1 with count := s.count + 1, inited := true }, true) := by
  have few := C.region_count.1
  have clear : ∀ lo n, s.clearOfAll lo n = true := by
    intro lo n
    simp [HeapState.clearOfAll, empty]
  have room : decide (s.count ≥ C.maxRegions) = false := by
    simp only [decide_eq_false_iff_not]
    omega
  rw [HeapState.attachPool, HeapState.tagsRefused, clear, clear, PoolDesc.refused, room]
  simp only [Bool.not_true, Bool.or_false, Bool.false_or, Bool.false_eq_true, if_false]
  by_cases null : (decide (mem = 0) || decide (len = 0)) = true
  · simp only [null, Bool.true_or, if_true]
  by_cases wrap : (mem + len) % C.buddy.word < mem
  · simp only [wrap, decide_true, Bool.or_true, Bool.true_or, if_true, ite_self]
  · simp only [wrap, null, decide_false, Bool.or_false, Bool.false_or, if_false]
    rfl

/-- A region takes the ranges that can be laid out. -/
theorem RegionState.attach_accepts (r : RegionState C) (mem len tags cap : Nat) (z : Bool)
    : (r.attach mem len tags cap z).2
      = ((r.buddy.aimedAt mem len tags cap C.maxAlignment).layout C.buddy).isSome := by
  set b : BuddyState C.buddy :=
    ⟨r.buddy.aimedAt mem len tags cap C.maxAlignment, r.mem⟩ with bEq
  change (b.setup z).2 = (b.layout C.buddy).isSome
  cases laid : b.layout C.buddy with
  | none =>
      obtain ⟨base, align, failed⟩ := b.setup_none z laid
      rw [failed]
      rfl
  | some g =>
      rw [BuddyState.setup_some laid]
      rfl

/-- A heap without regions takes the pools that can be laid out. -/
theorem HeapInv.attachPool_first (h : HeapInv s v held) (empty : s.count = 0)
    (clear : s.Clear mem len tags cap z)
    : ((⟨mem, len, tags, cap, z⟩ : PoolDesc).geometry C
          = some ((s.attachPool mem len tags cap z).1.geo 0)
        ∧ (s.attachPool mem len tags cap z).2 = true)
      ∨ ((⟨mem, len, tags, cap, z⟩ : PoolDesc).geometry C = none
        ∧ (s.attachPool mem len tags cap z).2 = false) := by
  have call := @HeapState.attachPool_first C s mem len tags cap z empty
  have laid : ∀ b : BuddyList, (b.aimedAt mem len tags cap C.maxAlignment).layout C.buddy
      = (Region.zero.buddy.aimedAt mem len tags cap C.maxAlignment).layout C.buddy :=
    fun _ => rfl
  rw [PoolDesc.geometry]
  by_cases refused : (⟨mem, len, tags, cap, z⟩ : PoolDesc).refused C = true
  · rw [if_pos refused] at call
    exact Or.inr ⟨if_pos refused, by rw [call]⟩
  rw [if_neg refused] at call ⊢
  have accepts := (s.region s.count).attach_accepts mem len tags cap z
  cases h.attachPool clear with
  | accepted ok _ region _ _ _ _ =>
      rw [laid, empty] at region
      exact Or.inl ⟨region, ok⟩
  | refused no _ _ _ =>
      refine Or.inr ⟨?_, no⟩
      rw [← laid (s.region s.count).buddy, ← Option.not_isSome_iff_eq_none, ← accepts]
      intro ok
      rw [call] at no
      simp only [HeapState.onRegion, ok, Bool.not_true, Bool.false_eq_true, if_false] at no
      cases no

/-- The pool of a heap does not depend on whether `init` ran. -/
theorem HeapState.configuredPool_ready (s : HeapState C)
    : (({ s with inited := true } : HeapState C).configuredPool).2 = s.configuredPool.2
      ∧ (({ s with inited := true } : HeapState C).configuredPool).1
        = { s.configuredPool.1 with inited := true } := by
  unfold HeapState.configuredPool
  cases C.pool <;> exact ⟨rfl, rfl⟩

/-- What `init` leaves behind: a fresh region on the configured pool, or the empty heap. -/
inductive Initialised {C : Config} (s : HeapState C) (held : Nat → Option Block)
    (t : HeapState C)
    : Prop
  | region {g : BuddyGeometry} {v : Nat → RegionView} (geometry : s.poolGeometry = some g)
      (inv : HeapInv t v held) (inited : t.inited = true) (count : t.count = 1)
      (geo : t.geo 0 = g) (fresh : FreshRegion (t.region 0) (v 0))
  | empty {v : Nat → RegionView} (geometry : s.poolGeometry = none) (inv : HeapInv t v held)
      (inited : t.inited = true) (count : t.count = 0)
      (requests : t.requests = s.configuredPool.1.requests)

theorem Initialised.ready {t : HeapState C} (first : Initialised s held t) : t.inited = true := by
  cases first with
  | region _ _ inited _ _ _ => exact inited
  | empty _ _ inited _ _ => exact inited

theorem HeapInv.init_first (h : HeapInv s v held) (fresh : s.inited = false) (fits : C.PoolFits)
    (pages : s.FreshPages)
    : Initialised s held s.init.1 ∧ s.init.2 = decide (0 < s.init.1.count) := by
  obtain ⟨q, first, clear⟩ := h.configuredPool fresh fits pages
  have none := h.ready fresh
  have call : s.init
      = (let d := ({ s with inited := true } : HeapState C).configuredPool
         let t := if d.2.mem ≠ 0 then
            (d.1.attachPool d.2.mem d.2.len d.2.tags d.2.tagCap d.2.zeroed).1 else d.1
         (t, decide (0 < t.count))) := by
    rw [HeapState.init, if_neg (by simp [fresh])]
  refine ⟨?_, by rw [call]⟩
  rw [call]
  obtain ⟨pool, asked⟩ := s.configuredPool_ready
  have geometry : s.poolGeometry
      = (({ s with inited := true } : HeapState C).configuredPool).2.geometry C := by
    rw [pool, HeapState.poolGeometry]
  have requests : (({ s with inited := true } : HeapState C).configuredPool).1.requests
      = s.configuredPool.1.requests := by
    rw [asked]
  generalize ({ s with inited := true } : HeapState C).configuredPool = d
    at first clear geometry requests ⊢
  obtain ⟨t, d⟩ := d
  simp only at first clear geometry requests ⊢
  have ready := h.setReady q
  rw [← first] at ready
  have empty : t.count = 0 := by rw [first]; exact none
  have inited : t.inited = true := by rw [first]
  by_cases null : d.mem = 0
  · rw [if_neg (by simpa using null)]
    exact .empty (geometry.trans (PoolDesc.geometry_null null)) ready inited empty requests
  rw [if_pos null]
  have outcome := ready.attachPool_first empty (clear.resolve_left null)
  cases ready.attachPool (clear.resolve_left null) with
  | accepted ok region laid step count ready' same =>
      obtain ⟨laid, _⟩ := outcome.resolve_right (by simp [ok])
      rw [empty] at region count step
      exact .region (geometry.trans laid) step.inv ready' count rfl (by simpa using region)
  | refused no step steady mem =>
      obtain ⟨laid, _⟩ := outcome.resolve_left (by simp [no])
      exact .empty (geometry.trans laid) step.inv (steady.inited.trans inited)
        (steady.count.trans empty) (steady.requests.trans requests)

/-- The pages of a growing heap depend on the requests made before. -/
theorem HeapState.growGeometry_congr {t : HeapState C} (same : t.requests = s.requests)
    : t.growGeometry bytes = s.growGeometry bytes := by
  simp only [HeapState.growGeometry, HeapState.growPool_congr same]

/-- A heap without regions grows where the new pages can be laid out, and otherwise only
records the request.
-/
theorem HeapInv.grow_first (h : HeapInv s v held) (empty : s.count = 0) (pages : s.FreshPages)
    (bytes : Nat)
    : ((s.grow bytes).2 = true ∧ s.growGeometry bytes ≠ none)
      ∨ ((s.grow bytes).2 = false ∧ s.growGeometry bytes = none
        ∧ (s.grow bytes).1.mem = s.mem ∧ (s.grow bytes).1.count = 0
        ∧ (s.grow bytes).1.inited = s.inited) := by
  have few := C.region_count.1
  unfold HeapState.grow HeapState.growGeometry
  cases C.growBytes with
  | none => exact Or.inr ⟨rfl, rfl, rfl, empty, rfl⟩
  | some growBytes =>
      obtain ⟨q, first, clear⟩ := pages.growPool growBytes (HeapState.growWant C bytes)
      simp only [Option.bind_some]
      rw [if_neg (by omega)]
      generalize s.growPool growBytes (HeapState.growWant C bytes) = d at first clear ⊢
      obtain ⟨t, d⟩ := d
      simp only at first clear ⊢
      subst first
      by_cases null : d.mem = 0
      · rw [if_pos null]
        exact Or.inr ⟨rfl, PoolDesc.geometry_null null, rfl, empty, rfl⟩
      rw [if_neg null]
      have asked := (h.setRequests q).inv
      have outcome := asked.attachPool_first empty (clear.resolve_left null)
      cases asked.attachPool (clear.resolve_left null) with
      | accepted ok _ _ _ _ _ _ =>
          obtain ⟨laid, _⟩ := outcome.resolve_right (by simp [ok])
          exact Or.inl ⟨ok, by simp [laid]⟩
      | refused no _ steady mem =>
          obtain ⟨laid, _⟩ := outcome.resolve_left (by simp [no])
          exact Or.inr ⟨no, laid, mem, steady.count.trans empty, steady.inited⟩

end FirstRegion

-----------------------------------------------------------------------------------------
-- The first allocation
-----------------------------------------------------------------------------------------

/-- The same attached regions on the same memory. -/
structure HeapState.SameHeap {C : Config} (s t : HeapState C) : Prop where
  inited : s.inited = t.inited
  count : s.count = t.count
  regions : ∀ i < s.count, s.regions i = t.regions i
  mem : s.mem = t.mem

/-- The same block and the same heap. -/
def SameOutcome {C : Config} (c d : HeapState C × Chunk) : Prop := c.2 = d.2 ∧ c.1.SameHeap d.1

/-- What a request of this size and alignment grows the heap by. -/
def growthFor (C : Config) (n a : Nat) : Nat :=
  if a ≤ nativeAlignment then n else HeapState.alignedGrowth C n a

/-- A request that `init` makes no difference to. Where `init` makes a region of the pool, it
is a small or an over-aligned one, or one that the region is too small for; where it makes
none, growth makes none either.
-/
def HeapState.InitFree {C : Config} (s : HeapState C) (n a : Nat) : Prop :=
  match s.poolGeometry with
  | some g => n ≤ C.classSmall ∨ nativeAlignment < a ∨ g.maxOrder ≤ C.buddy.orderForSize n
  | none => s.configuredPool.1.growGeometry (growthFor C n a) = none

section FirstCall

variable {C : Config} {s t : HeapState C} {v : Nat → RegionView} {held : Nat → Option Block}
  {scan : HeapState C → HeapState C × Chunk} {bytes n a : Nat}

theorem SameOutcome.refl (c : HeapState C × Chunk) : SameOutcome c c :=
  ⟨rfl, rfl, rfl, fun _ _ => rfl, rfl⟩

/-- The slow path of a heap that was never used begins with `init`. -/
theorem HeapState.slowWith_init (fresh : s.inited = false) (inited : s.init.1.inited = true)
    : s.slowWith scan bytes
      = if s.init.2 then s.init.1.slowWith scan bytes else (s.init.1, .null) := by
  unfold HeapState.slowWith
  simp only [fresh, inited, Bool.not_false, Bool.not_true, if_true, if_false, Bool.false_eq_true]
  cases s.init.2 <;> rfl

/-- On an initialised heap without regions the slow path does nothing unless growth adds a
region.
-/
theorem HeapState.slowWith_empty (inited : t.inited = true)
    (empty : t.count = 0) (pages : t.FreshPages) (null : (scan t).2 = .null)
    (quiet : Quiet t v held (scan t).1 v) (mem : (scan t).1.mem = t.mem)
    (keeps : ∀ u, (scan u).1.count = u.count)
    : SameOutcome (t, .null) (t.slowWith scan bytes) ↔ t.growGeometry bytes = none := by
  have call : t.slowWith scan bytes
      = if ((scan t).1.grow bytes).2 then scan ((scan t).1.grow bytes).1
        else (((scan t).1.grow bytes).1, .null) := by
    unfold HeapState.slowWith
    simp only [inited, Bool.not_true, Bool.false_eq_true, if_false, null]
    exact if_pos rfl
  have count : (scan t).1.count = 0 := quiet.steady.count.trans empty
  rw [call, ← HeapState.growGeometry_congr quiet.steady.requests]
  rcases quiet.step.inv.grow_first count (quiet.pages pages) bytes with
    ⟨grown, laid⟩ | ⟨refused, laid, same, zero, ready⟩
  · rw [if_pos grown]
    refine ⟨fun outcome => ?_, fun none => absurd none laid⟩
    have added : ((scan t).1.grow bytes).1.count = (scan t).1.count + 1 := by
      cases quiet.step.inv.grow (quiet.pages pages) bytes with
      | added _ _ _ count _ => exact count
      | same no _ _ => rw [grown] at no; cases no
    have counts := outcome.2.count
    rw [keeps, added, count] at counts
    exact absurd (counts.symm.trans empty) (by decide)
  · rw [if_neg (by simp [refused])]
    refine ⟨fun _ => laid, fun _ => ⟨rfl, ?_, ?_, ?_, ?_⟩⟩
    · exact (ready.trans quiet.steady.inited).symm
    · exact empty.trans zero.symm
    · intro i less
      rw [empty] at less
      omega
    · exact (same.trans mem).symm

/-- On one fresh region the fast attempt fails, and changes nothing, for the requests that
`init` makes no difference to.
-/
theorem HeapState.alloc_slow (count : t.count = 1) (fresh : FreshRegion (t.region 0) (v 0))
    (positive : 0 < n)
    (free : n ≤ C.classSmall ∨ (t.geo 0).maxOrder ≤ C.buddy.orderForSize n)
    : t.alloc n = t.allocSlow n := by
  rw [HeapState.alloc, if_neg (by omega)]
  by_cases small : n ≤ C.classSmall
  · rw [if_pos small, t.onRegion_same (fresh.tlsfAlloc n)]
    exact if_neg (by simp [Chunk.null])
  · have refused : (t.region 0).buddyAlloc n = (t.region 0, .null) := by
      rw [RegionState.buddyAlloc_eq _ positive]
      exact RegionState.orderAlloc_high (free.resolve_left small)
    rw [if_neg small, t.onRegion_same refused]
    exact if_neg (by simp [Chunk.null])

/-- On one fresh region the fast attempt grants any other request. -/
theorem HeapState.alloc_fast (count : t.count = 1) (fresh : FreshRegion (t.region 0) (v 0))
    (positive : 0 < n) (large : ¬n ≤ C.classSmall)
    (less : C.buddy.orderForSize n < (t.geo 0).maxOrder)
    : (t.alloc n).2.ptr ≠ 0 ∧ (t.alloc n).1.count = 1 := by
  have granted : (t.onRegion 0 (fun r => r.buddyAlloc n)).2.ptr ≠ 0 := by
    change ((t.region 0).buddyAlloc n).2.ptr ≠ 0
    rw [RegionState.buddyAlloc_eq _ positive]
    exact fresh.orderAlloc less
  rw [HeapState.alloc, if_neg (by omega), if_neg large, if_pos granted]
  exact ⟨granted, count⟩

/-- The slow path skips the free blocks of a fresh region: a large request fails or adds a
region.
-/
theorem HeapState.slowWith_skips (inited : t.inited = true) (count : t.count = 1)
    (fresh : FreshRegion (t.region 0) (v 0)) (inv : HeapInv t v held) (pages : t.FreshPages)
    (large : ¬n ≤ C.classSmall)
    : (t.slowWith (fun s => s.allocScan n) n).2.ptr = 0
      ∨ (t.slowWith (fun s => s.allocScan n) n).1.count = 2 := by
  have scan : t.allocScan n = (t, .null) := by
    rw [HeapState.allocScan, if_neg large,
      t.onRegion_same (RegionState.largeAllocSlow_bare fresh.noSpare n), count]
    rfl
  unfold HeapState.slowWith
  simp only [inited, Bool.not_true, Bool.false_eq_true, if_false, scan]
  rw [if_pos (show Chunk.null.ptr = 0 from rfl)]
  cases inv.grow pages n with
  | added ok _ _ more _ =>
      refine Or.inr ?_
      rw [if_pos ok, HeapState.allocScan_count, more, count]
  | same no _ _ =>
      refine Or.inl ?_
      rw [if_neg (by simp [no])]
      rfl

/-- Natively aligned requests. -/
theorem HeapInv.alloc_init (h : HeapInv s v held) (fresh : s.inited = false)
    (fits : C.PoolFits) (supply : s.Supplied) (positive : 0 < n) (native : a ≤ nativeAlignment)
    : SameOutcome (s.alloc n) (s.init.1.alloc n) ↔ s.InitFree n a := by
  obtain ⟨first, ok⟩ := h.init_first fresh fits supply.now
  have pages := supply.afterInit fresh
  have growth : growthFor C n a = n := if_pos native
  have call : s.alloc n = if s.init.2 then s.init.1.slowWith (fun s => s.allocScan n) n
      else (s.init.1, .null) := by
    have inited : s.init.1.inited = true := first.ready
    rw [HeapState.alloc, if_pos (h.ready fresh), HeapState.allocSlow_eq s positive,
      HeapState.slowWith_init fresh inited]
  rw [call, ok]
  generalize s.init.1 = t at first pages ⊢
  cases first with
  | @region g w geometry inv inited count geo region =>
      rw [if_pos (by simp [count]), ← HeapState.allocSlow_eq t positive, HeapState.InitFree,
        geometry]
      subst geo
      by_cases free : n ≤ C.classSmall ∨ (t.geo 0).maxOrder ≤ C.buddy.orderForSize n
      · rw [HeapState.alloc_slow count region positive free]
        refine ⟨fun _ => ?_, fun _ => .refl _⟩
        exact free.imp id Or.inr
      · obtain ⟨large, less⟩ := not_or.mp free
        obtain ⟨granted, one⟩ :=
          HeapState.alloc_fast count region positive large (Nat.not_le.mp less)
        constructor
        · intro outcome
          rw [HeapState.allocSlow_eq t positive] at outcome
          exfalso
          rcases HeapState.slowWith_skips inited count region inv pages large with null | two
          · rw [outcome.1] at null
            exact granted null
          · have counts := outcome.2.count
            omega
        · rintro (small | beyond | high)
          · exact absurd small large
          · omega
          · exact absurd high less
  | @empty w geometry inv inited count requests =>
      obtain ⟨scanned, quiet⟩ := inv.allocScan_empty count n
      have mem : (t.allocScan n).1.mem = t.mem := by
        rw [inv.allocScan_none count]
        split <;> rfl
      rw [if_neg (by simp [count]), HeapState.alloc, if_pos count,
        HeapState.allocSlow_eq t positive, HeapState.InitFree, geometry, growth,
        ← HeapState.growGeometry_congr requests]
      exact HeapState.slowWith_empty inited count pages scanned quiet mem
        (fun u => u.allocScan_count n)

/-- On one fresh region the fast attempt of an over-aligned request does what the slow path
does first.
-/
theorem HeapState.allocAligned_slow (inited : t.inited = true) (count : t.count = 1)
    (fresh : FreshRegion (t.region 0) (v 0)) (positive : 0 < n) (pow : isPow2 a = true)
    (beyond : nativeAlignment < a)
    : t.allocAligned n a = t.allocAlignedSlow n a := by
  have scan : t.allocAlignedScan n a = t.onRegion 0 (fun r => r.buddyAllocAligned n a) := by
    rw [HeapState.allocAlignedScan, count]
    change t.onRegion 0 (fun r => r.largeAllocAligned n a) = _
    simp only [HeapState.onRegion, RegionState.largeAllocAligned_bare fresh.noSpare]
  have call : t.allocAligned n a
      = let c := t.onRegion 0 (fun r => r.buddyAllocAligned n a)
        if c.2.ptr ≠ 0 then c else c.1.allocAlignedSlow n a := by
    rw [HeapState.allocAligned, if_neg (by simp [pow]; omega), if_neg (by omega),
      if_neg (by omega)]
  rw [call]
  rcases fresh.buddyAllocAligned n a with refused | granted
  · rw [t.onRegion_same refused]
    exact if_neg (by simp [Chunk.null])
  · have live : (t.onRegion 0 (fun r => r.buddyAllocAligned n a)).2.ptr ≠ 0 := granted
    simp only [if_pos live]
    unfold HeapState.allocAlignedSlow
    simp only [inited, Bool.not_true, Bool.false_eq_true, if_false, scan, if_neg live]

/-- Over-aligned requests. -/
theorem HeapInv.allocAligned_init (h : HeapInv s v held) (fresh : s.inited = false)
    (fits : C.PoolFits) (supply : s.Supplied) (positive : 0 < n) (pow : isPow2 a = true)
    (beyond : nativeAlignment < a)
    : SameOutcome (s.allocAligned n a) (s.init.1.allocAligned n a) ↔ s.InitFree n a := by
  obtain ⟨first, ok⟩ := h.init_first fresh fits supply.now
  have pages := supply.afterInit fresh
  have growth : growthFor C n a = HeapState.alignedGrowth C n a := if_neg (by omega)
  have route : ∀ u : HeapState C, u.count = 0 → u.allocAligned n a = u.allocAlignedSlow n a := by
    intro u empty
    rw [HeapState.allocAligned, if_neg (by simp [pow]; omega), if_neg (by omega), if_pos empty]
  have call : s.allocAligned n a
      = if s.init.2 then s.init.1.allocAlignedSlow n a else (s.init.1, .null) := by
    have inited : s.init.1.inited = true := first.ready
    rw [route s (h.ready fresh), HeapState.allocAlignedSlow_eq,
      HeapState.slowWith_init fresh inited]
    rfl
  rw [call, ok]
  generalize s.init.1 = t at first pages ⊢
  cases first with
  | @region g w geometry inv inited count geo region =>
      rw [if_pos (by simp [count]), HeapState.InitFree, geometry,
        HeapState.allocAligned_slow inited count region positive pow beyond]
      exact ⟨fun _ => Or.inr (Or.inl beyond), fun _ => .refl _⟩
  | @empty w geometry inv inited count requests =>
      have scan : t.allocAlignedScan n a = (t, .null) := by
        rw [HeapState.allocAlignedScan, count]
        rfl
      have keeps : ∀ u : HeapState C, (u.allocAlignedScan n a).1.count = u.count :=
        fun u => HeapState.tryFrom_count _ _ _ _
      rw [if_neg (by simp [count]), route t count, HeapState.allocAlignedSlow_eq,
        HeapState.InitFree, geometry, growth, ← HeapState.growGeometry_congr requests]
      have quiet : Quiet t w held (t.allocAlignedScan n a).1 w := by
        rw [scan]
        exact .refl inv
      exact HeapState.slowWith_empty inited count pages (congrArg Prod.snd scan) quiet
        (congrArg (fun c => c.1.mem) scan) keeps

/-- The first request of a heap gets what it gets after `init`, if and only if it is one that
`init` makes no difference to.
-/
theorem HeapInv.first_request (h : HeapInv s v held) (fresh : s.inited = false)
    (fits : C.PoolFits) (supply : s.Supplied) (positive : 0 < n) (pow : isPow2 a = true)
    : SameOutcome (s.allocAligned n a) (s.init.1.allocAligned n a) ↔ s.InitFree n a := by
  by_cases native : a ≤ nativeAlignment
  · have route : ∀ u : HeapState C, u.allocAligned n a = u.alloc n := by
      intro u
      rw [HeapState.allocAligned, if_neg (by simp [pow]; omega), if_pos native]
    rw [route, route]
    exact h.alloc_init fresh fits supply positive native
  · exact h.allocAligned_init fresh fits supply positive pow (Nat.not_le.mp native)

end FirstCall

end Bbmalloc
