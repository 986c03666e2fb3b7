import Bbmalloc.Buddy.Layout
import Bbmalloc.Heap.Laziness

/-! What growth buys: the pages that are asked for, the region that they make, and which
requests find a block in it.
-/

namespace Bbmalloc

open Bbmalloc.Foundations

-----------------------------------------------------------------------------------------
-- The pages
-----------------------------------------------------------------------------------------

/-- The page source gives at least the bytes that it is asked for. -/
def Config.PagesSuffice (C : Config) : Prop :=
  ∀ requests n d, C.pageAlloc requests n = some d → n ≤ d.len

section Pages

variable {C : Config} {s : HeapState C} {v : Nat → RegionView} {held : Nat → Option Block}
  {growBytes bytes len T k : Nat}

/-- `__next_pow2` is a power of two that holds the value, or saturates. -/
theorem HeapState.nextPow2_spec (C : Config) (n : Nat)
    : (∃ k < C.buddy.wordBits, nextPow2 C n = 2 ^ k ∧ n ≤ 2 ^ k) ∨ nextPow2 C n = C.usizeMax := by
  rw [nextPow2]
  by_cases small : n ≤ 1
  · rw [if_pos small]
    refine Or.inl ⟨0, ?_, rfl, small⟩
    rcases C.buddy.wordBits_ok with bits | bits <;> omega
  rw [if_neg small]
  by_cases high : fls (n - 1) + 1 ≥ C.buddy.wordBits
  · exact Or.inr (if_pos high)
  · rw [if_neg high, Nat.one_shiftLeft]
    have bounds := (fls_bounds (show n - 1 ≠ 0 by omega)).2
    exact Or.inl ⟨_, Nat.not_le.mp high, rfl, by omega⟩

theorem HeapState.le_roundUpSat (fits : len ≤ C.usizeMax) (k : Nat) : len ≤ roundUpSat C len k := by
  rw [roundUpSat]
  split
  · exact fits
  · omega

/-- Growth asks for twice the request or more. Only on a 32-bit target a request for more
than 2^30 bytes can get pages of no more than 2^31 bytes.
-/
theorem HeapState.growWant_half (most : growWant C bytes ≤ C.maxRegionBytes)
    (given : growWant C bytes ≤ len) (half : 2 * len ≤ C.buddy.word)
    : ∃ k ≤ 30, 2 * 2 ^ k ≤ growWant C bytes
        ∧ (bytes ≤ 2 ^ k ∨ k = 30 ∧ bytes ≤ 2 ^ 31 ∧ C.buddy.word = 2 ^ 32) := by
  have word : C.buddy.word = 2 ^ C.buddy.wordBits := rfl
  have max : C.usizeMax = C.buddy.word - 1 := rfl
  have cap := C.region_bytes.1
  have range := C.buddy.word_cases
  have up : ∀ want, want ≤ C.usizeMax → want ≤ roundUpSat C want C.tlsf.sheet :=
    fun want fits => le_roundUpSat fits _
  rw [growWant] at most given ⊢
  rcases nextPow2_spec C bytes with ⟨k, less, pow, holds⟩ | sat
  · rw [pow] at most given ⊢
    by_cases low : 2 ^ k ≤ C.usizeMax / 2
    · rw [if_pos low] at most given ⊢
      have := up (2 ^ k * 2) (by omega)
      have less : 2 ^ k < 2 ^ 31 := by omega
      have less := (Nat.pow_lt_pow_iff_right (by decide)).mp less
      exact ⟨k, by omega, by omega, Or.inl holds⟩
    · rw [if_neg low] at most given ⊢
      have powLess : 2 ^ k < C.buddy.word := Nat.pow_lt_pow_right (by decide) less
      have least := up (2 ^ k) (by omega)
      -- the top power of the word is within the region cap on a 32-bit target only
      have top : k = 31 := by
        have high : 2 ^ k < 2 ^ 32 := by omega
        have high := (Nat.pow_lt_pow_iff_right (by decide)).mp high
        have low : 2 ^ 30 < 2 ^ k := by omega
        have low := (Nat.pow_lt_pow_iff_right (by decide)).mp low
        omega
      subst top
      exact ⟨30, le_rfl, by omega, Or.inr ⟨rfl, holds, by omega⟩⟩
  · exfalso
    rw [sat] at given
    have := up C.usizeMax (Nat.le_refl _)
    rw [if_neg (by omega)] at given
    omega

/-- The cap of a buddy list is no obstacle to half a region. -/
theorem Config.le_listCap (C : Config) (half : 2 * T ≤ C.maxRegionBytes)
    (block : C.buddy.minBlock ≤ T)
    : T ≤ (1 <<< C.buddy.Mx - 1) * C.buddy.minBlock % C.buddy.word := by
  set blocks := C.maxRegionBytes / C.buddy.minBlock with blocksEq
  have positive := C.buddy.minBlock_pos
  have some : blocks ≠ 0 := by
    rw [blocksEq]
    exact (Nat.div_pos (by omega) positive).ne'
  have orders : C.buddy.Mx = Nat.log2 blocks + 1 := by
    rw [C.orders, bitLength, if_neg some]
  have low := Nat.log2_self_le some
  have high : blocks < 2 ^ C.buddy.Mx := by
    rw [orders]
    exact Nat.lt_log2_self
  have whole := Nat.div_mul_le_self C.maxRegionBytes C.buddy.minBlock
  have rest := Nat.lt_div_mul_add (a := C.maxRegionBytes) positive
  rw [← blocksEq] at whole rest
  have cap := C.region_bytes.1
  have room : 2 ^ C.buddy.Mx * C.buddy.minBlock ≤ 2 ^ 32 := by
    have top : 2 ^ Nat.log2 blocks * C.buddy.minBlock < 2 ^ 32 := by
      have := Nat.mul_le_mul_right C.buddy.minBlock low
      omega
    rw [BuddyParams.minBlock, ← pow_add] at top ⊢
    have := (Nat.pow_lt_pow_iff_right (by decide)).mp top
    exact Nat.pow_le_pow_right (by decide) (by omega)
  have word := C.buddy.word_large
  have one := Nat.two_pow_pos C.buddy.Mx
  rw [Nat.one_shiftLeft, Nat.sub_mul, Nat.one_mul, Nat.mod_eq_of_lt (by omega)]
  have := Nat.mul_le_mul_right C.buddy.minBlock (show blocks + 1 ≤ 2 ^ C.buddy.Mx by omega)
  rw [Nat.add_mul, Nat.one_mul] at this
  omega

/-- The pages that growth for `bytes` gets, if it may ask for them. -/
def HeapState.pagesFor {C : Config} (s : HeapState C) (growBytes bytes : Nat) : Option Chunk :=
  if growWant C bytes ≤ C.maxRegionBytes then
    C.pageAlloc s.requests (max growBytes (growWant C bytes))
  else none

/-- So growth gets at least the bytes that it wants. -/
theorem Config.PagesSuffice.pagesFor (enough : C.PagesSuffice) {d : Chunk}
    (asked : s.pagesFor growBytes bytes = some d)
    : HeapState.growWant C bytes ≤ d.len := by
  rw [HeapState.pagesFor] at asked
  split at asked
  · exact (le_max_right _ _).trans (enough _ _ _ asked)
  · cases asked

theorem HeapState.growPool_pages (s : HeapState C)
    (range : growBytes ≤ C.maxRegionBytes)
    : (s.growPool growBytes (growWant C bytes)).2 = pageDesc (s.pagesFor growBytes bytes) := by
  have most : (if growWant C bytes < growBytes then growBytes else growWant C bytes)
      = max growBytes (growWant C bytes) := by
    split <;> omega
  rw [HeapState.growPool, HeapState.pagesFor, most]
  simp only
  by_cases fits : growWant C bytes ≤ C.maxRegionBytes
  · rw [if_neg (show ¬max growBytes (growWant C bytes) > C.maxRegionBytes by omega), if_pos fits,
      if_neg (by omega)]
    rfl
  · rw [if_pos (show max growBytes (growWant C bytes) > C.maxRegionBytes by omega), if_neg fits,
      if_pos (by omega)]
    rfl

/-- A region that growth adds is laid out in the pages it got. -/
structure GrownOn (C : Config) (bytes : Nat) (d : Chunk) (g : BuddyGeometry)
    : Prop where
  want : HeapState.growWant C bytes ≤ C.maxRegionBytes
  half : 2 * d.len ≤ C.buddy.word
  noWrap : d.ptr + d.len < C.buddy.word
  sound : g.Sound C.buddy
  laid : ∃ b : BuddyList,
    (b.aimedAt d.ptr d.len 0 0 C.maxAlignment).layout C.buddy = some g

/-- A call on `s` that adds a region for `bytes`, on the pages that growth asks for. -/
structure Grew {C : Config} (s : HeapState C) (growBytes bytes : Nat) (c : HeapState C × Chunk)
    (d : Chunk)
    : Prop where
  asked : s.pagesFor growBytes bytes = some d
  grown : GrownOn C bytes d (c.1.geo s.count)

/-- A region that is accepted does not wrap around. -/
theorem HeapState.attachPool_noWrap {mem tags cap : Nat} {z : Bool}
    (ok : (s.attachPool mem len tags cap z).2 = true)
    : ¬(mem + len) % C.buddy.word < mem := by
  intro wrap
  rw [HeapState.attachPool, if_pos wrap, ite_self] at ok
  cases ok

theorem HeapInv.grow_pages (h : HeapInv s v held) (pages : s.FreshPages)
    (growable : C.growBytes = some growBytes) (grown : (s.grow bytes).2 = true)
    : ∃ d, s.pagesFor growBytes bytes = some d
        ∧ GrownOn C bytes d ((s.grow bytes).1.geo s.count) := by
  obtain ⟨_, range⟩ := C.grow_bytes growBytes growable
  obtain ⟨q, first, clear⟩ := pages.growPool growBytes (HeapState.growWant C bytes)
  have desc : (s.growPool growBytes (HeapState.growWant C bytes)).2
      = HeapState.pageDesc (s.pagesFor growBytes bytes) := s.growPool_pages range
  simp only [HeapState.grow, growable] at grown ⊢
  split at grown
  case isTrue => cases grown
  case isFalse room =>
    rw [if_neg room]
    generalize s.growPool growBytes (HeapState.growWant C bytes) = c at first clear desc grown ⊢
    obtain ⟨t, d⟩ := c
    simp only at first clear desc grown ⊢
    subst first
    split at grown
    case isTrue => cases grown
    case isFalse some =>
      rw [if_neg some]
      cases offered : s.pagesFor growBytes bytes with
      | none =>
          rw [offered] at desc
          subst desc
          exact absurd rfl some
      | some pages =>
          rw [offered] at desc
          subst desc
          have noWrap := HeapState.attachPool_noWrap grown
          have clear := clear.resolve_left some
          have area := clear.area noWrap (by simp [HeapState.tagsRefused, HeapState.pageDesc])
          cases (h.setRequests q).inv.attachPool clear with
          | accepted ok fresh laid step count inited requests =>
              refine ⟨pages, rfl, ?_, clear.half, area.noWrap, fresh.buddy.rep.geometry, _, laid⟩
              by_contra high
              rw [HeapState.pagesFor, if_neg high] at offered
              cases offered
          | refused no step steady mem =>
              rw [no] at grown
              cases grown

end Pages

-----------------------------------------------------------------------------------------
-- The region on the pages
-----------------------------------------------------------------------------------------

section Grown

variable {C : Config} {bytes j : Nat} {d : Chunk} {g : BuddyGeometry}

/-- The pages hold four blocks. -/
theorem GrownOn.blocks (grown : GrownOn C bytes d g) : 4 * C.buddy.minBlock ≤ d.len := by
  obtain ⟨b, laid⟩ := grown.laid
  have large := ((BuddyGeometry.layout_eq_some C.buddy _).mp laid).1
  simp only [BuddyGeometry.tooSmall, Bool.or_eq_false_iff, decide_eq_false_iff_not,
    not_lt] at large
  have blocks := C.blocks_fit
  have cap := C.region_bytes.1
  have word := C.buddy.word_large
  rw [Nat.mod_eq_of_lt (by omega)] at large
  exact large.2

theorem GrownOn.fits (grown : GrownOn C bytes d g)
    : d.len + C.buddy.minBlock < C.buddy.word := by
  have := grown.blocks
  have := grown.half
  have := C.buddy.minBlock_pos
  omega

/-- The region is less than half of the address space. -/
theorem GrownOn.total_lt (grown : GrownOn C bytes d g) : 2 * g.total < C.buddy.word := by
  have sound := grown.sound
  obtain ⟨b, laid⟩ := grown.laid
  obtain ⟨_, base, align, _, _, same⟩ := (BuddyGeometry.layout_eq_some C.buddy _).mp laid
  have raw : g.rawLen = d.len := by
    rw [← same]
    rfl
  have internal : g.extTags = 0 := by
    rw [← same]
    rfl
  have count := sound.count_pos
  have total := sound.total_pos
  have behind : g.rawMem < g.base := by
    rcases sound.tags_at with ⟨_, at_⟩ | ⟨external, _⟩
    · have := sound.raw_le
      rcases sound.tags_apart with before | after
      · omega
      · omega
    · exact absurd internal external
  have := sound.end_le
  have := grown.half
  omega

/-- The region keeps half of its pages. -/
theorem GrownOn.total (grown : GrownOn C bytes d g) (unit : C.buddy.log2Min ≤ j)
    (inside : 2 * 2 ^ j ≤ d.len) (most : 2 * 2 ^ j ≤ C.maxRegionBytes)
    : 2 ^ j ≤ g.total := by
  obtain ⟨b, laid⟩ := grown.laid
  have cap := C.region_bytes.1
  refine BuddyGeometry.layout_half laid rfl grown.fits rfl C.max_alignment.1 C.minBlock_large unit
    inside (fun _ => ?_) ?_
  · exact C.le_listCap most (Nat.pow_le_pow_right (by decide) unit)
  · rw [BuddyParams.maxTotal]
    omega

/-- The region has every alignment within the cap that its pages hold a block for. -/
theorem GrownOn.align_iff (grown : GrownOn C bytes d g)
    (large : 2 * C.buddy.minBlock ≤ 2 ^ j) (le : j ≤ C.log2MaxAlign)
    : 2 ^ j ≤ g.baseAlign ↔ HoldsAligned C.buddy d.ptr d.len (2 ^ j) := by
  obtain ⟨b, laid⟩ := grown.laid
  exact BuddyGeometry.layout_align_iff laid rfl grown.noWrap grown.fits rfl large le

/-- Pages of four times the alignment hold a block for it. -/
theorem holdsAligned_quarter {P : BuddyParams} {mem len : Nat} (large : 16 ≤ P.minBlock)
    (block : P.minBlock ≤ 2 ^ j) (quarter : 4 * 2 ^ j ≤ len)
    : HoldsAligned P mem len (2 ^ j) := by
  have tags := tagBytes_le large len
  obtain ⟨lower, upper, dvd⟩ := alignUp_spec (w := mem + tagBytes P len + 2 ^ j)
    (v := mem + tagBytes P len) (k := j) (by omega)
  exact ⟨_, dvd, lower, by omega⟩

/-- Half of the pages is a block of the region. -/
theorem GrownOn.room (grown : GrownOn C bytes d g) (enough : HeapState.growWant C bytes ≤ d.len)
    : ∃ k ≤ 30, 2 * 2 ^ k ≤ d.len ∧ 2 ^ max k C.buddy.log2Min ≤ g.total
        ∧ (bytes ≤ 2 ^ k ∨ k = 30 ∧ bytes ≤ 2 ^ 31 ∧ C.buddy.word = 2 ^ 32) := by
  obtain ⟨k, most, twice, holds⟩ := HeapState.growWant_half grown.want enough grown.half
  refine ⟨k, most, by omega, ?_, holds⟩
  have four : 4 * 2 ^ C.buddy.log2Min ≤ d.len := grown.blocks
  have blocks : 8 * 2 ^ C.buddy.log2Min ≤ C.maxRegionBytes := C.blocks_fit
  have want := grown.want
  rcases le_total k C.buddy.log2Min with low | high
  · rw [max_eq_right low]
    exact grown.total le_rfl (by omega) (by omega)
  · rw [max_eq_left high]
    exact grown.total high (by omega) (by omega)

/-- The orders of the region include those of half of its pages. -/
theorem GrownOn.order_lt {k m : Nat} (grown : GrownOn C bytes d g)
    (room : 2 ^ max k C.buddy.log2Min ≤ g.total) (positive : 0 < m) (fits : m ≤ 2 ^ k)
    : C.buddy.orderForSize m < g.maxOrder := by
  have size : C.buddy.orderSize (max k C.buddy.log2Min - C.buddy.log2Min)
      = 2 ^ max k C.buddy.log2Min := by
    rw [C.buddy.orderSize_eq, Nat.add_sub_cancel' (le_max_right _ _)]
  have larger : 2 ^ k ≤ 2 ^ max k C.buddy.log2Min :=
    Nat.pow_le_pow_right (by decide) (le_max_left _ _)
  have order := (C.buddy.orderForSize_le positive).mpr (size ▸ fits.trans larger)
  exact grown.sound.order_lt_iff.mpr ((C.buddy.orderSize_mono order).trans (size ▸ room))

/-- On a 32-bit target no order of the region exceeds a gigabyte. -/
theorem GrownOn.size_le {o : Nat} (grown : GrownOn C bytes d g) (word : C.buddy.word = 2 ^ 32)
    (less : o < g.maxOrder)
    : C.buddy.orderSize o ≤ 2 ^ 30 := by
  have fits := grown.sound.order_lt_iff.mp less
  have below := grown.total_lt
  have less : C.buddy.orderSize o < 2 ^ 31 := by omega
  rw [C.buddy.orderSize_eq] at less ⊢
  have exponent := (Nat.pow_lt_pow_iff_right (by decide)).mp less
  exact Nat.pow_le_pow_right (by decide) (by omega)

/-- The region has the order of the request that it was made for, up to a gigabyte. -/
theorem GrownOn.order_iff (grown : GrownOn C bytes d g)
    (enough : HeapState.growWant C bytes ≤ d.len) (positive : 0 < bytes)
    : C.buddy.orderForSize bytes < g.maxOrder ↔ bytes ≤ 2 ^ 30 := by
  obtain ⟨k, most, _, room, holds⟩ := grown.room enough
  have gigabyte : 2 ^ k ≤ 2 ^ 30 := Nat.pow_le_pow_right (by decide) most
  constructor
  · intro fits
    rcases holds with fit | ⟨_, _, word⟩
    · exact fit.trans gigabyte
    · exact (C.buddy.le_orderSize positive).trans (grown.size_le word fits)
  · intro small
    refine grown.order_lt room positive ?_
    rcases holds with fit | ⟨rfl, _⟩
    · exact fit
    · exact small

/-- The alignment of a region is at least a block and within the cap. -/
theorem GrownOn.baseAlign_bounds (grown : GrownOn C bytes d g)
    : C.buddy.minBlock ≤ g.baseAlign ∧ g.baseAlign ≤ C.maxAlignment := by
  obtain ⟨b, laid⟩ := grown.laid
  obtain ⟨k, align, low, high, _⟩ :=
    BuddyGeometry.layout_base laid rfl grown.fits rfl C.max_alignment.1
  rw [align]
  exact ⟨Nat.pow_le_pow_right (by decide) low, Nat.pow_le_pow_right (by decide) high⟩

/-- The order of an over-aligned request is that of its size or of its alignment. -/
theorem BuddyState.alignedOrder_lt {P : BuddyParams} {n a o : Nat}
    : alignedOrder P n a < o ↔ P.orderForSize n < o ∧ P.orderForSize a < o := by
  unfold alignedOrder
  split <;> omega

/-- What growth is asked for holds the request, and its alignment twice, unless the word ends
before that.
-/
theorem HeapState.alignedGrowth_bounds {n a : Nat} (size : n + a < C.buddy.word)
    (align : 2 * a < C.buddy.word)
    : n ≤ alignedGrowth C n a ∧ 2 * a ≤ alignedGrowth C n a := by
  unfold alignedGrowth
  split
  · rw [Nat.mod_eq_of_lt size]
    omega
  · rw [Nat.mod_eq_of_lt (by omega)]
    omega

/-- An alignment up to the cap is met where it is a block, or where its block fits. -/
theorem GrownOn.align_of (grown : GrownOn C bytes d g) (le : 2 ^ j ≤ C.maxAlignment)
    (held : 2 * C.buddy.minBlock ≤ 2 ^ j → HoldsAligned C.buddy d.ptr d.len (2 ^ j))
    : 2 ^ j ≤ g.baseAlign := by
  by_cases large : 2 * C.buddy.minBlock ≤ 2 ^ j
  · exact (grown.align_iff large ((Nat.pow_le_pow_iff_right (by decide)).mp le)).mpr (held large)
  · refine le_trans (Nat.pow_le_pow_right (by decide) ?_) grown.baseAlign_bounds.1
    rw [BuddyParams.minBlock, ← pow_succ', Nat.pow_le_pow_iff_right (by decide)] at large
    omega

/-- The region has the alignment and the order of the over-aligned request that it was made
for, up to a gigabyte and the cap; only an alignment of a gigabyte can fail on its pages.
-/
theorem GrownOn.aligned_iff {n a : Nat} (grown : GrownOn C (HeapState.alignedGrowth C n a) d g)
    (enough : HeapState.growWant C (HeapState.alignedGrowth C n a) ≤ d.len)
    (positive : 0 < n) (pow : isPow2 a = true)
    : a ≤ g.baseAlign ∧ BuddyState.alignedOrder C.buddy n a < g.maxOrder
      ↔ n ≤ 2 ^ 30 ∧ a ≤ C.maxAlignment
        ∧ (a < 2 ^ 30 ∨ a = 2 ^ 30 ∧ HoldsAligned C.buddy d.ptr d.len a) := by
  obtain ⟨k, most, pages, room, holds⟩ := grown.room enough
  obtain ⟨j, rfl⟩ := (isPow2_iff _).mp pow
  have gigabyte : 2 ^ k ≤ 2 ^ 30 := Nat.pow_le_pow_right (by decide) most
  have one := Nat.two_pow_pos j
  rw [BuddyState.alignedOrder_lt]
  constructor
  · rintro ⟨aligned, size, align⟩
    have cap := aligned.trans grown.baseAlign_bounds.2
    have sizeFits := C.buddy.le_orderSize positive
    have alignFits := C.buddy.le_orderSize one
    have sizeLe := grown.sound.order_lt_iff.mp size
    have alignLe := grown.sound.order_lt_iff.mp align
    have below := grown.total_lt
    obtain ⟨holdsSize, holdsAlign⟩ := HeapState.alignedGrowth_bounds (C := C) (n := n) (a := 2 ^ j)
      (by omega) (by omega)
    rcases holds with fit | ⟨_, _, word⟩
    · exact ⟨by omega, cap, Or.inl (by omega)⟩
    · have sizeLe := grown.size_le word size
      have alignLe := grown.size_le word align
      refine ⟨by omega, cap, ?_⟩
      by_cases below : 2 ^ j < 2 ^ 30
      · exact Or.inl below
      · have blocks := grown.blocks
        have half := grown.half
        exact Or.inr ⟨by omega, (grown.align_iff (by omega)
          ((Nat.pow_le_pow_iff_right (by decide)).mp cap)).mp aligned⟩
  · rintro ⟨size, cap, align⟩
    have align' : 2 ^ j ≤ 2 ^ 30 := by omega
    have word := C.buddy.word_large
    obtain ⟨holdsSize, holdsAlign⟩ := HeapState.alignedGrowth_bounds (C := C) (n := n) (a := 2 ^ j)
      (by omega) (by omega)
    have fits : n ≤ 2 ^ k ∧ 2 ^ j ≤ 2 ^ k := by
      rcases holds with fit | ⟨rfl, _⟩
      · omega
      · exact ⟨size, align'⟩
    refine ⟨grown.align_of cap (fun large => ?_), grown.order_lt room positive fits.1,
      grown.order_lt room one fits.2⟩
    rcases align with below | ⟨_, held⟩
    · refine holdsAligned_quarter C.minBlock_large (by omega) ?_
      rcases holds with fit | ⟨rfl, _⟩
      · omega
      · have less := (Nat.pow_lt_pow_iff_right (by decide)).mp below
        have : 2 ^ j ≤ 2 ^ 29 := Nat.pow_le_pow_right (by decide) (by omega)
        omega
    · exact held

end Grown

-----------------------------------------------------------------------------------------
-- The second scan
-----------------------------------------------------------------------------------------

section SecondScan

variable {C : Config} {s : HeapState C} {v : Nat → RegionView} {held : Nat → Option Block}
  {n o a growBytes bytes : Nat} {r : RegionState C} {w : RegionView}
  {scan : HeapState C → HeapState C × Chunk} {P : HeapState C → (Nat → RegionView) → Prop}

/-- A fresh region is a source for the orders and the alignments that it has. -/
theorem FreshRegion.source_iff (fresh : FreshRegion r w)
    (small : n ≤ C.classSmall → o = C.buddy.orderForSize n ∧ a = nativeAlignment)
    : Source C n o a r.buddy.toBuddyGeometry w ↔ a ≤ r.buddy.baseAlign ∧ o < r.buddy.maxOrder := by
  have sound := fresh.buddy.rep.geometry
  constructor
  · rintro (⟨le, x, room⟩ | ⟨_, fits, ⟨x, room⟩ | ⟨_, offers⟩⟩)
    · exact ⟨le, room.order_lt sound⟩
    · obtain ⟨rfl, rfl⟩ := small fits
      exact ⟨fresh.toRegionInv.native_le, room.order_lt sound⟩
    · exact absurd offers (TlsfView.empty_offers fresh.noBlock)
  · rintro ⟨le, less⟩
    exact Or.inl ⟨le, 0, (fresh.room (sound.order_lt_iff.mp less)).busy⟩

/-- If the slow path adds a region, the region is laid out in the pages that growth got, and
the request is granted exactly if the region has its order and its alignment.
-/
theorem HeapInv.slowWith_grown (h : HeapInv s v held) (inited : s.inited = true)
    (pages : s.FreshPages) (growable : C.growBytes = some growBytes) (pre : P s v)
    (spec : ∀ {t : HeapState C} {w : Nat → RegionView}, HeapInv t w held → P t w →
      HeapGranted t w held n o a (scan t)
        ∨ ∃ w', (scan t).2 = .null ∧ Quiet t w held (scan t).1 w' ∧ P (scan t).1 w'
          ∧ ∀ i < t.count, ¬Source C n o a (t.geo i) (w i))
    (add : ∀ {t t' : HeapState C} {w : Nat → RegionView} {u : RegionView}, P t w →
      u.tlsf = TlsfView.empty → t'.count = t.count + 1 → (∀ i < t.count, t'.geo i = t.geo i) →
      P t' (Function.update w t.count u))
    (keeps : ∀ t, (scan t).1.count = t.count)
    (small : n ≤ C.classSmall → o = C.buddy.orderForSize n ∧ a = nativeAlignment)
    (more : s.count < (s.slowWith scan bytes).1.count)
    : ∃ d, Grew s growBytes bytes (s.slowWith scan bytes) d
        ∧ ((s.slowWith scan bytes).2.ptr ≠ 0
          ↔ a ≤ ((s.slowWith scan bytes).1.geo s.count).baseAlign
            ∧ o < ((s.slowWith scan bytes).1.geo s.count).maxOrder) := by
  have call : s.slowWith scan bytes
      = if (scan s).2.ptr = 0 then
          if ((scan s).1.grow bytes).2 then scan ((scan s).1.grow bytes).1
          else (((scan s).1.grow bytes).1, (scan s).2)
        else scan s := by
    unfold HeapState.slowWith
    simp only [inited, Bool.not_true, Bool.false_eq_true, if_false]
  rcases spec h pre with granted | ⟨v', null, quiet, pre', reasons⟩
  · rw [call, if_neg granted.notNull, keeps] at more
    exact absurd more (lt_irrefl _)
  rw [if_pos (by rw [null]; rfl)] at call
  have pages' := quiet.pages pages
  have count := quiet.steady.count
  cases quiet.step.inv.grow pages' bytes with
  | same no step same =>
      rw [call, if_neg (by simp [no]), same, count] at more
      exact absurd more (lt_irrefl _)
  | @added w ok fresh step added inited' =>
      obtain ⟨d, offered, grown⟩ := quiet.step.inv.grow_pages pages' growable ok
      have asked : s.pagesFor growBytes bytes = some d := by
        rw [← offered, HeapState.pagesFor, HeapState.pagesFor, quiet.steady.requests]
      have ready := add pre' fresh.noBlock added step.geo
      rw [if_pos ok] at call
      rw [call]
      generalize ((scan s).1.grow bytes).1 = t at fresh step added grown ready
      rw [count] at fresh added grown
      have source : Source C n o a (t.geo s.count) w
          ↔ a ≤ (t.geo s.count).baseAlign ∧ o < (t.geo s.count).maxOrder :=
        fresh.source_iff small
      have last : s.count < t.count := by omega
      rcases spec step.inv ready with granted | ⟨w', null', quiet', _, reasons'⟩
      · have notNull := granted.notNull
        obtain ⟨_, _, _, _, _, _, from_, kept⟩ := granted
        refine ⟨d, ⟨asked, by rwa [kept.geo _ last]⟩, ?_⟩
        rw [kept.geo _ last, ← source]
        refine ⟨fun _ => ?_, fun _ => notNull⟩
        rcases from_ with fewer | ⟨i, less, supply⟩
        · rw [keeps] at fewer
          exact absurd fewer (lt_irrefl _)
        · by_cases here : i = s.count
          · rw [here, count, Function.update_self] at supply
            exact supply
          · have before : i < s.count := by omega
            rw [count, Function.update_of_ne here, step.geo i (by rw [count]; exact before)]
              at supply
            exact absurd (quiet.source h before supply) (reasons i before)
      · refine ⟨d, ⟨asked, by rwa [quiet'.step.geo _ last]⟩, ?_⟩
        have away := reasons' s.count last
        rw [count, Function.update_self] at away
        rw [quiet'.step.geo _ last, ← source, null']
        exact ⟨fun wrong => absurd rfl wrong, fun yes => absurd yes away⟩

/-- The first scan of a request that the fast attempt could not serve, or of a small one on a
heap without regions.
-/
structure GrowReady {C : Config} (n : Nat) (s : HeapState C) (v : Nat → RegionView) : Prop where
  scan : ScanReady C n s.count v
  some : ¬n ≤ C.classSmall → 0 < s.count
  full : ¬n ≤ C.classSmall →
    ∀ x, ¬Room C.buddy (s.geo 0).total (v 0).buddy.owned (C.buddy.orderForSize n) x

theorem GrowReady.add {t : HeapState C} {u : RegionView} (ready : GrowReady n s v)
    (empty : u.tlsf = TlsfView.empty) (count : t.count = s.count + 1)
    (geo : ∀ i < s.count, t.geo i = s.geo i)
    : GrowReady n t (Function.update v s.count u) := by
  refine ⟨count ▸ ready.scan.add empty, fun _ => by omega, fun large x => ?_⟩
  have some := ready.some large
  rw [geo 0 some, Function.update_of_ne (by omega)]
  exact ready.full large x

/-- A scan that grants nothing leaves no source behind. -/
theorem HeapInv.allocScan_sources (h : HeapInv s v held) (positive : 0 < n)
    (ready : GrowReady n s v)
    : HeapGranted s v held n (C.buddy.orderForSize n) nativeAlignment (s.allocScan n)
      ∨ ∃ v', (s.allocScan n).2 = .null ∧ Quiet s v held (s.allocScan n).1 v'
        ∧ GrowReady n (s.allocScan n).1 v'
        ∧ ∀ i < s.count, ¬Source C n (C.buddy.orderForSize n) nativeAlignment (s.geo i) (v i) := by
  rcases h.allocScan positive (fun some small => ready.scan small some) with
    granted | ⟨v', null, quiet, reasons⟩
  · exact Or.inl granted
  have none : ∀ i < s.count, ¬(v i).Serves C (s.geo i).total n := by
    intro i less
    refine reasons i less (fun first => ?_)
    by_cases small : n ≤ C.classSmall
    · exact Or.inl small
    · exact Or.inr (ready.full small)
  refine Or.inr ⟨v', null, quiet, ⟨?_, fun large => ?_, fun large x room => ?_⟩, ?_⟩
  · intro small some offers
    rw [quiet.steady.count] at some
    exact none 0 some ((quiet.serves 0 some n positive).mp (Or.inr ⟨small, offers⟩))
  · rw [quiet.steady.count]
    exact ready.some large
  · have some := ready.some large
    rw [quiet.step.geo 0 some] at room
    exact none 0 some ((quiet.serves 0 some n positive).mp (Or.inl ⟨x, room.busy⟩))
  · rintro i less (⟨_, x, room⟩ | ⟨_, _, serves⟩)
    · exact none i less (Or.inl ⟨x, room⟩)
    · exact none i less serves

theorem HeapInv.allocAlignedScan_sources (h : HeapInv s v held) (positive : 0 < n)
    (pow : isPow2 a = true)
    : HeapGranted s v held (C.classSmall + 1) (BuddyState.alignedOrder C.buddy n a) a
        (s.allocAlignedScan n a)
      ∨ ∃ v', (s.allocAlignedScan n a).2 = .null ∧ Quiet s v held (s.allocAlignedScan n a).1 v'
        ∧ True
        ∧ ∀ i < s.count, ¬Source C (C.classSmall + 1) (BuddyState.alignedOrder C.buddy n a) a
          (s.geo i) (v i) := by
  rcases h.allocAlignedScan positive pow with granted | ⟨v', null, quiet, reasons⟩
  · exact Or.inl granted
  refine Or.inr ⟨v', null, quiet, trivial, ?_⟩
  rintro i less (⟨le, x, room⟩ | ⟨_, wrong, _⟩)
  · rcases reasons i less with degraded | full
    · omega
    · exact full x room
  · omega

end SecondScan

-----------------------------------------------------------------------------------------
-- The routes to growth
-----------------------------------------------------------------------------------------

section Routes

variable {C : Config} {s t : HeapState C} {v : Nat → RegionView} {held : Nat → Option Block}
  {n a growBytes bytes : Nat} {r : RegionState C} {w : RegionView}

/-- A large request to a fresh region. -/
theorem FreshRegion.largeAlloc_iff (fresh : FreshRegion r w) (positive : 0 < n)
    : (r.largeAlloc n).2.ptr ≠ 0 ↔ C.buddy.orderForSize n < r.buddy.maxOrder := by
  rw [RegionState.largeAlloc, RegionState.buddyAlloc_eq _ positive]
  by_cases less : C.buddy.orderForSize n < r.buddy.maxOrder
  · have granted := fresh.orderAlloc less
    simp only [if_neg granted]
    exact iff_of_true granted less
  · rw [RegionState.orderAlloc_high (Nat.not_lt.mp less)]
    simp only [Chunk.null, if_true, RegionState.largeAllocSlow_bare fresh.noSpare]
    exact iff_of_false (fun wrong => wrong rfl) less

/-- Without a spare sheet in region 0 the scan for a large request begins behind it. -/
theorem HeapState.allocScan_behind (large : ¬n ≤ C.classSmall)
    (bare : (s.regions 0).spare = nullOff)
    : s.allocScan n = tryFrom (fun r => r.largeAlloc n) (s.count - 1) 1 (s, .null) := by
  rw [HeapState.allocScan, if_neg large,
    s.onRegion_same (RegionState.largeAllocSlow_bare (r := s.region 0) bare n)]

/-- The fast attempt grants a block of region 0, or it goes on to the slow path. -/
theorem HeapInv.allocFast_ready (h : HeapInv s v held) (some : 0 < s.count) (positive : 0 < n)
    : (s.alloc n).1.count = s.count
      ∨ ∃ s' v', s.alloc n = s'.allocSlow n ∧ Quiet s v held s' v' ∧ GrowReady n s' v' := by
  have region := h.regions 0 some
  rw [HeapState.alloc, if_neg (by omega)]
  by_cases small : n ≤ C.classSmall
  · rw [if_pos small]
    rcases region.tlsfAlloc positive small (C.buddy.orderForSize n) with granted | ⟨same, none⟩
    · simp only [if_pos (show (s.onRegion 0 (fun r => r.tlsfAlloc n)).2.ptr ≠ 0 from
        granted.live region)]
      exact Or.inl rfl
    · have call := HeapState.onRegion_same (f := fun r => r.tlsfAlloc n) same
      simp only [call, Chunk.null, ne_eq, not_true_eq_false, if_false]
      exact Or.inr ⟨s, v, rfl, .refl h, fun _ _ => none, fun large => absurd small large,
        fun large => absurd small large⟩
  · rw [if_neg small]
    have call : s.onRegion 0 (fun r => r.buddyAlloc n)
        = s.onRegion 0 (fun r => r.orderAlloc (C.buddy.orderForSize n)) := by
      simp only [HeapState.onRegion, (s.region 0).buddyAlloc_eq positive]
    rw [call]
    rcases region.orderAlloc n (C.buddy.orderForSize n) with
        granted | ⟨null, away, _, w, unchanged, owned⟩
    · simp only [if_pos (show
        (s.onRegion 0 (fun r => r.orderAlloc (C.buddy.orderForSize n))).2.ptr ≠ 0 from
          granted.live region)]
      exact Or.inl rfl
    · have quiet := h.regionUnchanged some unchanged
      have result : s.onRegion 0 (fun r => r.orderAlloc (C.buddy.orderForSize n))
          = (s.setRegion 0 ((s.region 0).orderAlloc (C.buddy.orderForSize n)).1, .null) :=
        Prod.ext rfl null
      simp only [result, Chunk.null, ne_eq, not_true_eq_false, if_false]
      refine Or.inr ⟨_, _, rfl, quiet, fun fits => absurd fits small, fun _ => some, fun _ => ?_⟩
      rw [Function.update_self, quiet.step.geo 0 some, owned]
      exact away

/-- The slow path of `alloc`, with what growth for it leaves. -/
theorem HeapInv.slow_grew (h : HeapInv s v held) (inited : s.inited = true)
    (pages : s.FreshPages) (growable : C.growBytes = some growBytes) (positive : 0 < n)
    (ready : GrowReady n s v) (more : s.count < (s.allocSlow n).1.count)
    : ∃ d, Grew s growBytes n (s.allocSlow n) d
        ∧ ((s.allocSlow n).2.ptr ≠ 0
          ↔ C.buddy.orderForSize n < ((s.allocSlow n).1.geo s.count).maxOrder) := by
  rw [s.allocSlow_eq positive] at more ⊢
  obtain ⟨d, grew, iff⟩ := h.slowWith_grown (o := C.buddy.orderForSize n) (a := nativeAlignment)
    (n := n) (P := GrowReady n) inited pages growable ready
    (fun inv ready => inv.allocScan_sources positive ready)
    (fun ready empty count geo => ready.add empty count geo) (fun t => t.allocScan_count n)
    (fun _ => ⟨rfl, rfl⟩) more
  refine ⟨d, grew, iff.trans (and_iff_right ?_)⟩
  have sixteen := C.minBlock_large
  exact sixteen.trans grew.grown.baseAlign_bounds.1

/-- A heap with regions. -/
theorem HeapInv.alloc_grew_some (h : HeapInv s v held) (some : 0 < s.count)
    (pages : s.FreshPages) (growable : C.growBytes = .some growBytes) (positive : 0 < n)
    (more : s.count < (s.alloc n).1.count)
    : ∃ d, Grew s growBytes n (s.alloc n) d
        ∧ ((s.alloc n).2.ptr ≠ 0
          ↔ C.buddy.orderForSize n < ((s.alloc n).1.geo s.count).maxOrder) := by
  rcases h.allocFast_ready some positive with same | ⟨s', v', call, quiet, ready⟩
  · omega
  rw [call] at more ⊢
  have count := quiet.steady.count
  rw [← count] at more ⊢
  obtain ⟨d, grew, iff⟩ := quiet.step.inv.slow_grew (quiet.step.inited (h.inited_of_count some))
    (quiet.pages pages) growable positive ready more
  refine ⟨d, ⟨?_, count ▸ grew.grown⟩, iff⟩
  rw [← grew.asked, HeapState.pagesFor, HeapState.pagesFor, quiet.steady.requests]

/-- The slow path of a large request whose first scan finds and changes nothing. -/
theorem HeapInv.slow_second (h : HeapInv s v held) (inited : s.inited = true)
    (pages : s.FreshPages) (positive : 0 < n) (scan : s.allocScan n = (s, .null))
    : ((s.grow n).2 = true ∧ s.allocSlow n = (s.grow n).1.allocScan n)
      ∨ ((s.allocSlow n).1.count = s.count ∧ (s.allocSlow n).2 = .null) := by
  have call : s.allocSlow n
      = if (s.grow n).2 then (s.grow n).1.allocScan n else ((s.grow n).1, .null) := by
    rw [s.allocSlow_eq positive]
    unfold HeapState.slowWith
    simp only [inited, Bool.not_true, Bool.false_eq_true, if_false, scan]
    exact if_pos rfl
  rw [call]
  cases h.grow pages n with
  | added ok _ _ _ _ => exact Or.inl ⟨ok, if_pos ok⟩
  | same no _ count =>
      rw [if_neg (by simp [no])]
      exact Or.inr ⟨count, rfl⟩

/-- A large request to a heap with one fresh region, past the free blocks of that region. -/
theorem HeapInv.slow_grew_beside (h : HeapInv s v held) (inited : s.inited = true)
    (pages : s.FreshPages) (growable : C.growBytes = some growBytes) (positive : 0 < n)
    (large : ¬n ≤ C.classSmall) (count : s.count = 1) (fresh : FreshRegion (s.region 0) (v 0))
    (more : s.count < (s.allocSlow n).1.count)
    : ∃ d, Grew s growBytes n (s.allocSlow n) d
        ∧ ((s.allocSlow n).2.ptr ≠ 0
          ↔ C.buddy.orderForSize n < ((s.allocSlow n).1.geo s.count).maxOrder) := by
  have bare : (s.regions 0).spare = nullOff := fresh.noSpare
  have scan : s.allocScan n = (s, .null) := by
    rw [HeapState.allocScan_behind large bare, count]
    rfl
  rcases h.slow_second inited pages positive scan with ⟨grown, call⟩ | ⟨same, _⟩
  case inr => omega
  obtain ⟨d, asked, made⟩ := h.grow_pages pages growable grown
  rw [call] at more ⊢
  cases h.grow pages n with
  | same no _ _ =>
      rw [grown] at no
      cases no
  | @added w _ region step added _ =>
      have bare' : ((s.grow n).1.regions 0).spare = nullOff := by
        rw [HeapState.grow_regions s n (by omega)]
        exact bare
      have behind : (s.grow n).1.allocScan n
          = (s.grow n).1.onRegion s.count (fun r => r.largeAlloc n) := by
        rw [HeapState.allocScan_behind large bare', added, count]
        rfl
      have geo : ((s.grow n).1.allocScan n).1.geo s.count = (s.grow n).1.geo s.count := by
        rcases step.inv.allocScan positive (fun _ small => absurd small large) with
          granted | ⟨_, _, quiet, _⟩
        · obtain ⟨_, _, _, _, _, _, _, kept⟩ := granted
          exact kept.geo _ (by omega)
        · exact quiet.step.geo _ (by omega)
      refine ⟨d, ⟨asked, by rwa [geo]⟩, ?_⟩
      rw [geo, behind]
      exact region.largeAlloc_iff positive

/-- A large request to an initialised heap without regions is refused. -/
theorem HeapInv.slow_refused (h : HeapInv s v held) (inited : s.inited = true)
    (pages : s.FreshPages) (positive : 0 < n) (large : ¬n ≤ C.classSmall) (empty : s.count = 0)
    : (s.allocSlow n).2.ptr = 0 := by
  have scan : s.allocScan n = (s, .null) := by
    rw [h.allocScan_none empty, if_neg large]
  rcases h.slow_second inited pages positive scan with ⟨grown, call⟩ | ⟨_, null⟩
  case inr =>
    rw [null]
    rfl
  rw [call]
  cases h.grow pages n with
  | same no _ _ =>
      rw [grown] at no
      cases no
  | @added w _ region step added _ =>
      rw [empty] at region added
      have bare : ((s.grow n).1.regions 0).spare = nullOff := region.noSpare
      rw [HeapState.allocScan_behind large bare, added]
      rfl

/-- Which requests use the region that they add. The scan skips region 0 for large requests,
also if growth has just added it.
-/
theorem HeapInv.alloc_grew (h : HeapInv s v held) (fits : C.PoolFits) (supply : s.Supplied)
    (growable : C.growBytes = some growBytes) (positive : 0 < n)
    (more : s.ensure.1.count < (s.alloc n).1.count)
    : (n ≤ C.classSmall ∨ 0 < s.ensure.1.count)
          ∧ (∃ d, Grew s.ensure.1 growBytes n (s.alloc n) d
            ∧ ((s.alloc n).2.ptr ≠ 0
              ↔ C.buddy.orderForSize n < ((s.alloc n).1.geo s.ensure.1.count).maxOrder))
      ∨ ¬(n ≤ C.classSmall ∨ 0 < s.ensure.1.count) ∧ (s.alloc n).2.ptr = 0 := by
  rcases Nat.eq_zero_or_pos s.count with empty | some
  case inr =>
    have same : s.ensure.1 = s := by
      rw [HeapState.ensure, if_pos (h.inited_of_count some)]
    rw [same] at more ⊢
    exact Or.inl ⟨Or.inr some, h.alloc_grew_some some supply.now growable positive more⟩
  have route : ∀ t : HeapState C, t.count = 0 → t.alloc n = t.allocSlow n :=
    fun t empty => by rw [HeapState.alloc, if_pos empty]
  rw [route s empty] at more ⊢
  cases inited : s.inited with
  | true =>
      have same : s.ensure.1 = s := by
        rw [HeapState.ensure, if_pos inited]
      rw [same, empty] at more ⊢
      by_cases small : n ≤ C.classSmall
      · refine Or.inl ⟨Or.inl small, ?_⟩
        have ready : GrowReady n s v := ⟨fun _ some => by omega, fun large => absurd small large,
          fun large => absurd small large⟩
        have := h.slow_grew inited supply.now growable positive ready (by omega)
        rwa [empty] at this
      · exact Or.inr ⟨by omega, h.slow_refused inited supply.now positive small empty⟩
  | false =>
      have same : s.ensure.1 = s.init.1 := by
        rw [HeapState.ensure, if_neg (by simp [inited])]
      obtain ⟨first, ok⟩ := h.init_first inited fits supply.now
      have pages := supply.afterInit inited
      have ready : s.init.1.inited = true := first.ready
      rw [s.allocSlow_eq positive, HeapState.slowWith_init inited ready, ok, same] at more ⊢
      generalize s.init.1 = t at first pages ready more ⊢
      cases first with
      | @region g w geometry inv inited count geo region =>
          rw [if_pos (by simp [count]), ← HeapState.allocSlow_eq t positive] at more ⊢
          refine Or.inl ⟨Or.inr (by omega), ?_⟩
          by_cases small : n ≤ C.classSmall
          · refine inv.slow_grew inited pages growable positive ⟨fun _ _ => ?_,
              fun large => absurd small large, fun large => absurd small large⟩ more
            exact TlsfView.empty_offers region.noBlock
          · exact inv.slow_grew_beside inited pages growable positive small count region more
      | @empty w geometry inv inited count requests =>
          rw [if_neg (by simp [count])] at more
          exact absurd more (lt_irrefl _)

/-- The slow path of `alloc_aligned`. -/
theorem HeapInv.alignedSlow_grew (h : HeapInv s v held) (inited : s.inited = true)
    (pages : s.FreshPages) (growable : C.growBytes = some growBytes) (positive : 0 < n)
    (pow : isPow2 a = true) (more : s.count < (s.allocAlignedSlow n a).1.count)
    : ∃ d, Grew s growBytes (HeapState.alignedGrowth C n a) (s.allocAlignedSlow n a) d
        ∧ ((s.allocAlignedSlow n a).2.ptr ≠ 0
          ↔ a ≤ ((s.allocAlignedSlow n a).1.geo s.count).baseAlign
            ∧ BuddyState.alignedOrder C.buddy n a
              < ((s.allocAlignedSlow n a).1.geo s.count).maxOrder) := by
  rw [s.allocAlignedSlow_eq] at more ⊢
  exact h.slowWith_grown (n := C.classSmall + 1) (o := BuddyState.alignedOrder C.buddy n a)
    (P := fun _ _ => True) inited pages growable trivial
    (fun inv _ => inv.allocAlignedScan_sources positive pow) (fun _ _ _ _ => trivial)
    (fun t => HeapState.tryFrom_count _ _ _ _) (fun small => by omega) more

/-- An over-aligned request uses the region that it adds, if the region has the alignment and
the order.
-/
theorem HeapInv.allocAligned_grew (h : HeapInv s v held) (fits : C.PoolFits)
    (supply : s.Supplied) (growable : C.growBytes = some growBytes) (positive : 0 < n)
    (pow : isPow2 a = true) (beyond : nativeAlignment < a)
    (more : s.ensure.1.count < (s.allocAligned n a).1.count)
    : ∃ d, Grew s.ensure.1 growBytes (HeapState.alignedGrowth C n a) (s.allocAligned n a) d
        ∧ ((s.allocAligned n a).2.ptr ≠ 0
          ↔ a ≤ ((s.allocAligned n a).1.geo s.ensure.1.count).baseAlign
            ∧ BuddyState.alignedOrder C.buddy n a
              < ((s.allocAligned n a).1.geo s.ensure.1.count).maxOrder) := by
  have zero : n ≠ 0 := by omega
  have route : ∀ t : HeapState C, t.allocAligned n a
      = if t.count = 0 then t.allocAlignedSlow n a
        else
          let c := t.onRegion 0 (fun r => r.buddyAllocAligned n a)
          if c.2.ptr ≠ 0 then c else c.1.allocAlignedSlow n a := by
    intro t
    rw [HeapState.allocAligned]
    simp only [zero, pow, decide_false, Bool.not_true, Bool.or_false, Bool.false_eq_true,
      if_false, Nat.not_le.mpr beyond]
  rw [route] at more ⊢
  rcases Nat.eq_zero_or_pos s.count with empty | some
  case inr =>
    have same : s.ensure.1 = s := by
      rw [HeapState.ensure, if_pos (h.inited_of_count some)]
    rw [same, if_neg (by omega)] at more ⊢
    simp only at more ⊢
    split at more
    case isTrue => exact absurd more (lt_irrefl _)
    case isFalse null =>
      rw [if_neg null]
      rcases h.allocAlignedFast some positive pow with granted | ⟨v', _, quiet⟩
      · exact absurd granted.notNull null
      · have count := quiet.steady.count
        have inited := quiet.step.inited (h.inited_of_count some)
        rw [← count] at more ⊢
        obtain ⟨d, grew, iff⟩ := quiet.step.inv.alignedSlow_grew inited
          (quiet.pages supply.now) growable positive pow more
        refine ⟨d, ⟨?_, count ▸ grew.grown⟩, iff⟩
        rw [← grew.asked, HeapState.pagesFor, HeapState.pagesFor, quiet.steady.requests]
  rw [if_pos empty] at more ⊢
  cases inited : s.inited with
  | true =>
      have same : s.ensure.1 = s := by
        rw [HeapState.ensure, if_pos inited]
      rw [same] at more ⊢
      exact h.alignedSlow_grew inited supply.now growable positive pow more
  | false =>
      have same : s.ensure.1 = s.init.1 := by
        rw [HeapState.ensure, if_neg (by simp [inited])]
      obtain ⟨first, ok⟩ := h.init_first inited fits supply.now
      have pages := supply.afterInit inited
      have ready : s.init.1.inited = true := first.ready
      rw [s.allocAlignedSlow_eq, HeapState.slowWith_init inited ready, ok, same] at more ⊢
      generalize s.init.1 = t at first pages ready more ⊢
      cases first with
      | region geometry inv inited count geo region =>
          rw [if_pos (by simp [count]), ← HeapState.allocAlignedSlow_eq] at more ⊢
          exact inv.alignedSlow_grew inited pages growable positive pow more
      | empty geometry inv inited count requests =>
          rw [if_neg (by simp [count])] at more
          exact absurd more (lt_irrefl _)

end Routes

end Bbmalloc
