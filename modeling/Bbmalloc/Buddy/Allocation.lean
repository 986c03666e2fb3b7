import Bbmalloc.Buddy.OrderCache

/-! Specifications of the buddy operations in terms of the owned blocks: an allocation
succeeds exactly when some aligned place meets no owned block, and only the block it is
about changes owner.
-/

namespace Bbmalloc

open Bbmalloc.Foundations

-----------------------------------------------------------------------------------------
-- Places for a block
-----------------------------------------------------------------------------------------

/-- An aligned stretch of the data area that meets no owned block. -/
def Room (P : BuddyParams) (total : Nat) (owned : Nat → Option Tile) (o x : Nat) : Prop :=
  P.orderSize o ∣ x ∧ x + P.orderSize o ≤ total
  ∧ ∀ y b, owned y = some b → y + P.orderSize b.2 ≤ x ∨ x + P.orderSize o ≤ y

section Places

variable {P : BuddyParams} {s : BuddyState P} {v : BuddyView} {x o i : Nat} {k : TileKind}

theorem BuddyParams.orderSize_dvd (P : BuddyParams) {o i : Nat} (le : o ≤ i)
    : P.orderSize o ∣ P.orderSize i := by
  rw [P.orderSize_eq, P.orderSize_eq]
  exact Nat.pow_dvd_pow 2 (by omega)

theorem BuddyParams.orderSize_mono (P : BuddyParams) {o i : Nat} (le : o ≤ i)
    : P.orderSize o ≤ P.orderSize i :=
  Nat.le_of_dvd (P.orderSize_pos i) (P.orderSize_dvd le)

/-- A place for a large block has a place for a smaller one. -/
theorem Room.mono {total : Nat} {owned : Nat → Option Tile} (room : Room P total owned i x)
    (le : o ≤ i)
    : Room P total owned o x := by
  obtain ⟨aligned, fits, apart⟩ := room
  have size := P.orderSize_mono le
  refine ⟨dvd_trans (P.orderSize_dvd le) aligned, by omega, ?_⟩
  intro y b found
  have := apart y b found
  omega

/-- The orders below `max_order` are those of the blocks that the data area can hold. -/
theorem BuddyGeometry.Sound.order_lt_iff {g : BuddyGeometry} (sound : g.Sound P)
    : o < g.maxOrder ↔ P.orderSize o ≤ g.total := by
  have bounds := fls_bounds (Nat.pos_iff_ne_zero.mp sound.count_pos)
  rw [sound.order_eq, sound.total_eq, P.orderSize_units, Nat.mul_le_mul_right_iff P.minBlock_pos]
  constructor
  · intro less
    exact (Nat.pow_le_pow_right (by decide) (Nat.lt_succ_iff.mp less)).trans bounds.1
  · intro le
    exact (Nat.pow_lt_pow_iff_right (by decide)).mp (lt_of_le_of_lt le bounds.2)

/-- Blocks of the top order or above do not fit. -/
theorem Room.order_lt {owned : Nat → Option Tile} (h : s.Sound P)
    (room : Room P s.total owned o x)
    : o < s.maxOrder := by
  have fits := room.2.1
  exact h.order_lt_iff.mpr (show P.orderSize o ≤ s.total by omega)

/-- A block that nobody owns is a place for a block of its order. -/
theorem BuddyRep.room (h : BuddyRep s v) (known : v.tile x = some (k, o))
    (loose : k.isOwned = false)
    : Room P s.total v.owned o x := by
  obtain ⟨aligned, _, fits, _, _⟩ := h.block known
  refine ⟨aligned, fits, ?_⟩
  rintro y ⟨k', i⟩ found
  obtain ⟨found, owned⟩ := ownedOf_eq_some.mp found
  have differ : y ≠ x := by
    rintro rfl
    rw [known] at found
    obtain rfl := (Prod.mk.inj (Option.some.inj found)).1
    rw [loose] at owned
    exact absurd owned (by decide)
  have := h.tiling.tiled.disjoint found known differ
  simpa only [← P.orderSize_eq] using this

/-- With an empty cache, a place for a block lies in a free block. -/
theorem BuddyIdle.free_of_room (h : BuddyIdle s v) (cached : ∀ i, v.cached i = [])
    (room : Room P s.total v.owned o x)
    : ∃ a i, v.tile a = some (.free, i) ∧ o ≤ i ∧ a ≤ x
        ∧ x + P.orderSize o ≤ a + P.orderSize i := by
  obtain ⟨aligned, fits, apart⟩ := room
  have order := Room.order_lt (o := o) h.rep.geometry ⟨aligned, fits, apart⟩
  simp only [P.orderSize_eq] at aligned fits ⊢
  refine h.rep.tiling.single_cover h.merged order aligned fits ?_
  rintro a ⟨k, j⟩ found before after
  cases k with
  | free => rfl
  | held => exact (h.settled a j found).elim
  | cached =>
      have := (h.rep.inCache j (s.base + a)).mpr ⟨a, rfl, found⟩
      simp [cached j] at this
  | alloc =>
      have := apart a _ (ownedOf_eq_some.mpr ⟨found, rfl⟩)
      simp only [P.orderSize_eq] at this after
      omega
  | sheet =>
      have := apart a _ (ownedOf_eq_some.mpr ⟨found, rfl⟩)
      simp only [P.orderSize_eq] at this after
      omega

/-- So some free list of a sufficient order is not empty. -/
theorem BuddyIdle.listed_of_room (h : BuddyIdle s v) (cached : ∀ i, v.cached i = [])
    (room : Room P s.total v.owned o x)
    : ∃ i, o ≤ i ∧ v.lists i ≠ [] := by
  obtain ⟨a, i, found, le, _, _⟩ := h.free_of_room cached room
  exact ⟨i, le, List.ne_nil_of_mem (h.rep.mem_lists.mpr found)⟩

/-- The free mask fits its word. -/
theorem MaskFits.mask_lt (h : MaskFits s v) (rep : BuddyRep s v)
    : s.freeMask < 2 ^ P.maskBits := by
  refine Nat.lt_pow_two_of_testBit _ (fun i high => ?_)
  by_contra set
  obtain ⟨n, member⟩ := List.exists_mem_of_ne_nil _ ((h i).mp (by simpa using set))
  obtain ⟨y, _, found⟩ := (rep.listed i n).mp member
  have order := (rep.block found).2.2.2.2
  have orders := rep.geometry.order_le
  have range := P.mx_range.2
  unfold BuddyParams.maskBits at high
  split at high <;> omega

/-- `find_free_order` returns the least non-empty order from `o` on, if there is one. -/
theorem BuddyState.findFreeOrder_spec (rep : BuddyRep s v) (mask : MaskFits s v)
    : (s.findFreeOrder o = s.maxOrder ∧ ∀ i, o ≤ i → v.lists i = [])
      ∨ (o ≤ s.findFreeOrder o ∧ s.findFreeOrder o < s.maxOrder
          ∧ v.lists (s.findFreeOrder o) ≠ []) := by
  unfold findFreeOrder
  by_cases zero : s.freeMask >>> o = 0
  · refine Or.inl ⟨by simp [zero], fun i le => ?_⟩
    by_contra nonempty
    have set := (mask i).mpr nonempty
    have clear : (s.freeMask >>> o).testBit (i - o) = false := by rw [zero]; simp
    rw [Nat.testBit_shiftRight, show o + (i - o) = i by omega, set] at clear
    exact absurd clear (by decide)
  · have fits : s.freeMask >>> o < 2 ^ P.maskBits := by
      rw [Nat.shiftRight_eq_div_pow]
      exact lt_of_le_of_lt (Nat.div_le_self _ _) (mask.mask_lt rep)
    have set := (ctz_spec zero fits).1
    rw [Nat.testBit_shiftRight] at set
    have nonempty := (mask _).mp set
    obtain ⟨n, member⟩ := List.exists_mem_of_ne_nil _ nonempty
    obtain ⟨y, _, found⟩ := (rep.listed _ n).mp member
    have order := (rep.block found).2.2.2.2
    simp only [zero, if_false]
    exact Or.inr ⟨by omega, order, nonempty⟩

end Places

-----------------------------------------------------------------------------------------
-- Lookup
-----------------------------------------------------------------------------------------

section Lookup

variable {P : BuddyParams} {s : BuddyState P} {v : BuddyView} {x o : Nat}

/-- The pointer difference of an address in the data area. -/
theorem BuddyGeometry.Sound.wrapSub_lt (h : s.Sound P) {p n : Nat} (room : n ≤ s.total)
    : wrapSub P.word p s.base < n ↔ s.base ≤ p ∧ p < s.base + n :=
  Foundations.wrapSub_lt (by have := h.end_lt; omega)

theorem BuddyState.inRange_iff (h : s.Sound P) {p : Nat}
    : s.inRange p = true ↔ s.base ≤ p ∧ p < s.base + s.total := by
  rw [inRange, decide_eq_true_eq]
  exact h.wrapSub_lt (Nat.le_refl _)

/-- `is_sheet_at` is true exactly at the blocks marked as sheets. -/
theorem BuddyInv.isSheetAt_iff (h : BuddyInv s v) (unit : P.minBlock ∣ x) (inside : x < s.total)
    : s.isSheetAt x = true ↔ ∃ o, v.tile x = some (.sheet, o) := by
  have none_ne : tagNone &&& tagKind ≠ tagSheet := by decide
  rw [BuddyState.isSheetAt, beq_iff_eq]
  cases found : v.tile x with
  | none =>
      rw [h.rep.tag_eq unit inside (t := tagNone) (by rw [found]; rfl)]
      exact iff_of_false none_ne (by simp)
  | some b =>
      obtain ⟨k, i⟩ := b
      have bits := tag_bits i (h.rep.order_lt_64 (h.rep.block found).2.2.2.2)
      cases k with
      | free =>
          rw [h.rep.tag_eq unit inside (by rw [found]; rfl)]
          exact iff_of_false bits.2.2.2.2.2.2.1 (by simp)
      | alloc =>
          rw [h.rep.tag_eq unit inside (by rw [found]; rfl)]
          exact iff_of_false bits.2.2.2.2.2.1 (by simp)
      | sheet =>
          rw [h.rep.tag_eq unit inside (by rw [found]; rfl)]
          exact iff_of_true bits.2.2.2.2.2.2.2.1 ⟨i, rfl⟩
      | cached =>
          rw [h.rep.tag_eq unit inside (t := tagNone) (by rw [found]; rfl)]
          exact iff_of_false none_ne (by simp)
      | held => exact (h.settled x i found).elim

/-- `__order_at` recognises exactly the starts of owned blocks, for every pointer value. -/
theorem BuddyInv.orderAt_iff (h : BuddyInv s v) {p : Nat}
    : s.orderAt p = some o ↔ ∃ x k, p = s.base + x ∧ v.owned x = some (k, o) := by
  unfold BuddyState.orderAt
  constructor
  · intro found
    simp only at found
    split at found
    · simp at found
    · rename_i accepted
      rw [Bool.or_eq_true, decide_eq_true_eq, decide_eq_true_eq, not_or, ge_iff_le, Nat.not_le,
        not_not, BuddyParams.minBlock, and_low] at accepted
      obtain ⟨inside, low⟩ := accepted
      have range := (h.rep.geometry.wrapSub_lt (Nat.le_refl _)).mp inside
      rw [wrapSub_of_le range.1] at found inside low
      have unit : P.minBlock ∣ p - s.base := Nat.dvd_of_mod_eq_zero low
      split at found
      · rename_i read
        obtain rfl := Option.some.inj found
        rw [Bool.and_eq_true, decide_eq_true_eq, decide_eq_true_eq] at read
        refine ⟨p - s.base, ?_⟩
        cases tile : v.tile (p - s.base) with
        | none =>
            rw [h.rep.tag_eq unit inside (t := tagNone) (by rw [tile]; rfl)] at read
            exact absurd read.1 (by decide)
        | some b =>
            obtain ⟨k, i⟩ := b
            have bits := tag_bits i (h.rep.order_lt_64 (h.rep.block tile).2.2.2.2)
            have owned : ∀ k, k.isOwned = true → v.tile (p - s.base) = some (k, i) →
                v.owned (p - s.base) = some (k, i) :=
              fun k owned eq => ownedOf_eq_some.mpr ⟨eq, owned⟩
            cases k with
            | free =>
                rw [h.rep.tag_eq unit inside (by rw [tile]; rfl)] at read
                exact absurd bits.2.2.2.2.1 read.1
            | cached =>
                rw [h.rep.tag_eq unit inside (t := tagNone) (by rw [tile]; rfl)] at read
                exact absurd read.1 (by decide)
            | held => exact (h.settled _ i tile).elim
            | alloc =>
                rw [h.rep.tag_eq unit inside (by rw [tile]; rfl), bits.1]
                exact ⟨_, by omega, owned _ rfl tile⟩
            | sheet =>
                rw [h.rep.tag_eq unit inside (by rw [tile]; rfl), bits.2.1]
                exact ⟨_, by omega, owned _ rfl tile⟩
      · simp at found
  · rintro ⟨x, k, rfl, found⟩
    obtain ⟨tile, owned⟩ := ownedOf_eq_some.mp found
    obtain ⟨_, unit, _, inside, order⟩ := h.rep.block tile
    have bits := tag_bits o (h.rep.order_lt_64 order)
    have low : x &&& (P.minBlock - 1) = 0 := by
      rw [BuddyParams.minBlock, and_low]
      exact Nat.mod_eq_zero_of_dvd unit
    rw [wrapSub_of_le (by omega), Nat.add_sub_cancel_left]
    simp only [ge_iff_le, Nat.not_le.mpr inside, low, ne_eq, not_true_eq_false, decide_false,
      Bool.or_self, Bool.false_eq_true, if_false]
    cases k with
    | free => simp [TileKind.isOwned] at owned
    | cached => simp [TileKind.isOwned] at owned
    | held => simp [TileKind.isOwned] at owned
    | alloc =>
        rw [h.rep.tag_eq unit inside (by rw [tile]; rfl), bits.1]
        simp [bits.2.2.1, order]
    | sheet =>
        rw [h.rep.tag_eq unit inside (by rw [tile]; rfl), bits.2.1]
        simp [bits.2.2.2.1, order]

end Lookup

-----------------------------------------------------------------------------------------
-- Allocation
-----------------------------------------------------------------------------------------

/-- What an operation on the buddy list guarantees besides its result: the invariant holds
again, set-up data stay, and only loose addresses were written.
-/
structure BuddyStep {P : BuddyParams} (s : BuddyState P) (s' : BuddyState P) (v' : BuddyView)
    (loose owned : Nat → Option Tile)
    : Prop where
  inv : BuddyInv s' v'
  geometry : s'.toBuddyGeometry = s.toBuddyGeometry
  owned_eq : v'.owned = owned
  within : Memory.Within (Loose P s.toBuddyGeometry loose) s.mem s'.mem

section Allocating

variable {P : BuddyParams} {s : BuddyState P} {v : BuddyView} {x o i : Nat}

/-- Handing out the held block. -/
theorem BuddyWork.grant (h : BuddyWork s v x o) (counts : CacheFits s v)
    : BuddyStep s (s.grant (s.base + x) o).1 (v.setKind x .alloc o) v.owned
      (Function.update v.owned x (some (.alloc, o))) := by
  have order := (h.rep.block h.known).2.2.2.2
  have fits := (tag_lt_256 o (h.rep.order_lt_64 order)).2.1
  have rep := h.rep.retag (j := .alloc) (t := tagAlloc ||| o)
    (c := s.allocatedBytes + P.orderSize o) h.known rfl rfl rfl fits rfl
  refine ⟨⟨⟨rep, h.mask, Coalesced.update_other h.merged (by simp), ?_⟩, counts⟩, rfl, ?_,
    h.rep.within_retag h.known _⟩
  · exact h.held.update rfl (by simp)
  · exact ownedOf_update _ _ _

/-- A step after a move. -/
theorem Move.step {s' s'' : BuddyState P} {v' v'' : BuddyView} {owned : Nat → Option Tile}
    (move : Move s v s' v') (step : BuddyStep s' s'' v'' v'.owned owned)
    : BuddyStep s s'' v'' v.owned owned := by
  refine ⟨step.inv, step.geometry.trans move.geometry, step.owned_eq, ?_⟩
  have later := step.within
  rw [move.geometry, move.owned] at later
  exact move.within.trans later

/-- Taking a block out of a non-empty free list and handing it out. -/
theorem BuddyInv.takeOrder (h : BuddyInv s v) (nonempty : v.lists i ≠ []) (le : o ≤ i)
    : ∃ x v', (s.takeOrder i o).2 = ⟨s.base + x, P.orderSize o⟩
        ∧ BuddyStep s (s.takeOrder i o).1 v' v.owned
          (Function.update v.owned x (some (.alloc, o)))
        ∧ Room P s.total v.owned o x := by
  obtain ⟨x, w, blk, work, move, cached, counts⟩ := h.toBuddyIdle.takeAndSplit nonempty le
  have base : s.base = (s.takeAndSplit i o).1.base :=
    (congrArg BuddyGeometry.base move.geometry).symm
  have room := work.rep.room work.known rfl
  rw [move.owned, congrArg BuddyGeometry.total move.geometry] at room
  have fits : CacheFits (s.takeAndSplit i o).1 w := fun j => by
    rw [counts, cached]
    exact h.counts j
  have live : s.base + x ≠ 0 := by
    have := h.rep.geometry.base_pos
    omega
  have step := move.step (work.grant fits)
  rw [move.owned, ← base] at step
  have result : s.takeOrder i o = (s.takeAndSplit i o).1.grant (s.base + x) o := by
    show (if (s.takeAndSplit i o).2 = 0 then ((s.takeAndSplit i o).1, Chunk.null)
      else (s.takeAndSplit i o).1.grant (s.takeAndSplit i o).2 o) = _
    rw [blk, if_neg live]
  rw [result]
  exact ⟨x, _, rfl, step, room⟩

/-- `__allocate_order`: a block at a place that met no owned block, or null and then there
was no such place.
-/
theorem BuddyInv.allocateOrder (h : BuddyInv s v) (o : Nat)
    : ∃ v', (∃ x, (s.allocateOrder o).2 = ⟨s.base + x, P.orderSize o⟩
          ∧ Room P s.total v.owned o x
          ∧ BuddyStep s (s.allocateOrder o).1 v' v.owned
            (Function.update v.owned x (some (.alloc, o))))
        ∨ ((s.allocateOrder o).2 = .null ∧ (∀ x, ¬Room P s.total v.owned o x)
          ∧ BuddyStep s (s.allocateOrder o).1 v' v.owned v.owned) := by
  unfold BuddyState.allocateOrder
  by_cases high : o ≥ s.maxOrder
  · rw [if_pos high]
    refine ⟨v, Or.inr ⟨rfl, fun x room => ?_, h, rfl, rfl, Memory.Within.refl _ _⟩⟩
    have := room.order_lt h.rep.geometry
    omega
  · rw [if_neg high]
    by_cases hit : BuddyState.cacheable P o && decide (s.cacheHead o ≠ 0)
    · rw [if_pos hit]
      have live : s.cacheHead o ≠ 0 := by simpa using ((Bool.and_eq_true _ _).mp hit).2
      obtain ⟨x, eq, known, guarded, last, popped, owned⟩ := h.rep.cachePop live
      have room := h.rep.room known rfl
      have work : BuddyWork
          ({ s with
            cacheHead := Function.update s.cacheHead o (s.next (s.cacheHead o))
            cacheCount := Function.update s.cacheCount o
              (if s.next (s.cacheHead o) = 0 then 0 else s.cacheCount o - 1) }
            : BuddyState P) (v.cachePop x o) x o :=
        ⟨popped.setCounts _, h.mask, Coalesced.update_other h.merged (by simp),
          by simp [BuddyView.cachePop], h.settled.update rfl⟩
      have fits : CacheFits
          ({ s with
            cacheHead := Function.update s.cacheHead o (s.next (s.cacheHead o))
            cacheCount := Function.update s.cacheCount o
              (if s.next (s.cacheHead o) = 0 then 0 else s.cacheCount o - 1) }
            : BuddyState P) (v.cachePop x o) := by
        intro j
        have count := h.counts j
        simp only [BuddyView.cachePop]
        by_cases same : j = o
        · subst same
          rw [Function.update_self, Function.update_self, List.length_tail]
          refine ⟨?_, by omega⟩
          split
          · rename_i null
            have tail := congrArg List.length (last.mp null)
            rw [List.length_tail, List.length_nil] at tail
            omega
          · omega
        · rw [Function.update_of_ne same, Function.update_of_ne same]
          exact count
      have step := work.grant fits
      refine ⟨(v.cachePop x o).setKind x .alloc o, Or.inl ⟨x, ?_, room, ?_⟩⟩
      · simp only [BuddyState.grant, eq]
      · have move : Move s v
            ({ s with
              cacheHead := Function.update s.cacheHead o (s.next (s.cacheHead o))
              cacheCount := Function.update s.cacheCount o
                (if s.next (s.cacheHead o) = 0 then 0 else s.cacheCount o - 1) }
              : BuddyState P) (v.cachePop x o) :=
          ⟨rfl, owned, Memory.Within.refl _ _⟩
        have both := move.step step
        rw [owned] at both
        simp only [guarded]
        rw [eq] at both ⊢
        exact both
    · rw [if_neg hit]
      simp only
      rcases BuddyState.findFreeOrder_spec h.rep h.mask (o := o) with ⟨top, empty⟩ | ⟨le, lt, some⟩
      · rw [if_pos (by omega)]
        obtain ⟨w, inv, move, cached⟩ := h.flushCache
        have maxOrder := congrArg BuddyGeometry.maxOrder move.geometry
        have total := congrArg BuddyGeometry.total move.geometry
        have base := congrArg BuddyGeometry.base move.geometry
        rcases BuddyState.findFreeOrder_spec inv.rep inv.mask (o := o) with
          ⟨top', empty'⟩ | ⟨le', lt', some'⟩
        · rw [if_pos (by omega)]
          refine ⟨w, Or.inr ⟨rfl, fun x room => ?_, inv, move.geometry, move.owned, move.within⟩⟩
          rw [← total, ← move.owned] at room
          obtain ⟨j, le, nonempty⟩ := inv.toBuddyIdle.listed_of_room cached room
          exact nonempty (empty' j le)
        · rw [if_neg (by omega)]
          obtain ⟨x, v', result, step, room⟩ := inv.takeOrder some' le'
          have both := move.step step
          rw [move.owned] at both
          rw [move.owned, total] at room
          rw [base] at result
          exact ⟨v', Or.inl ⟨x, result, room, both⟩⟩
      · rw [if_neg (by omega)]
        obtain ⟨x, v', result, step, room⟩ := h.takeOrder some le
        exact ⟨v', Or.inl ⟨x, result, room, step⟩⟩

end Allocating

-----------------------------------------------------------------------------------------
-- Release
-----------------------------------------------------------------------------------------

section Releasing

variable {P : BuddyParams} {s : BuddyState P} {v : BuddyView} {x o : Nat}

/-- A block counts for its size in the counter. -/
theorem BuddyRep.size_le_counter (h : BuddyRep s v) (known : v.tile x = some (.alloc, o))
    : s.allocatedBytes - P.orderSize o + P.orderSize o = s.allocatedBytes := by
  have := h.counter_update known (some (.held, o))
  simp only [ownedSize, Option.elim] at this
  omega

/-- `deallocate_order` of an allocated block: it is in the cache or merged back. -/
theorem BuddyInv.deallocateOrder (h : BuddyInv s v) (known : v.tile x = some (.alloc, o))
    : ∃ v', BuddyStep s (s.deallocateOrder (s.base + x) o) v' (Function.update v.owned x none)
        (Function.update v.owned x none) := by
  have counter := h.rep.size_le_counter known
  have released := h.rep.release (c := s.allocatedBytes - P.orderSize o) known rfl counter
  have owned : (v.setKind x .held o).owned = Function.update v.owned x none :=
    ownedOf_update _ _ _
  have work : BuddyWork
      ({ s with allocatedBytes := s.allocatedBytes - P.orderSize o } : BuddyState P)
      (v.setKind x .held o) x o :=
    ⟨released, h.mask, Coalesced.update_other h.merged (by simp), by simp [BuddyView.setKind],
      h.settled.update rfl⟩
  unfold BuddyState.deallocateOrder
  by_cases caching : BuddyState.cacheable P o && decide (s.cacheCount o < P.cacheCap)
  · rw [if_pos caching]
    have room : s.cacheCount o < P.cacheCap := by
      simpa using ((Bool.and_eq_true _ _).mp caching).2
    obtain ⟨rep, move⟩ := work.rep.cachePush work.known
    refine ⟨_, ⟨⟨rep, h.mask, Coalesced.update_other work.merged (by simp),
      work.held.update rfl (by simp)⟩, ?_⟩, move.geometry, move.owned.trans owned, ?_⟩
    · intro j
      have count := h.counts j
      simp only [BuddyView.cachePush, BuddyView.setKind]
      by_cases same : j = o
      · subst same
        refine ⟨?_, ?_⟩
        · refine (Function.update_self _ _ _).trans ?_
          simp only [BuddyState.setPrev, BuddyState.setNext, Function.update_self,
            List.length_cons]
          omega
        · rw [Function.update_self, List.length_cons]
          omega
      · rw [Function.update_of_ne same]
        refine ⟨(Function.update_of_ne same _ _).trans count.1, count.2⟩
    · have within := move.within
      rw [owned] at within
      exact within
  · rw [if_neg caching]
    obtain ⟨v', idle, move, cached, counts⟩ := work.mergeAndFree
    refine ⟨v', ⟨idle, fun j => ?_⟩, move.geometry, move.owned.trans owned, ?_⟩
    · rw [counts, cached]
      exact h.counts j
    · have within := move.within
      rw [owned] at within
      exact within

/-- Marking an allocated block as a sheet. -/
theorem BuddyInv.markSheet (h : BuddyInv s v) (known : v.tile x = some (.alloc, o))
    : BuddyStep s (s.markSheet (s.base + x)) (v.setKind x .sheet o) v.owned
      (Function.update v.owned x (some (.sheet, o))) := by
  obtain ⟨_, unit, _, inside, order⟩ := h.rep.block known
  have bits := tag_bits o (h.rep.order_lt_64 order)
  have tag : s.tag (s.tagIndex (s.base + x)) = tagAlloc ||| o := by
    rw [s.tagIndex_base]
    exact h.rep.tag_eq unit inside (by rw [known]; rfl)
  have rep := h.rep.retag (j := .sheet) (t := tagSheet ||| o) (c := s.allocatedBytes) known rfl
    rfl rfl (tag_lt_256 o (h.rep.order_lt_64 order)).2.2 rfl
  rw [BuddyState.markSheet, tag, bits.2.2.2.2.2.2.2.2.1]
  refine ⟨⟨⟨rep, h.mask, Coalesced.update_other h.merged (by simp), ?_⟩, h.counts⟩, rfl, ?_,
    h.rep.within_retag known _⟩
  · intro y i found
    simp only [BuddyView.setKind, Function.update_apply] at found
    split at found
    · simp at found
    · exact h.settled y i found
  · exact ownedOf_update _ _ _

/-- Unmarking a sheet gives the allocated block back. -/
theorem BuddyInv.unmarkSheet (h : BuddyInv s v) (known : v.tile x = some (.sheet, o))
    : BuddyStep s (s.unmarkSheet (s.base + x)) (v.setKind x .alloc o) v.owned
      (Function.update v.owned x (some (.alloc, o))) := by
  obtain ⟨_, unit, _, inside, order⟩ := h.rep.block known
  have bits := tag_bits o (h.rep.order_lt_64 order)
  have tag : s.tag (s.tagIndex (s.base + x)) = tagSheet ||| o := by
    rw [s.tagIndex_base]
    exact h.rep.tag_eq unit inside (by rw [known]; rfl)
  have rep := h.rep.retag (j := .alloc) (t := tagAlloc ||| o) (c := s.allocatedBytes) known rfl
    rfl rfl (tag_lt_256 o (h.rep.order_lt_64 order)).2.1 rfl
  rw [BuddyState.unmarkSheet, tag, bits.2.2.2.2.2.2.2.2.2]
  refine ⟨⟨⟨rep, h.mask, Coalesced.update_other h.merged (by simp), ?_⟩, h.counts⟩, rfl, ?_,
    h.rep.within_retag known _⟩
  · intro y i found
    simp only [BuddyView.setKind, Function.update_apply] at found
    split at found
    · simp at found
    · exact h.settled y i found
  · exact ownedOf_update _ _ _

end Releasing

end Bbmalloc
