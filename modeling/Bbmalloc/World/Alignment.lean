import Bbmalloc.Heap.Gauges
import Bbmalloc.World.Resizing

/-! Alignment over whole runs of a heap that does not grow: every block starts where its size
and the base of its region put it, and a request is refused only if no region has the
alignment and a free range for it.
-/

namespace Bbmalloc

open Bbmalloc.Foundations

-----------------------------------------------------------------------------------------
-- Free ranges
-----------------------------------------------------------------------------------------

/-- The range of `len` offsets from `x` on in region `i` is free: it lies in the region at a
multiple of its length and meets no large block and no sheet but an empty spare. Cached
blocks are in no client's hands, so they do not count.
-/
structure HeapState.FreeRange {C : Config} (s : HeapState C) (held : Nat → Option Block)
    (i x len : Nat)
    : Prop where
  aligned : len ∣ x
  inside : x + len ≤ (s.geo i).total
  large : ∀ y < (s.geo i).total, ∀ b, s.blocksIn held i y = some b → b.tier = .buddy →
    y + b.len ≤ x ∨ x + len ≤ y
  sheets : ∀ sh ∈ (s.regions i).tlsf.sheets,
    sh ≠ (s.regions i).spare ∨ (∃ y < C.tlsf.sheet, s.blocksIn held i (sh + y) ≠ none) →
    sh + C.tlsf.sheet ≤ x ∨ x + len ≤ sh

section Ranges

variable {C : Config} {s : HeapState C} {v : Nat → RegionView} {held : Nat → Option Block}
  {i x o n a sh : Nat}

/-- The sheets that count as busy are all but an empty spare. -/
theorem HeapInv.full_iff (h : HeapInv s v held) (less : i < s.count)
    (member : sh ∈ (s.regions i).tlsf.sheets)
    : ¬(v i).tlsf.EmptySheet C.tlsf sh
      ↔ sh ≠ (s.regions i).spare ∨ ∃ y < C.tlsf.sheet, s.blocksIn held i (sh + y) ≠ none := by
  have only := (h.regions i less).onlySpare sh member
  have empty := h.emptySheet_iff less member
  constructor
  · intro full
    rw [empty] at full
    push Not at full
    exact Or.inr full
  · rintro (other | ⟨y, inside, block⟩) none
    · exact other (only none).symm
    · exact block (empty.mp none y inside)

/-- Room in a region is a free range. -/
theorem HeapInv.room_iff (h : HeapInv s v held) (less : i < s.count)
    : Room C.buddy (s.geo i).total ((v i).busy C.tlsf) o x
      ↔ s.FreeRange held i x (C.buddy.orderSize o) := by
  have core := (h.regions i less).toRegionCore
  constructor
  · rintro ⟨aligned, inside, apart⟩
    refine ⟨aligned, inside, fun y below b known tier => ?_, fun sh member full => ?_⟩
    · rcases (h.blocksIn_iff less below).mp known with ⟨z, k, block, same, rfl⟩ |
        ⟨z, n, _, _, rfl⟩
      · obtain rfl : y = z := by omega
        exact apart y (.alloc, k) (core.busy_iff.mpr (Or.inl ⟨k, rfl, block⟩))
      · cases tier
    · have busy : (v i).busy C.tlsf sh = some (.sheet, C.sheetOrder) :=
        RegionView.busy_eq_some.mpr ⟨core.sheet_owned member, fun empty =>
          (h.full_iff less member).mpr full empty.2⟩
      have away := apart sh _ busy
      rwa [C.orderSize_sheet] at away
  · rintro ⟨aligned, inside, large, sheets⟩
    refine ⟨aligned, inside, fun y c known => ?_⟩
    rcases core.busy_iff.mp known with ⟨k, rfl, block⟩ | ⟨rfl, _, _⟩
    · have owned := (core.buddy.owned_le (Live.of_large.mp block)).2
      have positive := C.buddy.orderSize_pos k
      have below : y < (s.geo i).total := lt_of_lt_of_le (Nat.lt_add_of_pos_right positive) owned
      exact large y below ⟨C.buddy.orderSize k, .buddy⟩
        ((h.blocksIn_iff less below).mpr (Or.inl ⟨y, k, block, rfl, rfl⟩)) rfl
    · obtain ⟨owned, full⟩ := RegionView.busy_eq_some.mp known
      have member := ((core.sheets y C.sheetOrder).mp owned).1
      have away := sheets y member ((h.full_iff less member).mp (fun empty => full ⟨rfl, empty⟩))
      rwa [C.orderSize_sheet]

/-- A large block starts at a multiple of its size, and of the alignment of its region if that
is less.
-/
theorem BuddyGeometry.Sound.min_dvd {P : BuddyParams} {g : BuddyGeometry} (sound : g.Sound P)
    (aligned : P.orderSize o ∣ x)
    : min g.baseAlign (P.orderSize o) ∣ g.base + x := by
  obtain ⟨k, align, _⟩ := sound.align_eq
  have base := sound.aligned
  rw [align] at base ⊢
  rw [P.orderSize_eq] at aligned ⊢
  rcases Nat.le_total k (P.log2Min + o) with le | le
  · rw [min_eq_left (Nat.pow_le_pow_right (by decide) le)]
    exact Nat.dvd_add base ((Nat.pow_dvd_pow 2 le).trans aligned)
  · rw [min_eq_right (Nat.pow_le_pow_right (by decide) le)]
    exact Nat.dvd_add ((Nat.pow_dvd_pow 2 le).trans base) aligned

/-- The address is a multiple of the length or of the alignment of the region around it,
whichever is less.
-/
def HeapState.MinAligned (s : HeapState C) (p len : Nat) : Prop :=
  ∃ i < s.count, (s.geo i).base ≤ p ∧ p + len ≤ (s.geo i).base + (s.geo i).total
    ∧ min (s.geo i).baseAlign len ∣ p

/-- Every large block is. -/
theorem HeapInv.held_minAligned (h : HeapInv s v held) {p : Nat} {b : Block}
    (known : held p = some b) (tier : b.tier = .buddy)
    : s.MinAligned p b.len := by
  obtain ⟨i, less, ⟨y, k, block, rfl, rfl⟩ | ⟨_, _, _, _, rfl⟩⟩ := (h.blocks p b).mp known
  · obtain ⟨aligned, inside⟩ := (h.regions i less).buddy.owned_le (Live.of_large.mp block)
    have sound : (s.geo i).Sound C.buddy := (h.regions i less).buddy.rep.geometry
    have fits : y + C.buddy.orderSize k ≤ (s.geo i).total := inside
    refine ⟨i, less, by omega, ?_, sound.min_dvd aligned⟩
    simp only
    omega
  · cases tier

/-- What a granted chunk is. -/
theorem HeapGranted.minAligned {c : HeapState C × Chunk} {want p len : Nat}
    (granted : HeapGranted s v held want o a c) (chunk : c.2 = ⟨p, len⟩)
    (enough : ∀ b, Suits C want o b → n ≤ b.len)
    : a ∣ p ∧ n ≤ len ∧ (c.1.tierOf p = .buddy → c.1.MinAligned p len) := by
  cases granted with
  | @block q b v' chunk' _ aligned _ suits _ _ step =>
      rw [chunk'] at chunk
      cases chunk
      refine ⟨aligned, enough b suits, fun tier => ?_⟩
      have known : Function.update held p (some b) p = some b := Function.update_self _ _ _
      rw [step.inv.tierOf known] at tier
      exact step.inv.held_minAligned known tier

/-- Any chunk that `alloc_aligned` returns. -/
theorem HeapInv.allocAligned_chunk (h : HeapInv s v held) (fits : C.PoolFits)
    (supply : s.Supplied) (positive : 0 < n) (pow : isPow2 a = true) {p len : Nat}
    (chunk : (s.allocAligned n a).2 = ⟨p, len⟩) (notNull : p ≠ 0)
    : a ∣ p ∧ n ≤ len
      ∧ ((s.allocAligned n a).1.tierOf p = .buddy → (s.allocAligned n a).1.MinAligned p len) := by
  by_cases native : a ≤ nativeAlignment
  · have call : s.allocAligned n a = s.alloc n := by
      rw [HeapState.allocAligned, if_neg (by simp [pow, positive.ne']), if_pos native]
    rw [call] at chunk ⊢
    rcases h.alloc fits supply positive with granted | ⟨_, null, _⟩
    · obtain ⟨aligned, rest⟩ := granted.minAligned chunk
        (fun b suits => suits.le positive le_rfl)
      have dvd := dvd_max_native pow
      rw [max_eq_left native] at dvd
      exact ⟨dvd.trans aligned, rest⟩
    · rw [null] at chunk
      cases chunk
      exact absurd rfl notNull
  · rcases h.allocAligned fits supply positive pow (by omega) with granted | ⟨_, null, _⟩
    · refine granted.minAligned chunk (fun b suits => ?_)
      obtain ⟨holds, _⟩ := C.buddy.le_alignedOrder n a
      rcases suits with ⟨_, small, _⟩ | ⟨_, len⟩
      · omega
      · rw [len]
        exact (C.buddy.orderForSize_le positive).mp holds
    · rw [null] at chunk
      cases chunk
      exact absurd rfl notNull

/-- A grant that adds no region comes from one that had the alignment and the room. -/
theorem HeapGranted.room {c : HeapState C × Chunk}
    (granted : HeapGranted s v held (C.classSmall + 1) o a c) (count : c.1.count = s.count)
    : ∃ i < s.count, a ≤ (s.geo i).baseAlign
      ∧ ∃ x, Room C.buddy (s.geo i).total ((v i).busy C.tlsf) o x := by
  obtain ⟨_, _, _, _, _, _, source, _⟩ := granted
  rcases source with more | ⟨i, less, room | ⟨_, small, _⟩⟩
  · omega
  · exact ⟨i, less, room⟩
  · omega

/-- Without growth an over-aligned request is refused exactly if no region of the heap, once
it is initialised, has the alignment and the room.
-/
theorem HeapInv.allocAligned_null (h : HeapInv s v held) (fits : C.PoolFits)
    (supply : s.Supplied) (fixed : C.growBytes = none) (positive : 0 < n)
    (pow : isPow2 a = true) (beyond : nativeAlignment < a)
    : ∃ v', HeapInv s.ensure.1 v' held
      ∧ ((s.allocAligned n a).2.ptr = 0 ↔ ∀ i < s.ensure.1.count, (s.ensure.1.geo i).baseAlign < a
        ∨ ∀ x, ¬Room C.buddy (s.ensure.1.geo i).total ((v' i).busy C.tlsf)
          (BuddyState.alignedOrder C.buddy n a) x) := by
  cases ready : s.inited with
  | true =>
      rw [HeapState.ensure_ready ready]
      refine ⟨v, h, ?_⟩
      rcases h.allocAligned_fixed ready fixed positive pow beyond with
          granted | ⟨_, null, _, reasons⟩
      · obtain ⟨i, less, aligned, x, room⟩ := granted.room
          (HeapState.allocAligned_count ready fixed n a)
        refine ⟨fun null => absurd null granted.notNull, fun none => ?_⟩
        rcases none i less with degraded | away
        · omega
        · exact absurd room (away x)
      · exact ⟨fun _ => reasons, fun _ => by rw [null]; rfl⟩
  | false =>
      obtain ⟨extended, inited⟩ := h.init ready fits supply.now
      obtain ⟨v', inv⟩ : ∃ v', HeapInv s.init.1 v' held := by
        cases extended with
        | added _ _ step _ _ => exact ⟨_, step.inv⟩
        | same _ step _ => exact ⟨_, step.inv⟩
      rw [← s.init_ensure]
      refine ⟨v', inv, ?_⟩
      rw [HeapState.allocAligned, if_neg (by simp [pow, positive.ne']), if_neg (by omega),
        if_pos (h.ready ready), s.allocAlignedSlow_eq, HeapState.slowWith]
      simp only [ready, Bool.not_false, if_true, s.init_ready]
      by_cases empty : s.init.1.count = 0
      · simp [empty, Chunk.null]
      · have some : 0 < s.init.1.count := by omega
        simp only [gt_iff_lt, some, decide_true, Bool.not_true, Bool.false_eq_true, if_false,
          HeapState.grow, fixed]
        rcases inv.allocAlignedScan positive pow with granted | ⟨_, null, _, reasons⟩
        · obtain ⟨i, less, aligned, x, room⟩ := granted.room (HeapState.tryFrom_count _ _ _ _)
          rw [if_neg granted.notNull]
          refine ⟨fun null => absurd null granted.notNull, fun none => ?_⟩
          rcases none i less with degraded | away
          · omega
          · exact absurd room (away x)
        · simp only [null, Chunk.null, if_true, true_iff]
          exact reasons

end Ranges

-----------------------------------------------------------------------------------------
-- Whole runs
-----------------------------------------------------------------------------------------

/-- The block of an over-aligned request is the larger of two. -/
theorem BuddyParams.orderSize_alignedOrder (P : BuddyParams) (n a : Nat)
    : P.orderSize (BuddyState.alignedOrder P n a)
      = max (P.orderSize (P.orderForSize n)) (P.orderSize (P.orderForSize a)) := by
  rw [BuddyState.alignedOrder]
  split
  · next less => exact (max_eq_right (P.orderSize_mono less.le)).symm
  · next le => exact (max_eq_left (P.orderSize_mono (by omega))).symm

namespace World

variable {C : Config} {ok : Op → Prop} {w : World C} {n a : Nat}

/-- Alignment is honoured, and never refused needlessly. Without growth `alloc_aligned`
returns multiples of the alignment with room for the request; all large blocks are aligned to
their size as far as the base of their region is; and above the native alignment a request is
refused exactly if no region, once the heap is initialised, has both the alignment and a free
range that holds the request and is as long as the alignment.
-/
theorem Reached.alignment (reached : Reached ok w) (supply : w.heap.Supplied)
    (fixed : C.growBytes = none) (positive : 1 ≤ n) (pow : isPow2 a = true)
    : (∀ p len, (w.heap.allocAligned n a).2 = ⟨p, len⟩ → p ≠ 0 →
        a ∣ p ∧ n ≤ len ∧ ((w.heap.allocAligned n a).1.tierOf p = .buddy →
          (w.heap.allocAligned n a).1.MinAligned p len))
      ∧ (∀ p g, w.ledger p = some g → g.block.tier = .buddy →
        w.heap.MinAligned p g.block.len)
      ∧ (nativeAlignment < a →
        ((w.heap.allocAligned n a).2.ptr = 0
          ↔ ¬∃ i < w.heap.ensure.1.count, a ≤ (w.heap.ensure.1.geo i).baseAlign
            ∧ ∃ x, w.heap.ensure.1.FreeRange w.ledger.blocks i x
              (max (C.buddy.orderSize (C.buddy.orderForSize n))
                (C.buddy.orderSize (C.buddy.orderForSize a))))) := by
  obtain ⟨v, rep⟩ := reached.inv.rep
  refine ⟨fun p len chunk notNull =>
      rep.allocAligned_chunk reached.fits supply positive pow chunk notNull,
    fun p g known tier => ?_, fun beyond => ?_⟩
  · exact rep.held_minAligned (Ledger.blocks_eq_some.mpr ⟨g, known, rfl⟩) tier
  · obtain ⟨v', inv, null⟩ :=
      rep.allocAligned_null reached.fits supply fixed positive pow beyond
    rw [null, ← C.buddy.orderSize_alignedOrder]
    constructor
    · rintro none ⟨i, less, aligned, x, free⟩
      rcases none i less with degraded | away
      · omega
      · exact away x ((inv.room_iff less).mpr free)
    · intro none i less
      by_cases degraded : (w.heap.ensure.1.geo i).baseAlign < a
      · exact Or.inl degraded
      · refine Or.inr (fun x room => none ⟨i, less, by omega, x, ?_⟩)
        exact (inv.room_iff less).mp room

theorem Reached.alignment_small
    : (pairWorld.heap.allocAligned 100 64).2 = ⟨5504, 128⟩ ∧ 64 ∣ 5504
      ∧ pairWorld.heap.MinAligned 5248 256
      ∧ ¬∃ i < pairWorld.heap.ensure.1.count, 128 ≤ (pairWorld.heap.ensure.1.geo i).baseAlign
        ∧ ∃ x, pairWorld.heap.ensure.1.FreeRange pairWorld.ledger.blocks i x
          (max (bareBuild.buddy.orderSize (bareBuild.buddy.orderForSize 100))
            (bareBuild.buddy.orderSize (bareBuild.buddy.orderForSize 128))) := by
  have supplied := supplied_of_pageless (C := bareBuild) (fun _ _ => rfl) pairWorld.heap
  have chunk : (pairWorld.heap.allocAligned 100 64).2 = ⟨5504, 128⟩ := by decide +kernel
  obtain ⟨granted, _, _⟩ := pairWorld_reached.alignment (n := 100) (a := 64) supplied rfl
    (by decide) (by decide)
  obtain ⟨_, blocks, refused⟩ := pairWorld_reached.alignment (n := 100) (a := 128) supplied rfl
    (by decide) (by decide)
  exact ⟨chunk, (granted 5504 128 chunk (by decide)).1, blocks 5248 _ rfl rfl,
    (refused (by decide)).mp (by decide +kernel)⟩

end World

end Bbmalloc
