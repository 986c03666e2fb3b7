import Bbmalloc.Buddy.Runs

/-! Growing a block in place. The range behind the block can be taken exactly when all its
bytes are free: free blocks are coalesced, so the range is one free block of each order.
-/

namespace Bbmalloc

open Bbmalloc.Foundations

/-- The byte at offset `k` lies in a block on a free list. -/
def BuddyState.FreeByte {P : BuddyParams} (s : BuddyState P) (k : Nat) : Prop :=
  ∃ o a, s.Listed o a ∧ a ≤ s.base + k ∧ s.base + k < a + P.orderSize o

-----------------------------------------------------------------------------------------
-- Free bytes
-----------------------------------------------------------------------------------------

section FreeBytes

variable {P : BuddyParams} {s : BuddyState P} {v : BuddyView} {k x o want : Nat}

/-- Free bytes are those of the free blocks. -/
theorem BuddyInv.freeByte_iff (h : BuddyInv s v)
    : s.FreeByte k
      ↔ ∃ y o, v.tile y = some (.free, o) ∧ y ≤ k ∧ k < y + P.orderSize o := by
  constructor
  · rintro ⟨o, a, listed, lo, hi⟩
    obtain ⟨y, rfl, found⟩ := h.listed_iff.mp listed
    exact ⟨y, o, found, by omega, by omega⟩
  · rintro ⟨y, o, found, lo, hi⟩
    exact ⟨o, s.base + y, h.listed_iff.mpr ⟨y, rfl, found⟩, by omega, by omega⟩

/-- Free bytes are the bytes of the region that neither an owned nor a cached block has. -/
theorem BuddyInv.freeByte_iff_unused (h : BuddyInv s v)
    : s.FreeByte k
      ↔ k < s.total
        ∧ (∀ y b, v.owned y = some b → ¬(y ≤ k ∧ k < y + P.orderSize b.2))
        ∧ ∀ y o, s.base + y ∈ v.cached o → ¬(y ≤ k ∧ k < y + P.orderSize o) := by
  rw [h.freeByte_iff]
  have pow := P.orderSize_eq
  constructor
  · rintro ⟨y, o, found, lo, hi⟩
    have only : ∀ z c, v.tile z = some c → z ≤ k → k < z + P.orderSize c.2 → c = (.free, o) := by
      intro z c other lo' hi'
      rw [pow] at hi hi'
      exact (h.rep.tiling.tiled.unique other found lo' hi' lo hi).2
    refine ⟨by have := (h.rep.block found).2.2.1; omega, ?_, ?_⟩
    · rintro z ⟨l, i⟩ owned ⟨lo', hi'⟩
      obtain ⟨tile, kind⟩ := ownedOf_eq_some.mp owned
      obtain ⟨rfl, _⟩ := Prod.mk.inj (only z _ tile lo' hi')
      exact absurd (show TileKind.free.isOwned = true from kind) (by decide)
    · rintro z i member ⟨lo', hi'⟩
      obtain ⟨z', same, tile⟩ := (h.rep.inCache i _).mp member
      obtain rfl : z = z' := by omega
      exact absurd (only z _ tile lo' hi') (by simp)
  · rintro ⟨inside, unowned, uncached⟩
    obtain ⟨y, ⟨kind, o⟩, found, lo, hi⟩ := h.rep.tiling.tiled.cover inside
    simp only [← pow] at hi
    refine ⟨y, o, ?_, lo, hi⟩
    cases kind with
    | free => exact found
    | held => exact (h.settled y o found).elim
    | cached => exact (uncached y o ((h.rep.inCache o _).mpr ⟨y, rfl, found⟩) ⟨lo, hi⟩).elim
    | alloc => exact (unowned y _ (ownedOf_eq_some.mpr ⟨found, rfl⟩) ⟨lo, hi⟩).elim
    | sheet => exact (unowned y _ (ownedOf_eq_some.mpr ⟨found, rfl⟩) ⟨lo, hi⟩).elim

/-- Where the bytes behind a block are free, they are one free block of each order: the free
block that covers a part is no larger than the part, or it would reach the block.
-/
theorem BuddyInv.free_behind (h : BuddyInv s v) (known : v.tile x = some (.alloc, o))
    (aligned : P.orderSize want ∣ x) (fits : want < s.maxOrder)
    (free : ∀ k, x + P.orderSize o ≤ k → k < x + P.orderSize want → k < s.total ∧ s.FreeByte k)
    : ∀ i, o ≤ i → i < want → v.tile (x + P.orderSize i) = some (.free, i) := by
  intro i lo hi
  have double := P.orderSize_succ i
  have positive := P.orderSize_pos i
  have least := P.orderSize_mono lo
  have most := P.orderSize_mono (show i + 1 ≤ want by omega)
  have above : P.orderSize (i + 1) ∣ x :=
    (P.orderSize_dvd (show i + 1 ≤ want from hi)).trans aligned
  have last := (free (x + 2 * P.orderSize i - 1) (by omega) (by omega)).1
  have part := h.rep.tiling.single_cover h.merged (o := i) (k := x + P.orderSize i) (by omega)
    (by
      rw [← P.orderSize_eq]
      exact Nat.dvd_add ((P.orderSize_dvd (Nat.le_succ i)).trans above) (Nat.dvd_refl _))
    (by rw [← P.orderSize_eq]; omega)
    (by
      rintro a ⟨kind, j⟩ found before after
      simp only [← P.orderSize_eq] at before after
      -- a byte of the part that the block covers
      obtain ⟨_, byte⟩ := free (max a (x + P.orderSize i)) (by omega) (by omega)
      obtain ⟨y, c, freeTile, lo', hi'⟩ := h.freeByte_iff.mp byte
      have reach := P.orderSize_pos j
      have same := h.rep.tiling.tiled.unique found freeTile (le_max_left _ _)
        (by simp only [← P.orderSize_eq]; omega) lo' (by simp only [← P.orderSize_eq]; omega)
      exact congrArg Prod.fst same.2)
  obtain ⟨a, j, found, le, lo', hi'⟩ := part
  rw [← P.orderSize_eq, ← P.orderSize_eq] at hi'
  have dvd := (h.rep.block found).1
  rcases Nat.eq_or_lt_of_le le with rfl | larger
  · obtain rfl : a = x + P.orderSize i := by omega
    exact found
  · -- a larger block would start at or before the allocated one
    exfalso
    have start : P.orderSize (i + 1) ∣ a := (P.orderSize_dvd (show i + 1 ≤ j from larger)).trans dvd
    have before : a ≤ x := by
      obtain ⟨p, rfl⟩ := start
      obtain ⟨q, rfl⟩ := above
      have : p < q + 1 := by
        have := P.orderSize_pos (i + 1)
        by_contra high
        have := Nat.mul_le_mul_left (P.orderSize (i + 1)) (Nat.not_lt.mp high)
        rw [Nat.mul_succ] at this
        omega
      exact Nat.mul_le_mul_left _ (by omega)
    have own := P.orderSize_pos o
    have same := h.rep.tiling.tiled.unique found known before
      (by simp only [← P.orderSize_eq]; omega) (Nat.le_refl x)
      (by simp only [← P.orderSize_eq]; omega)
    exact absurd same.2 (by simp)

/-- The first loop accepts free blocks of the orders it goes through. -/
theorem BuddyInv.growCheck_free (h : BuddyInv s v) {count j : Nat}
    (free : ∀ i, j ≤ i → i < j + count → v.tile (x + P.orderSize i) = some (.free, i))
    : s.growCheck x count j = true := by
  induction count generalizing j with
  | zero => rfl
  | succ count ih =>
      have here := free j (Nat.le_refl j) (by omega)
      obtain ⟨_, unit, _, inside, _⟩ := h.rep.block here
      have tag := h.rep.tag_eq unit inside (t := tagFree ||| j) (by rw [here]; rfl)
      have check := h.rep.unlinkCheck here
      unfold BuddyState.growCheck
      simp only [ge_iff_le, Nat.not_le.mpr inside, decide_false, tag, ne_eq, not_true_eq_false,
        Bool.or_self, check, Bool.not_true, Bool.false_eq_true, if_false]
      exact ih (fun i lo hi => free i (by omega) (by omega))

/-- `grow` succeeds exactly when the larger block is aligned and all bytes it adds are free. -/
theorem BuddyInv.grow_iff (h : BuddyInv s v) (known : v.tile x = some (.alloc, o)) {n : Nat}
    (larger : o < P.orderForSize n)
    : (s.grow (s.base + x) n).2 ≠ 0
      ↔ P.orderForSize n < s.maxOrder ∧ P.orderSize (P.orderForSize n) ∣ x
        ∧ ∀ k, x + P.orderSize o ≤ k → k < x + P.orderSize (P.orderForSize n) →
          k < s.total ∧ s.FreeByte k := by
  obtain ⟨_, unit, _, inside, order⟩ := h.rep.block known
  have found : s.orderAt (s.base + x) = some o :=
    h.orderAt_iff.mpr ⟨x, .alloc, rfl, ownedOf_eq_some.mpr ⟨known, rfl⟩⟩
  have positive : n ≠ 0 := by
    rintro rfl
    have zero : P.orderForSize 0 = 0 := by
      simp only [BuddyParams.orderForSize, Nat.zero_sub, Nat.zero_shiftRight]
      decide
    omega
  have mask : x &&& (P.orderSize (P.orderForSize n) - 1) = 0
      ↔ P.orderSize (P.orderForSize n) ∣ x := by
    rw [P.orderSize_eq, and_low]
    exact ⟨Nat.dvd_of_mod_eq_zero, Nat.mod_eq_zero_of_dvd⟩
  have size := P.orderSize_pos (P.orderForSize n)
  have count : o + (P.orderForSize n - o) = P.orderForSize n := by omega
  unfold BuddyState.grow
  rw [found]
  simp only [Nat.add_sub_cancel_left, if_neg positive, if_neg (Nat.not_le.mpr larger)]
  by_cases high : P.orderForSize n ≥ s.maxOrder
  · rw [if_pos high]
    exact ⟨fun no => absurd rfl no, fun yes => by omega⟩
  rw [if_neg high]
  by_cases odd : x &&& (P.orderSize (P.orderForSize n) - 1) = 0
  swap
  · rw [if_pos odd]
    exact ⟨fun no => absurd rfl no, fun yes => absurd (mask.mpr yes.2.1) odd⟩
  rw [if_neg (not_not.mpr odd)]
  by_cases accepted : s.growCheck x (P.orderForSize n - o) o = true
  · rw [if_neg (by simpa using accepted)]
    refine ⟨fun _ => ⟨Nat.not_le.mp high, mask.mp odd, ?_⟩, fun _ => by simpa using size.ne'⟩
    have free := h.growCheck unit (by omega) accepted
    -- the byte is in the free block of the order that its distance has
    intro k lo hi
    obtain ⟨i, first, last, below, above⟩ : ∃ i, o ≤ i ∧ i < P.orderForSize n
        ∧ x + P.orderSize i ≤ k ∧ k < x + P.orderSize (i + 1) := by
      by_contra none
      push Not at none
      have all : ∀ d, o + d ≤ P.orderForSize n → x + P.orderSize (o + d) ≤ k := by
        intro d
        induction d with
        | zero => exact fun _ => lo
        | succ d ih => exact fun le => none (o + d) (by omega) (by omega) (ih (by omega))
      have := all (P.orderForSize n - o) (by omega)
      rw [count] at this
      omega
    have block := free i first (by omega)
    have double := P.orderSize_succ i
    refine ⟨?_, h.freeByte_iff.mpr ⟨_, i, block, below, by omega⟩⟩
    have := (h.rep.block block).2.2.1
    omega
  · rw [if_pos (by simpa using accepted)]
    refine ⟨fun no => absurd rfl no, fun room => absurd ?_ accepted⟩
    obtain ⟨fits, aligned, free⟩ := room
    exact h.growCheck_free (fun i lo hi =>
      h.free_behind known aligned fits free i lo (by omega))

end FreeBytes

-----------------------------------------------------------------------------------------
-- Growing in a run
-----------------------------------------------------------------------------------------

section Runs

variable {P : BuddyParams} {s : BuddyState P} {v : BuddyView} {k x o n : Nat}

/-- What a successful `grow` does: the block gets the larger range, whose new bytes are no
longer free, and every other byte and block is as before.
-/
theorem BuddyInv.grow_takes (h : BuddyInv s v) (plain : v.Plain)
    (known : v.tile x = some (.alloc, o)) (larger : o < P.orderForSize n)
    (grown : (s.grow (s.base + x) n).2 ≠ 0)
    : (s.grow (s.base + x) n).2 = P.orderSize (P.orderForSize n)
      ∧ (∀ q, (s.grow (s.base + x) n).1.orderAt q
          = if q = s.base + x then some (P.orderForSize n) else s.orderAt q)
      ∧ (∀ k, (s.grow (s.base + x) n).1.FreeByte k
          ↔ s.FreeByte k ∧ ¬(x ≤ k ∧ k < x + P.orderSize (P.orderForSize n)))
      ∧ (s.grow (s.base + x) n).1.allocatedBytes
        = s.allocatedBytes + (P.orderSize (P.orderForSize n) - P.orderSize o)
      ∧ (s.grow (s.base + x) n).1.toBuddyGeometry = s.toBuddyGeometry
      ∧ ∃ v', BuddyInv (s.grow (s.base + x) n).1 v' ∧ v'.Plain := by
  have free := ((h.grow_iff known larger).mp grown).2.2
  have counter := h.rep.counter_owned
  have size := P.orderSize_mono larger.le
  have owned := ownedOf_eq_some.mpr ⟨known, rfl⟩
  rcases h.grow known n with ⟨zero, _⟩ | ⟨_, _, _, enough⟩ | ⟨_, _, result, v', step, cached⟩
  · exact (grown zero).elim
  · omega
  generalize (s.grow (s.base + x) n).1 = t at step ⊢
  have base : t.base = s.base := congrArg BuddyGeometry.base step.geometry
  have total : t.total = s.total := congrArg BuddyGeometry.total step.geometry
  have plain' : v'.Plain := plain.update step.owned_eq (by simp)
  refine ⟨result, fun q => ?_, fun k => ?_, ?_, step.geometry, v', step.inv, plain'⟩
  · refine Option.ext (fun i => ?_)
    rw [step.inv.orderAt_iff, step.owned_eq, base]
    by_cases here : q = s.base + x
    · rw [if_pos here]
      constructor
      · rintro ⟨y, l, eq, found⟩
        obtain rfl : y = x := by omega
        rw [Function.update_self] at found
        exact congrArg (Option.map Prod.snd) found
      · intro same
        exact ⟨x, .alloc, here, by rw [Function.update_self, Option.some.inj same]⟩
    · rw [if_neg here, h.orderAt_iff]
      have apart : ∀ y, q = s.base + y → y ≠ x := by
        rintro y rfl rfl
        exact here rfl
      constructor <;> rintro ⟨y, l, eq, found⟩ <;> refine ⟨y, l, eq, ?_⟩
      · rwa [Function.update_of_ne (apart y eq)] at found
      · rwa [Function.update_of_ne (apart y eq)]
  · rw [step.inv.freeByte_iff_unused, h.freeByte_iff_unused, step.owned_eq, cached, base, total]
    constructor
    · rintro ⟨inside, unowned, uncached⟩
      have outside : ¬(x ≤ k ∧ k < x + P.orderSize (P.orderForSize n)) :=
        unowned x (.alloc, P.orderForSize n) (Function.update_self ..)
      refine ⟨⟨inside, fun y b found => ?_, uncached⟩, outside⟩
      by_cases same : y = x
      · subst same
        obtain rfl := Option.some.inj (owned.symm.trans found)
        have : P.orderSize (TileKind.alloc, o).2 = P.orderSize o := rfl
        omega
      · exact unowned y b (by rw [Function.update_of_ne same]; exact found)
    · rintro ⟨⟨inside, unowned, uncached⟩, outside⟩
      refine ⟨inside, fun y b found => ?_, uncached⟩
      by_cases same : y = x
      · subst same
        rw [Function.update_self] at found
        obtain rfl := Option.some.inj found
        exact outside
      · rw [Function.update_of_ne same] at found
        exact unowned y b found
  · have inside := (h.rep.block known).2.2.2.1
    have sum := blockSum_update (ownedSize P) (n := s.total) v.owned
      (some (.alloc, P.orderForSize n)) inside
    have after := step.inv.rep.counter_owned
    rw [step.owned_eq, total] at after
    rw [show v.owned x = some (.alloc, o) from owned] at sum
    simp only [Option.elim_some, ownedSize] at sum
    omega

/-- `grow` in place is exact and atomic: it succeeds exactly when the larger range is aligned
and its new bytes are free, then the block has just that range, and otherwise nothing happens.
-/
theorem BuddyReached.grow_exact (run : BuddyReached P s) {off : Nat}
    (live : s.orderAt (s.base + off) = some o) (larger : o < P.orderForSize n)
    : ((s.grow (s.base + off) n).2 ≠ 0
        ↔ P.orderForSize n < s.maxOrder ∧ P.orderSize (P.orderForSize n) ∣ off
          ∧ ∀ k, off + P.orderSize o ≤ k → k < off + P.orderSize (P.orderForSize n) →
            k < s.total ∧ s.FreeByte k)
      ∧ ((s.grow (s.base + off) n).2 ≠ 0 →
          (s.grow (s.base + off) n).2 = P.orderSize (P.orderForSize n)
          ∧ (∀ q, (s.grow (s.base + off) n).1.orderAt q
              = if q = s.base + off then some (P.orderForSize n) else s.orderAt q)
          ∧ (∀ k, (s.grow (s.base + off) n).1.FreeByte k
              ↔ s.FreeByte k ∧ ¬(off ≤ k ∧ k < off + P.orderSize (P.orderForSize n)))
          ∧ (s.grow (s.base + off) n).1.allocatedBytes
            = s.allocatedBytes + (P.orderSize (P.orderForSize n) - P.orderSize o)
          ∧ (s.grow (s.base + off) n).1.toBuddyGeometry = s.toBuddyGeometry
          ∧ ∃ v, BuddyInv (s.grow (s.base + off) n).1 v ∧ v.Plain)
      ∧ ((s.grow (s.base + off) n).2 = 0 → (s.grow (s.base + off) n).1 = s) := by
  obtain ⟨v, inv, plain, _⟩ := run.inv
  obtain ⟨x, kind, eq, owned⟩ := inv.orderAt_iff.mp live
  obtain rfl : off = x := by omega
  obtain rfl : kind = .alloc := plain off _ owned
  have known := (ownedOf_eq_some.mp owned).1
  refine ⟨inv.grow_iff known larger, inv.grow_takes plain known larger, fun zero => ?_⟩
  have size := P.orderSize_pos (P.orderForSize n)
  rcases inv.grow known n with ⟨_, same⟩ | ⟨_, same, _⟩ | ⟨_, _, result, _⟩
  · exact same
  · exact same
  · omega

/-- A block of 32 bytes at the base is asked to hold 33. -/
theorem BuddyReached.grow_exact_small
    : let s := (((BuddyState.blankStart smallBuddy).init 4096 200 0 0 64 false).1.perform
        (.allocate 20))
      let o := smallBuddy.orderForSize 20
      let w := smallBuddy.orderForSize 33
      ((s.grow (s.base + 0) 33).2 ≠ 0
        ↔ w < s.maxOrder ∧ smallBuddy.orderSize w ∣ 0
          ∧ ∀ k, 0 + smallBuddy.orderSize o ≤ k → k < 0 + smallBuddy.orderSize w →
            k < s.total ∧ s.FreeByte k)
      ∧ ((s.grow (s.base + 0) 33).2 ≠ 0 →
          (s.grow (s.base + 0) 33).2 = smallBuddy.orderSize w
          ∧ (∀ q, (s.grow (s.base + 0) 33).1.orderAt q
              = if q = s.base + 0 then some w else s.orderAt q)
          ∧ (∀ k, (s.grow (s.base + 0) 33).1.FreeByte k
              ↔ s.FreeByte k ∧ ¬(0 ≤ k ∧ k < 0 + smallBuddy.orderSize w))
          ∧ (s.grow (s.base + 0) 33).1.allocatedBytes
            = s.allocatedBytes + (smallBuddy.orderSize w - smallBuddy.orderSize o)
          ∧ (s.grow (s.base + 0) 33).1.toBuddyGeometry = s.toBuddyGeometry
          ∧ ∃ v, BuddyInv (s.grow (s.base + 0) 33).1 v ∧ v.Plain)
      ∧ ((s.grow (s.base + 0) 33).2 = 0 → (s.grow (s.base + 0) 33).1 = s) :=
  (smallBuddy_start.perform (.allocate 20)).grow_exact (by decide +kernel) (by decide +kernel)

end Runs

end Bbmalloc
