import Bbmalloc.Buddy.Allocation

/-! Growing a block in place, the largest free block, and the order that a byte count needs.
Growing merges the block with free buddies above it, one order at a time, as a release does.
-/

namespace Bbmalloc

open Bbmalloc.Foundations

-----------------------------------------------------------------------------------------
-- Orders and sizes
-----------------------------------------------------------------------------------------

section Orders

variable (P : BuddyParams) {n o : Nat}

/-- `order_for_size` is the least order whose blocks hold `n` bytes. -/
theorem BuddyParams.orderForSize_le (positive : 0 < n)
    : P.orderForSize n ≤ o ↔ n ≤ P.orderSize o := by
  have size : n ≤ P.orderSize o ↔ (n - 1) / 2 ^ P.log2Min < 2 ^ o := by
    rw [P.orderSize_eq, Nat.div_lt_iff_lt_mul (Nat.two_pow_pos _), ← pow_add, Nat.add_comm o]
    omega
  rw [size, orderForSize, Nat.shiftRight_eq_div_pow]
  by_cases zero : (n - 1) / 2 ^ P.log2Min = 0
  · simp [zero, fls, Nat.log2_def]
  · have lowBit : fls ((n - 1) / 2 ^ P.log2Min ||| 1) = fls ((n - 1) / 2 ^ P.log2Min) := by
      have nonzero : (n - 1) / 2 ^ P.log2Min ||| 1 ≠ 0 := by simp
      have lower := fls_bounds zero
      refine Nat.le_antisymm ?_ ?_
      · refine Nat.lt_succ_iff.mp ((fls_lt nonzero).mpr ?_)
        exact Nat.or_lt_two_pow lower.2 (Nat.one_lt_two_pow (by omega))
      · refine Nat.lt_succ_iff.mp ((fls_lt zero).mpr ?_)
        exact lt_of_le_of_lt Nat.left_le_or (fls_bounds nonzero).2
    simp only [lowBit, ne_eq, zero, not_false_eq_true, if_true]
    rw [Nat.add_one_le_iff]
    exact fls_lt zero

/-- The block of a request holds it. -/
theorem BuddyParams.le_orderSize (positive : 0 < n) : n ≤ P.orderSize (P.orderForSize n) :=
  (P.orderForSize_le positive).mp (Nat.le_refl _)

theorem BuddyParams.orderForSize_orderSize : P.orderForSize (P.orderSize o) = o := by
  refine Nat.le_antisymm ((P.orderForSize_le (P.orderSize_pos o)).mpr (Nat.le_refl _)) ?_
  have le := P.le_orderSize (P.orderSize_pos o)
  rw [P.orderSize_eq (P.orderForSize _), P.orderSize_eq o] at le
  have exponent := (Nat.pow_le_pow_iff_right (by omega : 1 < 2)).mp le
  rw [← P.orderSize_eq] at exponent
  omega

end Orders

-----------------------------------------------------------------------------------------
-- Growing
-----------------------------------------------------------------------------------------

section Growing

variable {P : BuddyParams} {s : BuddyState P} {v : BuddyView} {x o want : Nat}

/-- The first loop accepts only if the blocks it will take are free. -/
theorem BuddyInv.growCheck (h : BuddyInv s v) (unit : P.minBlock ∣ x) {count j : Nat}
    (range : j + count ≤ s.maxOrder) (accepted : s.growCheck x count j = true)
    : ∀ i, j ≤ i → i < j + count → v.tile (x + P.orderSize i) = some (.free, i) := by
  induction count generalizing j with
  | zero => omega
  | succ count ih =>
      unfold BuddyState.growCheck at accepted
      simp only at accepted
      split at accepted
      · simp at accepted
      · rename_i first
        split at accepted
        · simp at accepted
        · have order : j < 64 := h.rep.order_lt_64 (by omega)
          simp only [ge_iff_le, ne_eq, Bool.or_eq_true, decide_eq_true_eq, not_or, not_le,
            not_not] at first
          have here := h.rep.free_of_tag
            (Nat.dvd_add unit (P.minBlock_dvd_orderSize j)) first.1 (fun i => h.settled _ i) order
            first.2
          intro i lo hi
          by_cases same : i = j
          · exact same ▸ here
          · exact ih (by omega) accepted i (by omega) (by omega)

/-- The counter plays no part in the second loop. -/
theorem BuddyState.growTake_counter (count : Nat)
    : ∀ (s : BuddyState P) (c x j : Nat),
      ({ s with allocatedBytes := c } : BuddyState P).growTake x count j
        = { s.growTake x count j with allocatedBytes := c } := by
  induction count with
  | zero => exact fun _ _ _ _ => rfl
  | succ count ih =>
      intro s c x j
      unfold growTake
      exact ih ((s.unlinkDo (s.base + (x + P.orderSize j)) j).setTag
        ((x + P.orderSize j) >>> P.log2Min) tagNone) c x (j + 1)

theorem BuddyState.growTake_counter_same (count : Nat)
    : ∀ (s : BuddyState P) (x j : Nat),
      (s.growTake x count j).allocatedBytes = s.allocatedBytes := by
  induction count with
  | zero => exact fun _ _ _ => rfl
  | succ count ih =>
      intro s x j
      unfold growTake
      exact ih _ x (j + 1)

/-- The second loop joins the held block with the free blocks above it. -/
theorem BuddyWork.growTake (count : Nat)
    : ∀ {s : BuddyState P} {v : BuddyView} {x j : Nat}, BuddyWork s v x j →
      P.orderSize (j + count) ∣ x → j + count < s.maxOrder →
      (∀ i, j ≤ i → i < j + count → v.tile (x + P.orderSize i) = some (.free, i)) →
      ∃ v', BuddyWork (s.growTake x count j) v' x (j + count)
        ∧ Move s v (s.growTake x count j) v'
        ∧ v'.cached = v.cached ∧ (s.growTake x count j).cacheCount = s.cacheCount := by
  induction count with
  | zero => exact fun {s v _ _} h _ _ _ => ⟨v, h, Move.refl s v, rfl, rfl⟩
  | succ count ih =>
      intro s v x j h aligned range free
      have pow := P.orderSize_eq j
      have lower : 2 ^ (P.log2Min + j + 1) ∣ x := by
        have := dvd_trans (P.orderSize_dvd (show j + 1 ≤ j + (count + 1) by omega)) aligned
        rwa [P.orderSize_eq, ← Nat.add_assoc] at this
      have xor : x ^^^ P.orderSize j = x + P.orderSize j := by rw [pow, xor_size_of_lower lower]
      have or : x ||| P.orderSize j = x + P.orderSize j := by rw [pow, or_size_of_lower lower]
      have low : andNot x (P.orderSize j) = x := by rw [pow, andNot_size_of_lower lower]
      obtain ⟨w, work, move, cached, others⟩ := h.mergeOnce (by omega)
        (by rw [xor]; exact free j (by omega) (by omega))
      rw [xor, or] at work move
      rw [low] at work
      rw [xor] at others
      have top := congrArg BuddyGeometry.maxOrder move.geometry
      -- the blocks above are untouched, so they are still free
      have rest : ∀ i, j + 1 ≤ i → i < j + 1 + count →
          w.tile (x + P.orderSize i) = some (.free, i) := by
        intro i lo hi
        have larger := P.orderSize_mono lo
        have double := P.orderSize_succ j
        have positive := P.orderSize_pos j
        rw [others _ (by omega) (by omega)]
        exact free i (by omega) (by omega)
      obtain ⟨v', work', move', cached', counts⟩ := ih work
        (by rw [show j + 1 + count = j + (count + 1) by omega]; exact aligned)
        (by rw [top]; omega) rest
      rw [show j + 1 + count = j + (count + 1) by omega] at work'
      exact ⟨v', work', move.trans move', cached'.trans cached, counts⟩

/-- Taking the free blocks behind an allocated one stores to tags and to free blocks only, by
induction on the number of blocks: each one is held once it is unlinked.
-/
theorem BuddyRep.growTake_within (count : Nat)
    : ∀ {s : BuddyState P} {v : BuddyView} {x j : Nat}, BuddyRep s v →
      (∀ i, j ≤ i → i < j + count → v.tile (x + P.orderSize i) = some (.free, i)) →
      (s.growTake x count j).toBuddyGeometry = s.toBuddyGeometry
        ∧ Memory.Within (Loose P s.toBuddyGeometry v.owned) s.mem (s.growTake x count j).mem := by
  induction count with
  | zero =>
      intro s v x j h free
      exact ⟨rfl, Memory.Within.refl _ _⟩
  | succ count ih =>
      intro s v x j h free
      have first := free j (Nat.le_refl j) (by omega)
      obtain ⟨rep, move⟩ := h.unlinkDo first
      have taken : (v.take s.base (x + P.orderSize j) j).tile (x + P.orderSize j)
          = some (.held, j) := by
        simp [BuddyView.take]
      set s₁ := s.unlinkDo (s.base + (x + P.orderSize j)) j with s₁Eq
      have index := rep.geometry.index_lt (rep.block taken).2.2.2.1
      -- a held block may have any tag
      have tagged := rep.setKind (u := s₁.setTag ((x + P.orderSize j) >>> P.log2Min) tagNone)
        (j := .held) taken rfl rfl rfl rfl rfl
        (fun b hb => BuddyState.next_setTag rep.geometry index hb)
        (fun b hb => BuddyState.prev_setTag rep.geometry index hb)
        (fun i _ ne => (BuddyState.tag_setTag (by decide)).trans (if_neg ne))
        (by simp [tileTag]) rfl
      have still : (v.take s.base (x + P.orderSize j) j).setKind (x + P.orderSize j) .held j
          = v.take s.base (x + P.orderSize j) j := by
        simp only [BuddyView.setKind]
        rw [← taken, Function.update_eq_self]
      rw [still] at tagged
      have owned : (v.take s.base (x + P.orderSize j) j).owned = v.owned := move.owned
      obtain ⟨same, rest⟩ := ih (x := x) (j := j + 1) tagged (fun i lo hi => by
        have larger := P.orderSize_mono lo
        have double := P.orderSize_succ j
        have positive := P.orderSize_pos j
        simp only [BuddyView.take]
        rw [Function.update_of_ne (by omega)]
        exact free i (by omega) (by omega))
      have stored := rep.within_retag (t := tagNone) taken v.owned
      rw [BuddyState.tagIndex_base] at stored
      have geometry : (s₁.setTag ((x + P.orderSize j) >>> P.log2Min) tagNone).toBuddyGeometry
          = s.toBuddyGeometry := move.geometry
      rw [geometry, owned] at rest
      rw [move.geometry] at stored
      exact ⟨same.trans geometry, move.within.trans (stored.trans rest)⟩

/-- The end of `grow` hands out the joined block. -/
theorem BuddyState.growEnd_eq (s : BuddyState P) (c x o : Nat)
    : ({ s.setTag (x >>> P.log2Min) (tagAlloc ||| o) with allocatedBytes := c + P.orderSize o }
        : BuddyState P)
      = (({ s with allocatedBytes := c } : BuddyState P).grant (s.base + x) o).1 := by
  have index : ({ s with allocatedBytes := c } : BuddyState P).tagIndex (s.base + x)
      = x >>> P.log2Min :=
    BuddyState.tagIndex_base ({ s with allocatedBytes := c } : BuddyState P) x
  rw [grant, index]
  rfl

/-- `grow` of an allocated block: it fails without an effect, or the block gets the order
asked for; only a block that already has that order reports a larger one.
-/
theorem BuddyInv.grow (h : BuddyInv s v) (known : v.tile x = some (.alloc, o)) (n : Nat)
    : ((s.grow (s.base + x) n).2 = 0 ∧ (s.grow (s.base + x) n).1 = s)
      ∨ ((s.grow (s.base + x) n).2 = P.orderSize o ∧ (s.grow (s.base + x) n).1 = s
          ∧ n ≠ 0 ∧ P.orderForSize n ≤ o)
      ∨ (o < P.orderForSize n ∧ n ≠ 0
          ∧ (s.grow (s.base + x) n).2 = P.orderSize (P.orderForSize n)
          ∧ ∃ v', BuddyStep s (s.grow (s.base + x) n).1 v' (Function.update v.owned x none)
              (Function.update v.owned x (some (.alloc, P.orderForSize n)))
            ∧ v'.cached = v.cached) := by
  obtain ⟨_, unit, _, inside, order⟩ := h.rep.block known
  have found : s.orderAt (s.base + x) = some o :=
    h.orderAt_iff.mpr ⟨x, .alloc, rfl, ownedOf_eq_some.mpr ⟨known, rfl⟩⟩
  unfold BuddyState.grow
  rw [found]
  simp only [Nat.add_sub_cancel_left]
  by_cases zero : n = 0
  · rw [if_pos zero]
    exact Or.inl ⟨rfl, rfl⟩
  rw [if_neg zero]
  by_cases enough : P.orderForSize n ≤ o
  · rw [if_pos enough]
    exact Or.inr (Or.inl ⟨rfl, rfl, zero, enough⟩)
  rw [if_neg enough]
  by_cases high : P.orderForSize n ≥ s.maxOrder
  · rw [if_pos high]
    exact Or.inl ⟨rfl, rfl⟩
  rw [if_neg high]
  by_cases odd : x &&& (P.orderSize (P.orderForSize n) - 1) ≠ 0
  · rw [if_pos odd]
    exact Or.inl ⟨rfl, rfl⟩
  rw [if_neg odd]
  by_cases accepted : s.growCheck x (P.orderForSize n - o) o = true
  swap
  · rw [if_pos (by simpa using accepted)]
    exact Or.inl ⟨rfl, rfl⟩
  rw [if_neg (by simpa using accepted)]
  refine Or.inr (Or.inr ⟨by omega, zero, rfl, ?_⟩)
  -- the loop runs on the released block, whose size is not in the counter
  have counter := h.rep.size_le_counter known
  have released := h.rep.release (c := s.allocatedBytes - P.orderSize o) known rfl counter
  have owned : (v.setKind x .held o).owned = Function.update v.owned x none :=
    ownedOf_update _ _ _
  have work : BuddyWork
      ({ s with allocatedBytes := s.allocatedBytes - P.orderSize o } : BuddyState P)
      (v.setKind x .held o) x o :=
    ⟨released, h.mask, Coalesced.update_other h.merged (by simp), by simp [BuddyView.setKind],
      h.settled.update rfl⟩
  have total : o + (P.orderForSize n - o) = P.orderForSize n := by omega
  have aligned : P.orderSize (P.orderForSize n) ∣ x := by
    rw [not_not, P.orderSize_eq, and_low] at odd
    rw [P.orderSize_eq]
    exact Nat.dvd_of_mod_eq_zero odd
  have free := h.growCheck unit (by omega) accepted
  obtain ⟨w, grown, move, cached, counts⟩ := work.growTake (P.orderForSize n - o)
    (by rwa [total]) (by rw [total]; exact Nat.not_le.mp high) (by
      intro i lo hi
      have positive := P.orderSize_pos i
      simp only [BuddyView.setKind]
      rw [Function.update_of_ne (by omega)]
      exact free i lo hi)
  have step := grown.grant (fun j => by rw [counts, cached]; exact h.counts j)
  have both := move.step step
  rw [move.owned, owned, total, Function.update_idem] at both
  rw [BuddyState.growTake_counter] at both
  have size := P.orderSize_mono (show o ≤ P.orderForSize n by omega)
  have counter' : (s.growTake x (P.orderForSize n - o) o).allocatedBytes
      + (P.orderSize (P.orderForSize n) - P.orderSize o)
      = s.allocatedBytes - P.orderSize o + P.orderSize (P.orderForSize n) := by
    rw [BuddyState.growTake_counter_same]
    omega
  have result := BuddyState.growEnd_eq (s.growTake x (P.orderForSize n - o) o)
    (s.allocatedBytes - P.orderSize o) x (P.orderForSize n)
  simp only [BuddyState.setTag, counter'] at result ⊢
  rw [result]
  exact ⟨_, ⟨both.inv, both.geometry, both.owned_eq, both.within⟩, cached⟩

/-- `grow` leaves the contents of every owned block alone, the grown one included. -/
theorem BuddyInv.grow_within (h : BuddyInv s v) (known : v.tile x = some (.alloc, o)) (n : Nat)
    : Memory.Within (Loose P s.toBuddyGeometry v.owned) s.mem (s.grow (s.base + x) n).1.mem := by
  obtain ⟨_, unit, _, inside, order⟩ := h.rep.block known
  have found : s.orderAt (s.base + x) = some o :=
    h.orderAt_iff.mpr ⟨x, .alloc, rfl, ownedOf_eq_some.mpr ⟨known, rfl⟩⟩
  have still : Memory.Within (Loose P s.toBuddyGeometry v.owned) s.mem s.mem :=
    Memory.Within.refl _ _
  simp only [BuddyState.grow, found, Nat.add_sub_cancel_left]
  split
  · exact still
  split
  · exact still
  split
  · exact still
  split
  · exact still
  split
  · exact still
  rename_i enough high _ accepted
  have free := h.growCheck unit (show o + (P.orderForSize n - o) ≤ s.maxOrder by omega)
    (by simpa using accepted)
  obtain ⟨geometry, taken⟩ := h.rep.growTake_within _ free
  refine within_setTag taken ?_
  rw [show (s.growTake x (P.orderForSize n - o) o).blockTags = s.blockTags from
    congrArg BuddyGeometry.blockTags geometry]
  exact loose_tag (h.rep.geometry.index_lt inside)

end Growing

-----------------------------------------------------------------------------------------
-- The largest free block
-----------------------------------------------------------------------------------------

section Largest

variable {P : BuddyParams} {s : BuddyState P} {v : BuddyView}

/-- `largest_free` is the size of the largest order that has room, or zero. -/
theorem BuddyInv.largestFree (h : BuddyInv s v)
    : ∃ v', BuddyStep s s.largestFree.1 v' v.owned v.owned
        ∧ (∀ o, v'.cached o = [])
        ∧ ((s.largestFree.2 = 0 ∧ ∀ o x, ¬Room P s.total v.owned o x)
          ∨ ∃ o, s.largestFree.2 = P.orderSize o ∧ (∃ x, Room P s.total v.owned o x)
              ∧ ∀ i x, Room P s.total v.owned i x → i ≤ o) := by
  obtain ⟨w, inv, move, cached⟩ := h.flushCache
  have total := congrArg BuddyGeometry.total move.geometry
  have listed : ∀ i x, Room P s.total v.owned i x → ∃ j, i ≤ j ∧ w.lists j ≠ [] := by
    intro i x room
    rw [← total, ← move.owned] at room
    exact inv.toBuddyIdle.listed_of_room cached room
  refine ⟨w, ⟨inv, move.geometry, move.owned, move.within⟩, cached, ?_⟩
  unfold BuddyState.largestFree
  by_cases zero : s.flushCache.freeMask = 0
  · simp only [zero, if_true]
    refine Or.inl ⟨trivial, fun o x room => ?_⟩
    obtain ⟨j, _, nonempty⟩ := listed o x room
    have set := (inv.mask j).mpr nonempty
    simp [zero] at set
  · simp only [zero, if_false]
    have nonempty := (inv.mask _).mp (testBit_fls zero)
    obtain ⟨n, member⟩ := List.exists_mem_of_ne_nil _ nonempty
    obtain ⟨x, _, found⟩ := (inv.rep.listed _ n).mp member
    refine Or.inr ⟨_, rfl, ⟨x, ?_⟩, fun i y room => ?_⟩
    · have room := inv.rep.room found rfl
      rwa [move.owned, total] at room
    · obtain ⟨j, le, some⟩ := listed i y room
      by_contra above
      have clear := testBit_above_fls zero (i := j) (by omega)
      rw [(inv.mask j).mpr some] at clear
      exact absurd clear (by decide)

/-- The counter is the size of the owned blocks. -/
theorem BuddyRep.counter_owned (h : BuddyRep s v)
    : s.allocatedBytes = blockSum (ownedSize P) s.total v.owned := by
  rw [h.counter]
  refine blockSum_congr (fun x _ => ?_)
  cases found : v.tile x with
  | none => simp [BuddyView.owned, ownedOf, found]
  | some b =>
      obtain ⟨k, o⟩ := b
      simp only [BuddyView.owned, ownedOf, found]
      cases k <;> rfl

/-- The owned blocks fit in the data area. -/
theorem BuddyRep.counter_le (h : BuddyRep s v) : s.allocatedBytes ≤ s.total := by
  have whole := h.tiling.tiled.blockSum_size
  rw [h.counter]
  refine le_of_le_of_eq (blockSum_le (fun x _ => ?_)) whole
  cases v.tile x with
  | none => exact Nat.le_refl _
  | some b =>
      obtain ⟨k, o⟩ := b
      cases k <;> simp [ownedSize, P.orderSize_eq]

end Largest

end Bbmalloc
