import Bbmalloc.Buddy.Transitions

/-! Splitting and coalescing: the loops of `__take_and_split` and `__merge_and_free`. Both
work on one held block; the free blocks stay coalesced and the free mask follows the lists.
-/

namespace Bbmalloc

open Bbmalloc.Foundations

/-- No two free buddies. -/
def BuddyView.Merged (P : BuddyParams) (top : Nat) (v : BuddyView) : Prop :=
  Coalesced TileKind.free P.log2Min top v.tile

-----------------------------------------------------------------------------------------
-- Held blocks
-----------------------------------------------------------------------------------------

section Held

variable {P : BuddyParams} {s : BuddyState P} {v : BuddyView} {base x o : Nat}
  {tile : Nat → Option Tile}

/-- With nothing held, changing the block at `x` leaves at most that block held. -/
theorem BuddyView.NoneHeld.update (settled : v.NoneHeld) {v' : BuddyView} {b : Option Tile}
    (tile : v'.tile = Function.update v.tile x b)
    : v'.HeldOnly x := by
  intro y i found
  by_contra ne
  rw [tile, Function.update_of_ne ne] at found
  exact settled y i found

/-- Turning the only held block into one of another kind leaves nothing held. -/
theorem BuddyView.HeldOnly.update (held : v.HeldOnly x) {v' : BuddyView} {b : Option Tile}
    (tile : v'.tile = Function.update v.tile x b) (other : ∀ i, b ≠ some (.held, i))
    : v'.NoneHeld := by
  intro y i found
  rw [tile] at found
  by_cases same : y = x
  · subst same
    exact other i (by simpa using found)
  · rw [Function.update_of_ne same] at found
    exact same (held y i found)

/-- The free mask after the free list of one order changed. -/
theorem MaskFits.update {s' : BuddyState P} {v' : BuddyView} (h : MaskFits s v)
    (others : ∀ i ≠ o, s'.freeMask.testBit i = s.freeMask.testBit i ∧ v'.lists i = v.lists i)
    (here : s'.freeMask.testBit o = true ↔ v'.lists o ≠ [])
    : MaskFits s' v' := by
  intro i
  by_cases same : i = o
  · exact same ▸ here
  · rw [(others i same).1, (others i same).2]
    exact h i

end Held

-----------------------------------------------------------------------------------------
-- Splitting
-----------------------------------------------------------------------------------------

section Splitting

variable {P : BuddyParams}

/-- Halving the held block at `x` and freeing the upper half. -/
theorem BuddyRep.splitOnce {s : BuddyState P} {v : BuddyView} {x o : Nat} (h : BuddyRep s v)
    (known : v.tile x = some (.held, o + 1)) (held : v.HeldOnly x)
    (merged : v.Merged P s.maxOrder)
    : ∃ v', BuddyRep (s.linkFront (s.base + x + P.orderSize o) o) v'
        ∧ Move s v (s.linkFront (s.base + x + P.orderSize o) o) v'
        ∧ v'.tile x = some (.held, o) ∧ v'.HeldOnly x ∧ v'.Merged P s.maxOrder
        ∧ v'.cached = v.cached
        ∧ v'.lists = Function.update v.lists o ((s.base + x + P.orderSize o) :: v.lists o) := by
  obtain ⟨halved, halving⟩ := h.halve known
  have positive := P.orderSize_pos o
  have differ : x + P.orderSize o ≠ x := by omega
  have upper : (v.halve P x o).tile (x + P.orderSize o) = some (.held, o) := by
    simp [BuddyView.halve]
  have lower : (v.halve P x o).tile x = some (.held, o) := by
    simp [BuddyView.halve, Function.update_of_ne differ.symm]
  have aligned : 2 ^ (P.log2Min + o + 1) ∣ x := by
    have := (h.block known).1
    rwa [P.orderSize_eq, ← Nat.add_assoc] at this
  obtain ⟨pushed, linking⟩ := halved.linkFront upper
  rw [← Nat.add_assoc] at pushed linking
  refine ⟨_, pushed, halving.trans linking, ?_, ?_, ?_, rfl, ?_⟩
  · simp [BuddyView.push, Function.update_of_ne differ.symm, lower]
  · intro y i found
    simp only [BuddyView.push] at found
    by_cases atUpper : y = x + P.orderSize o
    · subst atUpper
      simp at found
    · rw [Function.update_of_ne atUpper] at found
      simp only [BuddyView.halve] at found
      rw [Function.update_of_ne atUpper] at found
      by_cases atLower : y = x
      · exact atLower
      · rw [Function.update_of_ne atLower] at found
        exact held y i found
  · refine Coalesced.update_free ?_ ?_
    · have step : Coalesced TileKind.free P.log2Min s.maxOrder
          (Function.update v.tile x (some (.held, o))) := Coalesced.update_other merged (by simp)
      exact step.update_other (by simp)
    · intro _ buddy
      rw [P.orderSize_eq, xor_size_of_upper aligned, lower] at buddy
      simp at buddy
  · simp [BuddyView.push, BuddyView.halve, Nat.add_assoc]

/-- The splitting loop: the held block shrinks to the target order, and every list between
the target and the old order gets an upper half. By induction on the halvings.
-/
theorem BuddyRep.splitDown (levels : Nat)
    : ∀ {s : BuddyState P} {v : BuddyView} {x o : Nat}, BuddyRep s v →
      v.tile x = some (.held, o) → levels ≤ o → v.HeldOnly x → v.Merged P s.maxOrder →
      ∃ v', BuddyRep (s.splitDown (s.base + x) levels o (P.orderSize o)) v'
        ∧ Move s v (s.splitDown (s.base + x) levels o (P.orderSize o)) v'
        ∧ v'.tile x = some (.held, o - levels) ∧ v'.HeldOnly x ∧ v'.Merged P s.maxOrder
        ∧ v'.cached = v.cached
        ∧ (∀ i, v'.lists i ≠ [] ↔ v.lists i ≠ [] ∨ (o - levels ≤ i ∧ i < o))
        ∧ (s.splitDown (s.base + x) levels o (P.orderSize o)).cacheCount = s.cacheCount := by
  induction levels with
  | zero =>
      intro s v x o h known _ held merged
      refine ⟨v, h, Move.refl s v, known, held, merged, rfl, ?_, rfl⟩
      intro i
      constructor
      · exact Or.inl
      · rintro (nonempty | ⟨lo, hi⟩)
        · exact nonempty
        · omega
  | succ levels ih =>
      intro s v x o h known le held merged
      obtain ⟨o, rfl⟩ : ∃ p, o = p + 1 := ⟨o - 1, by omega⟩
      have half : P.orderSize (o + 1) >>> 1 = P.orderSize o := by
        rw [P.orderSize_succ, Nat.shiftRight_one]
        omega
      obtain ⟨w, rep, move, lower, only, coalesced, cached, lists⟩ := h.splitOnce known held merged
      rw [BuddyState.splitDown, half, Nat.add_sub_cancel]
      obtain ⟨v', rep', move', known', held', merged', cached', lists', counts⟩ :=
        ih rep lower (by omega) only coalesced
      refine ⟨v', rep', move.trans move', ?_, held', merged', cached'.trans cached, ?_, ?_⟩
      · rw [known']
        congr 2
        omega
      · intro i
        rw [lists' i, lists]
        by_cases same : i = o
        · subst same
          simp only [Function.update_self]
          constructor
          · intro _
            exact Or.inr ⟨by omega, by omega⟩
          · intro _
            exact Or.inl (by simp)
        · rw [Function.update_of_ne same]
          constructor
          · rintro (nonempty | range)
            · exact Or.inl nonempty
            · exact Or.inr ⟨by omega, by omega⟩
          · rintro (nonempty | range)
            · exact Or.inl nonempty
            · exact Or.inr ⟨by omega, by omega⟩
      · exact counts

end Splitting

-----------------------------------------------------------------------------------------
-- Idle and working states
-----------------------------------------------------------------------------------------

/-- Between operations: nothing is held, free buddies are merged, the mask is exact. -/
structure BuddyIdle {P : BuddyParams} (s : BuddyState P) (v : BuddyView) : Prop where
  rep : BuddyRep s v
  mask : MaskFits s v
  merged : v.Merged P s.maxOrder
  settled : v.NoneHeld

/-- Inside an operation that holds the block of order `o` at `x`. -/
structure BuddyWork {P : BuddyParams} (s : BuddyState P) (v : BuddyView) (x o : Nat)
    : Prop where
  rep : BuddyRep s v
  mask : MaskFits s v
  merged : v.Merged P s.maxOrder
  known : v.tile x = some (.held, o)
  held : v.HeldOnly x

section Taking

variable {P : BuddyParams} {s : BuddyState P} {v : BuddyView} {x o i target : Nat}

/-- The free mask does not matter for the representation. -/
theorem BuddyRep.setMask (h : BuddyRep s v) (m : Nat)
    : BuddyRep ({ s with freeMask := m } : BuddyState P) v :=
  ⟨h.geometry, h.tiling, h.tags, h.lists, h.listed, h.cache, h.cacheNodup, h.inCache, h.counter⟩

/-- `__take_and_split` on a non-empty list holds a block of the target order. -/
theorem BuddyIdle.takeAndSplit (h : BuddyIdle s v) (nonempty : v.lists i ≠ []) (le : target ≤ i)
    : ∃ x v', (s.takeAndSplit i target).2 = s.base + x
        ∧ BuddyWork (s.takeAndSplit i target).1 v' x target
        ∧ Move s v (s.takeAndSplit i target).1 v'
        ∧ v'.cached = v.cached ∧ (s.takeAndSplit i target).1.cacheCount = s.cacheCount := by
  have nonnull : s.freeLists i ≠ 0 := fun null =>
    nonempty (((h.rep.lists i).chain.front_null).mp null)
  have front := (h.rep.front i).resolve_left nonnull
  obtain ⟨x, eq, known⟩ := (h.rep.listed i _).mp front
  have valid : s.linkValid (s.next (s.base + x)) = true :=
    BuddyState.linkValid_of_node
      ((h.rep.next_listed (eq ▸ front)).imp_right h.rep.listed_node)
  have popped := h.rep.popFront eq known
  have held : (v.take s.base x i).HeldOnly x := h.settled.update rfl
  have merged : (v.take s.base x i).Merged P s.maxOrder :=
    Coalesced.update_other h.merged (by simp)
  obtain ⟨v', rep, move, known', only, coalesced, cached, lists, counts⟩ :=
    popped.splitDown (i - target) (by simp [BuddyView.take]) (Nat.sub_le i target) held merged
  rw [Nat.sub_sub_self le] at known' lists
  have next : s.next (s.base + x) = 0 ↔ (v.take s.base x i).lists i = [] := by
    have := (popped.lists i).chain.front_null
    simpa using this
  -- the result of the operation, with its two conditionals resolved
  have result : s.takeAndSplit i target
      = ({ ({ s with freeLists := Function.update s.freeLists i (s.next (s.base + x)) }
            : BuddyState P).splitDown (s.base + x) (i - target) i (P.orderSize i) with
            freeMask :=
              (if s.next (s.base + x) = 0 then andNot s.freeMask (1 <<< i) else s.freeMask)
                ||| andNot (1 <<< i - 1) (1 <<< target - 1) },
          s.base + x) := by
    have live : s.base + x ≠ 0 := eq ▸ nonnull
    simp only [BuddyState.takeAndSplit, eq, live, if_false, valid, Bool.not_true, Bool.and_false]
    rfl
  have top := congrArg BuddyGeometry.maxOrder move.geometry
  rw [result]
  refine ⟨x, v', rfl, ⟨rep.setMask _, ?_, ?_, known', only⟩, ?_, cached, counts⟩
  · intro j
    rw [lists j]
    simp only [Nat.testBit_or, testBit_andNot, Nat.one_shiftLeft, Nat.testBit_two_pow_sub_one,
      Bool.or_eq_true, Bool.and_eq_true, Bool.not_eq_true', decide_eq_true_eq,
      decide_eq_false_iff_not]
    have range : j < i ∧ ¬j < target ↔ target ≤ j ∧ j < i := by omega
    rw [range]
    refine or_congr ?_ Iff.rfl
    by_cases same : j = i
    · subst same
      by_cases last : s.next (s.base + x) = 0
      · simp [last, next.mp last]
      · have rest : (v.take s.base x j).lists j ≠ [] := fun empty => last (next.mpr empty)
        rw [if_neg last]
        exact iff_of_true ((h.mask j).mpr nonempty) rest
    · have apart : (2 ^ i).testBit j = false := by
        rw [Nat.testBit_two_pow]
        simpa using Ne.symm same
      have mask := h.mask j
      simp only [BuddyView.take, Function.update_of_ne same]
      split
      · simpa [apart] using mask
      · exact mask
  · exact (congrArg (fun top => BuddyView.Merged P top v') top).mpr coalesced
  · have first : Move s v
        ({ s with freeLists := Function.update s.freeLists i (s.next (s.base + x)) }
          : BuddyState P) (v.take s.base x i) :=
      ⟨rfl, BuddyView.take_owned known, Memory.Within.refl _ _⟩
    have both := first.trans move
    exact ⟨both.geometry, both.owned, both.within⟩

/-- Unlinking keeps the free mask exact. -/
theorem MaskFits.unlinkDo (h : MaskFits s v)
    (rep : BuddyRep (s.unlinkDo (s.base + x) o) (v.take s.base x o))
    : MaskFits (s.unlinkDo (s.base + x) o) (v.take s.base x o) := by
  have empty := ((rep.lists o).chain.front_null)
  have mask : (s.unlinkDo (s.base + x) o).freeMask
      = if (s.unlinkDo (s.base + x) o).freeLists o = 0 then andNot s.freeMask (1 <<< o)
        else s.freeMask := rfl
  refine h.update (o := o) ?_ ?_
  · intro i ne
    refine ⟨?_, by simp [BuddyView.take, ne]⟩
    rw [mask]
    split
    · rw [testBit_andNot, Nat.one_shiftLeft, Nat.testBit_two_pow]
      simp [Ne.symm ne]
    · rfl
  · rw [mask]
    split
    · rename_i null
      simp [empty.mp null, Nat.one_shiftLeft]
    · rename_i live
      have remains : (v.take s.base x o).lists o ≠ [] := fun none => live (empty.mpr none)
      refine iff_of_true ((h o).mpr ?_) remains
      intro none
      simp [BuddyView.take, none] at remains

/-- The buddy of the held block and the held block are halves of one block. -/
theorem BuddyWork.mergeOnce (h : BuddyWork s v x o) (order : o + 1 < s.maxOrder)
    (buddy : v.tile (x ^^^ P.orderSize o) = some (.free, o))
    : ∃ v', BuddyWork
          ((s.unlinkDo (s.base + (x ^^^ P.orderSize o)) o).setTag
            ((x ||| P.orderSize o) >>> P.log2Min) tagNone)
          v' (andNot x (P.orderSize o)) (o + 1)
        ∧ Move s v
          ((s.unlinkDo (s.base + (x ^^^ P.orderSize o)) o).setTag
            ((x ||| P.orderSize o) >>> P.log2Min) tagNone) v'
        ∧ v'.cached = v.cached
        ∧ (∀ y, y ≠ x → y ≠ x ^^^ P.orderSize o → v'.tile y = v.tile y) := by
  obtain ⟨taken, taking⟩ := h.rep.unlinkDo buddy
  have mask := h.mask.unlinkDo taken
  have aligned := (h.rep.block h.known).1
  have differ : x ≠ x ^^^ P.orderSize o := by
    intro same
    rw [← same, h.known] at buddy
    simp at buddy
  have mine : (v.take s.base (x ^^^ P.orderSize o) o).tile x = some (.held, o) := by
    simp [BuddyView.take, differ, h.known]
  have other : (v.take s.base (x ^^^ P.orderSize o) o).tile (x ^^^ P.orderSize o)
      = some (.held, o) := by
    simp [BuddyView.take]
  have coalesced : Coalesced TileKind.free P.log2Min s.maxOrder
      (v.take s.base (x ^^^ P.orderSize o) o).tile :=
    Coalesced.update_other h.merged (by simp)
  -- both halves are held now, so joining them is the same step for either position
  have joined : ∀ b, P.orderSize (o + 1) ∣ b →
      (v.take s.base (x ^^^ P.orderSize o) o).tile b = some (.held, o) →
      (v.take s.base (x ^^^ P.orderSize o) o).tile (b + P.orderSize o) = some (.held, o) →
      (x = b ∧ x ^^^ P.orderSize o = b + P.orderSize o
        ∨ x = b + P.orderSize o ∧ x ^^^ P.orderSize o = b) →
      BuddyWork
          ((s.unlinkDo (s.base + (x ^^^ P.orderSize o)) o).setTag
            ((b + P.orderSize o) >>> P.log2Min) tagNone)
          ((v.take s.base (x ^^^ P.orderSize o) o).join P b o) b (o + 1)
        ∧ Move s v
          ((s.unlinkDo (s.base + (x ^^^ P.orderSize o)) o).setTag
            ((b + P.orderSize o) >>> P.log2Min) tagNone)
          ((v.take s.base (x ^^^ P.orderSize o) o).join P b o) := by
    intro b whole lower upper cases
    obtain ⟨rep, joining⟩ := taken.join lower upper whole order
    refine ⟨⟨rep, mask, ?_, by simp [BuddyView.join], ?_⟩, taking.trans joining⟩
    · have step : Coalesced TileKind.free P.log2Min s.maxOrder
          (Function.update (v.take s.base (x ^^^ P.orderSize o) o).tile (b + P.orderSize o) none) :=
        coalesced.update_other (by simp)
      exact step.update_other (by simp)
    · intro y i found
      simp only [BuddyView.join, BuddyView.take, Function.update_apply] at found
      split at found
      · assumption
      · split at found
        · simp at found
        · split at found
          · omega
          · have := h.held y i found
            omega
  have pow := P.orderSize_eq o
  rcases lower_or_upper (pow ▸ aligned) with lower | ⟨b, position, lower⟩
  · have whole : P.orderSize (o + 1) ∣ x := by rwa [P.orderSize_eq]
    have xor : x ^^^ P.orderSize o = x + P.orderSize o := by
      rw [pow, xor_size_of_lower lower]
    have or : x ||| P.orderSize o = x + P.orderSize o := by rw [pow, or_size_of_lower lower]
    have low : andNot x (P.orderSize o) = x := by rw [pow, andNot_size_of_lower lower]
    rw [or, low]
    obtain ⟨work, move⟩ := joined x whole mine (xor ▸ other) (Or.inl ⟨rfl, xor⟩)
    refine ⟨_, work, move, rfl, fun y ne ne' => ?_⟩
    have ne'' : y ≠ x + P.orderSize o := xor ▸ ne'
    simp [BuddyView.join, BuddyView.take, ne, ne', ne'']
  · rw [← pow] at position
    subst position
    have whole : P.orderSize (o + 1) ∣ b := by rwa [P.orderSize_eq]
    have xor : (b + P.orderSize o) ^^^ P.orderSize o = b := by
      rw [pow, xor_size_of_upper lower]
    have or : (b + P.orderSize o) ||| P.orderSize o = b + P.orderSize o := by
      rw [pow, or_size_of_upper lower]
    have low : andNot (b + P.orderSize o) (P.orderSize o) = b := by
      rw [pow, andNot_size_of_upper lower]
    rw [or, low]
    obtain ⟨work, move⟩ := joined b whole (by rw [xor] at other ⊢; exact other) mine
      (Or.inr ⟨rfl, xor⟩)
    refine ⟨_, work, move, rfl, fun y ne ne' => ?_⟩
    have ne'' : y ≠ b := xor ▸ ne'
    simp [BuddyView.join, BuddyView.take, ne, ne', ne'']

end Taking

-----------------------------------------------------------------------------------------
-- Merging
-----------------------------------------------------------------------------------------

section Merging

variable {P : BuddyParams} {s : BuddyState P} {v : BuddyView} {x o : Nat}

/-- The merging loop stops at a held block whose buddy is not free, or at the top order. By
induction on the fuel, of which one unit for each order above the block is enough.
-/
theorem BuddyWork.mergeUp (fuel : Nat)
    : ∀ {s : BuddyState P} {v : BuddyView} {x o : Nat}, BuddyWork s v x o →
      s.maxOrder ≤ fuel + o + 1 →
      ∃ v', BuddyWork (s.mergeUp fuel x o).1 v' (s.mergeUp fuel x o).2.1 (s.mergeUp fuel x o).2.2
        ∧ Move s v (s.mergeUp fuel x o).1 v'
        ∧ ((s.mergeUp fuel x o).2.2 + 1 < s.maxOrder →
            v'.tile ((s.mergeUp fuel x o).2.1 ^^^ P.orderSize (s.mergeUp fuel x o).2.2)
              ≠ some (.free, (s.mergeUp fuel x o).2.2))
        ∧ v'.cached = v.cached ∧ (s.mergeUp fuel x o).1.cacheCount = s.cacheCount := by
  induction fuel with
  | zero =>
      intro s v x o h enough
      refine ⟨v, h, Move.refl s v, ?_, rfl, rfl⟩
      simp only [BuddyState.mergeUp]
      omega
  | succ fuel ih =>
      intro s v x o h enough
      obtain ⟨aligned, unit, _, inside, order⟩ := h.rep.block h.known
      have order64 := h.rep.order_lt_64 order
      have pow := P.orderSize_eq o
      have unit' : P.minBlock ∣ x ^^^ P.orderSize o := by
        refine dvd_trans (P.minBlock_dvd_orderSize o) ?_
        rw [pow] at aligned ⊢
        exact buddy_dvd aligned
      have differ : x ^^^ P.orderSize o ≠ x := by
        intro same
        have zero : P.orderSize o = 0 := by
          rw [← Nat.zero_xor (P.orderSize o), ← Nat.xor_self x, Nat.xor_assoc, same, Nat.xor_self]
        exact (P.orderSize_pos o).ne' zero
      unfold BuddyState.mergeUp
      by_cases below : o < s.maxOrder - 1
      · by_cases outside : x ^^^ P.orderSize o ≥ s.total
        · refine ⟨v, ?_⟩
          simp only [below, if_true, outside]
          refine ⟨h, Move.refl s v, ?_, trivial, trivial⟩
          intro _ found
          have := (h.rep.block found).2.2.2.1
          omega
        · by_cases tag : s.tag ((x ^^^ P.orderSize o) >>> P.log2Min) = tagFree ||| o
          · have buddy := h.rep.free_of_tag unit' (by omega)
              (fun i found => differ (h.held _ i found)) order64 tag
            have check := h.rep.unlinkCheck buddy
            obtain ⟨w, work, move, cached, _⟩ := h.mergeOnce (by omega) buddy
            have top := congrArg BuddyGeometry.maxOrder move.geometry
            obtain ⟨v', work', move', stuck, cached', counts⟩ := ih work (by rw [top]; omega)
            simp only [below, if_true, outside, if_false, tag, ne_eq, not_true_eq_false,
              BuddyState.unlink, check, Bool.not_true, Bool.false_eq_true]
            exact ⟨v', work', move.trans move', top ▸ stuck, cached'.trans cached, counts⟩
          · refine ⟨v, ?_⟩
            simp only [below, if_true, outside, if_false, tag, ne_eq, not_false_eq_true]
            refine ⟨h, Move.refl s v, ?_, trivial, trivial⟩
            intro _ found
            exact tag (h.rep.tag_eq unit' (by omega) (by rw [found]; rfl))
      · refine ⟨v, ?_⟩
        simp only [below, if_false]
        exact ⟨h, Move.refl s v, by omega, trivial, trivial⟩

/-- Pushing a block keeps the free mask exact. -/
theorem MaskFits.pushFree (h : MaskFits s v)
    : MaskFits (s.pushFree (s.base + x) o) (v.push s.base x o) := by
  have mask : (s.pushFree (s.base + x) o).freeMask = s.freeMask ||| 1 <<< o := rfl
  refine h.update (o := o) ?_ ?_
  · intro i ne
    rw [mask, Nat.testBit_or, Nat.one_shiftLeft, Nat.testBit_two_pow]
    simp [Ne.symm ne, BuddyView.push, ne]
  · rw [mask, Nat.testBit_or, Nat.one_shiftLeft, Nat.testBit_two_pow]
    simp [BuddyView.push]

/-- `__push_free` of a held block. -/
theorem BuddyRep.pushFree (h : BuddyRep s v) (known : v.tile x = some (.held, o))
    : BuddyRep (s.pushFree (s.base + x) o) (v.push s.base x o)
      ∧ Move s v (s.pushFree (s.base + x) o) (v.push s.base x o) := by
  obtain ⟨rep, move⟩ := h.linkFront known
  exact ⟨rep.setMask _, move.geometry, move.owned, move.within⟩

/-- Pushing the only held block, whose buddy is not free, ends the operation. -/
theorem BuddyWork.pushFree (h : BuddyWork s v x o)
    (stuck : o + 1 < s.maxOrder → v.tile (x ^^^ P.orderSize o) ≠ some (.free, o))
    : BuddyIdle (s.pushFree (s.base + x) o) (v.push s.base x o)
      ∧ Move s v (s.pushFree (s.base + x) o) (v.push s.base x o) := by
  obtain ⟨rep, move⟩ := h.rep.pushFree h.known
  refine ⟨⟨rep, h.mask.pushFree, ?_, h.held.update rfl (by simp)⟩, move⟩
  refine Coalesced.update_free h.merged ?_
  intro order
  rw [← P.orderSize_eq]
  exact stuck order

/-- `__merge_and_free` of a held block ends with nothing held. -/
theorem BuddyWork.mergeAndFree (h : BuddyWork s v x o)
    : ∃ v', BuddyIdle (s.mergeAndFree (s.base + x) o) v'
        ∧ Move s v (s.mergeAndFree (s.base + x) o) v'
        ∧ v'.cached = v.cached ∧ (s.mergeAndFree (s.base + x) o).cacheCount = s.cacheCount := by
  obtain ⟨w, work, move, stuck, cached, counts⟩ := h.mergeUp s.maxOrder (by omega)
  have top := congrArg BuddyGeometry.maxOrder move.geometry
  obtain ⟨idle, pushing⟩ := work.pushFree (fun order => stuck (lt_of_lt_of_eq order top))
  rw [BuddyState.mergeAndFree, Nat.add_sub_cancel_left]
  exact ⟨_, idle, move.trans pushing, cached, counts⟩

end Merging

end Bbmalloc
