import Bbmalloc.Buddy.Runs

/-! The layout of a region. The halving loop ends, the tags and the data get parts of the raw
range whatever the requested alignment is, and the seed blocks are the binary digits of the
block count.
-/

namespace Bbmalloc

open Bbmalloc.Foundations

-----------------------------------------------------------------------------------------
-- The halving loop
-----------------------------------------------------------------------------------------

/-- The loop of `__setup` breaks: two blocks fit behind the aligned base. -/
def BuddyState.baseFits (P : BuddyParams) (data end_ align : Nat) : Bool :=
  let b := alignUp P.word data align
  let twice := 2 * P.minBlock % P.word
  let need := if align > twice then align else twice
  b ≥ data && b ≤ end_ && end_ - b ≥ need

/-- The loop of `__setup` ends after `i` halvings: it breaks with a base or gives up at `Min`,
it does neither before, and any fuel above `i` computes what it computes.
-/
structure BuddyState.LoopEnds (P : BuddyParams) (data end_ align i : Nat) : Prop where
  goes : ∀ j < i, baseFits P data end_ (align >>> j) = false ∧ P.minBlock < align >>> j
  stops : baseFits P data end_ (align >>> i) = true ∨ align >>> i ≤ P.minBlock
  result : ∀ fuel, i < fuel →
    findBase P data end_ fuel align
      = if baseFits P data end_ (align >>> i) then
          some (alignUp P.word data (align >>> i), align >>> i)
        else none

section Loop

variable {P : BuddyParams} {data end_ align : Nat}

/-- One round of the loop. -/
theorem BuddyState.findBase_succ (fuel : Nat)
    : findBase P data end_ (fuel + 1) align
      = if baseFits P data end_ align then some (alignUp P.word data align, align)
        else if align ≤ P.minBlock then none
        else findBase P data end_ fuel (align >>> 1) :=
  rfl

/-- The loop ends, by induction on the bits of the alignment. -/
theorem BuddyState.loop_ends (P : BuddyParams) (data end_ : Nat) (k : Nat)
    : ∀ align, align < 2 ^ (k + 1) → ∃ i ≤ k, LoopEnds P data end_ align i := by
  have positive := P.minBlock_pos
  induction k with
  | zero =>
      intro align small
      have least : align ≤ P.minBlock := by omega
      refine ⟨0, Nat.le_refl 0, by omega, Or.inr least, fun fuel more => ?_⟩
      obtain ⟨rest, rfl⟩ : ∃ rest, fuel = rest + 1 := ⟨fuel - 1, by omega⟩
      rw [findBase_succ, if_pos least, Nat.shiftRight_zero]
  | succ k ih =>
      intro align small
      by_cases done : baseFits P data end_ align = true ∨ align ≤ P.minBlock
      · refine ⟨0, Nat.zero_le _, by omega, done, fun fuel more => ?_⟩
        obtain ⟨rest, rfl⟩ : ∃ rest, fuel = rest + 1 := ⟨fuel - 1, by omega⟩
        rw [findBase_succ, Nat.shiftRight_zero]
        rcases done with fits | least
        · rw [if_pos fits, if_pos fits]
        · rw [if_pos least]
      · obtain ⟨misfit, above⟩ := not_or.mp done
        have half : align >>> 1 < 2 ^ (k + 1) := by
          rw [Nat.shiftRight_one]
          rw [pow_succ] at small
          omega
        obtain ⟨i, le, goes, stops, result⟩ := ih (align >>> 1) half
        have next : ∀ j, align >>> 1 >>> j = align >>> (j + 1) := by
          intro j
          rw [← Nat.shiftRight_add, Nat.add_comm]
        rw [next] at stops result
        refine ⟨i + 1, by omega, ?_, stops, fun fuel more => ?_⟩
        · rintro (_ | j) less
          · exact ⟨by simpa using misfit, by simpa using above⟩
          · rw [← next]
            exact goes j (by omega)
        · obtain ⟨rest, rfl⟩ : ∃ rest, fuel = rest + 1 := ⟨fuel - 1, by omega⟩
          rw [findBase_succ, if_neg misfit, if_neg above]
          exact result rest (by omega)

end Loop

-----------------------------------------------------------------------------------------
-- The seed blocks
-----------------------------------------------------------------------------------------

/-- The offsets and orders that `__seed` pushes, from order `o - 1` down and from `off` on. -/
def seedBlocks (P : BuddyParams) (count : Nat) : (o off : Nat) → List (Nat × Nat)
  | 0, _ => []
  | o + 1, off =>
      if count &&& 1 <<< o ≠ 0 then
        (off, o) :: seedBlocks P count o (off + P.orderSize o)
      else
        seedBlocks P count o off

section Seeds

variable {P : BuddyParams} {count : Nat}

/-- `__seed` pushes these blocks. -/
theorem BuddyState.seedFrom_eq (o : Nat)
    : ∀ (s : BuddyState P) (off : Nat),
      s.seedFrom o off
        = (seedBlocks P s.tagCount o off).foldl (fun t b => t.pushFree (s.base + b.1) b.2) s := by
  induction o with
  | zero => exact fun _ _ => rfl
  | succ o ih =>
      intro s off
      unfold seedFrom seedBlocks
      split
      · exact ih (s.pushFree (s.base + off) o) (off + P.orderSize o)
      · exact ih s off

/-- The digits of the count below `o` span the blocks from `off` on. -/
theorem seedBlocks_spec {n : Nat} (o : Nat)
    : ∀ {a : Nat}, P.orderSize o ∣ a →
      (∀ b ∈ seedBlocks P n o a, a ≤ b.1 ∧ b.2 < o ∧ n.testBit b.2 = true
        ∧ P.orderSize b.2 ∣ b.1
        ∧ b.1 + P.orderSize b.2 ≤ a + n % 2 ^ o * P.minBlock)
      ∧ (∀ k, a ≤ k → k < a + n % 2 ^ o * P.minBlock →
        ∃ b ∈ seedBlocks P n o a, b.1 ≤ k ∧ k < b.1 + P.orderSize b.2)
      ∧ (∀ i < o, n.testBit i = true → ∃ x, (x, i) ∈ seedBlocks P n o a)
      ∧ (seedBlocks P n o a).Pairwise
        (fun b c => b.1 + P.orderSize b.2 ≤ c.1 ∧ c.2 < b.2) := by
  induction o with
  | zero =>
      intro a _
      have none : n % 2 ^ 0 = 0 := by simp [Nat.mod_one]
      refine ⟨by simp [seedBlocks], fun k lo hi => ?_, by simp, List.Pairwise.nil⟩
      rw [none] at hi
      omega
  | succ o ih =>
      intro a aligned
      have lower := (P.orderSize_dvd (Nat.le_succ o)).trans aligned
      have units := P.orderSize_units o
      have digit := mod_digit n o
      unfold seedBlocks
      by_cases set : n.testBit o = true
      · rw [if_pos ((digit_iff n o).mpr set)]
        rw [if_pos set] at digit
        have span : a + n % 2 ^ (o + 1) * P.minBlock
            = a + P.orderSize o + n % 2 ^ o * P.minBlock := by
          rw [digit, Nat.add_mul]
          omega
        obtain ⟨bounds, cover, orders, sorted⟩ :=
          ih (Nat.dvd_add lower (Nat.dvd_refl (P.orderSize o)))
        rw [span]
        refine ⟨?_, ?_, ?_, List.pairwise_cons.mpr ⟨?_, sorted⟩⟩
        · intro b member
          rcases List.mem_cons.mp member with rfl | later
          · have room : a + P.orderSize o
                ≤ a + P.orderSize o + n % 2 ^ o * P.minBlock := Nat.le_add_right _ _
            exact ⟨Nat.le_refl _, Nat.lt_succ_self o, set, lower, room⟩
          · obtain ⟨lo, order, bit, dvd, hi⟩ := bounds b later
            exact ⟨by omega, by omega, bit, dvd, hi⟩
        · intro k lo hi
          by_cases first : k < a + P.orderSize o
          · exact ⟨(a, o), List.mem_cons_self .., lo, first⟩
          · obtain ⟨b, member, inside⟩ := cover k (by omega) hi
            exact ⟨b, List.mem_cons_of_mem _ member, inside⟩
        · intro i less bit
          rcases Nat.lt_succ_iff_lt_or_eq.mp less with below | rfl
          · obtain ⟨x, member⟩ := orders i below bit
            exact ⟨x, List.mem_cons_of_mem _ member⟩
          · exact ⟨a, List.mem_cons_self ..⟩
        · intro b later
          obtain ⟨lo, order, _⟩ := bounds b later
          exact ⟨lo, order⟩
      · rw [if_neg (fun digit' => set ((digit_iff n o).mp digit'))]
        rw [if_neg set, Nat.add_zero] at digit
        obtain ⟨bounds, cover, orders, sorted⟩ := ih lower
        rw [digit]
        refine ⟨fun b member => ?_, cover, fun i less bit => ?_, sorted⟩
        · obtain ⟨lo, order, rest⟩ := bounds b member
          exact ⟨lo, by omega, rest⟩
        · rcases Nat.lt_succ_iff_lt_or_eq.mp less with below | rfl
          · exact orders i below bit
          · exact absurd bit set

/-- The seed blocks are those of the tiling that a set-up leaves. -/
theorem mem_seedBlocks (k : TileKind) (o : Nat)
    : ∀ {off : Nat} {tile : Nat → Option Tile} {x i : Nat}, (∀ y, off ≤ y → tile y = none) →
      (seedTile P k count o off tile x = some (k, i)
        ↔ tile x = some (k, i) ∨ (x, i) ∈ seedBlocks P count o off) := by
  induction o with
  | zero => simp [seedTile, seedBlocks]
  | succ o ih =>
      intro off tile x i fresh
      have size := P.orderSize_pos o
      unfold seedTile seedBlocks
      split
      · rw [ih (fun y later => by
          rw [Function.update_of_ne (by omega)]
          exact fresh y (by omega)), List.mem_cons]
        by_cases here : x = off
        · subst here
          rw [Function.update_self, fresh x (Nat.le_refl x)]
          simp [eq_comm]
        · rw [Function.update_of_ne here]
          simp [here]
      · exact ih fresh

end Seeds

-----------------------------------------------------------------------------------------
-- Geometry
-----------------------------------------------------------------------------------------

/-- A layout of the raw range `[mem, mem + len)` with `cap` external tag bytes at `tags`, or
with internal ones when `tags` is null.
-/
structure BuddyGeometry.LaidOut (P : BuddyParams) (g : BuddyGeometry) (mem len tags cap : Nat)
    : Prop where
  aligned : g.baseAlign ∣ g.base
  power : ∃ k, g.baseAlign = 2 ^ k
  align_ge : P.minBlock ≤ g.baseAlign
  raw_le : mem ≤ g.base
  end_le : g.base + g.total ≤ mem + len
  total_eq : g.total = g.tagCount * P.minBlock
  total_pos : 0 < g.total
  total_le : g.total ≤ 0xFFFFFFF0
  order_le : g.maxOrder ≤ P.Mx
  external : tags ≠ 0 → g.blockTags = tags ∧ g.tagCount ≤ cap
  internal : tags = 0 → g.blockTags = mem
    ∧ g.tagCount ≤ (len + P.minBlock) / (P.minBlock + 1)
    ∧ mem + (len + P.minBlock) / (P.minBlock + 1) ≤ g.base

/-- The blocks tile `[0, g.total)`: one for each set bit of the block count, the largest first,
each at a multiple of its size.
-/
structure BuddyGeometry.SeededBy (P : BuddyParams) (g : BuddyGeometry) (blocks : List (Nat × Nat))
    : Prop where
  sorted : blocks.Pairwise (fun b c => b.1 + P.orderSize b.2 ≤ c.1 ∧ c.2 < b.2)
  aligned : ∀ b ∈ blocks, P.orderSize b.2 ∣ b.1
  inside : ∀ b ∈ blocks, b.1 + P.orderSize b.2 ≤ g.total
  cover : ∀ k < g.total, ∃ b ∈ blocks, b.1 ≤ k ∧ k < b.1 + P.orderSize b.2
  digits : ∀ o, g.tagCount.testBit o = true ↔ ∃ x, (x, o) ∈ blocks

section Geometry

variable {P : BuddyParams} {g g' : BuddyGeometry} {mem len tags cap align : Nat}

/-- The tag bytes of a layout without external tags end at or before its base. -/
theorem BuddyGeometry.layout_internal (laid : g.layout P = some g')
    (layout : g.rawMem + g.rawLen < P.word) (internal : g.extTags = 0)
    (noWrap : g.rawLen + P.minBlock < P.word)
    : g'.tagCount ≤ (g.rawLen + P.minBlock) / (P.minBlock + 1)
      ∧ g.rawMem + (g.rawLen + P.minBlock) / (P.minBlock + 1) ≤ g'.base := by
  obtain ⟨_, b, align, found, _, rfl⟩ := (layout_eq_some P _).mp laid
  obtain ⟨k, start, kLarge⟩ := BuddyState.setupAlign_eq (P := P) g.wantAlign
  unfold baseOf at found
  rw [start] at found
  obtain ⟨after, room, _, _⟩ := BuddyState.findBase_spec _ k kLarge found
  simp only [internal, if_true, Nat.mod_eq_of_lt noWrap] at after
  have fits : g.rawMem + g.rawLen - b < P.word := by omega
  have bytes := (g.laidAt_total (a := align) fits).2.2
  have most := (BuddyState.setupTotal_spec P fits).1
  refine ⟨?_, after⟩
  show g.countAt P b ≤ _
  -- each tag byte accounts for itself and one block
  rw [Nat.le_div_iff_mul_le (by omega), Nat.mul_add, Nat.mul_one]
  have tags := Nat.div_add_mod (g.rawLen + P.minBlock) (P.minBlock + 1)
  have rest := Nat.mod_lt (g.rawLen + P.minBlock) (show 0 < P.minBlock + 1 by omega)
  generalize (g.rawLen + P.minBlock) / (P.minBlock + 1) = area at after tags
  generalize (g.rawLen + P.minBlock) % (P.minBlock + 1) = remainder at rest tags
  have positive := P.minBlock_pos
  have count : g.countAt P b ≤ area := by
    by_contra more
    have := Nat.mul_le_mul_right P.minBlock (show area + 1 ≤ g.countAt P b by omega)
    rw [Nat.add_mul, Nat.one_mul] at this
    rw [Nat.add_mul, Nat.one_mul, Nat.mul_comm] at tags
    omega
  omega

/-- Every layout of a range that does not wrap around and takes at most half of the address
space is one of the kind above.
-/
theorem BuddyGeometry.layout_laidOut (laid : g.layout P = some g')
    (noWrap : g.rawMem + g.rawLen < P.word) (half : 2 * g.rawLen ≤ P.word)
    : g'.LaidOut P g.rawMem g.rawLen g.extTags g.extCap := by
  obtain ⟨rawLe, endLe, tagsAt⟩ := layout_placed laid noWrap
  have positive := P.minBlock_pos
  have inner := fun internal => layout_internal laid noWrap internal
    (layout_noWrap laid noWrap half)
  obtain ⟨_, b, align, found, some, rfl⟩ := (layout_eq_some P _).mp laid
  obtain ⟨k, start, kLarge⟩ := BuddyState.setupAlign_eq (P := P) g.wantAlign
  unfold baseOf at found
  rw [start] at found
  obtain ⟨after, _, aligned, j, power, least⟩ := BuddyState.findBase_spec _ k kLarge found
  have fits : g.rawMem + g.rawLen - b < P.word := by omega
  obtain ⟨_, maxLe, _, orders⟩ := BuddyState.setupTotal_spec P fits
  obtain ⟨totalEq, countLe, bytes⟩ := g.laidAt_total (a := align) fits
  refine
    { aligned := aligned
      power := ⟨j, power⟩
      align_ge := ?_
      raw_le := rawLe
      end_le := endLe
      total_eq := totalEq
      total_pos := ?_
      total_le := ?_
      order_le := (fls_lt some).mpr (lt_of_le_of_lt countLe orders)
      external := ?_
      internal := ?_ }
  · show P.minBlock ≤ align
    rw [power]
    exact Nat.pow_le_pow_right (by omega) least
  · rw [totalEq]
    exact Nat.mul_pos (Nat.pos_of_ne_zero some) positive
  · rw [totalEq]
    exact le_trans bytes maxLe
  · intro external
    rcases tagsAt with ⟨internal, _⟩ | ⟨_, tagged⟩
    · exact absurd internal external
    · exact tagged
  · intro internal
    rcases tagsAt with ⟨_, here⟩ | ⟨external, _⟩
    · exact ⟨here, inner internal⟩
    · exact absurd internal external

/-- The seed blocks of a layout tile its data. -/
theorem BuddyGeometry.LaidOut.seeded (h : g.LaidOut P mem len tags cap)
    (order : g.maxOrder = fls g.tagCount + 1)
    : g.SeededBy P (seedBlocks P g.tagCount g.maxOrder 0) := by
  have some : g.tagCount ≠ 0 := by
    intro none
    have := h.total_pos
    rw [h.total_eq, none] at this
    omega
  have below : g.tagCount < 2 ^ g.maxOrder := by
    rw [order]
    exact (fls_bounds some).2
  obtain ⟨bounds, cover, orders, sorted⟩ :=
    seedBlocks_spec (P := P) (n := g.tagCount) g.maxOrder (a := 0) (Nat.dvd_zero _)
  rw [Nat.mod_eq_of_lt below, ← h.total_eq, Nat.zero_add] at bounds cover
  refine ⟨sorted, fun b member => (bounds b member).2.2.2.1,
    fun b member => (bounds b member).2.2.2.2, fun k inside => cover k (Nat.zero_le k) inside,
    fun o => ⟨fun bit => ?_, fun listed => listed.elim fun x member => (bounds _ member).2.2.1⟩⟩
  refine orders o ?_ bit
  by_contra high
  rw [Nat.testBit_lt_two_pow (lt_of_lt_of_le below (Nat.pow_le_pow_right (by omega)
    (Nat.not_lt.mp high)))] at bit
  exact absurd bit (by simp)

/-- Set-up of any raw range with any requested alignment and any tags: the halving loop ends,
and if set-up succeeds then the layout is sound and the blocks that it seeds tile the data.
Where the tags are another object than the range, these are the blocks on the free lists.
-/
theorem BuddyState.init_geometry (s : BuddyState P) (zeroed : Bool)
    (noWrap : mem + len < P.word) (half : 2 * len ≤ P.word)
    : (∀ data end_, ∃ i ≤ fls (setupAlign P align),
        LoopEnds P data end_ (setupAlign P align) i)
      ∧ ((s.init mem len tags cap align zeroed).2 = true →
          ∃ (g : BuddyGeometry) (t : BuddyState P),
            (s.init mem len tags cap align zeroed).1.toBuddyGeometry = g
            ∧ g.LaidOut P mem len tags cap
            ∧ g.SeededBy P (seedBlocks P g.tagCount g.maxOrder 0)
            ∧ t.freeMask = 0 ∧ (∀ o, t.freeLists o = 0)
            ∧ (s.init mem len tags cap align zeroed).1
              = (seedBlocks P g.tagCount g.maxOrder 0).foldl
                (fun t b => t.pushFree (g.base + b.1) b.2) t
            ∧ (RawArea P s.mem mem len tags cap zeroed →
                ∀ o a, (s.init mem len tags cap align zeroed).1.Listed o a
                  ↔ ∃ x, a = g.base + x ∧ (x, o) ∈ seedBlocks P g.tagCount g.maxOrder 0)) := by
  refine ⟨fun data end_ => ?_, ?_⟩
  · obtain ⟨k, start, _⟩ := setupAlign_eq (P := P) align
    exact loop_ends P data end_ _ _ (fls_bounds (by
      rw [start]
      exact (Nat.two_pow_pos k).ne')).2
  unfold init
  generalize start : ({ s with
    rawMem := mem, rawLen := len, extTags := tags, extCap := cap, wantAlign := align }
      : BuddyState P) = s₀
  intro accepted
  cases laid : s₀.layout P with
  | none =>
      obtain ⟨b, align', failed⟩ := setup_none zeroed laid
      simp [failed] at accepted
  | some g =>
      have laidOut : g.LaidOut P mem len tags cap := by
        have := BuddyGeometry.layout_laidOut laid (by subst start; exact noWrap)
          (by subst start; exact half)
        subst start
        exact this
      have order : g.maxOrder = fls g.tagCount + 1 := by
        obtain ⟨_, b, _, _, _, rfl⟩ := (BuddyGeometry.layout_eq_some P _).mp laid
        rfl
      have pushed : (s₀.setup zeroed).1
          = (seedBlocks P g.tagCount g.maxOrder 0).foldl
            (fun t b => t.pushFree (g.base + b.1) b.2) (s₀.blankAt g zeroed) := by
        rw [setup_some laid]
        exact seedFrom_eq g.maxOrder (s₀.blankAt g zeroed) 0
      have kept : ∀ (blocks : List (Nat × Nat)) (t : BuddyState P),
          (blocks.foldl (fun t b => t.pushFree (g.base + b.1) b.2) t).toBuddyGeometry
            = t.toBuddyGeometry := by
        intro blocks
        induction blocks with
        | nil => exact fun _ => rfl
        | cons b rest ih => exact fun t => ih _
      refine ⟨g, s₀.blankAt g zeroed, ?_, laidOut, laidOut.seeded order, rfl, fun _ => rfl,
        pushed, fun area o a => ?_⟩
      · rw [pushed, kept]
        rfl
      · obtain ⟨sound, clean⟩ := area.sound laid (by subst start; exact ⟨rfl, rfl⟩)
          (by subst start; exact ⟨rfl, rfl⟩)
        obtain ⟨_, v, inv, geometry, _, tile, _⟩ := setup_spec zeroed laid sound
          (by subst start; exact clean)
        rw [inv.listed_iff, tile, geometry]
        refine exists_congr (fun x => and_congr_right (fun _ => ?_))
        unfold seedTiles
        rw [mem_seedBlocks .free g.maxOrder (fun _ _ => rfl)]
        simp

/-- A range of 200 bytes at 4096 whose requested alignment is no power of two. -/
theorem BuddyState.init_geometry_small
    : let s := blankStart smallBuddy
      (∀ data end_, ∃ i ≤ fls (setupAlign smallBuddy 100),
        LoopEnds smallBuddy data end_ (setupAlign smallBuddy 100) i)
      ∧ (s.init 4096 200 0 0 100 false).2 = true
      ∧ ∃ (g : BuddyGeometry) (t : BuddyState smallBuddy),
          (s.init 4096 200 0 0 100 false).1.toBuddyGeometry = g
          ∧ g.LaidOut smallBuddy 4096 200 0 0
          ∧ g.SeededBy smallBuddy (seedBlocks smallBuddy g.tagCount g.maxOrder 0)
          ∧ t.freeMask = 0 ∧ (∀ o, t.freeLists o = 0)
          ∧ (s.init 4096 200 0 0 100 false).1
            = (seedBlocks smallBuddy g.tagCount g.maxOrder 0).foldl
              (fun t b => t.pushFree (g.base + b.1) b.2) t
          ∧ ∀ o a, (s.init 4096 200 0 0 100 false).1.Listed o a
              ↔ ∃ x, a = g.base + x
                ∧ (x, o) ∈ seedBlocks smallBuddy g.tagCount g.maxOrder 0 := by
  have accepted : ((blankStart smallBuddy).init 4096 200 0 0 100 false).2 = true := by
    decide +kernel
  have area : RawArea smallBuddy (blankStart smallBuddy).mem 4096 200 0 0 false :=
    ⟨by decide, by decide, by simp, by simp, by simp⟩
  obtain ⟨ends, g, t, geometry, laidOut, seeded, mask, lists, pushed, listed⟩ :=
    And.imp_right (fun laid => laid accepted)
      ((blankStart smallBuddy).init_geometry false (by decide) (by decide))
  exact ⟨ends, accepted, g, t, geometry, laidOut, seeded, mask, lists, pushed, listed area⟩

end Geometry

-----------------------------------------------------------------------------------------
-- What a layout keeps of its range
-----------------------------------------------------------------------------------------

section Kept

variable {P : BuddyParams} {g g' : BuddyGeometry} {data end_ room T j m : Nat}

/-- The bytes that internal tags take off a range. -/
def tagBytes (P : BuddyParams) (len : Nat) : Nat := (len + P.minBlock) / (P.minBlock + 1)

/-- The range holds, behind its internal tags, a multiple of `a` that `a` bytes follow. -/
def HoldsAligned (P : BuddyParams) (mem len a : Nat) : Prop :=
  ∃ x, a ∣ x ∧ mem + tagBytes P len ≤ x ∧ x + a ≤ mem + len

/-- The loop breaks at an alignment of two blocks or more exactly if a block of that
alignment fits.
-/
theorem BuddyState.baseFits_iff (large : 2 * P.minBlock ≤ 2 ^ j) (fits : end_ < P.word)
    : baseFits P data end_ (2 ^ j) = true ↔ ∃ x, 2 ^ j ∣ x ∧ data ≤ x ∧ x + 2 ^ j ≤ end_ := by
  have twice : 2 * P.minBlock % P.word ≤ 2 * P.minBlock := Nat.mod_le _ _
  have need : (if 2 ^ j > 2 * P.minBlock % P.word then 2 ^ j else 2 * P.minBlock % P.word)
      = 2 ^ j := by
    split <;> omega
  have positive := Nat.two_pow_pos j
  have call : baseFits P data end_ (2 ^ j)
      = (decide (alignUp P.word data (2 ^ j) ≥ data)
        && decide (alignUp P.word data (2 ^ j) ≤ end_)
        && decide (end_ - alignUp P.word data (2 ^ j)
          ≥ if 2 ^ j > 2 * P.minBlock % P.word then 2 ^ j
            else 2 * P.minBlock % P.word)) := rfl
  rw [need] at call
  simp only [call, Bool.and_eq_true, decide_eq_true_eq, ge_iff_le]
  constructor
  · rintro ⟨⟨after, before⟩, room⟩
    exact ⟨alignUp P.word data (2 ^ j), (andNot_low_bounds _ j).2.2, after, by omega⟩
  · rintro ⟨x, aligned, after, before⟩
    obtain ⟨lower, upper, dvd⟩ := alignUp_spec (w := P.word) (v := data) (k := j) (by omega)
    have le : alignUp P.word data (2 ^ j) ≤ x := by
      by_contra above
      have := Nat.le_of_dvd (by omega) (Nat.dvd_sub dvd aligned)
      omega
    exact ⟨⟨lower, by omega⟩, by omega⟩

/-- A power of two of at least `Min` is kept as the alignment to start with. -/
theorem BuddyState.setupAlign_pow (large : P.log2Min ≤ m) : setupAlign P (2 ^ m) = 2 ^ m := by
  have le : P.minBlock ≤ 2 ^ m := Nat.pow_le_pow_right (by decide) large
  have pow : isPow2 (2 ^ m) = true := (isPow2_iff _).mpr ⟨m, rfl⟩
  have low : ¬2 ^ m < P.minBlock := by omega
  simp only [setupAlign, if_neg low, pow, if_true]

/-- Where the data of a layout with internal tags begin: at the first aligned address for
the largest alignment that fits.
-/
theorem BuddyGeometry.layout_base (laid : g.layout P = some g') (internal : g.extTags = 0)
    (noWrap : g.rawLen + P.minBlock < P.word) (want : g.wantAlign = 2 ^ m)
    (large : P.log2Min ≤ m)
    : ∃ k, g'.baseAlign = 2 ^ k ∧ P.log2Min ≤ k ∧ k ≤ m
        ∧ g'.base = alignUp P.word (g.rawMem + tagBytes P g.rawLen) (2 ^ k)
        ∧ BuddyState.baseFits P (g.rawMem + tagBytes P g.rawLen) (g.rawMem + g.rawLen) (2 ^ k)
          = true
        ∧ ∀ j, k < j → j ≤ m →
          BuddyState.baseFits P (g.rawMem + tagBytes P g.rawLen) (g.rawMem + g.rawLen) (2 ^ j)
            = false := by
  obtain ⟨_, b, align, found, _, rfl⟩ := (layout_eq_some P _).mp laid
  have half : ∀ i, 2 ^ m >>> i = 2 ^ m / 2 ^ i := fun i => Nat.shiftRight_eq_div_pow _ _
  unfold baseOf at found
  simp only [internal, if_true, Nat.mod_eq_of_lt noWrap, want,
    BuddyState.setupAlign_pow large] at found
  rw [← tagBytes] at found
  have top : fls (2 ^ m) = m := Nat.log2_two_pow
  obtain ⟨i, le, goes, stops, result⟩ := BuddyState.loop_ends P
    (g.rawMem + tagBytes P g.rawLen) (g.rawMem + g.rawLen) m (2 ^ m)
    (Nat.pow_lt_pow_right (by decide) (Nat.lt_succ_self m))
  have down : ∀ j ≤ m, 2 ^ m >>> j = 2 ^ (m - j) := by
    intro j le
    rw [half, Nat.pow_div le (by decide)]
  rw [top, result _ (by omega), down i le] at found
  split at found
  case isFalse => cases found
  case isTrue fits =>
    obtain ⟨rfl, rfl⟩ := Prod.mk.inj (Option.some.inj found)
    refine ⟨m - i, rfl, ?_, Nat.sub_le _ _, rfl, fits, fun j above le' => ?_⟩
    · by_contra low
      have last := (goes (i - 1) (by omega)).2
      rw [down _ (by omega), BuddyParams.minBlock] at last
      have := (Nat.pow_lt_pow_iff_right (by decide)).mp last
      omega
    · have misfit := (goes (m - j) (by omega)).1
      rwa [down _ (by omega), show m - (m - j) = j by omega] at misfit

/-- A layout has every wanted alignment of two blocks or more that its range holds a block
for.
-/
theorem BuddyGeometry.layout_align_iff (laid : g.layout P = some g') (internal : g.extTags = 0)
    (noWrap : g.rawMem + g.rawLen < P.word) (fits : g.rawLen + P.minBlock < P.word)
    (want : g.wantAlign = 2 ^ m) (large : 2 * P.minBlock ≤ 2 ^ j) (le : j ≤ m)
    : 2 ^ j ≤ g'.baseAlign ↔ HoldsAligned P g.rawMem g.rawLen (2 ^ j) := by
  have least : P.log2Min ≤ m := by
    have : P.minBlock < 2 ^ j := by
      have := P.minBlock_pos
      omega
    have := (Nat.pow_lt_pow_iff_right (by decide)).mp this
    omega
  obtain ⟨k, align, _, _, _, here, misfit⟩ := layout_base laid internal fits want least
  rw [align, HoldsAligned, ← BuddyState.baseFits_iff large noWrap]
  constructor
  · intro kept
    have bigger : 2 * P.minBlock ≤ 2 ^ k := by omega
    obtain ⟨x, dvd, after, before⟩ := (BuddyState.baseFits_iff bigger noWrap).mp here
    refine (BuddyState.baseFits_iff large noWrap).mpr ⟨x, ?_, after, by omega⟩
    exact dvd_trans (Nat.pow_dvd_pow 2 ((Nat.pow_le_pow_iff_right (by decide)).mp kept)) dvd
  · intro held
    by_contra lost
    have := misfit j ((Nat.pow_lt_pow_iff_right (by decide)).mp (Nat.not_le.mp lost)) le
    rw [held] at this
    cases this

/-- Both caps passed, the total is the room in whole blocks. -/
theorem BuddyState.le_setupTotal (unit : P.minBlock ∣ T) (inside : T ≤ room)
    (cap : P.Mx < P.wordBits → T ≤ (1 <<< P.Mx - 1) * P.minBlock % P.word)
    (most : T ≤ BuddyParams.maxTotal)
    : T ≤ setupTotal P room := by
  unfold setupTotal
  simp only
  generalize bound : (if (decide (P.Mx < P.wordBits)
      && decide (room > (1 <<< P.Mx - 1) * P.minBlock % P.word)) = true
    then (1 <<< P.Mx - 1) * P.minBlock % P.word else room) = first
  have firstLe : T ≤ first := by
    rw [← bound]
    split
    · next above =>
        simp only [Bool.and_eq_true, decide_eq_true_eq] at above
        exact cap above.1
    · exact inside
  obtain ⟨blocks, rfl⟩ := unit
  rw [Nat.mul_comm P.minBlock blocks]
  refine Nat.mul_le_mul_right _ ((Nat.le_div_iff_mul_le P.minBlock_pos).mpr ?_)
  rw [Nat.mul_comm blocks]
  split <;> omega

/-- Internal tags take a seventeenth of the range at most, and a byte. -/
theorem tagBytes_le (large : 16 ≤ P.minBlock) (len : Nat) : tagBytes P len ≤ len / 17 + 1 := by
  have blocks := Nat.div_mul_le_self (len + P.minBlock) (P.minBlock + 1)
  change tagBytes P len * (P.minBlock + 1) ≤ len + P.minBlock at blocks
  generalize tagBytes P len = tags at blocks ⊢
  by_contra more
  obtain ⟨rest, rfl⟩ : ∃ rest, tags = rest + 1 := ⟨tags - 1, by omega⟩
  have spread := Nat.mul_le_mul_left rest (show 17 ≤ P.minBlock + 1 by omega)
  rw [Nat.add_mul, Nat.one_mul] at blocks
  omega

/-- A layout keeps half of its range, as far as the caps allow it. -/
theorem BuddyGeometry.layout_half (laid : g.layout P = some g') (internal : g.extTags = 0)
    (fits : g.rawLen + P.minBlock < P.word)
    (want : g.wantAlign = 2 ^ m) (least : P.log2Min ≤ m) (large : 16 ≤ P.minBlock)
    (unit : P.log2Min ≤ j) (half : 2 * 2 ^ j ≤ g.rawLen)
    (cap : P.Mx < P.wordBits → 2 ^ j ≤ (1 <<< P.Mx - 1) * P.minBlock % P.word)
    (most : 2 ^ j ≤ BuddyParams.maxTotal)
    : 2 ^ j ≤ g'.total := by
  obtain ⟨k, align, low, _, base, here, _⟩ := layout_base laid internal fits want least
  have tags := tagBytes_le large g.rawLen
  simp only [BuddyState.baseFits, Bool.and_eq_true, decide_eq_true_eq, ge_iff_le] at here
  rw [← base] at here
  obtain ⟨⟨after, before⟩, room⟩ := here
  have start : g'.base < g.rawMem + tagBytes P g.rawLen + 2 ^ k := by
    have positive := Nat.two_pow_pos k
    have down := (andNot_low_bounds ((g.rawMem + tagBytes P g.rawLen + 2 ^ k - 1) % P.word) k).1
    have wrapped := Nat.mod_le (g.rawMem + tagBytes P g.rawLen + 2 ^ k - 1) P.word
    rw [base, alignUp]
    omega
  -- a large alignment leaves itself, a small one loses less than a quarter
  have inside : 2 ^ j ≤ g.rawMem + g.rawLen - g'.base := by
    by_cases big : j ≤ k
    · have := Nat.pow_le_pow_right (show 1 ≤ 2 by decide) big
      split at room <;> omega
    · have quarter : 2 * 2 ^ k ≤ 2 ^ j := by
        rw [← pow_succ']
        exact Nat.pow_le_pow_right (by decide) (by omega)
      have sixteen : 16 ≤ 2 ^ j := large.trans (Nat.pow_le_pow_right (by decide) unit)
      omega
  have total : g'.total = BuddyState.setupTotal P (g.rawMem + g.rawLen - g'.base) := by
    obtain ⟨_, b, a, _, _, rfl⟩ := (layout_eq_some P _).mp laid
    exact if_neg (by simp [capped, internal])
  rw [total]
  exact BuddyState.le_setupTotal (Nat.pow_dvd_pow 2 unit) inside cap most

end Kept

end Bbmalloc
