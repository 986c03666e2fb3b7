import Bbmalloc.Buddy.Growth

/-! Set-up of the buddy list. The seed blocks are the binary digits of the block count,
largest first; they are described as held blocks before the loop frees them one by one.
-/

namespace Bbmalloc

open Bbmalloc.Foundations

-----------------------------------------------------------------------------------------
-- The seed partition
-----------------------------------------------------------------------------------------

/-- One block of kind `k` for each digit of `count` below `o`, from offset `off` upwards. -/
def seedTile (P : BuddyParams) (k : TileKind) (count : Nat)
    : (o off : Nat) → (Nat → Option Tile) → Nat → Option Tile
  | 0, _, tile => tile
  | o + 1, off, tile =>
      if count &&& 1 <<< o ≠ 0 then
        seedTile P k count o (off + P.orderSize o) (Function.update tile off (some (k, o)))
      else
        seedTile P k count o off tile

section SeedPartition

variable {P : BuddyParams} {k : TileKind} {count : Nat}

/-- The digit test of the loop. -/
theorem digit_iff (count o : Nat) : count &&& 1 <<< o ≠ 0 ↔ count.testBit o = true := by
  rw [Nat.one_shiftLeft, Nat.and_two_pow]
  cases count.testBit o <;> simp

/-- The digits below `o + 1` are digit `o` and those below it. -/
theorem mod_digit (count o : Nat)
    : count % 2 ^ (o + 1) = count % 2 ^ o + if count.testBit o then 2 ^ o else 0 := by
  rw [pow_succ, Nat.mod_mul, Nat.testBit_eq_decide_div_mod_eq]
  rcases Nat.mod_two_eq_zero_or_one (count / 2 ^ o) with zero | one
  · simp [zero]
  · simp [one]

/-- Seeding does not touch offsets before its start. -/
theorem seedTile_before {o off : Nat} {tile : Nat → Option Tile} {y : Nat} (before : y < off)
    : seedTile P k count o off tile y = tile y := by
  induction o generalizing off tile with
  | zero => rfl
  | succ o ih =>
      unfold seedTile
      split
      · rw [ih (by omega), Function.update_of_ne (by omega)]
      · exact ih before

/-- Seeding commutes with a change before its start. -/
theorem seedTile_update {o off : Nat} {tile : Nat → Option Tile} {y : Nat} {b : Option Tile}
    (before : y < off)
    : Function.update (seedTile P k count o off tile) y b
      = seedTile P k count o off (Function.update tile y b) := by
  induction o generalizing off tile with
  | zero => rfl
  | succ o ih =>
      unfold seedTile
      split
      · rw [ih (by omega), Function.update_comm (by omega)]
      · exact ih before

/-- Seeding extends a partition of the stretch before it by the value of the digits. -/
theorem seedTile_tiling (k : TileKind) (count : Nat) {top o off : Nat} {tile : Nat → Option Tile}
    (tiling : DyadicTiling P.log2Min top off tile) (aligned : P.orderSize o ∣ off)
    (order : o ≤ top)
    : DyadicTiling P.log2Min top (off + count % 2 ^ o * P.minBlock)
        (seedTile P k count o off tile) := by
  induction o generalizing off tile with
  | zero =>
      simp only [pow_zero, Nat.mod_one, Nat.zero_mul, Nat.add_zero]
      exact tiling
  | succ o ih =>
      have lower : P.orderSize o ∣ off := dvd_trans (P.orderSize_dvd (by omega)) aligned
      unfold seedTile
      by_cases digit : count.testBit o = true
      · rw [if_pos ((digit_iff count o).mpr digit), mod_digit, if_pos digit]
        have size : 2 ^ o * P.minBlock = P.orderSize o := by
          rw [P.orderSize_eq, pow_add, BuddyParams.minBlock, Nat.mul_comm]
        have sum : off + (count % 2 ^ o + 2 ^ o) * P.minBlock
            = off + P.orderSize o + count % 2 ^ o * P.minBlock := by
          rw [Nat.add_mul, size]
          omega
        rw [sum]
        refine ih ⟨?_, ?_, ?_⟩ (Nat.dvd_add lower (dvd_refl _)) (by omega)
        · refine tiling.tiled.extend (b := (k, o)) (Nat.two_pow_pos _) ?_ ?_
          · intro x lo _
            omega
          · intro x
            simp only [← P.orderSize_eq]
            omega
        · intro a b found
          rw [Function.update_apply] at found
          split at found
          · rename_i eq
            obtain rfl := Option.some.inj found
            rw [eq, ← P.orderSize_eq]
            exact lower
          · exact tiling.aligned found
        · intro a b found
          rw [Function.update_apply] at found
          split at found
          · obtain rfl := Option.some.inj found
            omega
          · exact tiling.order_lt found
      · rw [if_neg (fun set => digit ((digit_iff count o).mp set)), mod_digit, if_neg digit,
          Nat.add_zero]
        exact ih tiling lower (by omega)

/-- Every seed block has the given kind, and there is one of each order at most. -/
theorem seedTile_blocks {o off : Nat} {tile : Nat → Option Tile} {y : Nat} {b : Tile}
    (found : seedTile P k count o off tile y = some b)
    : tile y = some b ∨ (b.1 = k ∧ b.2 < o ∧ off ≤ y) := by
  induction o generalizing off tile with
  | zero => exact Or.inl found
  | succ o ih =>
      unfold seedTile at found
      split at found
      · rcases ih found with old | ⟨kind, order, after⟩
        · rw [Function.update_apply] at old
          split at old
          · obtain rfl := Option.some.inj old
            exact Or.inr ⟨rfl, by simp, by omega⟩
          · exact Or.inl old
        · exact Or.inr ⟨kind, by omega, by omega⟩
      · rcases ih found with old | ⟨kind, order, after⟩
        · exact Or.inl old
        · exact Or.inr ⟨kind, by omega, after⟩

/-- Seed blocks of one order coincide. -/
theorem seedTile_order_unique {o off : Nat} {tile : Nat → Option Tile} {y z : Nat} {b c : Tile}
    (old : ∀ {y z b c}, tile y = some b → tile z = some c → b.2 = c.2 → y = z)
    (above : ∀ {y b}, tile y = some b → o ≤ b.2)
    (first : seedTile P k count o off tile y = some b)
    (second : seedTile P k count o off tile z = some c) (same : b.2 = c.2)
    : y = z := by
  induction o generalizing off tile with
  | zero => exact old first second same
  | succ o ih =>
      unfold seedTile at first second
      split at first
      · rename_i digit
        rw [if_pos digit] at second
        have entries : ∀ {y b}, Function.update tile off (some (k, o)) y = some b →
            (y = off ∧ b = (k, o)) ∨ tile y = some b := by
          intro y b found
          rw [Function.update_apply] at found
          split at found
          · rename_i eq
            exact Or.inl ⟨eq, (Option.some.inj found).symm⟩
          · exact Or.inr found
        refine ih ?_ ?_ first second
        · intro y z b c hy hz eq
          rcases entries hy with ⟨atY, rfl⟩ | hy <;> rcases entries hz with ⟨atZ, rfl⟩ | hz
          · rw [atY, atZ]
          · have := above hz
            simp only at eq
            omega
          · have := above hy
            simp only at eq
            omega
          · exact old hy hz eq
        · intro y b hy
          rcases entries hy with ⟨_, rfl⟩ | hy
          · exact Nat.le_refl _
          · have := above hy
            omega
      · rename_i digit
        rw [if_neg digit] at second
        exact ih old (fun found => by have := above found; omega) first second

end SeedPartition

-----------------------------------------------------------------------------------------
-- The seed loop
-----------------------------------------------------------------------------------------

/-- A list whose members and memory are fresh: nothing listed, every tag none. -/
structure BuddyState.Blank {P : BuddyParams} (s : BuddyState P) : Prop where
  lists : ∀ o, s.freeLists o = 0
  heads : ∀ o, s.cacheHead o = 0
  counts : ∀ o, s.cacheCount o = 0
  mask : s.freeMask = 0
  counter : s.allocatedBytes = 0
  tags : ∀ i < s.tagCount, s.tag i = tagNone

/-- The seed blocks, all of kind `k`, of a set-up list. -/
def seedTiles (P : BuddyParams) (g : BuddyGeometry) (k : TileKind) : Nat → Option Tile :=
  seedTile P k g.tagCount g.maxOrder 0 (fun _ => none)

section SeedLoop

variable {P : BuddyParams}

/-- Every seed block has the kind given. -/
theorem seedTiles_kind {g : BuddyGeometry} {k : TileKind} {y : Nat} {b : Tile}
    (found : seedTiles P g k y = some b)
    : b.1 = k := by
  rcases seedTile_blocks found with none | ⟨kind, _⟩
  · simp at none
  · exact kind

/-- There is one seed block of each order at most. -/
theorem seedTiles_unique {g : BuddyGeometry} {k : TileKind} {y z : Nat} {b c : Tile}
    (first : seedTiles P g k y = some b) (second : seedTiles P g k z = some c)
    (same : b.2 = c.2)
    : y = z :=
  seedTile_order_unique (by simp) (by simp) first second same

/-- The seed blocks partition the data area. -/
theorem seedTiles_tiling {g : BuddyGeometry} (h : g.Sound P) (k : TileKind)
    : DyadicTiling P.log2Min g.maxOrder g.total (seedTiles P g k) := by
  have upper := (fls_bounds (Nat.pos_iff_ne_zero.mp h.count_pos)).2
  have all : g.tagCount % 2 ^ g.maxOrder = g.tagCount := by
    rw [h.order_eq]
    exact Nat.mod_eq_of_lt upper
  have empty : DyadicTiling P.log2Min g.maxOrder 0 (fun _ => (none : Option Tile)) := by
    refine ⟨⟨by simp, by simp, by simp, by omega⟩, by simp, by simp⟩
  have := seedTile_tiling k g.tagCount empty (dvd_zero _) (Nat.le_refl _)
  rwa [all, Nat.zero_add, ← h.total_eq] at this

/-- A blank list represents the seed blocks, all of them held. -/
theorem BuddyState.Blank.rep {s : BuddyState P} (h : s.Sound P) (blank : s.Blank)
    : BuddyRep s ⟨seedTiles P s.toBuddyGeometry .held, fun _ => [], fun _ => []⟩ := by
  have onlyHeld : ∀ {y : Nat} {k : TileKind} {o : Nat},
      seedTiles P s.toBuddyGeometry .held y = some (k, o) → k = .held :=
    fun found => seedTiles_kind found
  refine ⟨h, seedTiles_tiling h _, ?_, ?_, ?_, ?_, fun _ => List.nodup_nil, ?_, ?_⟩
  · intro x unit inside t expected
    simp only at expected
    cases found : seedTiles P s.toBuddyGeometry .held x with
    | none =>
        rw [found] at expected
        rw [blank.tags _ (h.index_lt inside)]
        exact Option.some.inj expected
    | some b =>
        obtain ⟨k, o⟩ := b
        obtain rfl := onlyHeld found
        rw [found] at expected
        simp [tileTag] at expected
  · intro o
    rw [blank.lists o]
    exact Linked.nil _ _ _
  · intro o a
    refine iff_of_false (by simp) ?_
    rintro ⟨x, _, found⟩
    exact absurd (onlyHeld found) (by decide)
  · exact blank.heads
  · intro o a
    refine iff_of_false (by simp) ?_
    rintro ⟨x, _, found⟩
    exact absurd (onlyHeld found) (by decide)
  · rw [blank.counter]
    refine (blockSum_eq_zero (fun a b found => ?_)).symm
    obtain ⟨k, o⟩ := b
    obtain rfl := onlyHeld found
    rfl

/-- The seed loop frees the held seed blocks one after the other. -/
theorem BuddyRep.seedFrom (o : Nat)
    : ∀ {s : BuddyState P} {v : BuddyView} {off : Nat} {tile : Nat → Option Tile},
      BuddyRep s v → MaskFits s v → v.tile = seedTile P .held s.tagCount o off tile →
      ∃ v', BuddyRep (s.seedFrom o off) v' ∧ MaskFits (s.seedFrom o off) v'
        ∧ Move s v (s.seedFrom o off) v'
        ∧ v'.tile = seedTile P .free s.tagCount o off tile ∧ v'.cached = v.cached
        ∧ (s.seedFrom o off).cacheCount = s.cacheCount := by
  induction o with
  | zero => exact fun {s v _ _} rep mask eq => ⟨v, rep, mask, Move.refl s v, eq, rfl, rfl⟩
  | succ o ih =>
      intro s v off tile rep mask eq
      unfold BuddyState.seedFrom
      unfold seedTile at eq ⊢
      by_cases digit : s.tagCount &&& 1 <<< o ≠ 0
      · rw [if_pos digit] at eq ⊢
        have positive := P.orderSize_pos o
        have known : v.tile off = some (.held, o) := by
          rw [eq, seedTile_before (by omega), Function.update_self]
        obtain ⟨pushed, move⟩ := rep.pushFree known
        have tileEq : (v.push s.base off o).tile
            = seedTile P .held s.tagCount o (off + P.orderSize o)
              (Function.update tile off (some (.free, o))) := by
          simp only [BuddyView.push]
          rw [eq, seedTile_update (by omega), Function.update_idem]
        obtain ⟨v', rep', mask', move', tile', cached', counts'⟩ :=
          ih pushed mask.pushFree tileEq
        rw [if_pos digit]
        exact ⟨v', rep', mask', move.trans move', tile', cached', counts'⟩
      · rw [if_neg digit] at eq ⊢
        rw [if_neg digit]
        exact ih rep mask eq

/-- Seeding a blank list: the seed blocks are free and nothing else. -/
theorem BuddyState.Blank.seed {s : BuddyState P} (h : s.Sound P) (blank : s.Blank)
    : ∃ v, BuddyStep s s.seed v (fun _ => none) (fun _ => none)
        ∧ v.tile = seedTiles P s.toBuddyGeometry .free ∧ ∀ o, v.cached o = [] := by
  have start := blank.rep h
  have mask : MaskFits s ⟨seedTiles P s.toBuddyGeometry .held, fun _ => [], fun _ => []⟩ := by
    intro o
    rw [blank.mask]
    simp
  obtain ⟨v, rep, mask, move, tile, cached, counts⟩ :=
    start.seedFrom s.maxOrder mask
      (rfl : _ = seedTile P .held s.tagCount s.maxOrder 0 (fun _ => none))
  have tile' : v.tile = seedTiles P s.toBuddyGeometry .free := tile
  have noOwner : ∀ k, k.isOwned = false →
      ownedOf (seedTiles P s.toBuddyGeometry k) = fun _ => none := by
    intro k loose
    funext y
    cases found : seedTiles P s.toBuddyGeometry k y with
    | none => simp [ownedOf, found]
    | some b =>
        have kind := seedTiles_kind found
        simp [ownedOf, found, kind, loose]
  have owned : v.owned = fun _ => none := by
    rw [BuddyView.owned, tile']
    exact noOwner .free rfl
  refine ⟨v, ⟨⟨⟨rep, mask, ?_, ?_⟩, ?_⟩, move.geometry, owned, ?_⟩, tile', fun o => by rw [cached]⟩
  · intro a o found _ buddy
    rw [tile'] at found buddy
    have same := seedTiles_unique found buddy rfl
    have zero : 2 ^ (P.log2Min + o) = 0 := by
      rw [← Nat.zero_xor (2 ^ (P.log2Min + o)), ← Nat.xor_self a, Nat.xor_assoc, ← same,
        Nat.xor_self]
    exact (Nat.two_pow_pos _).ne' zero
  · intro y o found
    rw [tile'] at found
    exact absurd (seedTiles_kind found) (by simp)
  · intro o
    rw [BuddyState.seed, counts, cached, blank.counts o]
    exact ⟨rfl, Nat.zero_le _⟩
  · have within := move.within
    have heldOwned : BuddyView.owned
        ⟨seedTiles P s.toBuddyGeometry .held, fun _ => [], fun _ => []⟩ = fun _ => none :=
      noOwner .held rfl
    rw [heldOwned] at within
    exact within

end SeedLoop

-----------------------------------------------------------------------------------------
-- Set-up
-----------------------------------------------------------------------------------------

namespace BuddyGeometry

variable (P : BuddyParams) (g : BuddyGeometry)

/-- The raw range is too small to be set up. -/
def tooSmall : Bool := g.rawMem = 0 || g.rawLen < 4 * P.minBlock % P.word

/-- Base and alignment of the data area that the halving loop finds. -/
def baseOf : Option (Nat × Nat) :=
  let tagArea :=
    if g.extTags = 0 then (g.rawLen + P.minBlock) % P.word / (P.minBlock + 1) else 0
  BuddyState.findBase P (g.rawMem + tagArea) (g.rawMem + g.rawLen)
    (fls (BuddyState.setupAlign P g.wantAlign) + 1) (BuddyState.setupAlign P g.wantAlign)

/-- The external tag array is shorter than the blocks behind `b` need. -/
def capped (b : Nat) : Bool :=
  g.extTags ≠ 0
    && BuddyState.setupTotal P (g.rawMem + g.rawLen - b) / P.minBlock > g.extCap

/-- The number of blocks behind `b`. -/
def countAt (b : Nat) : Nat :=
  if g.capped P b then g.extCap
  else BuddyState.setupTotal P (g.rawMem + g.rawLen - b) / P.minBlock

/-- The set-up data for a data area at `b`. -/
def laidAt (b align : Nat) : BuddyGeometry :=
  { g with
    base := b
    baseAlign := align
    total :=
      if g.capped P b then g.extCap * P.minBlock
      else BuddyState.setupTotal P (g.rawMem + g.rawLen - b)
    tagCount := g.countAt P b
    blockTags := if g.extTags = 0 then g.rawMem else g.extTags
    maxOrder := fls (g.countAt P b) + 1 }

/-- The set-up data that `__setup` computes from the raw range, or none where it fails. -/
def layout : Option BuddyGeometry :=
  if g.tooSmall P then none
  else
    (g.baseOf P).bind (fun found =>
      if g.countAt P found.1 = 0 then none else some (g.laidAt P found.1 found.2))

/-- Where a layout succeeds. -/
theorem layout_eq_some {g' : BuddyGeometry}
    : g.layout P = some g' ↔ g.tooSmall P = false
      ∧ ∃ b align, g.baseOf P = some (b, align) ∧ g.countAt P b ≠ 0 ∧ g.laidAt P b align = g' := by
  unfold layout
  cases g.tooSmall P <;> simp [Option.bind_eq_some_iff]

end BuddyGeometry

/-- The tag array does not meet the data area. -/
def BuddyGeometry.TagsApart (g : BuddyGeometry) : Prop :=
  g.blockTags + g.tagCount ≤ g.base ∨ g.base + g.total ≤ g.blockTags

section Setup

variable {P : BuddyParams}

/-- The state that is seeded after a successful layout. -/
def BuddyState.blankAt (s : BuddyState P) (g : BuddyGeometry) (zeroed : Bool) : BuddyState P :=
  { zeroArrays s with
    toBuddyGeometry := g
    allocatedBytes := 0
    mem := if zeroed then s.mem
           else s.mem.fill g.blockTags g.tagCount (UInt8.ofNat tagNone) }

/-- The state that a failed set-up leaves behind. -/
def BuddyState.failedAt (s : BuddyState P) (b align : Nat) : BuddyState P :=
  { zeroArrays s with
    base := b
    total := 0
    maxOrder := 0
    allocatedBytes := 0
    baseAlign := align
    blockTags := 0
    tagCount := 0 }

/-- `__setup` in terms of the layout functions. -/
theorem BuddyState.setup_eq (s : BuddyState P) (zeroed : Bool)
    : s.setup zeroed
      = if s.tooSmall P then (s.failedAt 0 0, false)
        else
          match s.baseOf P with
          | none => (s.failedAt 0 0, false)
          | some (b, align) =>
              if s.countAt P b = 0 then (s.failedAt b align, false)
              else ((s.blankAt (s.laidAt P b align) zeroed).seed, true) :=
  rfl

/-- A successful set-up seeds the computed layout. -/
theorem BuddyState.setup_some {s : BuddyState P} {zeroed : Bool} {g : BuddyGeometry}
    (laid : s.layout P = some g)
    : s.setup zeroed = ((s.blankAt g zeroed).seed, true) := by
  obtain ⟨large, b, align, found, some, rfl⟩ := (BuddyGeometry.layout_eq_some P _).mp laid
  rw [setup_eq, large, found]
  simp [some]

/-- A failed set-up leaves an empty list and touches no memory. -/
theorem BuddyState.setup_none {s : BuddyState P} (zeroed : Bool) (laid : s.layout P = none)
    : ∃ b align, s.setup zeroed = (s.failedAt b align, false) := by
  unfold BuddyGeometry.layout at laid
  rw [setup_eq]
  cases small : s.tooSmall P with
  | true => exact ⟨0, 0, by simp⟩
  | false =>
      cases found : s.baseOf P with
      | none => exact ⟨0, 0, by simp⟩
      | some area =>
          refine ⟨area.1, area.2, ?_⟩
          simpa [small, found] using laid

/-- A layout is a function of the raw range, so laying out again gives the same. -/
theorem BuddyGeometry.layout_again {g g' : BuddyGeometry} (laid : g.layout P = some g')
    : g'.layout P = some g' := by
  obtain ⟨large, b, align, found, some, rfl⟩ := (layout_eq_some P _).mp laid
  exact (layout_eq_some P _).mpr ⟨large, b, align, found, some, rfl⟩

/-- The raw range is kept. -/
theorem BuddyGeometry.layout_raw {g g' : BuddyGeometry} (laid : g.layout P = some g')
    : g'.rawMem = g.rawMem ∧ g'.rawLen = g.rawLen ∧ g'.extTags = g.extTags
      ∧ g'.extCap = g.extCap := by
  obtain ⟨_, b, align, _, _, rfl⟩ := (layout_eq_some P _).mp laid
  exact ⟨rfl, rfl, rfl, rfl⟩

/-- The alignment that the halving loop starts with is a power of two of at least `Min`. -/
theorem BuddyState.setupAlign_eq (want : Nat)
    : ∃ k, setupAlign P want = 2 ^ k ∧ P.log2Min ≤ k := by
  have large : ∀ k, ∃ j, (if 2 ^ k < P.minBlock then P.minBlock else 2 ^ k) = 2 ^ j
      ∧ P.log2Min ≤ j := by
    intro k
    split
    · exact ⟨P.log2Min, rfl, Nat.le_refl _⟩
    · rename_i le
      rw [BuddyParams.minBlock, Nat.not_lt] at le
      exact ⟨k, rfl, (Nat.pow_le_pow_iff_right (by omega)).mp le⟩
  unfold setupAlign
  simp only
  generalize (if want < P.minBlock then P.minBlock else want) = align
  by_cases pow : isPow2 align = true
  · obtain ⟨k, rfl⟩ := (isPow2_iff _).mp pow
    rw [if_pos pow]
    exact large k
  · rw [if_neg pow, Nat.one_shiftLeft]
    exact large _

/-- The base found by the halving loop is aligned and leaves room for its alignment. -/
theorem BuddyState.findBase_spec {data end_ b align : Nat} (fuel : Nat)
    : ∀ k, P.log2Min ≤ k → findBase P data end_ fuel (2 ^ k) = some (b, align) →
      data ≤ b ∧ b + align ≤ end_ ∧ align ∣ b ∧ ∃ j, align = 2 ^ j ∧ P.log2Min ≤ j := by
  induction fuel with
  | zero => simp [findBase]
  | succ fuel ih =>
      intro k large found
      unfold findBase at found
      simp only at found
      have needed : 2 ^ k
          ≤ if 2 ^ k > 2 * P.minBlock % P.word then 2 ^ k else 2 * P.minBlock % P.word := by
        split <;> omega
      generalize (if 2 ^ k > 2 * P.minBlock % P.word then 2 ^ k else 2 * P.minBlock % P.word)
        = need at found needed
      split at found
      · rename_i fits
        obtain ⟨rfl, rfl⟩ := Prod.mk.inj (Option.some.inj found)
        simp only [Bool.and_eq_true, decide_eq_true_eq, ge_iff_le] at fits
        exact ⟨fits.1.1, by omega, (andNot_low_bounds _ k).2.2, k, rfl, large⟩
      · split at found
        · simp at found
        · rename_i above
          have smaller : P.log2Min < k := by
            rw [BuddyParams.minBlock, Nat.not_le] at above
            exact (Nat.pow_lt_pow_iff_right (by omega)).mp above
          obtain ⟨j, rfl⟩ : ∃ j, k = j + 1 := ⟨k - 1, by omega⟩
          have half : 2 ^ (j + 1) >>> 1 = 2 ^ j := by
            rw [Nat.shiftRight_one, pow_succ, Nat.mul_div_cancel _ (by omega)]
          rw [half] at found
          exact ih j (by omega) found

/-- The data bytes are whole blocks within the room and within both caps. -/
theorem BuddyState.setupTotal_spec (P : BuddyParams) {room : Nat} (fits : room < P.word)
    : setupTotal P room ≤ room ∧ setupTotal P room ≤ BuddyParams.maxTotal
      ∧ setupTotal P room / P.minBlock * P.minBlock = setupTotal P room
      ∧ setupTotal P room / P.minBlock < 2 ^ P.Mx := by
  have positive := P.minBlock_pos
  -- the cap of `2 ^ Mx - 1` blocks holds, or a word is too small to reach it
  have orders : ∀ t, t ≤ room →
      (P.Mx < P.wordBits → t ≤ (1 <<< P.Mx - 1) * P.minBlock % P.word) →
      t / P.minBlock < 2 ^ P.Mx := by
    intro t le capped
    by_cases small : P.Mx + P.log2Min ≤ P.wordBits
    · have min : 0 < P.log2Min := by
        have links := P.links_fit
        have pointer := P.ptrBytes_pos
        by_contra zero
        have : P.log2Min = 0 := by omega
        simp [BuddyParams.minBlock, this] at links
        omega
      have cap := le_trans (capped (by omega)) (Nat.mod_le _ _)
      have blocks := Nat.div_le_of_le_mul (show t ≤ P.minBlock * (1 <<< P.Mx - 1) by
        rw [Nat.mul_comm]
        exact cap)
      have one := Nat.two_pow_pos P.Mx
      rw [Nat.one_shiftLeft] at blocks
      omega
    · rw [Nat.div_lt_iff_lt_mul positive, BuddyParams.minBlock, ← pow_add]
      refine lt_of_lt_of_le (lt_of_le_of_lt le fits) ?_
      exact Nat.pow_le_pow_right (by omega) (by omega)
  unfold setupTotal
  simp only
  generalize bound : (if (decide (P.Mx < P.wordBits)
      && decide (room > (1 <<< P.Mx - 1) * P.minBlock % P.word)) = true
    then (1 <<< P.Mx - 1) * P.minBlock % P.word else room) = first
  have firstLe : first ≤ room ∧
      (P.Mx < P.wordBits → first ≤ (1 <<< P.Mx - 1) * P.minBlock % P.word) := by
    rw [← bound]
    split
    · rename_i above
      simp only [Bool.and_eq_true, decide_eq_true_eq] at above
      exact ⟨by omega, fun _ => Nat.le_refl _⟩
    · rename_i below
      simp only [Bool.and_eq_true, decide_eq_true_eq, not_and, not_lt, gt_iff_lt] at below
      exact ⟨Nat.le_refl _, below⟩
  generalize bound' : (if first > BuddyParams.maxTotal then BuddyParams.maxTotal else first) = t
  have tLe : t ≤ first ∧ t ≤ BuddyParams.maxTotal := by
    rw [← bound']
    split <;> omega
  have floor : t / P.minBlock * P.minBlock ≤ t := Nat.div_mul_le_self _ _
  refine ⟨by omega, by omega, ?_, ?_⟩
  · rw [Nat.mul_div_cancel _ positive]
  · rw [Nat.mul_div_cancel _ positive]
    refine orders t (by omega) (fun wide => ?_)
    have := firstLe.2 wide
    omega

/-- The data bytes of a layout are its blocks, no more than the room holds. -/
theorem BuddyGeometry.laidAt_total (g : BuddyGeometry) {b a : Nat}
    (fits : g.rawMem + g.rawLen - b < P.word)
    : (g.laidAt P b a).total = g.countAt P b * P.minBlock
      ∧ g.countAt P b ≤ BuddyState.setupTotal P (g.rawMem + g.rawLen - b) / P.minBlock
      ∧ g.countAt P b * P.minBlock ≤ BuddyState.setupTotal P (g.rawMem + g.rawLen - b) := by
  have whole := (BuddyState.setupTotal_spec P fits).2.2.1
  have area : (g.laidAt P b a).total = g.countAt P b * P.minBlock
      ∧ g.countAt P b ≤ BuddyState.setupTotal P (g.rawMem + g.rawLen - b) / P.minBlock := by
    unfold laidAt countAt
    by_cases cap : g.capped P b = true
    · simp only [cap, if_true]
      refine ⟨trivial, ?_⟩
      simp only [capped, Bool.and_eq_true, decide_eq_true_eq] at cap
      omega
    · simp only [cap, Bool.false_eq_true, if_false]
      exact ⟨whole.symm, Nat.le_refl _⟩
  refine ⟨area.1, area.2, ?_⟩
  calc g.countAt P b * P.minBlock
      ≤ BuddyState.setupTotal P (g.rawMem + g.rawLen - b) / P.minBlock * P.minBlock :=
        Nat.mul_le_mul_right _ area.2
    _ = BuddyState.setupTotal P (g.rawMem + g.rawLen - b) := whole

/-- The data lie in the raw range, and external tags within their capacity. -/
theorem BuddyGeometry.layout_placed {g g' : BuddyGeometry} (laid : g.layout P = some g')
    (layout : g.rawMem + g.rawLen < P.word)
    : g.rawMem ≤ g'.base ∧ g'.base + g'.total ≤ g.rawMem + g.rawLen
      ∧ ((g.extTags = 0 ∧ g'.blockTags = g.rawMem)
        ∨ (g.extTags ≠ 0 ∧ g'.blockTags = g.extTags ∧ g'.tagCount ≤ g.extCap)) := by
  obtain ⟨large, b, align, found, some, rfl⟩ := (layout_eq_some P _).mp laid
  obtain ⟨k, start, kLarge⟩ := BuddyState.setupAlign_eq (P := P) g.wantAlign
  unfold baseOf at found
  rw [start] at found
  obtain ⟨after, room, _, _⟩ := BuddyState.findBase_spec _ k kLarge found
  have fits : g.rawMem + g.rawLen - b < P.word := by omega
  obtain ⟨totalEq, _, bytes⟩ := g.laidAt_total (a := align) fits
  have totalLe := (BuddyState.setupTotal_spec P fits).1
  refine ⟨le_trans (Nat.le_add_right _ _) after, ?_, ?_⟩
  · rw [totalEq]
    exact show b + _ ≤ g.rawMem + g.rawLen by omega
  · by_cases internal : g.extTags = 0
    · exact Or.inl ⟨internal, if_pos internal⟩
    · refine Or.inr ⟨internal, if_neg internal, ?_⟩
      show g.countAt P b ≤ g.extCap
      unfold countAt
      by_cases cap : g.capped P b = true
      · rw [if_pos cap]
      · rw [if_neg cap]
        simp only [capped, Bool.and_eq_true, decide_eq_true_eq, not_and, gt_iff_lt, not_lt] at cap
        exact cap internal

/-- A successful layout is sound if its tags and its data are apart. -/
theorem BuddyGeometry.layout_sound {g g' : BuddyGeometry} (laid : g.layout P = some g')
    (layout : g.rawMem + g.rawLen < P.word) (apart : g'.TagsApart)
    : g'.Sound P := by
  obtain ⟨rawLe, endLe, tagsAt⟩ := layout_placed laid layout
  obtain ⟨large, b, align, found, some, rfl⟩ := (layout_eq_some P _).mp laid
  obtain ⟨k, start, kLarge⟩ := BuddyState.setupAlign_eq (P := P) g.wantAlign
  unfold baseOf at found
  rw [start] at found
  obtain ⟨after, room, aligned, alignEq⟩ := BuddyState.findBase_spec _ k kLarge found
  have fits : g.rawMem + g.rawLen - b < P.word := by omega
  obtain ⟨totalLe, maxLe, _, orders⟩ := BuddyState.setupTotal_spec P fits
  obtain ⟨totalEq, countLe, bytes⟩ := g.laidAt_total (a := align) fits
  have live : g.rawMem ≠ 0 := by
    intro null
    simp [tooSmall, null] at large
  refine ⟨?_, Nat.pos_of_ne_zero some, totalEq, ?_, ?_, rfl, ?_, apart, rawLe, endLe, aligned,
    alignEq, tagsAt⟩
  · exact lt_of_lt_of_le (Nat.pos_of_ne_zero live) rawLe
  · rw [totalEq]
    omega
  · exact lt_of_le_of_lt endLe layout
  · exact (fls_lt some).mpr (lt_of_le_of_lt countLe orders)

/-- With a layout, the sum from which `__setup` computes its tag area does not wrap around. -/
theorem BuddyGeometry.layout_noWrap {g g' : BuddyGeometry} (laid : g.layout P = some g')
    (noWrap : g.rawMem + g.rawLen < P.word) (half : 2 * g.rawLen ≤ P.word)
    : g.rawLen + P.minBlock < P.word := by
  have word : P.word = 2 ^ P.wordBits := rfl
  rcases Nat.lt_or_eq_of_le (Nat.succ_le_of_lt P.min_word) with less | top
  · have quarter : 4 * P.minBlock ≤ P.word := by
      have := Nat.pow_le_pow_right (show 0 < 2 by decide)
        (show P.log2Min + 2 ≤ P.wordBits from less)
      rw [pow_add] at this
      rw [BuddyParams.minBlock, word]
      omega
    have := P.minBlock_pos
    omega
  -- no block of half the address space lies behind an address that is not null
  obtain ⟨large, b, align, found, _, _⟩ := (layout_eq_some P _).mp laid
  obtain ⟨k, start, kLarge⟩ := BuddyState.setupAlign_eq (P := P) g.wantAlign
  unfold baseOf at found
  rw [start] at found
  obtain ⟨after, room, aligned, j, power, least⟩ := BuddyState.findBase_spec _ k kLarge found
  have live : g.rawMem ≠ 0 := by
    intro null
    simp [tooSmall, null] at large
  have le : align ≤ b := Nat.le_of_dvd (by omega) aligned
  have half : P.word ≤ 2 * align := by
    rw [word, power, ← top, Nat.succ_eq_add_one, pow_succ']
    exact Nat.mul_le_mul_left 2 (Nat.pow_le_pow_right (by decide) least)
  omega

/-- Internal tags fit before the data unless the length wraps around. -/
theorem BuddyGeometry.layout_apart {g g' : BuddyGeometry} (laid : g.layout P = some g')
    (layout : g.rawMem + g.rawLen < P.word) (internal : g.extTags = 0)
    (noWrap : g.rawLen + P.minBlock < P.word)
    : g'.TagsApart := by
  obtain ⟨large, b, align, found, some, rfl⟩ := (layout_eq_some P _).mp laid
  obtain ⟨k, start, kLarge⟩ := BuddyState.setupAlign_eq (P := P) g.wantAlign
  unfold baseOf at found
  rw [start] at found
  obtain ⟨after, room, _, _⟩ := BuddyState.findBase_spec _ k kLarge found
  obtain ⟨totalLe, _, whole, _⟩ :=
    BuddyState.setupTotal_spec P (by omega : g.rawMem + g.rawLen - b < P.word)
  simp only [internal, if_true, Nat.mod_eq_of_lt noWrap] at after
  left
  have notCapped : g.capped P b = false := by simp [capped, internal]
  show (if g.extTags = 0 then g.rawMem else g.extTags) + g.countAt P b ≤ b
  rw [if_pos internal, countAt, if_neg (by simp [notCapped])]
  refine le_trans (Nat.add_le_add_left ?_ _) after
  -- each tag byte accounts for itself and one block
  have positive := P.minBlock_pos
  generalize BuddyState.setupTotal P (g.rawMem + g.rawLen - b) = t at totalLe whole
  rw [Nat.le_div_iff_mul_le (by omega), Nat.mul_add, Nat.mul_one, whole]
  have tags := Nat.div_add_mod (g.rawLen + P.minBlock) (P.minBlock + 1)
  have rest := Nat.mod_lt (g.rawLen + P.minBlock) (show 0 < P.minBlock + 1 by omega)
  generalize (g.rawLen + P.minBlock) / (P.minBlock + 1) = area at after tags
  generalize (g.rawLen + P.minBlock) % (P.minBlock + 1) = remainder at rest tags
  have count : t / P.minBlock ≤ area := by
    rw [Nat.div_le_iff_le_mul positive]
    rw [Nat.add_mul, Nat.one_mul] at tags
    rw [Nat.mul_comm]
    omega
  omega

/-- `__setup`: the seed blocks of the layout are free and nothing else. -/
theorem BuddyState.setup_spec {s : BuddyState P} (zeroed : Bool) {g : BuddyGeometry}
    (laid : s.layout P = some g) (sound : g.Sound P)
    (clean : zeroed = true → ∀ i < g.tagCount, (s.mem (g.blockTags + i)).byte = 0)
    : (s.setup zeroed).2 = true
      ∧ ∃ v, BuddyInv (s.setup zeroed).1 v ∧ (s.setup zeroed).1.toBuddyGeometry = g
        ∧ v.owned = (fun _ => none) ∧ v.tile = seedTiles P g .free ∧ (∀ o, v.cached o = [])
        ∧ Memory.Within (Loose P g (fun _ => none)) s.mem (s.setup zeroed).1.mem := by
  rw [setup_some laid]
  have blank : (s.blankAt g zeroed).Blank := by
    refine ⟨fun _ => rfl, fun _ => rfl, fun _ => rfl, rfl, rfl, fun i hi => ?_⟩
    have hi : i < g.tagCount := hi
    simp only [tag, blankAt]
    cases zeroed with
    | true => simp [clean rfl i hi, tagNone]
    | false =>
        simp only [Bool.false_eq_true, if_false]
        rw [Memory.fill_inside _ _ (by omega) (by omega)]
        rfl
  obtain ⟨v, step, tile, cached⟩ := blank.seed sound
  refine ⟨rfl, v, step.inv, step.geometry, step.owned_eq, tile, cached, ?_⟩
  refine Memory.Within.trans ?_ step.within
  intro a outside
  simp only [blankAt]
  cases zeroed with
  | true => rfl
  | false =>
      simp only [Bool.false_eq_true, if_false]
      refine Memory.fill_outside _ _ ?_
      by_contra inside
      exact outside (Or.inl ⟨by omega, by omega⟩)

end Setup

end Bbmalloc
