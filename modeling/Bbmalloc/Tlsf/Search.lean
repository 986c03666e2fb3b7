import Bbmalloc.Tlsf.Reshaping

/-! The good-fit search. It finds a block exactly when a bin from the search bin on is not
empty or the front block of the request's own bin is large enough.
-/

namespace Bbmalloc

open Bbmalloc.Foundations

/-- Some block that the search looks at holds `a` bytes. -/
def TlsfView.Offers (T : TlsfParams) (v : TlsfView) (a : Nat) : Prop :=
  (∃ i, TlsfState.searchBin T a ≤ i ∧ v.bins i ≠ [])
  ∨ ∃ x m, (v.bins (TlsfState.binOf T a)).head? = some x ∧ v.block x = some (.free, m) ∧ a ≤ m

/-- The block of `m` bytes comes from a bin at or behind the search bin if any has a block. -/
def TlsfView.Preferred (T : TlsfParams) (v : TlsfView) (a m : Nat) : Prop :=
  ∀ i, TlsfState.searchBin T a ≤ i → v.bins i ≠ [] →
    TlsfState.searchBin T a ≤ TlsfState.binOf T m

/-- The free block of `m` bytes at the head of its bin holds `a` bytes and is preferred. -/
structure TlsfView.Found (T : TlsfParams) (v : TlsfView) (heads : Nat → Nat) (a m : Nat)
    (f : TlsfHit)
    : Prop where
  idx : f.idx = TlsfState.binOf T m
  head : heads (TlsfState.binOf T m) = f.off
  block : v.block f.off = some (.free, m)
  enough : a ≤ m
  offers : v.Offers T a
  preferred : v.Preferred T a m

/-- A search finds such a block, or it finds nothing and there is nothing to find. -/
def TlsfView.Answers (T : TlsfParams) (v : TlsfView) (heads : Nat → Nat) (a : Nat) (f : TlsfHit)
    : Prop :=
  (∃ m, v.Found T heads a m f) ∨ (f.off = nullOff ∧ ¬v.Offers T a)

section Search

variable {T : TlsfParams} {s : TlsfState T} {v : TlsfView} {limit x n m a i fl sl : Nat}

/-- A non-empty bin has its head in front. -/
theorem TlsfRep.head_of_ne_nil (h : TlsfRep limit s v) (live : v.bins i ≠ [])
    : (v.bins i).head? = some (s.heads i) ∧ s.heads i ≠ nullOff
      ∧ ∃ m, v.block (s.heads i) = some (.free, m) ∧ TlsfState.binOf T m = i := by
  have nonnull : s.heads i ≠ nullOff := fun null => live ((h.lists i).chain.front_null.mp null)
  obtain ⟨rest, eq, _⟩ := (h.lists i).chain.eq_cons nonnull
  exact ⟨by simp [eq], nonnull, (h.binned i _).mp (by simp [eq])⟩

/-- Blocks are no larger than a data span, so their first level is in range. -/
theorem TlsfRep.level (h : TlsfRep limit s v) (known : v.block x = some (.free, n))
    : (TlsfState.mappingInsert T n).1 < T.flCount := by
  obtain ⟨sh, _, lo, hi⟩ := h.sheet known
  exact TlsfState.level_lt (h.shape known).2.2 (by omega)

/-- Only bins of the range have members. -/
theorem TlsfRep.levels_of_ne_nil (h : TlsfRep limit s v) (live : v.bins i ≠ [])
    : ∃ fl sl, i = fl * T.slCount + sl ∧ sl < T.slCount ∧ fl < T.flCount := by
  obtain ⟨_, _, m, found, rfl⟩ := h.head_of_ne_nil live
  exact ⟨_, _, rfl, (binOf_levels (h.shape found).2.2).2, h.level found⟩

/-- The bitmaps fit in 32 bits. -/
theorem TlsfRep.bitmaps_lt (h : TlsfRep limit s v) (fl : Nat)
    : s.slBitmap fl < 2 ^ 32 ∧ s.flBitmap < 2 ^ 32 := by
  have steps : T.slCount ≤ 32 := Nat.pow_le_pow_right (by omega) T.slLog2_range.2
  have levels := T.flCount_le
  constructor
  · refine Nat.lt_pow_two_of_testBit _ (fun j high => ?_)
    by_contra set
    have := ((h.bits.1 fl j).mp (by simpa using set)).1
    omega
  · refine Nat.lt_pow_two_of_testBit _ (fun j high => ?_)
    by_contra set
    have nonzero := (h.bits.2 j).mp (by simpa using set)
    obtain ⟨k, bit⟩ : ∃ k, (s.slBitmap j).testBit k = true := by
      by_contra none
      exact nonzero (eq_zero_of_testBit (by simpa using none))
    obtain ⟨small, live⟩ := (h.bits.1 j k).mp bit
    obtain ⟨fl', sl', eq, small', range⟩ := h.levels_of_ne_nil live
    have := (level_inj small small' eq).1
    omega

/-- Clearing the bits below a position. -/
theorem testBit_from (w k j : Nat)
    : (andNot w (1 <<< k - 1)).testBit j = (w.testBit j && decide (k ≤ j)) := by
  rw [testBit_andNot, Nat.one_shiftLeft, Nat.testBit_two_pow_sub_one]
  by_cases le : k ≤ j
  · simp [le, Nat.not_lt.mpr le]
  · simp [le, Nat.not_le.mp le]

/-- `__find_exact` looks at the front of the request's own bin. -/
theorem TlsfRep.findExact_spec (h : TlsfRep limit s v) (large : 32 ≤ a)
    : (∃ x m, (s.findExact a).off = x ∧ (s.findExact a).idx = TlsfState.binOf T m
        ∧ (v.bins (TlsfState.binOf T a)).head? = some x ∧ v.block x = some (.free, m) ∧ a ≤ m)
      ∨ ((s.findExact a).off = nullOff
        ∧ ¬∃ x m, (v.bins (TlsfState.binOf T a)).head? = some x ∧ v.block x = some (.free, m)
          ∧ a ≤ m) := by
  have small := (binOf_levels (T := T) large).2
  by_cases empty : v.bins (TlsfState.binOf T a) = []
  · have null : s.heads (TlsfState.binOf T a) = nullOff := (h.lists _).chain.front_null.mpr empty
    refine Or.inr ⟨?_, by simp [empty]⟩
    unfold TlsfState.binOf at null
    simp [TlsfState.findExact, null]
  · obtain ⟨head, nonnull, m, found, bin⟩ := h.head_of_ne_nil empty
    obtain ⟨fl, sl, eq, small', range⟩ := h.levels_of_ne_nil empty
    have level : ¬(TlsfState.mappingInsert T a).1 ≥ T.flCount := by
      rw [(level_inj small small' eq).1]
      omega
    have size := (h.read found rfl).1
    have value : s.findExact a
        = if a ≤ m then ⟨s.heads (TlsfState.binOf T a), TlsfState.binOf T a⟩
          else ⟨nullOff, 0⟩ := by
      unfold TlsfState.binOf at nonnull size ⊢
      simp [TlsfState.findExact, level, nonnull, size]
    rw [value]
    by_cases enough : a ≤ m
    · rw [if_pos enough]
      exact Or.inl ⟨_, m, rfl, bin.symm, head, found, enough⟩
    · rw [if_neg enough]
      refine Or.inr ⟨rfl, ?_⟩
      rintro ⟨x, m', head', found', enough'⟩
      rw [head] at head'
      obtain rfl := Option.some.inj head'
      have same := (Prod.mk.inj (Option.some.inj (found.symm.trans found'))).2
      omega

/-- A bin at or behind the search bin has a block in front that will do. -/
theorem TlsfRep.answers_head (h : TlsfRep limit s v) (large : 32 ≤ a)
    (le : TlsfState.searchBin T a ≤ i) (live : v.bins i ≠ [])
    : v.Answers T s.heads a ⟨s.heads i, i⟩ := by
  obtain ⟨_, _, m, found, rfl⟩ := h.head_of_ne_nil live
  have enough := TlsfState.le_of_searchBin large (h.shape found).2.2 le
  exact Or.inl ⟨m, rfl, rfl, found, enough, Or.inl ⟨_, le, live⟩, fun _ _ _ => le⟩

/-- With nothing in the bins from the search bin on, the exact bin is all that is left. -/
theorem TlsfRep.answers_exact (h : TlsfRep limit s v) (large : 32 ≤ a)
    (none : ∀ i, TlsfState.searchBin T a ≤ i → v.bins i = [])
    : v.Answers T s.heads a (s.findExact a) := by
  rcases h.findExact_spec large with ⟨x, m, off, idx, head, found, enough⟩ | ⟨null, refused⟩
  · refine Or.inl ⟨m, idx, ?_, off ▸ found, enough, Or.inr ⟨x, m, head, found, enough⟩,
      fun i le live => (live (none i le)).elim⟩
    have bin := h.mem_bins found
    obtain ⟨head', _, _⟩ := h.head_of_ne_nil (List.ne_nil_of_mem bin)
    have member : x ∈ v.bins (TlsfState.binOf T a) := by
      obtain ⟨rest, eq⟩ := List.head?_eq_some_iff.mp head
      simp [eq]
    rw [h.listed_unique member bin, head'] at head
    exact (Option.some.inj head).trans off.symm
  · refine Or.inr ⟨null, ?_⟩
    rintro (⟨i, le, live⟩ | offer)
    · exact live (none i le)
    · exact refused offer

/-- Behind the last first level there are no bins. -/
theorem TlsfRep.bins_nil_of_level (h : TlsfRep limit s v) (high : T.flCount ≤ fl)
    (le : fl * T.slCount + sl ≤ i)
    : v.bins i = [] := by
  by_contra live
  obtain ⟨fl', sl', rfl, small, range⟩ := h.levels_of_ne_nil live
  have := Nat.mul_le_mul_right T.slCount (show fl' + 1 ≤ fl by omega)
  rw [Nat.succ_mul] at this
  omega

/-- Where both bitmaps are clear from a position on, the bins are empty. -/
theorem TlsfRep.bins_nil_of_clear (h : TlsfRep limit s v)
    (level : andNot (s.slBitmap fl) (1 <<< sl - 1) = 0)
    (above : andNot s.flBitmap (1 <<< (fl + 1) - 1) = 0) (le : fl * T.slCount + sl ≤ i)
    : v.bins i = [] := by
  by_contra live
  obtain ⟨fl', sl', rfl, small, range⟩ := h.levels_of_ne_nil live
  have bit := (h.bits.1 fl' sl').mpr ⟨small, live⟩
  rcases Nat.lt_trichotomy fl' fl with before | same | after
  · have := Nat.mul_le_mul_right T.slCount (show fl' + 1 ≤ fl by omega)
    rw [Nat.succ_mul] at this
    omega
  · subst same
    have clear := congrArg (fun w => w.testBit sl') level
    simp only [testBit_from, bit, Nat.zero_testBit, Bool.true_and,
      decide_eq_false_iff_not] at clear
    omega
  · have nonzero : s.slBitmap fl' ≠ 0 := by
      intro zero
      rw [zero] at bit
      simp at bit
    have clear := congrArg (fun w => w.testBit fl') above
    simp only [testBit_from, (h.bits.2 fl').mpr nonzero, Nat.zero_testBit, Bool.true_and,
      decide_eq_false_iff_not] at clear
    omega

/-- The lowest bit of a 32-bit word from a position on is set in the word. -/
theorem ctz_from {w k : Nat} (nonzero : andNot w (1 <<< k - 1) ≠ 0) (fits : w < 2 ^ 32)
    : w.testBit (ctz 32 (andNot w (1 <<< k - 1))) = true
      ∧ k ≤ ctz 32 (andNot w (1 <<< k - 1)) := by
  have lt : andNot w (1 <<< k - 1) < 2 ^ 32 := by
    refine Nat.lt_pow_two_of_testBit _ (fun j wide => ?_)
    rw [testBit_from, Nat.testBit_lt_two_pow
      (lt_of_lt_of_le fits (Nat.pow_le_pow_right (by omega) wide))]
    rfl
  have lowest := (ctz_spec nonzero lt).1
  rwa [testBit_from, Bool.and_eq_true, decide_eq_true_eq] at lowest

/-- The search through the bitmaps starts from the search bin. -/
theorem TlsfRep.findFrom_answers (h : TlsfRep limit s v) (large : 32 ≤ a)
    (bin : TlsfState.searchBin T a = fl * T.slCount + sl) (within : sl < T.slCount)
    : v.Answers T s.heads a (s.findFrom a (fl, sl)) := by
  unfold TlsfState.findFrom
  simp only
  by_cases level : andNot (s.slBitmap fl) (1 <<< sl - 1) = 0
  · by_cases above : andNot s.flBitmap (1 <<< (fl + 1) - 1) = 0
    · rw [if_neg (not_not.mpr level), if_neg (not_not.mpr above)]
      exact h.answers_exact large (fun i le => h.bins_nil_of_clear level above (bin ▸ le))
    · -- a later first level
      rw [if_neg (not_not.mpr level), if_pos above]
      obtain ⟨set, later⟩ := ctz_from above (h.bitmaps_lt fl).2
      have nonzero := (h.bits.2 _).mp set
      have bit := (ctz_spec nonzero (h.bitmaps_lt _).1).1
      refine h.answers_head large ?_ ((h.bits.1 _ _).mp bit).2
      have := Nat.mul_le_mul_right T.slCount later
      rw [Nat.succ_mul] at this
      omega
  · -- the same first level
    rw [if_pos level]
    obtain ⟨set, later⟩ := ctz_from level (h.bitmaps_lt fl).1
    exact h.answers_head large (by omega) ((h.bits.1 _ _).mp set).2

/-- `find_free` starts from the search bin, whether it takes that from the table or not. -/
theorem TlsfState.findFree_eq (large : 32 ≤ a) (whole : 16 ∣ a) (small : a < 2 ^ 31)
    : s.findFree a
      = some (if (mappingInsert T (roundUp T a)).1 ≥ T.flCount then s.findExact a
        else s.findFrom a (mappingInsert T (roundUp T a))) := by
  rw [findFree]
  split
  · next inside =>
      have range := searchLevel_lt (T := T) large inside
      rw [searchEntry_eq large whole, if_neg (by omega)]
  · rw [mappingSearch_eq large small, Option.map_some]

/-- `find_free` finds a block that holds the request whenever the search has one to offer. -/
theorem TlsfRep.findFree_answers (h : TlsfRep limit s v) (large : 32 ≤ a) (whole : 16 ∣ a)
    {f : TlsfHit} (found : s.findFree a = some f)
    : v.Answers T s.heads a f := by
  have small : a < 2 ^ 31 := by
    by_contra beyond
    rw [s.findFree_undefined (Nat.not_lt.mp beyond)] at found
    cases found
  rw [TlsfState.findFree_eq large whole small] at found
  obtain rfl := Option.some.inj found
  split
  · next high => exact h.answers_exact large (fun i le => h.bins_nil_of_level high le)
  · have rounded := TlsfState.roundUp_bounds (T := T) large
    exact h.findFrom_answers large rfl (binOf_levels (T := T) (by omega)).2

end Search

end Bbmalloc
