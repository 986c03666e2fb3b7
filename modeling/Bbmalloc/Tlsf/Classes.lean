import Bbmalloc.Model.CacheList

/-! Size classes. The bin of a size is its rank on a scale with `2 ^ slLog2` steps between
consecutive powers of two; the search rounds a request up by almost one step, so the bin it
finds is that of the request or the next one.
-/

namespace Bbmalloc

open Bbmalloc.Foundations

namespace TlsfState

/-- The bin that holds free blocks of a size. -/
def binOf (T : TlsfParams) (n : Nat) : Nat :=
  (mappingInsert T n).1 * T.slCount + (mappingInsert T n).2

/-- The size that the search rounds a request up to. -/
def roundUp (T : TlsfParams) (n : Nat) : Nat := n + 2 ^ (fls n - T.slLog2) - 1

/-- The least bin that the search accepts whatever its front block is. -/
def searchBin (T : TlsfParams) (n : Nat) : Nat := binOf T (roundUp T n)

/-- The position of a size on the scale of the classes. -/
def rank (T : TlsfParams) (n : Nat) : Nat :=
  fls n * T.slCount + n / 2 ^ (fls n - T.slLog2)

section Ranks

variable {T : TlsfParams} {n m : Nat}

theorem slLog2_le_fls (large : 32 ≤ n) : 5 ≤ fls n ∧ T.slLog2 ≤ fls n := by
  have five : 5 ≤ fls n := by
    by_contra small
    have := (fls_lt (k := 5) (show n ≠ 0 by omega)).mp (by omega)
    omega
  exact ⟨five, by have := T.slLog2_range.2; omega⟩

/-- The step of a size within its power of two. -/
theorem step_bounds (large : 32 ≤ n)
    : T.slCount ≤ n / 2 ^ (fls n - T.slLog2) ∧ n / 2 ^ (fls n - T.slLog2) < 2 * T.slCount := by
  obtain ⟨lower, upper⟩ := fls_bounds (show n ≠ 0 by omega)
  have le := (slLog2_le_fls (T := T) large).2
  have whole : 2 ^ (fls n - T.slLog2) * T.slCount = 2 ^ fls n := by
    rw [TlsfShape.slCount, ← pow_add]
    congr 1
    omega
  have positive := Nat.two_pow_pos (fls n - T.slLog2)
  constructor
  · rw [Nat.le_div_iff_mul_le positive, Nat.mul_comm, whole]
    exact lower
  · rw [Nat.div_lt_iff_lt_mul positive, Nat.mul_assoc, Nat.mul_comm T.slCount, whole, ← pow_succ']
    exact upper

theorem slCount_pos : 0 < T.slCount := Nat.two_pow_pos _

/-- Bins are ranks, shifted. -/
theorem binOf_eq (large : 32 ≤ n)
    : binOf T n + 6 * T.slCount = rank T n ∧ (mappingInsert T n).2 < T.slCount := by
  have levels := slLog2_le_fls (T := T) large
  obtain ⟨lower, upper⟩ := step_bounds (T := T) large
  have first : (mappingInsert T n).1 = fls n - 5 := rfl
  have second : (mappingInsert T n).2 = n / 2 ^ (fls n - T.slLog2) - T.slCount := by
    have exponent : fls n - TlsfShape.flShift + TlsfShape.flShift - T.slLog2
        = fls n - T.slLog2 := by
      simp only [TlsfShape.flShift]
      omega
    simp only [mappingInsert, exponent]
    rw [Nat.shiftRight_eq_div_pow, TlsfShape.slCount, and_low, ← TlsfShape.slCount,
      Nat.mod_eq_sub_mod lower, Nat.mod_eq_of_lt (by omega)]
  have split : (fls n - 5) * T.slCount + 5 * T.slCount = fls n * T.slCount := by
    rw [← Nat.add_mul]
    congr 1
    omega
  rw [binOf, first, second, rank]
  omega

/-- Ranks grow with the size. -/
theorem rank_mono (large : 32 ≤ n) (le : n ≤ m) : rank T n ≤ rank T m := by
  obtain ⟨_, upper⟩ := step_bounds (T := T) large
  obtain ⟨lower, _⟩ := step_bounds (T := T) (n := m) (by omega)
  have exponents : fls n ≤ fls m := by
    refine Nat.lt_succ_iff.mp ((fls_lt (show n ≠ 0 by omega)).mpr ?_)
    exact lt_of_le_of_lt le (fls_bounds (show m ≠ 0 by omega)).2
  unfold rank
  rcases Nat.lt_or_eq_of_le exponents with less | same
  · have := Nat.mul_le_mul_right T.slCount (Nat.succ_le_of_lt less)
    rw [Nat.succ_mul] at this
    omega
  · rw [same]
    exact Nat.add_le_add_left (Nat.div_le_div_right le) _

/-- Bins grow with the size. -/
theorem binOf_mono (large : 32 ≤ n) (le : n ≤ m) : binOf T n ≤ binOf T m := by
  have first := (binOf_eq (T := T) large).1
  have second := (binOf_eq (T := T) (n := m) (by omega)).1
  have := rank_mono (T := T) large le
  omega

/-- What rounding up does to a size: it stays below the power of two after next. -/
theorem roundUp_bounds (large : 32 ≤ n)
    : n ≤ roundUp T n ∧ roundUp T n < 2 * n
      ∧ (fls (roundUp T n) = fls n ∨ fls (roundUp T n) = fls n + 1) := by
  obtain ⟨lower, upper⟩ := fls_bounds (show n ≠ 0 by omega)
  have levels := slLog2_le_fls (T := T) large
  have positive := Nat.two_pow_pos (fls n - T.slLog2)
  have small : 2 ^ (fls n - T.slLog2) ≤ 2 ^ fls n := Nat.pow_le_pow_right (by omega) (by omega)
  have bounds : n ≤ roundUp T n ∧ roundUp T n < 2 * n := by
    unfold roundUp
    omega
  refine ⟨bounds.1, bounds.2, ?_⟩
  have nonzero : roundUp T n ≠ 0 := by omega
  have atLeast : fls n ≤ fls (roundUp T n) := by
    refine Nat.lt_succ_iff.mp ((fls_lt (show n ≠ 0 by omega)).mpr ?_)
    exact lt_of_le_of_lt bounds.1 (fls_bounds nonzero).2
  have atMost : fls (roundUp T n) < fls n + 2 := by
    refine (fls_lt nonzero).mpr ?_
    rw [pow_succ] at upper ⊢
    rw [pow_succ]
    omega
  omega

/-- The step above a size is at most one rank away, and every smaller size is below it. -/
theorem rank_roundUp (large : 32 ≤ n)
    : rank T n ≤ rank T (roundUp T n) ∧ rank T (roundUp T n) ≤ rank T n + 1 := by
  obtain ⟨le, _, exponent⟩ := roundUp_bounds (T := T) large
  refine ⟨rank_mono large le, ?_⟩
  obtain ⟨lower, upper⟩ := step_bounds (T := T) large
  have positive := Nat.two_pow_pos (fls n - T.slLog2)
  have levels := slLog2_le_fls (T := T) large
  have one : roundUp T n / 2 ^ (fls n - T.slLog2) ≤ n / 2 ^ (fls n - T.slLog2) + 1 := by
    rw [← Nat.add_div_right _ positive]
    exact Nat.div_le_div_right (by unfold roundUp; omega)
  unfold rank
  rcases exponent with same | next
  · rw [same]
    omega
  · rw [next]
    -- the size is in the last step below the next power of two
    have bigger := (fls_bounds (show roundUp T n ≠ 0 by omega)).1
    rw [next] at bigger
    have whole : 2 ^ (fls n - T.slLog2) * (2 * T.slCount) = 2 ^ (fls n + 1) := by
      rw [TlsfShape.slCount, ← pow_succ', ← pow_add]
      congr 1
      omega
    have reached : 2 * T.slCount ≤ roundUp T n / 2 ^ (fls n - T.slLog2) := by
      rw [Nat.le_div_iff_mul_le positive, Nat.mul_comm, whole]
      exact bigger
    have exponent : fls n + 1 - T.slLog2 = fls n - T.slLog2 + 1 := by omega
    have half : roundUp T n / 2 ^ (fls n + 1 - T.slLog2)
        = roundUp T n / 2 ^ (fls n - T.slLog2) / 2 := by
      rw [exponent, pow_succ, Nat.div_div_eq_div_mul]
    rw [half, Nat.add_mul, Nat.one_mul]
    omega

/-- A block in a bin that the search accepts is large enough. -/
theorem le_of_rank_roundUp (large : 32 ≤ n) (large' : 32 ≤ m)
    (le : rank T (roundUp T n) ≤ rank T m)
    : n ≤ m := by
  by_contra small
  obtain ⟨_, _, exponent⟩ := roundUp_bounds (T := T) large
  obtain ⟨lower, upper⟩ := step_bounds (T := T) large'
  obtain ⟨lower', _⟩ := step_bounds (T := T) (n := roundUp T n)
    (by have := (roundUp_bounds (T := T) large).1; omega)
  have positive := Nat.two_pow_pos (fls n - T.slLog2)
  have exponents : fls m ≤ fls n := by
    refine Nat.lt_succ_iff.mp ((fls_lt (show m ≠ 0 by omega)).mpr ?_)
    exact lt_of_le_of_lt (show m ≤ n by omega) (fls_bounds (show n ≠ 0 by omega)).2
  have gap : ∀ e, fls m < e → e * T.slCount ≤ rank T (roundUp T n) - T.slCount → False := by
    intro e less bound
    have := Nat.mul_le_mul_right T.slCount (Nat.succ_le_of_lt less)
    rw [Nat.succ_mul] at this
    have countPos := slCount_pos (T := T)
    unfold rank at le bound
    omega
  rcases exponent with same | next
  · rcases Nat.lt_or_eq_of_le exponents with less | equal
    · refine gap (fls n) less ?_
      unfold rank
      rw [same] at lower' ⊢
      omega
    · have more : m / 2 ^ (fls n - T.slLog2) + 1 ≤ roundUp T n / 2 ^ (fls n - T.slLog2) := by
        rw [← Nat.add_div_right _ positive]
        exact Nat.div_le_div_right (by unfold roundUp; omega)
      unfold rank at le
      rw [same, equal] at le
      omega
  · refine gap (fls n + 1) (by omega) ?_
    unfold rank
    rw [next] at lower' ⊢
    omega

/-- The search bin of a size is its own bin or the next one. -/
theorem searchBin_bounds (large : 32 ≤ n)
    : binOf T n ≤ searchBin T n ∧ searchBin T n ≤ binOf T n + 1 := by
  have own := (binOf_eq (T := T) large).1
  have rounded := (binOf_eq (T := T) (n := roundUp T n)
    (by have := (roundUp_bounds (T := T) large).1; omega)).1
  have := rank_roundUp (T := T) large
  unfold searchBin
  omega

/-- Blocks from the search bin on hold the request. -/
theorem le_of_searchBin (large : 32 ≤ n) (large' : 32 ≤ m) (le : searchBin T n ≤ binOf T m)
    : n ≤ m := by
  refine le_of_rank_roundUp (T := T) large large' ?_
  have block := (binOf_eq (T := T) large').1
  have rounded := (binOf_eq (T := T) (n := roundUp T n)
    (by have := (roundUp_bounds (T := T) large).1; omega)).1
  unfold searchBin at le
  omega

/-- `mapping_search` computes the search bin of a size below half of the word range. -/
theorem mappingSearch_eq (large : 32 ≤ n) (small : n < 2 ^ 31)
    : mappingSearch T n = some (mappingInsert T (roundUp T n)) := by
  obtain ⟨le, less, exponent⟩ := roundUp_bounds (T := T) large
  have fits : roundUp T n < u32 := by
    unfold u32
    omega
  have nonzero : roundUp T n ≠ 0 := by omega
  have levels := slLog2_le_fls (T := T) large
  have places : fls n + 1 < 32 := by
    have := (fls_lt (show n ≠ 0 by omega)).mpr small
    omega
  have carry : fls n + roundUp T n >>> (fls n + 1) = fls (roundUp T n) := by
    obtain ⟨lower, upper⟩ := fls_bounds nonzero
    rw [Nat.shiftRight_eq_div_pow]
    rcases exponent with same | next
    · rw [Nat.div_eq_of_lt (by rw [← same]; exact upper), same]
      rfl
    · rw [next] at lower upper ⊢
      rw [Nat.div_eq_of_lt_le (k := 1) (by omega) (by rw [pow_succ] at upper; omega)]
  have shift : fls (roundUp T n) - TlsfShape.flShift + TlsfShape.flShift - T.slLog2
      = fls (roundUp T n) - T.slLog2 := by
    simp only [TlsfShape.flShift]
    omega
  have rounded : (n + 1 <<< (fls n - T.slLog2) - 1) % u32 = roundUp T n := by
    rw [Nat.one_shiftLeft, ← roundUp, Nat.mod_eq_of_lt fits]
  simp only [mappingSearch, shiftRight32, if_pos places, Option.map_some, mappingInsert, rounded,
    carry, shift]

/-- From half of the word range on, `mapping_search` shifts by too many places. -/
theorem mappingSearch_undefined (T : TlsfParams) (beyond : 2 ^ 31 ≤ n)
    : mappingSearch T n = none := by
  have places : ¬fls n + 1 < 32 := by
    have := (fls_lt (k := 31) (show n ≠ 0 by omega)).not.mpr (by omega)
    omega
  simp only [mappingSearch, shiftRight32, if_neg places, Option.map_none]

/-- The table holds the search bins of the sizes that are multiples of 16. -/
theorem searchEntry_eq (large : 32 ≤ n) (whole : 16 ∣ n)
    : searchEntry T (n >>> 4) = mappingInsert T (roundUp T n) := by
  obtain ⟨le, _, exponent⟩ := roundUp_bounds (T := T) large
  have levels := slLog2_le_fls (T := T) large
  have size : n >>> 4 <<< 4 = n := by
    rw [Nat.shiftRight_eq_div_pow, Nat.shiftLeft_eq]
    exact Nat.div_mul_cancel whole
  have shift : fls (roundUp T n) - TlsfShape.flShift + TlsfShape.flShift - T.slLog2
      = fls (roundUp T n) - T.slLog2 := by
    simp only [TlsfShape.flShift]
    omega
  have rounded : n + 1 <<< (fls n - T.slLog2) - 1 = roundUp T n := by
    rw [roundUp, Nat.one_shiftLeft]
  have notSmall : ¬n < TlsfShape.minBlock := by
    simp only [TlsfShape.minBlock]
    omega
  simp only [searchEntry, mappingInsert, size, rounded, shift, if_neg notSmall]

/-- Sizes up to the data span of a sheet have a first level within the range. -/
theorem level_lt (large : 32 ≤ n) (fits : n ≤ T.dataBytes)
    : (mappingInsert T n).1 < T.flCount := by
  have exponents : fls n ≤ fls T.dataBytes := by
    refine Nat.lt_succ_iff.mp ((fls_lt (show n ≠ 0 by omega)).mpr ?_)
    exact lt_of_le_of_lt fits (fls_bounds (show T.dataBytes ≠ 0 by omega)).2
  unfold fls at exponents
  show fls n - TlsfShape.flShift < Nat.log2 T.dataBytes - TlsfShape.flShift + 1
  unfold fls
  omega

end Ranks

-----------------------------------------------------------------------------------------
-- The order of the classes
-----------------------------------------------------------------------------------------

/-- Class `c` comes before class `d` or is the same, by first and then second level. -/
def classLe (c d : Nat × Nat) : Prop := c.1 < d.1 ∨ (c.1 = d.1 ∧ c.2 ≤ d.2)

/-- The position of a class in the array of list heads. -/
def listIndex (T : TlsfParams) (c : Nat × Nat) : Nat := c.1 * T.slCount + c.2

/-- Class `c` is the least one, of all sizes from 32 on, whose members all hold `size`. -/
structure LeastClass (T : TlsfParams) (size : Nat) (c : Nat × Nat) : Prop where
  member : ∃ b, 32 ≤ b ∧ mappingInsert T b = c
  holds : ∀ b, 32 ≤ b → mappingInsert T b = c → size ≤ b
  least : ∀ b, 32 ≤ b → (∀ m, 32 ≤ m → mappingInsert T m = mappingInsert T b → size ≤ m) →
    classLe c (mappingInsert T b)

section Order

variable {T : TlsfParams} {n m : Nat}

/-- Classes are ordered as their list heads are. -/
theorem classLe_iff (large : 32 ≤ n) (large' : 32 ≤ m)
    : classLe (mappingInsert T n) (mappingInsert T m) ↔ binOf T n ≤ binOf T m := by
  have small := (binOf_eq (T := T) large).2
  have small' := (binOf_eq (T := T) large').2
  unfold classLe binOf
  generalize mappingInsert T n = c at small ⊢
  generalize mappingInsert T m = d at small' ⊢
  constructor
  · rintro (less | ⟨same, le⟩)
    · have := Nat.mul_le_mul_right T.slCount (show c.1 + 1 ≤ d.1 from less)
      rw [Nat.succ_mul] at this
      omega
    · rw [same]
      omega
  · intro le
    rcases Nat.lt_trichotomy c.1 d.1 with less | same | greater
    · exact Or.inl less
    · rw [same] at le
      exact Or.inr ⟨same, by omega⟩
    · have := Nat.mul_le_mul_right T.slCount (show d.1 + 1 ≤ c.1 from greater)
      rw [Nat.succ_mul] at this
      omega

/-- The least member of the class of a size. -/
def classFloor (T : TlsfParams) (n : Nat) : Nat :=
  n / 2 ^ (fls n - T.slLog2) * 2 ^ (fls n - T.slLog2)

theorem classFloor_spec (large : 32 ≤ n)
    : 32 ≤ classFloor T n ∧ classFloor T n ≤ n
      ∧ mappingInsert T (classFloor T n) = mappingInsert T n := by
  have levels := slLog2_le_fls (T := T) large
  have positive := Nat.two_pow_pos (fls n - T.slLog2)
  have below : classFloor T n ≤ n := Nat.div_mul_le_self _ _
  have whole : T.slCount * 2 ^ (fls n - T.slLog2) = 2 ^ fls n := by
    rw [TlsfShape.slCount, ← pow_add]
    congr 1
    omega
  have lower : 2 ^ fls n ≤ classFloor T n := by
    rw [← whole]
    exact Nat.mul_le_mul_right _ (step_bounds (T := T) large).1
  have large' : 32 ≤ classFloor T n := by
    have := Nat.pow_le_pow_right (show 0 < 2 by omega) levels.1
    omega
  have exponent : fls (classFloor T n) = fls n := by
    have upper := (fls_bounds (show n ≠ 0 by omega)).2
    have most := (fls_lt (k := fls n + 1) (show classFloor T n ≠ 0 by omega)).mpr (by omega)
    have least : ¬fls (classFloor T n) < fls n := by
      rw [fls_lt (show classFloor T n ≠ 0 by omega)]
      omega
    omega
  refine ⟨large', below, ?_⟩
  have step : classFloor T n / 2 ^ (fls n - T.slLog2) = n / 2 ^ (fls n - T.slLog2) :=
    Nat.mul_div_cancel _ positive
  have bins : binOf T (classFloor T n) = binOf T n := by
    have first := (binOf_eq (T := T) large').1
    have second := (binOf_eq (T := T) large).1
    unfold rank at first second
    rw [exponent, step] at first
    omega
  have forth := (classLe_iff (T := T) large' large).mpr bins.le
  have back := (classLe_iff (T := T) large large').mpr bins.ge
  unfold classLe at forth back
  refine Prod.ext ?_ ?_ <;> omega

/-- A size that is the least of its class rounds up to a size of the same class. -/
theorem searchBin_classFloor (large : 32 ≤ n) (least : classFloor T n = n)
    : searchBin T n = binOf T n := by
  have levels := slLog2_le_fls (T := T) large
  have positive := Nat.two_pow_pos (fls n - T.slLog2)
  have bounds := step_bounds (T := T) large
  have up := roundUp_bounds (T := T) large
  have whole : 2 * T.slCount * 2 ^ (fls n - T.slLog2) = 2 ^ (fls n + 1) := by
    rw [TlsfShape.slCount, ← pow_succ', ← pow_add]
    congr 1
    omega
  have next : (n / 2 ^ (fls n - T.slLog2) + 1) * 2 ^ (fls n - T.slLog2)
      = n + 2 ^ (fls n - T.slLog2) := by
    rw [Nat.succ_mul]
    exact congrArg (· + _) least
  have below : roundUp T n < 2 ^ (fls n + 1) := by
    have := Nat.mul_le_mul_right (2 ^ (fls n - T.slLog2))
      (show n / 2 ^ (fls n - T.slLog2) + 1 ≤ 2 * T.slCount from bounds.2)
    rw [next, whole] at this
    unfold roundUp
    omega
  have exponent : fls (roundUp T n) = fls n := by
    have := (fls_lt (k := fls n + 1) (show roundUp T n ≠ 0 by omega)).mpr below
    omega
  have step : roundUp T n / 2 ^ (fls n - T.slLog2) = n / 2 ^ (fls n - T.slLog2) := by
    refine Nat.div_eq_of_lt_le ?_ ?_
    · exact le_trans (Nat.div_mul_le_self _ _) up.1
    · rw [next]
      unfold roundUp
      omega
  have own := (binOf_eq (T := T) large).1
  have rounded := (binOf_eq (T := T) (n := roundUp T n) (by omega)).1
  unfold rank at own rounded
  rw [exponent, step] at rounded
  unfold searchBin
  omega

/-- The class of the rounded size is the least one that holds a size. -/
theorem roundUp_leastClass (large : 32 ≤ n)
    : LeastClass T n (mappingInsert T (roundUp T n)) := by
  have up := roundUp_bounds (T := T) large
  have holds : ∀ b, 32 ≤ b → mappingInsert T b = mappingInsert T (roundUp T n) → n ≤ b := by
    intro b large' same
    refine le_of_searchBin (T := T) large large' (le_of_eq ?_)
    unfold searchBin binOf
    rw [same]
  refine ⟨⟨roundUp T n, by omega, rfl⟩, holds, ?_⟩
  intro b large' all
  rw [classLe_iff (by omega) large']
  by_contra before
  -- then the block shares the class of the size, whose least member is smaller than the size
  have bounds := searchBin_bounds (T := T) large
  have mono := binOf_mono (T := T) large (all b large' rfl)
  have same : binOf T n = binOf T b := by
    unfold searchBin at bounds
    omega
  have class_eq : mappingInsert T n = mappingInsert T b := by
    have forth := (classLe_iff (T := T) large large').mpr same.le
    have back := (classLe_iff (T := T) large' large).mpr same.ge
    unfold classLe at forth back
    refine Prod.ext ?_ ?_ <;> omega
  have floor := classFloor_spec (T := T) large
  have least := all (classFloor T n) floor.1 (floor.2.2.trans class_eq)
  have := searchBin_classFloor (T := T) large (by omega)
  unfold searchBin at this
  omega

/-- The data span of a sheet is counted in 32 bits. -/
theorem dataBytes_lt (T : TlsfParams) : T.dataBytes < u32 := by
  have levels := T.flCount_le
  have nonzero : T.dataBytes ≠ 0 := by
    have := T.data_span.1
    omega
  have word : fls T.dataBytes < 32 := by
    unfold TlsfShape.flCount TlsfShape.flShift at levels
    unfold fls
    omega
  exact (fls_lt nonzero).mp word

/-- The table covers sizes below half of the word range only. -/
theorem tableMax_lt (T : TlsfParams) : T.tableMax < 2 ^ 31 := by
  have small := T.small_fits.2
  have word := dataBytes_lt T
  unfold u32 at word
  omega

/-- The arithmetic of the classes: insertion is monotone and stays inside the array of lists,
the search finds the least class that holds a size exactly below half of the word range, and
the table agrees with it and needs no bounds check.
-/
theorem class_arithmetic (T : TlsfParams)
    : (∀ n m, 32 ≤ n → n ≤ m → classLe (mappingInsert T n) (mappingInsert T m))
      ∧ (∀ n, 32 ≤ n → n ≤ T.dataBytes →
          (mappingInsert T n).1 < T.flCount ∧ (mappingInsert T n).2 < T.slCount
          ∧ listIndex T (mappingInsert T n) < T.listCount)
      ∧ (∀ n, 32 ≤ n → n ≤ T.dataBytes →
          ((∃ c, mappingSearch T n = some c ∧ LeastClass T n c
            ∧ ∀ m, 32 ≤ m → classLe c (mappingInsert T m) → n ≤ m)
          ↔ n < 2 ^ 31))
      ∧ ∀ n, 16 ∣ n → 32 ≤ n → n ≤ T.tableMax →
          mappingSearch T n = some (searchEntry T (n >>> 4))
          ∧ (searchEntry T (n >>> 4)).1 < T.flCount := by
  refine ⟨?_, ?_, ?_, ?_⟩
  · intro n m large le
    exact (classLe_iff large (le_trans large le)).mpr (binOf_mono large le)
  · intro n large fits
    have first := level_lt (T := T) large fits
    have second := (binOf_eq (T := T) large).2
    refine ⟨first, second, ?_⟩
    have := Nat.mul_le_mul_right T.slCount (show (mappingInsert T n).1 + 1 ≤ _ from first)
    rw [Nat.succ_mul] at this
    unfold listIndex TlsfShape.listCount
    omega
  · intro n large _
    constructor
    · rintro ⟨c, search, _⟩
      by_contra beyond
      rw [mappingSearch_undefined T (Nat.not_lt.mp beyond)] at search
      cases search
    · intro small
      have up := (roundUp_bounds (T := T) large).1
      refine ⟨_, mappingSearch_eq large small, roundUp_leastClass large, ?_⟩
      intro m large' above
      exact le_of_searchBin large large' ((classLe_iff (by omega) large').mp above)
  · intro n whole large fits
    have small := T.small_fits.2
    have entry := searchEntry_eq (T := T) large whole
    have search := mappingSearch_eq (T := T) large (lt_of_le_of_lt fits (tableMax_lt T))
    have up := roundUp_bounds (T := T) large
    rw [entry, search]
    exact ⟨rfl, level_lt (by omega) (by omega)⟩

/-- A list of one sheet as large as a 32-bit offset can tell apart. -/
def widestTlsf : TlsfParams where
  log2Sheet := 32
  slLog2 := 5
  maxSheets := 1
  smallMax := 64
  sheet_large := by decide
  slLog2_range := by decide
  maxSheets_range := by decide
  flCount_le := by decide +kernel
  data_span := by decide +kernel
  small_fits := by decide +kernel

/-- On the widest list the search for half of the word range shifts a word by 32 places. -/
theorem class_arithmetic_widest
    : ¬∀ n, 32 ≤ n → n ≤ widestTlsf.dataBytes →
        ∃ c, mappingSearch widestTlsf n = some c ∧ LeastClass widestTlsf n c := by
  intro claim
  have range : 2 ^ 31 ≤ widestTlsf.dataBytes := by decide +kernel
  obtain ⟨c, search, _⟩ := claim (2 ^ 31) (by decide) range
  rw [mappingSearch_undefined widestTlsf (Nat.le_refl _)] at search
  cases search

end Order

-----------------------------------------------------------------------------------------
-- Adjusted sizes
-----------------------------------------------------------------------------------------

section Adjusted

variable {T : TlsfParams} {n : Nat}

/-- The adjusted size adds a header and rounds up to 16 bytes. -/
theorem adjusted_spec (positive : 0 < n) (fits : n ≤ T.dataBytes)
    : 16 ∣ adjusted T n ∧ n + 16 ≤ adjusted T n ∧ adjusted T n < n + 32 ∧ 32 ≤ adjusted T n := by
  have accepted : (decide (n = 0) || decide (n - 1 ≥ T.dataBytes)) = false := by
    simp only [Bool.or_eq_false_iff, decide_eq_false_iff_not]
    omega
  have value : adjusted T n = (n + 31) / 16 * 16 := by
    rw [adjusted, if_neg (by simp [accepted])]
    exact andNot_low (n + 31) 4
  rw [value]
  exact ⟨Nat.dvd_mul_left _ _, by omega, by omega, by omega⟩

/-- The adjusted size is zero exactly when the request is refused. -/
theorem adjusted_eq_zero : adjusted T n = 0 ↔ n = 0 ∨ T.dataBytes < n := by
  constructor
  · intro zero
    by_contra ok
    have := (adjusted_spec (T := T) (n := n) (by omega) (by omega)).2.2.2
    omega
  · intro refused
    have rejected : (decide (n = 0) || decide (n - 1 ≥ T.dataBytes)) = true := by
      simp only [Bool.or_eq_true, decide_eq_true_eq]
      omega
    rw [adjusted, if_pos rejected]

/-- A non-zero adjusted size. -/
theorem adjusted_pos (nonzero : adjusted T n ≠ 0)
    : 0 < n ∧ n ≤ T.dataBytes ∧ 16 ∣ adjusted T n ∧ n + 16 ≤ adjusted T n
      ∧ adjusted T n < n + 32 ∧ 32 ≤ adjusted T n := by
  have request := (adjusted_eq_zero (T := T) (n := n)).not.mp nonzero
  have positive : 0 < n := by omega
  have fits : n ≤ T.dataBytes := by omega
  exact ⟨positive, fits, adjusted_spec positive fits⟩

/-- Requests of the small class have a search bin in the table, within the first levels. -/
theorem adjusted_small (positive : 0 < n) (small : n ≤ T.smallMax)
    : n ≤ T.dataBytes ∧ adjusted T n ≤ T.tableMax := by
  have table : T.tableMax = (T.smallMax + 31) / 16 * 16 + 16 := by
    rw [TlsfShape.tableMax]
    congr 1
    exact andNot_low (T.smallMax + 31) 4
  have fits := T.small_fits.2
  have le : n ≤ T.dataBytes := by omega
  have spec := adjusted_spec (T := T) positive le
  exact ⟨le, by omega⟩

/-- A search beyond half of the word range is undefined, for the table does not cover it. -/
theorem findFree_undefined (s : TlsfState T) {a : Nat} (beyond : 2 ^ 31 ≤ a)
    : s.findFree a = none := by
  have table := tableMax_lt T
  rw [findFree, if_neg (by omega), mappingSearch_undefined T beyond, Option.map_none]

/-- `allocate` is defined exactly for adjusted sizes below half of the word range. -/
theorem allocate_defined_iff (s : TlsfState T) (n : Nat)
    : (∃ c, s.allocate n = some c) ↔ adjusted T n < 2 ^ 31 := by
  rw [← Option.isSome_iff_exists, allocate]
  by_cases zero : adjusted T n = 0
  · simp [zero]
  · simp only [zero, if_false, Option.isSome_map]
    constructor
    · intro found
      by_contra beyond
      rw [s.findFree_undefined (Nat.not_lt.mp beyond)] at found
      cases found
    · exact s.findFree_isSome

theorem searchLevel_lt {a : Nat} (large : 32 ≤ a) (small : a ≤ T.tableMax)
    : (mappingInsert T (roundUp T a)).1 < T.flCount := by
  obtain ⟨le, lt, _⟩ := roundUp_bounds (T := T) large
  have fits := T.small_fits.2
  exact level_lt (by omega) (by omega)

end Adjusted

end TlsfState

end Bbmalloc
