import Bbmalloc.Malloc.Allocation

/-! The length that the container adapter reports, `allocation_extent`: a closure operator on
byte counts, so that a container which derives the count anew from the length gets it back.
-/

namespace Bbmalloc

open Bbmalloc.Foundations

-----------------------------------------------------------------------------------------
-- Powers of two
-----------------------------------------------------------------------------------------

/-- The bit length is the least exponent above. -/
theorem bitLength_le {v k : Nat} : bitLength v ≤ k ↔ v < 2 ^ k := by
  rw [bitLength]
  split
  · next zero => simp [zero]
  · next nonzero => rw [Nat.add_one_le_iff, Nat.log2_lt nonzero]

section Orders

variable (P : BuddyParams) {n m k : Nat}

/-- The order of a request grows with it. -/
theorem BuddyParams.orderForSize_mono (positive : 0 < n) (le : n ≤ m)
    : P.orderSize (P.orderForSize n) ≤ P.orderSize (P.orderForSize m) := by
  have order : P.orderForSize n ≤ P.orderForSize m :=
    (P.orderForSize_le positive).mpr (le.trans (P.le_orderSize (by omega)))
  rw [P.orderSize_eq, P.orderSize_eq]
  exact Nat.pow_le_pow_right (by decide) (by omega)

/-- The block of a request is the least power of two that holds it and `Min`. -/
theorem BuddyParams.orderSize_le_pow (positive : 0 < n)
    : P.orderSize (P.orderForSize n) ≤ 2 ^ k ↔ n ≤ 2 ^ k ∧ P.minBlock ≤ 2 ^ k := by
  rw [P.orderSize_eq, Nat.pow_le_pow_iff_right (by decide), BuddyParams.minBlock,
    Nat.pow_le_pow_iff_right (by decide)]
  constructor
  · intro le
    have holds := P.le_orderSize positive
    rw [P.orderSize_eq] at holds
    exact ⟨holds.trans (Nat.pow_le_pow_right (by decide) le), by omega⟩
  · rintro ⟨le, least⟩
    have order : P.orderForSize n ≤ k - P.log2Min := by
      rw [P.orderForSize_le positive, P.orderSize_eq, Nat.add_sub_cancel' least]
      exact le
    omega

/-- The loop of `allocation_extent` finds the size of that block. -/
theorem BuddyParams.pow_bitLength (positive : 0 < n)
    : 2 ^ bitLength ((if n < P.minBlock then P.minBlock else n) - 1)
      = P.orderSize (P.orderForSize n) := by
  have least := Nat.two_pow_pos P.log2Min
  rw [← BuddyParams.minBlock] at least
  have bound : ∀ k, bitLength ((if n < P.minBlock then P.minBlock else n) - 1) ≤ k
      ↔ n ≤ 2 ^ k ∧ P.minBlock ≤ 2 ^ k := by
    intro k
    rw [bitLength_le]
    split <;> omega
  refine Nat.le_antisymm ?_ ((P.orderSize_le_pow positive).mpr ((bound _).mp le_rfl))
  rw [P.orderSize_eq]
  refine Nat.pow_le_pow_right (by decide) ((bound _).mpr ((P.orderSize_le_pow positive).mp ?_))
  rw [P.orderSize_eq]

/-- A power of two that is no smaller than `Min` is the size of an order. -/
theorem BuddyParams.orderSize_pow (le : P.minBlock ≤ 2 ^ k)
    : P.orderSize (P.orderForSize (2 ^ k)) = 2 ^ k :=
  Nat.le_antisymm ((P.orderSize_le_pow (Nat.two_pow_pos k)).mpr ⟨le_rfl, le⟩)
    (P.le_orderSize (Nat.two_pow_pos k))

end Orders

-----------------------------------------------------------------------------------------
-- The block that the adapter expects
-----------------------------------------------------------------------------------------

/-- The requests for which the adapter expects a small block. -/
def Config.ExpectsSmall (C : Config) (want a : Nat) : Prop :=
  a ≤ nativeAlignment ∧ want ≤ C.classSmall

instance (C : Config) (want a : Nat) : Decidable (C.ExpectsSmall want a) :=
  inferInstanceAs (Decidable (_ ∧ _))

/-- The length of the block that the adapter expects for `want` bytes. -/
def Config.expected (C : Config) (want a : Nat) : Nat :=
  if C.ExpectsSmall want a then (want + 15) / 16 * 16
  else max (C.buddy.orderSize (C.buddy.orderForSize want)) a

section Expected

variable {C : Config} {want a m n x y : Nat}

theorem Config.classSmall_lt (C : Config)
    : C.classSmall % 16 = 0 ∧ C.classSmall + 16 < C.buddy.word := by
  have unit := C.tlsf.small_fits.1
  have fits := C.small_with_redzone
  have span : C.tlsf.dataBytes ≤ C.tlsf.sheet := (Nat.sub_le _ _).trans (Nat.sub_le _ _)
  have sheet := C.sheet_le
  have word := C.buddy.word_large
  simp only [Config.classSmall, headerSize] at *
  omega

theorem Config.le_expected (C : Config) (positive : 0 < want) (a : Nat)
    : want ≤ C.expected want a := by
  have := C.buddy.le_orderSize positive
  rw [Config.expected]
  split <;> omega

theorem Config.expected_mono (C : Config) (positive : 0 < m) (le : m ≤ n) (a : Nat)
    : C.expected m a ≤ C.expected n a := by
  have order := C.buddy.orderForSize_mono positive le
  have holds := C.buddy.le_orderSize (show 0 < n by omega)
  have unit := C.classSmall_lt.1
  rw [Config.expected, Config.expected]
  split
  · next small =>
      split
      · omega
      · next large =>
          have beyond : C.classSmall < n := by
            by_contra within
            exact large ⟨small.1, by omega⟩
          have := small.2
          omega
  · next large =>
      rw [if_neg (fun small => large ⟨small.1, le.trans small.2⟩)]
      omega

/-- The expected block is a size that stays as it is. -/
theorem Config.expected_idem (C : Config) (positive : 0 < want) (pow : isPow2 a = true)
    : C.expected (C.expected want a) a = C.expected want a
      ∧ (C.ExpectsSmall (C.expected want a) a ↔ C.ExpectsSmall want a)
      ∧ (¬C.ExpectsSmall want a →
        C.buddy.orderSize (C.buddy.orderForSize (C.expected want a)) = C.expected want a) := by
  have unit := C.classSmall_lt.1
  by_cases small : C.ExpectsSmall want a
  · have value : C.expected want a = (want + 15) / 16 * 16 := if_pos small
    have again : C.ExpectsSmall (C.expected want a) a := by
      refine ⟨small.1, ?_⟩
      have := small.2
      rw [value]
      omega
    refine ⟨?_, by simp [small, again], fun large => absurd small large⟩
    rw [Config.expected, if_pos again, value]
    omega
  · have value : C.expected want a = max (C.buddy.orderSize (C.buddy.orderForSize want)) a :=
      if_neg small
    have again : ¬C.ExpectsSmall (C.expected want a) a := fun wrong =>
      small ⟨wrong.1, (C.le_expected positive a).trans wrong.2⟩
    have size : C.buddy.orderSize (C.buddy.orderForSize (C.expected want a))
        = C.expected want a := by
      obtain ⟨k, rfl⟩ := (isPow2_iff a).mp pow
      have least := (C.buddy.orderSize_le_pow
        (k := C.buddy.log2Min + C.buddy.orderForSize want) positive).mp
        (by rw [C.buddy.orderSize_eq])
      rcases Nat.le_total (2 ^ k) (C.buddy.orderSize (C.buddy.orderForSize want)) with le | le
      · rw [value, Nat.max_eq_left le, C.buddy.orderForSize_orderSize]
      · rw [value, Nat.max_eq_right le]
        refine C.buddy.orderSize_pow (least.2.trans ?_)
        rw [← C.buddy.orderSize_eq]
        exact le
    refine ⟨?_, by simp [small, again], fun _ => size⟩
    rw [Config.expected, if_neg again, size, Nat.max_eq_left]
    rw [value]
    exact Nat.le_max_right _ _

end Expected

-----------------------------------------------------------------------------------------
-- The reported length
-----------------------------------------------------------------------------------------

namespace HeapState

variable {C : Config} {x y a s k : Nat}

/-- The expected block is larger than any word. -/
def Saturates (C : Config) (x a : Nat) : Prop :=
  ¬C.ExpectsSmall (x + C.rz) a
    ∧ C.buddy.word ≤ C.buddy.orderSize (C.buddy.orderForSize (x + C.rz))

open Classical in
/-- The reported length is the expected block without the redzone, or the largest word. -/
theorem allocationExtent_eq (positive : 0 < x) (a : Nat)
    : allocationExtent C x a
      = if Saturates C x a then C.usizeMax else C.expected (x + C.rz) a - C.rz := by
  have word := C.classSmall_lt
  have max : C.usizeMax = C.buddy.word - 1 := rfl
  have redzone := C.redzone_size.2
  have rz : C.rz < C.buddy.word := by
    rw [Config.rz]
    split <;> omega
  have holds := C.buddy.le_orderSize (show 0 < x + C.rz by omega)
  by_cases wraps : C.usizeMax - C.rz < x
  · have large : ¬C.ExpectsSmall (x + C.rz) a := fun small => by
      have := small.2
      omega
    rw [if_pos ⟨large, by omega⟩, allocationExtent, if_neg (by omega), if_pos wraps]
  by_cases small : C.ExpectsSmall (x + C.rz) a
  · have le := small.2
    obtain ⟨lo, hi, dvd⟩ := alignUp_spec (w := C.buddy.word) (v := x + C.rz) (k := 4) (by omega)
    rw [show (2 : Nat) ^ 4 = 16 from rfl] at lo hi dvd
    have round : roundUpSat C (x + C.rz) 16 = (x + C.rz + 15) / 16 * 16 := by
      have stays : ¬alignUp C.buddy.word (x + C.rz) 16 < x + C.rz := by omega
      rw [roundUpSat, if_neg stays]
      omega
    rw [if_neg (fun wrong => wrong.1 small), Config.expected, if_pos small, allocationExtent,
      if_neg (by omega), if_neg wraps]
    simp only
    rw [if_pos (by simpa [Config.ExpectsSmall] using small), round, if_neg (by omega)]
  · have four : 16 ≤ C.buddy.minBlock := by
      rw [BuddyParams.minBlock, show 16 = 2 ^ 4 from rfl]
      exact Nat.pow_le_pow_right (by decide) C.min_block_large
    have found := C.buddy.pow_bitLength (show 0 < x + C.rz by omega)
    have reach : bitLength ((if x + C.rz < C.buddy.minBlock then C.buddy.minBlock
          else x + C.rz) - 1) ≥ C.buddy.wordBits
        ↔ C.buddy.word ≤ C.buddy.orderSize (C.buddy.orderForSize (x + C.rz)) := by
      rw [← found, BuddyParams.word, ge_iff_le, Nat.pow_le_pow_iff_right (by decide)]
    have value : allocationExtent C x a
        = if bitLength ((if x + C.rz < C.buddy.minBlock then C.buddy.minBlock
            else x + C.rz) - 1) ≥ C.buddy.wordBits then C.usizeMax
          else (if C.buddy.orderSize (C.buddy.orderForSize (x + C.rz)) < a then a
            else C.buddy.orderSize (C.buddy.orderForSize (x + C.rz))) - C.rz := by
      have large : ¬(if x + C.rz < C.buddy.minBlock then C.buddy.minBlock else x + C.rz) ≤ 1 := by
        split <;> omega
      rw [allocationExtent, if_neg (by omega), if_neg wraps]
      simp only
      rw [if_neg (by simpa [Config.ExpectsSmall] using small), if_neg large, Nat.one_shiftLeft,
        found]
    by_cases top : C.buddy.word ≤ C.buddy.orderSize (C.buddy.orderForSize (x + C.rz))
    · rw [value, if_pos (reach.mpr top), if_pos ⟨small, top⟩]
    · rw [if_neg (fun wrong => top wrong.2), value, if_neg (fun wrong => top (reach.mp wrong)),
        Config.expected, if_neg small]
      congr 1
      split <;> omega

/-- A larger count saturates if a smaller one does. -/
theorem Saturates.mono (saturates : Saturates C x a) (positive : 0 < x) (le : x ≤ y)
    : Saturates C y a := by
  refine ⟨fun small => saturates.1 ⟨small.1, ?_⟩,
    saturates.2.trans (C.buddy.orderForSize_mono (by omega) (by omega))⟩
  have := small.2
  omega

/-- The largest word saturates. -/
theorem saturates_max (C : Config) (a : Nat) : Saturates C C.usizeMax a := by
  have word := C.classSmall_lt
  have max : C.usizeMax = C.buddy.word - 1 := rfl
  have positive : 0 < C.usizeMax + C.rz := by omega
  refine ⟨fun small => ?_, ?_⟩
  · have := small.2
    omega
  · have holds := C.buddy.le_orderSize positive
    have bits : 0 < C.buddy.wordBits := by
      rcases C.buddy.wordBits_ok with bits | bits <;> omega
    have half : C.buddy.word = 2 * 2 ^ (C.buddy.wordBits - 1) := by
      rw [BuddyParams.word, ← pow_succ', Nat.sub_add_cancel bits]
    rw [C.buddy.orderSize_eq] at holds ⊢
    rw [BuddyParams.word]
    refine Nat.pow_le_pow_right (by decide) ?_
    by_contra short
    have le : 2 ^ (C.buddy.log2Min + C.buddy.orderForSize (C.usizeMax + C.rz))
        ≤ 2 ^ (C.buddy.wordBits - 1) := Nat.pow_le_pow_right (by decide) (by omega)
    omega

/-- What is expected of a count that does not saturate fits in a word. -/
theorem expected_lt (fits : a < C.buddy.word) (reach : ¬Saturates C x a)
    : C.expected (x + C.rz) a < C.buddy.word := by
  have word := C.classSmall_lt
  rw [Config.expected]
  split
  · next small =>
      have := small.2
      omega
  · next large =>
      have : ¬C.buddy.word ≤ C.buddy.orderSize (C.buddy.orderForSize (x + C.rz)) := fun wrong =>
        reach ⟨large, wrong⟩
      omega

/-- No count below the word is reported shorter, and no length exceeds the word. -/
theorem le_allocationExtent (fits : a < C.buddy.word) (less : x < C.buddy.word)
    : x ≤ allocationExtent C x a ∧ allocationExtent C x a < C.buddy.word := by
  have max : C.usizeMax = C.buddy.word - 1 := rfl
  rcases Nat.eq_zero_or_pos x with rfl | positive
  · simp [allocationExtent, less]
  rw [allocationExtent_eq positive]
  split
  · omega
  · next reach =>
      have := C.le_expected (show 0 < x + C.rz by omega) a
      have := expected_lt fits reach
      omega

/-- Larger counts are reported with larger lengths. -/
theorem allocationExtent_mono (fits : a < C.buddy.word) (le : x ≤ y)
    : allocationExtent C x a ≤ allocationExtent C y a := by
  have max : C.usizeMax = C.buddy.word - 1 := rfl
  rcases Nat.eq_zero_or_pos x with rfl | positive
  · simp [allocationExtent]
  rw [allocationExtent_eq positive, allocationExtent_eq (by omega)]
  by_cases first : Saturates C x a
  · rw [if_pos first, if_pos (first.mono positive le)]
  rw [if_neg first]
  split
  · have := expected_lt fits first
    omega
  · have := C.expected_mono (show 0 < x + C.rz by omega) (show x + C.rz ≤ y + C.rz by omega) a
    omega

/-- A reported length is reported as it is. -/
theorem allocationExtent_idem (pow : isPow2 a = true) (fits : a < C.buddy.word)
    (less : x < C.buddy.word)
    : allocationExtent C (allocationExtent C x a) a = allocationExtent C x a := by
  have word := C.classSmall_lt
  have max : C.usizeMax = C.buddy.word - 1 := rfl
  rcases Nat.eq_zero_or_pos x with rfl | positive
  · simp [allocationExtent]
  have more := (le_allocationExtent fits less).1
  rw [allocationExtent_eq (show 0 < allocationExtent C x a by omega), allocationExtent_eq positive]
  by_cases reach : Saturates C x a
  · rw [if_pos reach, if_pos (saturates_max C a)]
  · obtain ⟨same, small, size⟩ := C.expected_idem (show 0 < x + C.rz by omega) pow
    have holds := C.le_expected (show 0 < x + C.rz by omega) a
    have back : C.expected (x + C.rz) a - C.rz + C.rz = C.expected (x + C.rz) a := by omega
    rw [if_neg reach, if_neg, back, same]
    rintro ⟨large, top⟩
    rw [back] at large top
    have large : ¬C.ExpectsSmall (x + C.rz) a := fun wrong => large (small.mpr wrong)
    rw [size large] at top
    have := expected_lt fits reach
    omega

/-- `allocation_extent` is a closure operator on the words, so a container that divides the
length by the size of its elements and asks for that many again gets the same length.
-/
theorem allocationExtent_closure (pow : isPow2 a = true) (fits : a < C.buddy.word)
    : (∀ x y, x ≤ y → y < C.buddy.word →
        x ≤ allocationExtent C x a ∧ allocationExtent C x a < C.buddy.word
          ∧ allocationExtent C x a ≤ allocationExtent C y a
          ∧ allocationExtent C (allocationExtent C x a) a = allocationExtent C x a)
      ∧ ∀ s k, 0 < s → k * s < C.buddy.word →
          allocationExtent C (allocationExtent C (k * s) a / s * s) a
            = allocationExtent C (k * s) a := by
  refine ⟨fun x y le less => ?_, fun s k positive less => ?_⟩
  · obtain ⟨more, bound⟩ := le_allocationExtent fits (lt_of_le_of_lt le less)
    exact ⟨more, bound, allocationExtent_mono fits le,
      allocationExtent_idem pow fits (lt_of_le_of_lt le less)⟩
  · obtain ⟨more, bound⟩ := le_allocationExtent fits less
    have lower : k * s ≤ allocationExtent C (k * s) a / s * s :=
      Nat.mul_le_mul_right s ((Nat.le_div_iff_mul_le positive).mpr more)
    have upper : allocationExtent C (k * s) a / s * s ≤ allocationExtent C (k * s) a :=
      Nat.div_mul_le_self _ _
    refine Nat.le_antisymm ?_ (allocationExtent_mono fits lower)
    calc
      allocationExtent C (allocationExtent C (k * s) a / s * s) a
        ≤ allocationExtent C (allocationExtent C (k * s) a) a := allocationExtent_mono fits upper
      _ = allocationExtent C (k * s) a := allocationExtent_idem pow fits less

end HeapState

theorem HeapState.allocationExtent_closure_small
    : (∀ x y, x ≤ y → y < bareBuild.buddy.word →
        x ≤ allocationExtent bareBuild x 64
          ∧ allocationExtent bareBuild x 64 < bareBuild.buddy.word
          ∧ allocationExtent bareBuild x 64 ≤ allocationExtent bareBuild y 64
          ∧ allocationExtent bareBuild (allocationExtent bareBuild x 64) 64
            = allocationExtent bareBuild x 64)
      ∧ ∀ s k, 0 < s → k * s < bareBuild.buddy.word →
          allocationExtent bareBuild (allocationExtent bareBuild (k * s) 64 / s * s) 64
            = allocationExtent bareBuild (k * s) 64 :=
  allocationExtent_closure (by decide) (by decide)

end Bbmalloc
