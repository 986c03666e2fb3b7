import Mathlib

/-! Bit scans and masks on unsigned words, kept as natural numbers below the word size. -/

namespace Bbmalloc.Foundations

/-- `x & ~y`. -/
def andNot (x y : Nat) : Nat := x ^^^ (x &&& y)

/-- Index of the highest set bit of a non-zero word. -/
def fls (x : Nat) : Nat := Nat.log2 x

/-- Index of the lowest set bit of a non-zero word of at most `width` bits. -/
def ctz : (width : Nat) → Nat → Nat
  | 0, _ => 0
  | width + 1, x => if x % 2 = 1 then 0 else ctz width (x / 2) + 1

/-- Round `v` up to a multiple of the power of two `a`, in words of size `word`. -/
def alignUp (word v a : Nat) : Nat := andNot ((v + a - 1) % word) (a - 1)

/-- The test `v != 0 && (v & (v - 1)) == 0`. -/
def isPow2 (v : Nat) : Bool := v != 0 && (v &&& (v - 1)) == 0

/-- Unsigned subtraction of words of size `word`. -/
def wrapSub (word a b : Nat) : Nat := if b ≤ a then a - b else word + a - b

-----------------------------------------------------------------------------------------
-- Clearing bits
-----------------------------------------------------------------------------------------

/-- Clearing keeps exactly the bits outside the mask. -/
@[simp]
theorem testBit_andNot (x y i : Nat) : (andNot x y).testBit i = (x.testBit i && !y.testBit i) := by
  simp only [andNot, Nat.testBit_xor, Nat.testBit_and]
  cases x.testBit i <;> cases y.testBit i <;> rfl

/-- Clearing nothing. -/
@[simp]
theorem andNot_zero (x : Nat) : andNot x 0 = x := by
  simp [andNot]

/-- Clearing the low `k` bits rounds down to a multiple of `2 ^ k`. -/
theorem andNot_low (x k : Nat) : andNot x (2 ^ k - 1) = x / 2 ^ k * 2 ^ k := by
  apply Nat.eq_of_testBit_eq
  intro i
  rw [testBit_andNot, Nat.testBit_two_pow_sub_one, Nat.testBit_mul_two_pow]
  by_cases low : i < k
  · simp [low, Nat.not_le.mpr low]
  · have high : k ≤ i := Nat.not_lt.mp low
    simp [low, high, Nat.testBit_div_two_pow]

/-- Rounding down never exceeds the value and loses less than one step. -/
theorem andNot_low_bounds (x k : Nat)
    : andNot x (2 ^ k - 1) ≤ x ∧ x < andNot x (2 ^ k - 1) + 2 ^ k
      ∧ 2 ^ k ∣ andNot x (2 ^ k - 1) := by
  rw [andNot_low]
  have whole := Nat.div_add_mod x (2 ^ k)
  have rest := Nat.mod_lt x (Nat.two_pow_pos k)
  rw [Nat.mul_comm] at whole
  exact ⟨by omega, by omega, Nat.dvd_mul_left _ _⟩

/-- The low `k` bits are the remainder. -/
theorem and_low (x k : Nat) : x &&& (2 ^ k - 1) = x % 2 ^ k :=
  Nat.and_two_pow_sub_one_eq_mod x k

-----------------------------------------------------------------------------------------
-- Scans
-----------------------------------------------------------------------------------------

/-- The lowest set bit is set and nothing below it is, by induction on the width. -/
theorem ctz_spec {width x : Nat} (nonzero : x ≠ 0) (fits : x < 2 ^ width)
    : x.testBit (ctz width x) = true ∧ ∀ j < ctz width x, x.testBit j = false := by
  induction width generalizing x with
  | zero => omega
  | succ width ih =>
      rw [ctz]
      by_cases odd : x % 2 = 1
      · simp [odd, Nat.testBit_zero]
      · have half : x / 2 ≠ 0 := by omega
        obtain ⟨set, clear⟩ := ih half (by rw [pow_succ] at fits; omega)
        simp only [odd, ite_false]
        refine ⟨by rw [Nat.testBit_add_one]; exact set, ?_⟩
        intro j hj
        cases j with
        | zero => simp [Nat.testBit_zero, odd]
        | succ j =>
            rw [Nat.testBit_add_one]
            exact clear j (by omega)

/-- The highest set bit is set. -/
theorem testBit_fls {x : Nat} (nonzero : x ≠ 0) : x.testBit (fls x) = true := by
  have lower := Nat.log2_self_le nonzero
  have upper := Nat.lt_log2_self (n := x)
  rw [fls, Nat.testBit_eq_decide_div_mod_eq]
  have one : x / 2 ^ x.log2 = 1 := by
    apply Nat.div_eq_of_lt_le
    · omega
    · rw [pow_succ] at upper
      omega
  simp [one]

/-- No bit above the highest one is set. -/
theorem testBit_above_fls {x i : Nat} (nonzero : x ≠ 0) (above : fls x < i)
    : x.testBit i = false := by
  apply Nat.testBit_lt_two_pow
  exact (Nat.log2_lt nonzero).mp above

/-- A word is zero when no bit is set. -/
theorem eq_zero_of_testBit {x : Nat} (clear : ∀ i, x.testBit i = false) : x = 0 :=
  Nat.eq_of_testBit_eq (by simpa using clear)

/-- Bounds of the highest set bit. -/
theorem fls_bounds {x : Nat} (nonzero : x ≠ 0) : 2 ^ fls x ≤ x ∧ x < 2 ^ (fls x + 1) :=
  ⟨Nat.log2_self_le nonzero, Nat.lt_log2_self⟩

/-- The highest set bit is below `k` exactly for words below `2 ^ k`. -/
theorem fls_lt {x k : Nat} (nonzero : x ≠ 0) : fls x < k ↔ x < 2 ^ k :=
  Nat.log2_lt nonzero

-----------------------------------------------------------------------------------------
-- Powers of two
-----------------------------------------------------------------------------------------

/-- The bit trick recognises exactly the powers of two. -/
theorem isPow2_iff (v : Nat) : isPow2 v = true ↔ ∃ k, v = 2 ^ k := by
  simp only [isPow2, Bool.and_eq_true, bne_iff_ne, ne_eq, beq_iff_eq]
  constructor
  · rintro ⟨nonzero, clear⟩
    refine ⟨fls v, ?_⟩
    obtain ⟨lower, upper⟩ := fls_bounds nonzero
    by_contra differ
    -- a second set bit below the top one survives the conjunction with `v - 1`
    have shared : (v &&& (v - 1)).testBit (fls v) = true := by
      rw [Nat.testBit_and, testBit_fls nonzero, Bool.true_and]
      have below : v - 1 ≠ 0 := by
        have := Nat.one_le_two_pow (n := fls v)
        omega
      have same : fls (v - 1) = fls v := by
        apply Nat.le_antisymm
        · exact Nat.lt_succ_iff.mp ((fls_lt below).mpr (by omega))
        · by_contra smaller
          have := (fls_lt below).mp (Nat.not_le.mp smaller)
          omega
      rw [← same]
      exact testBit_fls below
    rw [clear] at shared
    simp at shared
  · rintro ⟨k, rfl⟩
    refine ⟨(Nat.two_pow_pos k).ne', ?_⟩
    rw [and_low, Nat.mod_self]

/-- Rounding up to a power of two without wrap-around. -/
theorem alignUp_spec {w v k : Nat} (fits : v + 2 ^ k - 1 < w)
    : v ≤ alignUp w v (2 ^ k) ∧ alignUp w v (2 ^ k) < v + 2 ^ k
      ∧ 2 ^ k ∣ alignUp w v (2 ^ k) := by
  have positive := Nat.two_pow_pos k
  rw [alignUp, Nat.mod_eq_of_lt fits]
  obtain ⟨lower, upper, dvd⟩ := andNot_low_bounds (v + 2 ^ k - 1) k
  exact ⟨by omega, by omega, dvd⟩

/-- Subtraction without borrow. -/
theorem wrapSub_of_le {word a b : Nat} (h : b ≤ a) : wrapSub word a b = a - b := by
  simp [wrapSub, h]

/-- A difference below `n` is a real one when the subtrahend leaves room for `n`. -/
theorem wrapSub_lt {word a b n : Nat} (room : b + n ≤ word)
    : wrapSub word a b < n ↔ b ≤ a ∧ a < b + n := by
  unfold wrapSub
  split <;> omega

end Bbmalloc.Foundations
