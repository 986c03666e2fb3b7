import Bbmalloc.Foundations.BitScan
import Bbmalloc.Foundations.BlockTiling

/-! Partitions into naturally aligned power-of-two blocks. A block of order `o` covers
`2 ^ (unit + o)` addresses from a multiple of its size; its buddy is the other half of the
block one order up. Free blocks without a free buddy are the maximal ones.
-/

namespace Bbmalloc.Foundations

-----------------------------------------------------------------------------------------
-- Buddy addresses
-----------------------------------------------------------------------------------------

section BuddyAddresses

variable {a r : Nat}

/-- A lower half starts at a multiple of the doubled size. -/
theorem dvd_of_dvd_succ (h : 2 ^ (r + 1) ∣ a) : 2 ^ r ∣ a :=
  Nat.dvd_trans (Nat.pow_dvd_pow 2 (Nat.le_succ r)) h

/-- A multiple of `2 ^ r` is a lower half or follows one. -/
theorem lower_or_upper (h : 2 ^ r ∣ a)
    : 2 ^ (r + 1) ∣ a ∨ ∃ b, a = b + 2 ^ r ∧ 2 ^ (r + 1) ∣ b := by
  obtain ⟨q, rfl⟩ := h
  rcases Nat.even_or_odd' q with ⟨p, rfl | rfl⟩
  · exact Or.inl ⟨p, by rw [pow_succ]; ring⟩
  · exact Or.inr ⟨2 ^ (r + 1) * p, by rw [pow_succ]; ring, ⟨p, rfl⟩⟩

/-- Setting the size bit of a lower half gives the upper half. -/
theorem or_size_of_lower (h : 2 ^ (r + 1) ∣ a) : a ||| 2 ^ r = a + 2 ^ r := by
  obtain ⟨q, rfl⟩ := h
  exact (Nat.two_pow_add_eq_or_of_lt (Nat.pow_lt_pow_right (by omega) (by omega)) q).symm

/-- The size bit of a lower half is clear. -/
theorem and_size_of_lower (h : 2 ^ (r + 1) ∣ a) : a &&& 2 ^ r = 0 := by
  obtain ⟨q, rfl⟩ := h
  apply eq_zero_of_testBit
  intro i
  rw [Nat.testBit_and, Nat.testBit_two_pow, Nat.testBit_two_pow_mul]
  by_cases same : r = i
  · subst same
    simp
  · simp [same]

/-- Flipping the size bit of a lower half gives the upper half. -/
theorem xor_size_of_lower (h : 2 ^ (r + 1) ∣ a) : a ^^^ 2 ^ r = a + 2 ^ r := by
  rw [← or_size_of_lower h]
  apply Nat.eq_of_testBit_eq
  intro i
  have clear : (a &&& 2 ^ r).testBit i = false := by rw [and_size_of_lower h]; simp
  rw [Nat.testBit_and] at clear
  rw [Nat.testBit_xor, Nat.testBit_or]
  cases first : a.testBit i <;> cases second : (2 ^ r).testBit i <;> simp_all

/-- Flipping the size bit of an upper half gives the lower half. -/
theorem xor_size_of_upper (h : 2 ^ (r + 1) ∣ a) : (a + 2 ^ r) ^^^ 2 ^ r = a := by
  rw [← xor_size_of_lower h, Nat.xor_assoc, Nat.xor_self, Nat.xor_zero]

/-- Setting the size bit of an upper half does nothing. -/
theorem or_size_of_upper (h : 2 ^ (r + 1) ∣ a) : (a + 2 ^ r) ||| 2 ^ r = a + 2 ^ r := by
  rw [← or_size_of_lower h, Nat.or_assoc, Nat.or_self]

/-- Clearing the size bit of a lower half does nothing. -/
theorem andNot_size_of_lower (h : 2 ^ (r + 1) ∣ a) : andNot a (2 ^ r) = a := by
  rw [andNot, and_size_of_lower h, Nat.xor_zero]

/-- Clearing the size bit of an upper half gives the lower half. -/
theorem andNot_size_of_upper (h : 2 ^ (r + 1) ∣ a) : andNot (a + 2 ^ r) (2 ^ r) = a := by
  apply Nat.eq_of_testBit_eq
  intro i
  have clear : (a &&& 2 ^ r).testBit i = false := by rw [and_size_of_lower h]; simp
  rw [Nat.testBit_and] at clear
  rw [← or_size_of_lower h, testBit_andNot, Nat.testBit_or]
  cases first : a.testBit i <;> cases second : (2 ^ r).testBit i <;> simp_all

/-- A block and its buddy are the two halves of one larger block. -/
theorem buddy_dvd (h : 2 ^ r ∣ a) : 2 ^ r ∣ a ^^^ 2 ^ r := by
  rcases lower_or_upper h with lower | ⟨b, rfl, lower⟩
  · rw [xor_size_of_lower lower]
    exact Nat.dvd_add h (dvd_refl _)
  · rw [xor_size_of_upper lower]
    exact dvd_of_dvd_succ lower

/-- The buddy relation is symmetric. -/
theorem buddy_buddy (a r : Nat) : (a ^^^ 2 ^ r) ^^^ 2 ^ r = a := by
  rw [Nat.xor_assoc, Nat.xor_self, Nat.xor_zero]

/-- Overlapping aligned power-of-two ranges are nested. -/
theorem dyadic_nested {b i j : Nat} (ha : 2 ^ i ∣ a) (hb : 2 ^ j ∣ b) (le : i ≤ j)
    (before : a < b + 2 ^ j) (after : b < a + 2 ^ i)
    : b ≤ a ∧ a + 2 ^ i ≤ b + 2 ^ j := by
  obtain ⟨q, rfl⟩ := ha
  obtain ⟨p, rfl⟩ := hb
  obtain ⟨d, rfl⟩ := Nat.exists_eq_add_of_le le
  have split : 2 ^ (i + d) * p = 2 ^ i * (2 ^ d * p) := by rw [pow_add]; ring
  have size : 2 ^ (i + d) = 2 ^ i * 2 ^ d := pow_add 2 i d
  rw [split, size, ← Nat.mul_add] at before
  have below := Nat.lt_of_mul_lt_mul_left before
  have above : 2 ^ d * p < q + 1 := by
    rw [split, ← Nat.mul_succ] at after
    exact Nat.lt_of_mul_lt_mul_left after
  rw [split, size, ← Nat.mul_add, ← Nat.mul_succ]
  exact ⟨Nat.mul_le_mul_left _ (by omega), Nat.mul_le_mul_left _ (by omega)⟩

/-- An aligned range that starts inside a region of whole units stays inside its end as
soon as the range's first unit does not cross it. -/
theorem dvd_add_le {bound : Nat} (ha : 2 ^ r ∣ a) (hb : 2 ^ r ∣ bound) (inside : a < bound)
    : a + 2 ^ r ≤ bound := by
  obtain ⟨q, rfl⟩ := ha
  obtain ⟨p, rfl⟩ := hb
  have := Nat.lt_of_mul_lt_mul_left inside
  rw [← Nat.mul_succ]
  exact Nat.mul_le_mul_left _ (by omega)

end BuddyAddresses

-----------------------------------------------------------------------------------------
-- Aligned partitions
-----------------------------------------------------------------------------------------

/-- A partition of `[0, total)` into aligned blocks of orders below `top`. -/
structure DyadicTiling {κ : Type} (unit top total : Nat) (tile : Nat → Option (κ × Nat))
    : Prop where
  tiled : Tiled (fun b : κ × Nat => 2 ^ (unit + b.2)) (· < total) tile
  aligned : ∀ {a b}, tile a = some b → 2 ^ (unit + b.2) ∣ a
  order_lt : ∀ {a b}, tile a = some b → b.2 < top

/-- No block of kind `free` below the top order has its buddy free at the same order. -/
def Coalesced {κ : Type} (free : κ) (unit top : Nat) (tile : Nat → Option (κ × Nat)) : Prop :=
  ∀ a o, tile a = some (free, o) → o + 1 < top → tile (a ^^^ 2 ^ (unit + o)) ≠ some (free, o)

section Partitions

variable {κ : Type} {free : κ} {unit top total : Nat} {tile : Nat → Option (κ × Nat)}

/-- Every block ends inside the partitioned range. -/
theorem DyadicTiling.end_le (h : DyadicTiling unit top total tile) {a : Nat} {b : κ × Nat}
    (known : tile a = some b)
    : a + 2 ^ (unit + b.2) ≤ total := by
  have positive := Nat.two_pow_pos (unit + b.2)
  have := h.tiled.inside known (x := a + 2 ^ (unit + b.2) - 1) (by omega) (by omega)
  omega

/-- Changing the kind of a block. -/
theorem DyadicTiling.relabel (h : DyadicTiling unit top total tile) {a o : Nat} {k k' : κ}
    (known : tile a = some (k, o))
    : DyadicTiling unit top total (Function.update tile a (some (k', o))) := by
  have aligned : 2 ^ (unit + o) ∣ a := h.aligned known
  have order : o < top := h.order_lt known
  refine ⟨h.tiled.relabel known rfl, ?_, ?_⟩
  all_goals
    intro x b found
    rw [Function.update_apply] at found
    split at found
    · rename_i eq
      obtain rfl := Option.some.inj found
      subst eq
      first | exact aligned | exact order
    · first | exact h.aligned found | exact h.order_lt found

/-- Splitting a block into its two halves. -/
theorem DyadicTiling.split (h : DyadicTiling unit top total tile) {a o : Nat} {k j : κ}
    (known : tile a = some (k, o + 1))
    : DyadicTiling unit top total
        (Function.update (Function.update tile a (some (k, o))) (a + 2 ^ (unit + o))
          (some (j, o))) := by
  have whole : 2 ^ (unit + o) + 2 ^ (unit + o) = 2 ^ (unit + (o + 1)) := by
    rw [← Nat.add_assoc, pow_succ]
    ring
  have lower : 2 ^ (unit + o + 1) ∣ a := h.aligned known
  have order := h.order_lt known
  refine ⟨?_, ?_, ?_⟩
  · exact h.tiled.split (k, o) (j, o) known whole (Nat.two_pow_pos _)
      (Nat.two_pow_pos _)
  all_goals
    intro x b found
    simp only [Function.update_apply] at found
    split at found
    · rename_i eq
      obtain rfl := Option.some.inj found
      subst eq
      first
        | exact Nat.dvd_add (dvd_of_dvd_succ lower) (dvd_refl _)
        | (simp only at order ⊢; omega)
    · split at found
      · rename_i eq
        obtain rfl := Option.some.inj found
        subst eq
        first
          | exact dvd_of_dvd_succ lower
          | (simp only at order ⊢; omega)
      · first | exact h.aligned found | exact h.order_lt found

/-- Joining the two halves of a block. -/
theorem DyadicTiling.merge (h : DyadicTiling unit top total tile) {a o : Nat} {k l j : κ}
    (lower : tile a = some (k, o)) (upper : tile (a + 2 ^ (unit + o)) = some (l, o))
    (aligned : 2 ^ (unit + o + 1) ∣ a) (order : o + 1 < top)
    : DyadicTiling unit top total
        (Function.update (Function.update tile (a + 2 ^ (unit + o)) none) a
          (some (j, o + 1))) := by
  have whole : 2 ^ (unit + (o + 1)) = 2 ^ (unit + o) + 2 ^ (unit + o) := by
    rw [← Nat.add_assoc, pow_succ]
    ring
  refine ⟨?_, ?_, ?_⟩
  · exact h.tiled.merge (j, o + 1) lower upper whole
  all_goals
    intro x b found
    simp only [Function.update_apply] at found
    split at found
    · rename_i eq
      obtain rfl := Option.some.inj found
      subst eq
      first | exact aligned | exact order
    · split at found
      · simp at found
      · first | exact h.aligned found | exact h.order_lt found

/-- A block that is not free may change without creating free buddies. -/
theorem Coalesced.update_other (h : Coalesced free unit top tile) {a : Nat}
    {b : Option (κ × Nat)} (other : ∀ o, b ≠ some (free, o))
    : Coalesced free unit top (Function.update tile a b) := by
  intro c o found order buddy
  by_cases here : c = a
  · subst here
    exact other o (by simpa using found)
  · rw [Function.update_of_ne here] at found
    by_cases there : c ^^^ 2 ^ (unit + o) = a
    · rw [there, Function.update_self] at buddy
      exact other o buddy
    · rw [Function.update_of_ne there] at buddy
      exact h c o found order buddy

/-- A block may become free when its buddy is not free, or when it has the top order. -/
theorem Coalesced.update_free (h : Coalesced free unit top tile) {a o : Nat}
    (alone : o + 1 < top → tile (a ^^^ 2 ^ (unit + o)) ≠ some (free, o))
    : Coalesced free unit top (Function.update tile a (some (free, o))) := by
  have self : ∀ c i, c ^^^ 2 ^ (unit + i) ≠ c := by
    intro c i same
    have zero : 2 ^ (unit + i) = 0 := by
      rw [← Nat.zero_xor (2 ^ (unit + i)), ← Nat.xor_self c, Nat.xor_assoc, same, Nat.xor_self]
    exact (Nat.two_pow_pos _).ne' zero
  intro c i found order buddy
  by_cases here : c = a
  · subst here
    have same : o = i := by simpa using found
    subst same
    rw [Function.update_of_ne (self c o)] at buddy
    exact alone order buddy
  · rw [Function.update_of_ne here] at found
    by_cases there : c ^^^ 2 ^ (unit + i) = a
    · rw [there, Function.update_self] at buddy
      have same : o = i := by simpa using buddy
      subst same
      refine alone order ?_
      rw [← there, buddy_buddy]
      exact found
    · rw [Function.update_of_ne there] at buddy
      exact h c i found order buddy

/-- An aligned range that meets free blocks only lies in a single free block: the halves
do by induction on the order, and two free halves would be free buddies.
-/
theorem DyadicTiling.single_cover (h : DyadicTiling unit top total tile)
    (coalesced : Coalesced free unit top tile) {o : Nat} (order : o < top) {k : Nat}
    (aligned : 2 ^ (unit + o) ∣ k) (fits : k + 2 ^ (unit + o) ≤ total)
    (onlyFree : ∀ a b, tile a = some b → a < k + 2 ^ (unit + o) → k < a + 2 ^ (unit + b.2) →
      b.1 = free)
    : ∃ a j, tile a = some (free, j) ∧ o ≤ j ∧ a ≤ k
        ∧ k + 2 ^ (unit + o) ≤ a + 2 ^ (unit + j) := by
  -- a block that covers `k` and is at least as large contains the range
  have enclosing : ∀ o k, 2 ^ (unit + o) ∣ k →
      (∀ a b, tile a = some b → a < k + 2 ^ (unit + o) → k < a + 2 ^ (unit + b.2) →
        b.1 = free) →
      ∀ a b, tile a = some b → a < k + 2 ^ (unit + o) → k < a + 2 ^ (unit + b.2) → o ≤ b.2 →
      ∃ a j, tile a = some (free, j) ∧ o ≤ j ∧ a ≤ k
        ∧ k + 2 ^ (unit + o) ≤ a + 2 ^ (unit + j) := by
    intro o k aligned onlyFree a b known before after le
    have kind := onlyFree a b known before after
    obtain ⟨lo, hi⟩ := dyadic_nested aligned (h.aligned known) (by omega) after before
    exact ⟨a, b.2, by rw [known, ← kind], le, lo, hi⟩
  induction o generalizing k with
  | zero =>
      have positive := Nat.two_pow_pos (unit + 0)
      obtain ⟨a, b, known, lo, hi⟩ := h.tiled.cover (x := k) (by omega)
      exact enclosing 0 k aligned onlyFree a b known (by omega) hi (Nat.zero_le _)
  | succ o ih =>
      have whole : 2 ^ (unit + (o + 1)) = 2 ^ (unit + o) + 2 ^ (unit + o) := by
        rw [← Nat.add_assoc, pow_succ]
        ring
      have lower : 2 ^ (unit + o + 1) ∣ k := aligned
      have half := dvd_of_dvd_succ lower
      obtain ⟨a, i, first, iLe, aLo, aHi⟩ := ih (k := k) (by omega) half (by omega)
        (fun a b known before after => onlyFree a b known (by omega) after)
      obtain ⟨c, j, second, jLe, cLo, cHi⟩ := ih (k := k + 2 ^ (unit + o)) (by omega)
        (Nat.dvd_add half (dvd_refl _)) (by omega)
        (fun a b known before after => onlyFree a b known (by omega) (by omega))
      have positive := Nat.two_pow_pos (unit + o)
      by_cases small : i = o
      · subst small
        have startEq : a = k := by omega
        subst startEq
        by_cases small' : j = i
        · subst small'
          have startEq : c = a + 2 ^ (unit + j) := by omega
          subst startEq
          have buddy := coalesced a j first (by omega)
          rw [xor_size_of_lower lower] at buddy
          exact (buddy second).elim
        · exact enclosing (i + 1) a aligned onlyFree c (free, j) second (by omega)
            (by simp only; omega) (by simp only; omega)
      · exact enclosing (o + 1) k aligned onlyFree a (free, i) first (by omega)
          (by simp only; omega) (by simp only; omega)

/-- The free blocks of a coalesced partition are determined by its other blocks: a free
block of one partition lies in a free block of the other and the other way round.
-/
theorem DyadicTiling.free_unique {tile' : Nat → Option (κ × Nat)}
    (h : DyadicTiling unit top total tile) (h' : DyadicTiling unit top total tile')
    (coalesced : Coalesced free unit top tile) (coalesced' : Coalesced free unit top tile')
    (same : ∀ a k o, k ≠ free → (tile a = some (k, o) ↔ tile' a = some (k, o)))
    {a o : Nat} (known : tile a = some (free, o))
    : tile' a = some (free, o) := by
  have transfer : ∀ {tile tile' : Nat → Option (κ × Nat)},
      DyadicTiling unit top total tile → DyadicTiling unit top total tile' →
      Coalesced free unit top tile' →
      (∀ a k o, k ≠ free → (tile a = some (k, o) ↔ tile' a = some (k, o))) →
      ∀ {a o}, tile a = some (free, o) →
      ∃ c j, tile' c = some (free, j) ∧ o ≤ j ∧ c ≤ a
        ∧ a + 2 ^ (unit + o) ≤ c + 2 ^ (unit + j) := by
    intro tile tile' h h' coalesced' same a o known
    refine h'.single_cover (o := o) coalesced' (h.order_lt known) (h.aligned known)
      (h.end_le known) ?_
    intro c b found before after
    by_contra kind
    have old := (same c b.1 b.2 kind).mpr found
    have positive := Nat.two_pow_pos (unit + o)
    have positive' := Nat.two_pow_pos (unit + b.2)
    have differ : a ≠ c := by
      rintro rfl
      have := congrArg Prod.fst (Option.some.inj (known.symm.trans old))
      exact kind this.symm
    have := h.tiled.disjoint known old differ
    dsimp only at this
    omega
  obtain ⟨c, j, found, oLe, lo, hi⟩ := transfer h h' coalesced' same known
  obtain ⟨e, i, back, jLe, lo', hi'⟩ := transfer h' h coalesced
    (fun a k o kind => (same a k o kind).symm) found
  have positive := Nat.two_pow_pos (unit + o)
  obtain ⟨rfl, eq⟩ := h.tiled.unique known back (x := a) (Nat.le_refl a)
    (by simp only; omega) (by omega) (by simp only; omega)
  have orderEq : o = i := (Prod.mk.inj eq).2
  have : j = o := by omega
  subst this
  have : c = a := by omega
  exact this ▸ found

end Partitions

end Bbmalloc.Foundations
