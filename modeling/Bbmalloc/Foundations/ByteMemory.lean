import Mathlib

/-! Byte memory with little-endian words. Every cell counts the stores it receives,
so an unchanged cell means that nothing was written there, not that the same value was.
-/

namespace Bbmalloc.Foundations

/-- One byte of memory together with the number of stores it has received. -/
structure Cell where
  byte : UInt8
  stores : Nat

/-- The whole address space. -/
abbrev Memory := Nat → Cell

namespace Memory

/-- Write one byte. -/
def store (m : Memory) (a : Nat) (v : UInt8) : Memory :=
  fun x => if x = a then ⟨v, (m x).stores + 1⟩ else m x

/-- Read `k` bytes as a little-endian word. -/
def load (m : Memory) (a : Nat) : Nat → Nat
  | 0 => 0
  | k + 1 => (m a).byte.toNat + 256 * load m (a + 1) k

/-- Write the low `k` bytes of a word, least significant byte first. -/
def storeWord (m : Memory) (a : Nat) : Nat → Nat → Memory
  | 0, _ => m
  | k + 1, v => storeWord (m.store a (UInt8.ofNat v)) (a + 1) k (v / 256)

/-- The low `k` bytes of a word, least significant byte first. -/
def wordBytes : Nat → Nat → List UInt8
  | 0, _ => []
  | k + 1, v => UInt8.ofNat v :: wordBytes k (v / 256)

/-- Write the byte `v` to each of the `n` cells from `a` on. -/
def fill (m : Memory) (a n : Nat) (v : UInt8) : Memory :=
  fun x => if a ≤ x ∧ x < a + n then ⟨v, (m x).stores + 1⟩ else m x

/-- Copy `n` bytes from `src` to `dst`; the ranges must not overlap. -/
def copy (m : Memory) (dst src n : Nat) : Memory :=
  fun x =>
    if dst ≤ x ∧ x < dst + n then ⟨(m (src + (x - dst))).byte, (m x).stores + 1⟩ else m x

-----------------------------------------------------------------------------------------
-- Single bytes
-----------------------------------------------------------------------------------------

/-- The stored byte is read back. -/
@[simp]
theorem store_self (m : Memory) (a : Nat) (v : UInt8) : (m.store a v a).byte = v := by
  simp [store]

/-- Every other cell is left alone. -/
theorem store_of_ne (m : Memory) {a x : Nat} (v : UInt8) (h : x ≠ a)
    : m.store a v x = m x := by
  simp [store, h]

/-- A cell outside the filled range is left alone. -/
theorem fill_outside (m : Memory) {a n x : Nat} (v : UInt8) (h : x < a ∨ a + n ≤ x)
    : m.fill a n v x = m x := by
  have : ¬(a ≤ x ∧ x < a + n) := by omega
  simp [fill, this]

/-- A cell inside the filled range holds the fill byte. -/
theorem fill_inside (m : Memory) {a n x : Nat} (v : UInt8) (lo : a ≤ x) (hi : x < a + n)
    : (m.fill a n v x).byte = v := by
  simp [fill, lo, hi]

/-- A cell outside the destination range is left alone. -/
theorem copy_outside (m : Memory) {dst src n x : Nat} (h : x < dst ∨ dst + n ≤ x)
    : m.copy dst src n x = m x := by
  have : ¬(dst ≤ x ∧ x < dst + n) := by omega
  simp [copy, this]

-----------------------------------------------------------------------------------------
-- Words
-----------------------------------------------------------------------------------------

@[simp]
theorem wordBytes_length (k v : Nat) : (wordBytes k v).length = k := by
  induction k generalizing v with
  | zero => rfl
  | succ k ih => rw [wordBytes, List.length_cons, ih]

/-- A word write leaves every cell outside its bytes alone, by induction on the width. -/
theorem storeWord_outside (m : Memory) {a k v x : Nat} (h : x < a ∨ a + k ≤ x)
    : m.storeWord a k v x = m x := by
  induction k generalizing m a v with
  | zero => rfl
  | succ k ih =>
      rw [storeWord, ih (m.store a (UInt8.ofNat v)) (by omega), store_of_ne]
      omega

/-- A word depends on its own bytes only. -/
theorem load_congr {m m' : Memory} {a k : Nat}
    (h : ∀ x, a ≤ x → x < a + k → (m' x).byte = (m x).byte)
    : m'.load a k = m.load a k := by
  induction k generalizing a with
  | zero => rfl
  | succ k ih =>
      rw [load, load, h a (by omega) (by omega), ih]
      intro x lo hi
      exact h x (by omega) (by omega)

/-- Reading back a word that fits gives the word, by peeling off its low byte. -/
theorem load_storeWord (m : Memory) {a k v : Nat} (fits : v < 256 ^ k)
    : (m.storeWord a k v).load a k = v := by
  induction k generalizing m a v with
  | zero =>
      simp only [pow_zero, Nat.lt_one_iff] at fits
      simp [load, fits]
  | succ k ih =>
      have rest : v / 256 < 256 ^ k := by
        rw [pow_succ] at fits
        exact Nat.div_lt_of_lt_mul (by omega)
      rw [load, storeWord, ih _ rest, storeWord_outside _ (by omega), store_self]
      simp only [UInt8.toNat_ofNat']
      omega

/-- A word is unaffected by a write to disjoint bytes. -/
theorem load_storeWord_of_disjoint (m : Memory) {a b j k v : Nat}
    (apart : b + k ≤ a ∨ a + j ≤ b)
    : (m.storeWord a j v).load b k = m.load b k := by
  apply load_congr
  intro x lo hi
  rw [storeWord_outside]
  omega

/-- A word is unaffected by a byte written outside it. -/
theorem load_store_of_disjoint (m : Memory) {a b k : Nat} {v : UInt8}
    (apart : b + k ≤ a ∨ a < b)
    : (m.store a v).load b k = m.load b k := by
  apply load_congr
  intro x lo hi
  rw [store_of_ne]
  omega

/-- Every `k`-byte word is below `256 ^ k`. -/
theorem load_lt (m : Memory) (a k : Nat) : m.load a k < 256 ^ k := by
  induction k generalizing a with
  | zero => simp [load]
  | succ k ih =>
      have byte := (m a).byte.toNat_lt
      have rest := ih (a + 1)
      rw [load, pow_succ]
      omega

-----------------------------------------------------------------------------------------
-- Footprints
-----------------------------------------------------------------------------------------

/-- Only cells in `writable` may have been stored to between `m` and `m'`. -/
def Within (writable : Nat → Prop) (m m' : Memory) : Prop :=
  ∀ x, ¬writable x → m' x = m x

/-- No store has the empty footprint. -/
theorem Within.refl (writable : Nat → Prop) (m : Memory) : Within writable m m :=
  fun _ _ => rfl

/-- Footprints of consecutive steps add up. -/
theorem Within.trans {writable : Nat → Prop} {m n m'' : Memory}
    (first : Within writable m n) (second : Within writable n m'')
    : Within writable m m'' :=
  fun x h => (second x h).trans (first x h)

/-- A footprint may be enlarged. -/
theorem Within.mono {small large : Nat → Prop} {m m' : Memory}
    (h : Within small m m') (sub : ∀ x, small x → large x)
    : Within large m m' :=
  fun x outside => h x (fun inside => outside (sub x inside))

/-- Two footprints of one step can be intersected. -/
theorem Within.inter {first second : Nat → Prop} {m m' : Memory} (h : Within first m m')
    (h' : Within second m m')
    : Within (fun x => first x ∧ second x) m m' := by
  intro x outside
  by_cases inside : first x
  · exact h' x (fun inside' => outside ⟨inside, inside'⟩)
  · exact h x inside

/-- A word write has its own bytes as footprint. -/
theorem within_storeWord (m : Memory) (a k v : Nat)
    : Within (fun x => a ≤ x ∧ x < a + k) m (m.storeWord a k v) := by
  intro x outside
  exact storeWord_outside m (by omega)

end Memory

end Bbmalloc.Foundations
