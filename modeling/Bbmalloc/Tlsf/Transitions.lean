import Bbmalloc.Tlsf.Representation

/-! The elementary moves of the small-block allocator on represented states: taking a block
out of its bin and putting one in, splitting and joining the block at hand, stores to its
header, and marking. Each move keeps the representation and stays off granted payloads.
-/

namespace Bbmalloc

open Bbmalloc.Foundations

-----------------------------------------------------------------------------------------
-- Footprints
-----------------------------------------------------------------------------------------

/-- The addresses that may be written: the sheets without the payloads of `kept` blocks. -/
def TlsfLoose (T : TlsfParams) (rbase : Nat) (sheets : List Nat) (kept : Nat → Option Nat)
    (a : Nat)
    : Prop :=
  (∃ sh ∈ sheets, rbase + sh ≤ a ∧ a < rbase + sh + T.sheet)
  ∧ ∀ x n, kept x = some n → ¬(rbase + x + 16 ≤ a ∧ a < rbase + x + n)

/-- A move among the free blocks and the block at hand: granted blocks stay, and memory
changes outside their payloads only.
-/
structure TlsfMove {T : TlsfParams} (s : TlsfState T) (v : TlsfView) (s' : TlsfState T)
    (v' : TlsfView)
    : Prop where
  base : s'.rbase = s.rbase
  sheets : s'.sheets = s.sheets
  count : s'.count = s.count
  bytes : s'.allocatedBytes = s.allocatedBytes
  granted : v'.granted = v.granted
  within : Memory.Within (TlsfLoose T s.rbase s.sheets v.granted) s.mem s'.mem

/-- Sizes and back offsets in all headers stay. -/
def SameBlocks {T : TlsfParams} (s s' : TlsfState T) : Prop :=
  ∀ x, HeaderAt T s.sheets x →
    s'.bsizeFlags x = s.bsizeFlags x ∧ s'.prevPhys x = s.prevPhys x

section Footprints

variable {T : TlsfParams} {s s' s'' : TlsfState T} {v v' v'' : TlsfView}
  {limit x y z n m i : Nat} {k : TlsfKind}

theorem TlsfMove.trans (first : TlsfMove s v s' v') (second : TlsfMove s' v' s'' v'')
    : TlsfMove s v s'' v'' := by
  have later := second.within
  rw [first.base, first.sheets, first.granted] at later
  exact ⟨second.base.trans first.base, second.sheets.trans first.sheets,
    second.count.trans first.count, second.bytes.trans first.bytes,
    second.granted.trans first.granted, first.within.trans later⟩

/-- Offsets at the start or the end of a block, or in a block that is not granted, are not
inside a granted block.
-/
theorem TlsfRep.outside (h : TlsfRep limit s v) (known : v.block x = some (k, n))
    (lo : x ≤ z) (hi : z ≤ x + n) (place : z = x ∨ z = x + n ∨ k ≠ .granted)
    : ∀ y m, v.granted y = some m → z ≤ y ∨ y + m ≤ z := by
  intro y m found
  have found := TlsfView.granted_eq_some.mp found
  by_cases same : y = x
  · subst same
    have eq := Prod.mk.inj (Option.some.inj (known.symm.trans found))
    rcases place with rfl | rfl | other
    · exact Or.inl (Nat.le_refl _)
    · exact Or.inr (by omega)
    · exact (other eq.1).elim
  · have := h.tiling.disjoint known found (Ne.symm same)
    simp only at this
    omega

/-- A header that is not inside a granted block may be written. -/
theorem HeaderAt.loose {rbase : Nat} {sheets : List Nat} {kept : Nat → Option Nat}
    (header : HeaderAt T sheets z) (outside : ∀ y m, kept y = some m → z ≤ y ∨ y + m ≤ z)
    {a : Nat} (lo : rbase + z ≤ a) (hi : a < rbase + z + 16)
    : TlsfLoose T rbase sheets kept a := by
  obtain ⟨_, sh, member, place⟩ := header
  have parts := T.sheet_parts
  refine ⟨⟨sh, member, by omega, by omega⟩, ?_⟩
  intro y m found
  have := outside y m found
  omega

theorem within_headerWord {writable : Nat → Prop} {mem : Memory} {a i w : Nat} (word : i + 4 ≤ 16)
    (cells : ∀ b, a ≤ b → b < a + 16 → writable b)
    : Memory.Within writable mem (mem.storeWord (a + i) 4 w) :=
  (Memory.within_storeWord _ _ _ _).mono (fun b range => cells b (by omega) (by omega))

end Footprints

-----------------------------------------------------------------------------------------
-- Bitmaps of the bins
-----------------------------------------------------------------------------------------

section Bits

variable {T : TlsfParams} {s : TlsfState T} {bins bins' : Nat → List Nat} {fl sl idx headNow : Nat}

/-- The two levels of a bin number. -/
theorem level_split (fl : Nat) (small : sl < T.slCount)
    : (fl * T.slCount + sl) >>> T.slLog2 = fl
      ∧ (fl * T.slCount + sl) &&& (T.slCount - 1) = sl := by
  constructor
  · rw [Nat.shiftRight_eq_div_pow]
    exact Nat.div_eq_of_lt_le (by rw [TlsfShape.slCount]; omega)
      (by rw [Nat.succ_mul]; rw [TlsfShape.slCount] at small ⊢; omega)
  · rw [TlsfShape.slCount, and_low, ← TlsfShape.slCount, Nat.mul_comm, Nat.mul_add_mod,
      Nat.mod_eq_of_lt small]

theorem level_inj {fl' sl' : Nat} (small : sl < T.slCount) (small' : sl' < T.slCount)
    (eq : fl * T.slCount + sl = fl' * T.slCount + sl')
    : fl = fl' ∧ sl = sl' := by
  have first := level_split fl small
  have second := level_split fl' small'
  rw [eq] at first
  exact ⟨first.1.symm.trans second.1, first.2.symm.trans second.2⟩

/-- A bit that is dropped under a condition. -/
theorem testBit_drop (c : Prop) [Decidable c] (i j : Nat)
    : (if c then 1 <<< i else 0).testBit j = (decide c && decide (i = j)) := by
  by_cases holds : c
  · simp [holds, Nat.one_shiftLeft, Nat.testBit_two_pow]
  · simp [holds]

/-- `__clear_if_empty` after a bin lost a member. -/
theorem BinBits.clearIfEmpty (h : BinBits s bins) (small : sl < T.slCount)
    (was : bins (fl * T.slCount + sl) ≠ [])
    (empty : headNow = nullOff ↔ bins' (fl * T.slCount + sl) = [])
    (others : ∀ j ≠ fl * T.slCount + sl, bins' j = bins j)
    : BinBits (s.clearIfEmpty (fl * T.slCount + sl) headNow) bins' := by
  obtain ⟨level, step⟩ := level_split fl small
  have bits : ∀ f j, ((s.clearIfEmpty (fl * T.slCount + sl) headNow).slBitmap f).testBit j
      = ((s.slBitmap f).testBit j
        && !(decide (f = fl) && (decide (headNow = nullOff) && decide (sl = j)))) := by
    intro f j
    simp only [TlsfState.clearIfEmpty, level, step]
    by_cases same : f = fl
    · subst same
      simp only [Function.update_self, testBit_andNot, testBit_drop, decide_true, Bool.true_and]
    · simp [same]
  constructor
  · intro f j
    rw [bits, Bool.and_eq_true, h.1 f j]
    by_cases same : f * T.slCount + j = fl * T.slCount + sl ∧ j < T.slCount
    · obtain ⟨eq, small'⟩ := same
      obtain ⟨rfl, rfl⟩ := level_inj small' small eq
      simp [small', was, empty]
    · have : j < T.slCount → ¬(f = fl ∧ sl = j) := by
        rintro small' ⟨rfl, rfl⟩
        exact same ⟨rfl, small'⟩
      constructor
      · rintro ⟨⟨small', live⟩, _⟩
        rw [others _ (fun eq => same ⟨eq, small'⟩)]
        exact ⟨small', live⟩
      · rintro ⟨small', live⟩
        rw [others _ (fun eq => same ⟨eq, small'⟩)] at live
        refine ⟨⟨small', live⟩, ?_⟩
        have := this small'
        simp only [Bool.not_eq_true', Bool.and_eq_false_iff, decide_eq_false_iff_not]
        tauto
  · intro f
    have old := h.2 f
    by_cases same : f = fl
    · subst same
      have nonzero : s.slBitmap f ≠ 0 := by
        intro zero
        have := (h.1 f sl).mpr ⟨small, was⟩
        rw [zero] at this
        simp at this
      have set := old.mpr nonzero
      simp only [TlsfState.clearIfEmpty, level, step, Function.update_self, testBit_andNot, set,
        testBit_drop, decide_true, Bool.true_and, Bool.and_true, Bool.not_eq_true',
        decide_eq_false_iff_not]
    · simp only [TlsfState.clearIfEmpty, level, step, Function.update_of_ne same, testBit_andNot,
        testBit_drop, Ne.symm same, decide_false, Bool.and_false, Bool.not_false, Bool.and_true]
      exact old

end Bits

-----------------------------------------------------------------------------------------
-- One block changes its kind
-----------------------------------------------------------------------------------------

/-- The partition with another description of one block. -/
def TlsfView.put (v : TlsfView) (x : Nat) (b : Option TlsfBlock) : TlsfView :=
  { v with block := Function.update v.block x b }

@[simp]
theorem TlsfView.put_block (v : TlsfView) (x : Nat) (b : Option TlsfBlock)
    : (v.put x b).block = Function.update v.block x b :=
  rfl

@[simp]
theorem TlsfView.put_granted (v : TlsfView) (x : Nat) (b : Option TlsfBlock)
    : (v.put x b).granted = Function.update v.granted x (grantedSize b) :=
  Function.comp_update _ _ _ _

/-- Among blocks that are not granted, nothing changes for the granted ones. -/
theorem TlsfView.put_granted_loose {v : TlsfView} {x : Nat} {b : Option TlsfBlock}
    (before : grantedSize (v.block x) = none) (after : grantedSize b = none)
    : (v.put x b).granted = v.granted := by
  rw [v.put_granted, after]
  exact (congrArg (Function.update _ x) before.symm).trans (Function.update_eq_self _ _)

section Relabelling

variable {T : TlsfParams} {s s' : TlsfState T} {v : TlsfView} {limit x n : Nat}
  {k k' : TlsfKind} {bins' : Nat → List Nat}

/-- What has to hold of a state in which one block changed its kind. -/
theorem TlsfRep.relabel (h : TlsfRep limit s v) (known : v.block x = some (k, n))
    (sheets : s'.sheets = s.sheets) (blocks : SameBlocks s s')
    (marks : ∀ y, 16 ∣ y → InSheets T s.sheets y →
      s'.markBit y = if y = x then k'.isMarked else s.markBit y)
    (header : k'.settled = true → s.bsizeFlags x = sizeWord (k', n))
    (behind : k'.settled = true → s.prevPhys (x + n) = x)
    (lists : ∀ i, Linked nullOff s'.nextFree s'.prevFree (s'.heads i) (bins' i))
    (binned : ∀ i y, y ∈ bins' i ↔ ∃ m,
      Function.update v.block x (some (k', n)) y = some (.free, m) ∧ TlsfState.binOf T m = i)
    (bits : BinBits s' bins')
    : TlsfRep limit s' ⟨Function.update v.block x (some (k', n)), bins'⟩ := by
  have parts := T.sheet_parts
  have cases : ∀ {y j m}, Function.update v.block x (some (k', n)) y = some (j, m) →
      (y = x ∧ j = k' ∧ m = n) ∨ (y ≠ x ∧ v.block y = some (j, m)) := by
    intro y j m found
    rw [Function.update_apply] at found
    split at found
    · rename_i eq
      have := Prod.mk.inj (Option.some.inj found)
      exact Or.inl ⟨eq, this.1.symm, this.2.symm⟩
    · rename_i ne
      exact Or.inr ⟨ne, found⟩
  have dvd16 : ∀ sh ∈ s.sheets, 16 ∣ sh := fun sh member =>
    dvd_trans (T.dvd_sheet (k := 4) (by omega)) (h.fit.dvd sh member)
  refine ⟨sheets ▸ h.fit, sheets ▸ h.tiling.relabel known rfl, ?_, ?_, ?_, ?_, ?_, ?_, lists,
    binned, bits⟩
  · intro y j m found
    rcases cases found with ⟨rfl, rfl, rfl⟩ | ⟨_, old⟩
    · exact h.shape known
    · exact h.shape old
  · intro y j m found settled
    rcases cases found with ⟨rfl, rfl, rfl⟩ | ⟨_, old⟩
    · rw [(blocks y (h.headerAt known).1).1]
      exact header settled
    · rw [(blocks y (h.headerAt old).1).1]
      exact h.header old settled
  · intro y j m found settled
    rcases cases found with ⟨rfl, rfl, rfl⟩ | ⟨_, old⟩
    · rw [(blocks _ (h.headerAt known).2.1).2]
      exact behind settled
    · rw [(blocks _ (h.headerAt old).2.1).2]
      exact h.behind old settled
  · intro sh member
    rw [sheets] at member
    have unit := dvd16 sh member
    rw [(blocks _ ⟨by omega, sh, member, Or.inr (by omega)⟩).2]
    exact h.first sh member
  · intro sh member
    rw [sheets] at member
    have unit := dvd16 sh member
    rw [(blocks sh ⟨unit, sh, member, Or.inl rfl⟩).1,
      (blocks _ ⟨by omega, sh, member, Or.inr (by omega)⟩).1]
    exact h.fences sh member
  · intro y unit inside
    rw [sheets] at inside
    rw [marks y unit inside]
    by_cases same : y = x
    · subst same
      simp
    · simp only [same, if_false, Function.update_of_ne same]
      exact h.marks y unit inside

/-- Kinds other than `free` on both sides leave the bins alone. -/
theorem TlsfRep.binned_other (h : TlsfRep limit s v) (known : v.block x = some (k, n))
    (before : k ≠ .free) {b : Option TlsfBlock} (after : ∀ m, b ≠ some (.free, m)) (i y : Nat)
    : y ∈ v.bins i ↔ ∃ m, Function.update v.block x b y = some (.free, m)
        ∧ TlsfState.binOf T m = i := by
  rw [h.binned i y]
  by_cases same : y = x
  · subst same
    simp [known, after, before]
  · simp [same]

end Relabelling

-----------------------------------------------------------------------------------------
-- Taking a free block out of its bin
-----------------------------------------------------------------------------------------

/-- The free block at `x` leaves its bin and is held. -/
def TlsfView.take (T : TlsfParams) (v : TlsfView) (x n : Nat) : TlsfView where
  block := Function.update v.block x (some (.held, n))
  bins := Function.update v.bins (TlsfState.binOf T n) ((v.bins (TlsfState.binOf T n)).erase x)

section Taking

variable {T : TlsfParams} {s s' : TlsfState T} {v : TlsfView} {limit x n i : Nat}

/-- A bin number is a pair of levels. -/
theorem binOf_levels (large : 32 ≤ n)
    : TlsfState.binOf T n
        = (TlsfState.mappingInsert T n).1 * T.slCount + (TlsfState.mappingInsert T n).2
      ∧ (TlsfState.mappingInsert T n).2 < T.slCount :=
  ⟨rfl, (TlsfState.binOf_eq large).2⟩

theorem BinBits.congr {bins : Nat → List Nat} (h : BinBits s bins)
    (second : s'.slBitmap = s.slBitmap) (first : s'.flBitmap = s.flBitmap)
    : BinBits s' bins := by
  unfold BinBits
  rw [second, first]
  exact h

theorem TlsfView.take_granted (known : v.block x = some (.free, n))
    : (v.take T x n).granted = v.granted :=
  put_granted_loose (v := v) (x := x) (by rw [known]; rfl) rfl

/-- A free block is in the bin of its size. -/
theorem TlsfRep.mem_bins (h : TlsfRep limit s v) (known : v.block x = some (.free, n))
    : x ∈ v.bins (TlsfState.binOf T n) :=
  (h.binned _ x).mpr ⟨n, known, rfl⟩

/-- What has to hold of a state in which a free block was taken out of its bin. -/
theorem TlsfRep.take (h : TlsfRep limit s v) (known : v.block x = some (.free, n))
    (sheets : s'.sheets = s.sheets) (blocks : SameBlocks s s')
    (marks : ∀ y, InSheets T s.sheets y → s'.markBit y = s.markBit y)
    (list : Linked nullOff s'.nextFree s'.prevFree (s'.heads (TlsfState.binOf T n))
      ((v.bins (TlsfState.binOf T n)).erase x))
    (others : ∀ i ≠ TlsfState.binOf T n,
      Linked nullOff s'.nextFree s'.prevFree (s'.heads i) (v.bins i))
    (bits : BinBits s' (v.take T x n).bins)
    : TlsfRep limit s' (v.take T x n) := by
  have unmarked : s.markBit x = false := h.markBit_known known
  refine h.relabel known sheets blocks ?_ (fun settled => absurd settled (by decide))
    (fun settled => absurd settled (by decide)) ?_ ?_ bits
  · intro y _ inside
    rw [marks y inside]
    split
    · rename_i same
      rw [same, unmarked]
      rfl
    · rfl
  · intro i
    by_cases same : i = TlsfState.binOf T n
    · subst same
      simpa [TlsfView.take] using list
    · simpa [TlsfView.take, same] using others i same
  · intro i y
    have nodup := (h.lists (TlsfState.binOf T n)).nodup
    simp only [Function.update_apply]
    by_cases same : i = TlsfState.binOf T n
    · subst same
      simp only [if_true, nodup.mem_erase_iff, h.binned]
      by_cases here : y = x
      · simp [here]
      · simp [here]
    · simp only [same, if_false, h.binned]
      by_cases here : y = x
      · subst here
        simp [known, Ne.symm same]
      · simp [here]

/-- The bits after taking a block. -/
theorem TlsfRep.take_bits (h : TlsfRep limit s v) (known : v.block x = some (.free, n))
    {headNow : Nat}
    (empty : headNow = nullOff ↔ (v.bins (TlsfState.binOf T n)).erase x = [])
    (second : s'.slBitmap = (s.clearIfEmpty (TlsfState.binOf T n) headNow).slBitmap)
    (first : s'.flBitmap = (s.clearIfEmpty (TlsfState.binOf T n) headNow).flBitmap)
    : BinBits s' (v.take T x n).bins := by
  obtain ⟨levels, small⟩ := binOf_levels (T := T) (h.shape known).2.2
  refine BinBits.congr ?_ second first
  rw [levels]
  refine h.bits.clearIfEmpty small ?_ ?_ ?_
  · rw [← levels]
    exact List.ne_nil_of_mem (h.mem_bins known)
  · rw [← levels, empty]
    simp [TlsfView.take]
  · intro j ne
    rw [← levels] at ne
    simp [TlsfView.take, ne]

/-- Popping the front block of a bin, as `allocate` does. -/
theorem TlsfRep.popFront {t : TlsfState T} (h : TlsfRep limit s v)
    (known : v.block x = some (.free, n))
    (front : s.heads (TlsfState.binOf T n) = x)
    (mem : t.mem = s.mem) (base : t.rbase = s.rbase) (sheets : t.sheets = s.sheets)
    (heads : t.heads = Function.update s.heads (TlsfState.binOf T n) (s.nextFree x))
    (second : t.slBitmap
      = (s.clearIfEmpty (TlsfState.binOf T n) (s.nextFree x)).slBitmap)
    (first : t.flBitmap = (s.clearIfEmpty (TlsfState.binOf T n) (s.nextFree x)).flBitmap)
    : TlsfRep limit t (v.take T x n) ∧ SameBlocks s t := by
  have words := TlsfState.words_of_mem mem base
  have blocks : SameBlocks s t := fun y _ => ⟨congrFun words.1 y, congrFun words.2.1 y⟩
  have member := h.mem_bins known
  have list := (h.lists (TlsfState.binOf T n)).erase_front (front ▸ member)
    (fun _ _ _ => rfl) (fun _ _ _ => rfl)
  rw [front] at list
  refine ⟨h.take known sheets blocks ?_ ?_ ?_ ?_, blocks⟩
  · intro y _
    exact TlsfState.markBit_congr base (by rw [mem])
  · rw [words.2.2.1, words.2.2.2, heads, Function.update_self]
    exact list
  · intro i ne
    rw [words.2.2.1, words.2.2.2, heads, Function.update_of_ne ne]
    exact h.lists i
  · exact h.take_bits known list.chain.front_null second first

/-- What `remove_free` never changes. -/
theorem TlsfState.removeFree_static (s : TlsfState T) (x n : Nat)
    : (s.removeFree x n).rbase = s.rbase ∧ (s.removeFree x n).sheets = s.sheets
      ∧ (s.removeFree x n).count = s.count
      ∧ (s.removeFree x n).allocatedBytes = s.allocatedBytes :=
  ⟨rfl, rfl, rfl, rfl⟩

/-- What `remove_free` stores for a block in front of its bin. -/
theorem TlsfState.removeFree_front (front : s.heads (binOf T n) = x)
    : (s.removeFree x n).mem = s.mem
      ∧ (s.removeFree x n).heads = Function.update s.heads (binOf T n) (s.nextFree x)
      ∧ (s.removeFree x n).slBitmap = (s.clearIfEmpty (binOf T n) (s.nextFree x)).slBitmap
      ∧ (s.removeFree x n).flBitmap = (s.clearIfEmpty (binOf T n) (s.nextFree x)).flBitmap := by
  unfold binOf at front ⊢
  simp [removeFree, front, clearIfEmpty, setPrevFreeOrScratch]

/-- What `remove_free` stores for a block behind the front: its neighbours are joined. -/
theorem TlsfState.removeFree_inner (inner : s.heads (binOf T n) ≠ x)
    : (s.removeFree x n).mem
        = ((s.setNextFree (s.prevFree x) (s.nextFree x)).setPrevFreeOrScratch (s.nextFree x)
            (s.prevFree x)).mem
      ∧ (s.removeFree x n).heads = s.heads
      ∧ (s.removeFree x n).slBitmap
        = (s.clearIfEmpty (binOf T n) (s.heads (binOf T n))).slBitmap
      ∧ (s.removeFree x n).flBitmap
        = (s.clearIfEmpty (binOf T n) (s.heads (binOf T n))).flBitmap := by
  unfold binOf at inner ⊢
  by_cases last : s.nextFree x = nullOff
  · simp [removeFree, inner, clearIfEmpty, setPrevFreeOrScratch, last, setNextFree]
  · simp [removeFree, inner, clearIfEmpty, setPrevFreeOrScratch, last, setNextFree, setPrevFree]

end Taking

section Unlinking

variable {T : TlsfParams} {s s' : TlsfState T} {v : TlsfView} {limit x n i w : Nat}

/-- Stores to links keep the bitmaps. -/
theorem markBit_setNextFree (fit : SheetsFit T limit s.sheets) {a y : Nat}
    (header : HeaderAt T s.sheets a) (inside : InSheets T s.sheets y)
    : (s.setNextFree a w).markBit y = s.markBit y :=
  TlsfState.markBit_storeWord (i := 8) (w := w) fit header (by omega) inside rfl rfl

theorem markBit_setPrevFreeOrScratch (fit : SheetsFit T limit s.sheets) {a y : Nat}
    (header : a = nullOff ∨ HeaderAt T s.sheets a) (inside : InSheets T s.sheets y)
    : (s.setPrevFreeOrScratch a w).markBit y = s.markBit y := by
  by_cases null : a = nullOff
  · exact TlsfState.markBit_congr rfl (by simp [TlsfState.setPrevFreeOrScratch, null])
  · exact TlsfState.markBit_storeWord (i := 12) (w := w) fit (header.resolve_left null)
      (by omega) inside rfl (by simp [TlsfState.setPrevFreeOrScratch, TlsfState.setPrevFree, null])

/-- The headers and the marks after the block at `x` was linked in front of the one at `y`, if
that is one.
-/
theorem TlsfState.joined_words {t : TlsfState T} {y : Nat}
    (mem : t.mem = ((s.setNextFree x y).setPrevFreeOrScratch y x).mem) (base : t.rbase = s.rbase)
    (fit : SheetsFit T limit s.sheets) (before : HeaderAt T s.sheets x)
    (after : y = nullOff ∨ HeaderAt T s.sheets y)
    : (∀ z, 16 ∣ z → t.nextFree z = if z = x then y else s.nextFree z)
      ∧ (∀ z, 16 ∣ z → t.prevFree z = if y ≠ nullOff ∧ z = y then x else s.prevFree z)
      ∧ SameBlocks s t ∧ ∀ z, InSheets T s.sheets z → t.markBit z = s.markBit z := by
  have limit_le := fit.limit_le
  have word : u32 = 4294967296 := rfl
  have xFits : x < u32 := by
    have := (before.lt fit).1
    omega
  have yFits : y < u32 := by
    rcases after with null | header
    · have value : nullOff = 4294967295 := rfl
      omega
    · have := (header.lt fit).1
      omega
  have words := words_of_mem mem base
  have first := fun {z : Nat} (unit : 16 ∣ z) =>
    setNextFree_words (s := s) before.1 unit yFits
  have second := fun {z : Nat} (unit : 16 ∣ z) =>
    setPrevFreeOrScratch_words (s := s.setNextFree x y) (after.imp_right And.left) unit xFits
  refine ⟨fun z unit => ?_, fun z unit => ?_, fun z header => ?_, fun z inside => ?_⟩
  · rw [words.2.2.1, (second unit).2.2.1, (first unit).2.2.1]
  · rw [words.2.2.2, (second unit).2.2.2, (first unit).2.2.2]
  · rw [words.1, words.2.1, (second header.1).1, (second header.1).2.1, (first header.1).1,
      (first header.1).2.1]
    exact ⟨rfl, rfl⟩
  · refine (markBit_congr (s := (s.setNextFree x y).setPrevFreeOrScratch y x) base
      (by rw [mem])).trans ?_
    refine (markBit_setPrevFreeOrScratch (s := s.setNextFree x y) fit after inside).trans ?_
    exact markBit_setNextFree fit before inside

/-- The footprint of a store to `prev_free`. -/
theorem within_setPrevFreeOrScratch {writable : Nat → Prop} {m : Memory} {a : Nat}
    (before : Memory.Within writable m s.mem)
    (cells : a ≠ nullOff → ∀ b, s.rbase + a ≤ b → b < s.rbase + a + 16 → writable b)
    : Memory.Within writable m (s.setPrevFreeOrScratch a w).mem := by
  by_cases null : a = nullOff
  · simpa [TlsfState.setPrevFreeOrScratch, null] using before
  · simpa [TlsfState.setPrevFreeOrScratch, TlsfState.setPrevFree, null]
      using before.trans (within_headerWord (by omega) (cells null))

/-- The header of a free block may be written. -/
theorem TlsfRep.loose_listed (h : TlsfRep limit s v) (member : x ∈ v.bins i) {a : Nat}
    (lo : s.rbase + x ≤ a) (hi : a < s.rbase + x + 16)
    : TlsfLoose T s.rbase s.sheets v.granted a := by
  obtain ⟨n, found, _⟩ := (h.binned i x).mp member
  exact (h.headerAt found).1.loose (h.outside found (by omega) (by omega) (Or.inl rfl)) lo hi

/-- `remove_free` takes a free block out of its bin. -/
theorem TlsfRep.removeFree (h : TlsfRep limit s v) (known : v.block x = some (.free, n))
    : TlsfRep limit (s.removeFree x n) (v.take T x n)
      ∧ TlsfMove s v (s.removeFree x n) (v.take T x n) ∧ SameBlocks s (s.removeFree x n) := by
  have member := h.mem_bins known
  have granted := TlsfView.take_granted (T := T) known
  obtain ⟨base, sheets, count, bytes⟩ := s.removeFree_static x n
  by_cases front : s.heads (TlsfState.binOf T n) = x
  · obtain ⟨mem, heads, second, first⟩ := TlsfState.removeFree_front front
    obtain ⟨rep, blocks⟩ := h.popFront known front mem base sheets heads second first
    refine ⟨rep, ⟨base, sheets, count, bytes, granted, ?_⟩, blocks⟩
    rw [mem]
    exact Memory.Within.refl _ _
  · obtain ⟨mem, heads, second, first⟩ := TlsfState.removeFree_inner front
    obtain ⟨prevMember, _⟩ := (h.lists _).prev_mem member (Ne.symm front)
    have before := h.listed_headerAt prevMember
    have after := (h.next_listed member).imp_right h.listed_headerAt
    obtain ⟨next, prev, blocks, marks⟩ := TlsfState.joined_words mem base h.fit before after
    refine ⟨h.take known sheets blocks marks ?_ ?_ ?_,
      ⟨base, sheets, count, bytes, granted, ?_⟩, blocks⟩
    · rw [heads]
      refine (h.lists _).erase_inner member (Ne.symm front) ?_ ?_
      · exact fun y hy _ => next y (h.listed_headerAt hy).1
      · intro y hy _
        have hy := List.mem_of_mem_tail hy
        rw [prev y (h.listed_headerAt hy).1]
        by_cases same : y = s.nextFree x
        · rw [if_pos ⟨same ▸ (h.listed_headerAt hy).lt h.fit |>.2, same⟩, if_pos same]
        · rw [if_neg (fun both => same both.2), if_neg same]
    · intro i ne
      rw [heads]
      refine (h.lists i).congr ?_ ?_
      · intro y hy
        rw [next y (h.listed_headerAt hy).1, if_neg]
        rintro rfl
        exact ne (h.listed_unique hy prevMember)
      · intro y hy
        have hy := List.mem_of_mem_tail hy
        rw [prev y (h.listed_headerAt hy).1, if_neg]
        rintro ⟨live, rfl⟩
        exact ne (h.listed_unique hy ((h.next_listed member).resolve_left live))
    · refine h.take_bits known ?_ second first
      have live : s.heads (TlsfState.binOf T n) ≠ nullOff := by
        rw [Ne, (h.lists _).chain.front_null]
        exact List.ne_nil_of_mem member
      have stays : s.heads (TlsfState.binOf T n)
          ∈ (v.bins (TlsfState.binOf T n)).erase x :=
        (List.mem_erase_of_ne front).mpr ((h.front _).resolve_left live)
      simp [live, List.ne_nil_of_mem stays]
    · rw [mem]
      refine within_setPrevFreeOrScratch (s := s.setNextFree (s.prevFree x) (s.nextFree x))
        (within_headerWord (by omega) ?_) ?_
      · exact fun b lo hi => h.loose_listed prevMember lo hi
      · intro live b lo hi
        exact h.loose_listed ((h.next_listed member).resolve_left live) lo hi

end Unlinking

-----------------------------------------------------------------------------------------
-- Putting a held block into its bin
-----------------------------------------------------------------------------------------

/-- The held block at `x` becomes free, in front of its bin. -/
def TlsfView.give (T : TlsfParams) (v : TlsfView) (x n : Nat) : TlsfView where
  block := Function.update v.block x (some (.free, n))
  bins := Function.update v.bins (TlsfState.binOf T n) (x :: v.bins (TlsfState.binOf T n))

section Giving

variable {T : TlsfParams} {s s' : TlsfState T} {v : TlsfView} {limit x n : Nat}

theorem TlsfView.give_granted (known : v.block x = some (.held, n))
    : (v.give T x n).granted = v.granted :=
  put_granted_loose (v := v) (x := x) (by rw [known]; rfl) rfl

/-- The bits after a bin got a member. -/
theorem BinBits.insert {bins : Nat → List Nat} (h : BinBits s bins) (s' : TlsfState T)
    (fl : Nat) {sl : Nat}
    (small : sl < T.slCount) (x : Nat)
    (second : s'.slBitmap = Function.update s.slBitmap fl (s.slBitmap fl ||| 1 <<< sl))
    (first : s'.flBitmap = s.flBitmap ||| 1 <<< fl)
    : BinBits s' (Function.update bins (fl * T.slCount + sl) (x :: bins (fl * T.slCount + sl)))
      := by
  constructor
  · intro f j
    rw [second]
    by_cases same : f * T.slCount + j = fl * T.slCount + sl ∧ j < T.slCount
    · obtain ⟨eq, small'⟩ := same
      obtain ⟨rfl, rfl⟩ := level_inj small' small eq
      simp [small', Nat.one_shiftLeft]
    · have other : j < T.slCount → f * T.slCount + j ≠ fl * T.slCount + sl :=
        fun small' eq => same ⟨eq, small'⟩
      have bit : (Function.update s.slBitmap fl (s.slBitmap fl ||| 1 <<< sl) f).testBit j
          = (s.slBitmap f).testBit j := by
        by_cases level : f = fl
        · subst level
          have ne : sl ≠ j := by
            rintro rfl
            exact other small rfl
          simp [Nat.one_shiftLeft, ne]
        · simp [level]
      rw [bit, h.1 f j]
      constructor
      · rintro ⟨small', live⟩
        rw [Function.update_of_ne (other small')]
        exact ⟨small', live⟩
      · rintro ⟨small', live⟩
        rw [Function.update_of_ne (other small')] at live
        exact ⟨small', live⟩
  · intro f
    rw [second, first]
    have old := h.2 f
    by_cases level : f = fl
    · subst level
      simp [Nat.one_shiftLeft]
    · simpa [Nat.one_shiftLeft, Nat.testBit_two_pow, level, Ne.symm level] using old

/-- What `insert_free` stores. -/
theorem TlsfState.insertFree_stores (s : TlsfState T) (x n : Nat)
    : (s.insertFree x n).mem
        = ((s.setNextFree x (s.heads (binOf T n))).setPrevFreeOrScratch (s.heads (binOf T n)) x).mem
      ∧ (s.insertFree x n).heads = Function.update s.heads (binOf T n) x
      ∧ (s.insertFree x n).rbase = s.rbase ∧ (s.insertFree x n).sheets = s.sheets
      ∧ (s.insertFree x n).count = s.count
      ∧ (s.insertFree x n).allocatedBytes = s.allocatedBytes :=
  ⟨rfl, rfl, rfl, rfl, rfl, rfl⟩

/-- `insert_free` puts a held block with a valid header into its bin. -/
theorem TlsfRep.insertFree (h : TlsfRep limit s v) (known : v.block x = some (.held, n))
    (size : s.bsizeFlags x = n) (back : s.prevPhys (x + n) = x)
    : TlsfRep limit (s.insertFree x n) (v.give T x n)
      ∧ TlsfMove s v (s.insertFree x n) (v.give T x n) ∧ SameBlocks s (s.insertFree x n) := by
  have granted := TlsfView.give_granted (T := T) known
  obtain ⟨mem, heads, base, sheets, count, bytes⟩ := s.insertFree_stores x n
  have here := (h.headerAt known).1
  have headHeader : s.heads (TlsfState.binOf T n) = nullOff
      ∨ HeaderAt T s.sheets (s.heads (TlsfState.binOf T n)) :=
    (h.front _).imp_right h.listed_headerAt
  have live := (here.lt h.fit).2
  have fresh := fun i => h.not_listed known (by decide) i
  obtain ⟨next, prev, blocks, marks⟩ := TlsfState.joined_words mem base h.fit here headHeader
  have unmarked : s.markBit x = false := h.markBit_known known
  have small := (binOf_levels (T := T) (h.shape known).2.2).2
  have notFront : ∀ i y, y ∈ (v.bins i).tail →
      ¬(s.heads (TlsfState.binOf T n) ≠ nullOff ∧ y = s.heads (TlsfState.binOf T n)) := by
    rintro i _ member ⟨nonnull, rfl⟩
    have same := h.listed_unique (List.mem_of_mem_tail member)
      ((h.front _).resolve_left nonnull)
    obtain ⟨rest, eq, _⟩ := (h.lists _).chain.eq_cons nonnull
    have nodup := (h.lists (TlsfState.binOf T n)).nodup
    rw [same, eq] at member
    rw [eq] at nodup
    exact (List.nodup_cons.mp nodup).1 member
  refine ⟨h.relabel known sheets blocks ?_ (fun _ => size) (fun _ => back) ?_ ?_ ?_,
    ⟨base, sheets, count, bytes, granted, ?_⟩, blocks⟩
  · intro y _ inside
    rw [marks y inside]
    split
    · rename_i eq
      rw [eq, unmarked]
      rfl
    · rfl
  · intro i
    rw [heads]
    by_cases same : i = TlsfState.binOf T n
    · subst same
      rw [Function.update_self, Function.update_self]
      refine (h.lists _).push (fresh _) live ?_ ?_ ?_ ?_
      · rw [next x here.1, if_pos rfl]
      · intro y member
        have ne : y ≠ x := fun eq => fresh _ (eq ▸ member)
        rw [next y (h.listed_headerAt member).1, if_neg ne]
      · intro nonnull
        rw [prev _ (headHeader.resolve_left nonnull).1, if_pos ⟨nonnull, rfl⟩]
      · intro y member
        rw [prev y (h.listed_headerAt (List.mem_of_mem_tail member)).1,
          if_neg (notFront _ y member)]
    · rw [Function.update_of_ne same, Function.update_of_ne same]
      refine (h.lists i).congr ?_ ?_
      · intro y member
        have ne : y ≠ x := fun eq => fresh _ (eq ▸ member)
        rw [next y (h.listed_headerAt member).1, if_neg ne]
      · intro y member
        rw [prev y (h.listed_headerAt (List.mem_of_mem_tail member)).1,
          if_neg (notFront i y member)]
  · intro i y
    by_cases same : i = TlsfState.binOf T n
    · subst same
      simp only [Function.update_self, List.mem_cons, h.binned]
      by_cases eq : y = x
      · simp [eq]
      · simp [eq]
    · rw [Function.update_of_ne same, h.binned]
      by_cases eq : y = x
      · subst eq
        simp [known, Ne.symm same]
      · simp [eq]
  · exact h.bits.insert (s.insertFree x n) (TlsfState.mappingInsert T n).1 small x rfl rfl
  · rw [mem]
    have outside := h.outside known (Nat.le_refl x) (Nat.le_add_right x n) (Or.inl rfl)
    refine within_setPrevFreeOrScratch (s := s.setNextFree x (s.heads (TlsfState.binOf T n)))
      (within_headerWord (by omega) ?_) ?_
    · exact fun b lo hi => here.loose outside lo hi
    · intro nonnull b lo hi
      exact h.loose_listed ((h.front _).resolve_left nonnull) lo hi

end Giving

end Bbmalloc
