import Bbmalloc.Foundations.DyadicBlocks
import Bbmalloc.Model.FreeList

/-! What the link and tag stores of the buddy list change: one word of one block, or one
tag. Links of distinct blocks never overlap, and the tag array lies outside the data area.
-/

namespace Bbmalloc

open Bbmalloc.Foundations

-----------------------------------------------------------------------------------------
-- Arithmetic of the settings
-----------------------------------------------------------------------------------------

section Settings

variable (P : BuddyParams)

/-- A pointer fills `ptrBytes` bytes exactly. -/
theorem BuddyParams.word_eq : P.word = 256 ^ P.ptrBytes := by
  rcases P.wordBits_ok with h | h <;> simp [word, ptrBytes, h]

/-- The two link words fit in a minimum block. -/
theorem BuddyParams.links_fit : 2 * P.ptrBytes ≤ P.minBlock := P.min_holds_links

theorem BuddyParams.ptrBytes_pos : 0 < P.ptrBytes := by
  rcases P.wordBits_ok with h | h <;> simp [ptrBytes, h]

theorem BuddyParams.minBlock_pos : 0 < P.minBlock := Nat.two_pow_pos _

/-- Order sizes are powers of two. -/
theorem BuddyParams.orderSize_eq (o : Nat) : P.orderSize o = 2 ^ (P.log2Min + o) := by
  rw [orderSize, minBlock, Nat.shiftLeft_eq, ← pow_add]

theorem BuddyParams.orderSize_units (o : Nat) : P.orderSize o = 2 ^ o * P.minBlock := by
  rw [P.orderSize_eq, minBlock, ← pow_add, Nat.add_comm]

theorem BuddyParams.orderSize_pos (o : Nat) : 0 < P.orderSize o := by
  rw [P.orderSize_eq]
  exact Nat.two_pow_pos _

theorem BuddyParams.minBlock_dvd_orderSize (o : Nat) : P.minBlock ∣ P.orderSize o := by
  rw [P.orderSize_eq, minBlock]
  exact Nat.pow_dvd_pow 2 (Nat.le_add_right _ _)

/-- The tag index of an offset of whole minimum blocks. -/
theorem BuddyParams.shift_eq (x : Nat) : x >>> P.log2Min = x / P.minBlock :=
  Nat.shiftRight_eq_div_pow x P.log2Min

end Settings

-----------------------------------------------------------------------------------------
-- Layout of a set-up list
-----------------------------------------------------------------------------------------

/-- How the members that set-up assigns are related: a data area of whole minimum blocks
inside the raw range, and a tag array of one byte for each of them outside the data area.
-/
structure BuddyGeometry.Sound (P : BuddyParams) (g : BuddyGeometry) : Prop where
  base_pos : 0 < g.base
  count_pos : 0 < g.tagCount
  total_eq : g.total = g.tagCount * P.minBlock
  total_le : g.total ≤ BuddyParams.maxTotal
  end_lt : g.base + g.total < P.word
  order_eq : g.maxOrder = fls g.tagCount + 1
  order_le : g.maxOrder ≤ P.Mx
  tags_apart : g.blockTags + g.tagCount ≤ g.base ∨ g.base + g.total ≤ g.blockTags
  raw_le : g.rawMem ≤ g.base
  end_le : g.base + g.total ≤ g.rawMem + g.rawLen
  aligned : g.baseAlign ∣ g.base
  align_eq : ∃ k, g.baseAlign = 2 ^ k ∧ P.log2Min ≤ k
  tags_at : (g.extTags = 0 ∧ g.blockTags = g.rawMem)
    ∨ (g.extTags ≠ 0 ∧ g.blockTags = g.extTags ∧ g.tagCount ≤ g.extCap)

/-- `a` is the address of a minimum block of the data area. -/
def BuddyGeometry.Node (P : BuddyParams) (g : BuddyGeometry) (a : Nat) : Prop :=
  ∃ x, a = g.base + x ∧ P.minBlock ∣ x ∧ x < g.total

section Layout

variable {P : BuddyParams} {g : BuddyGeometry}

theorem BuddyGeometry.Sound.total_dvd (h : g.Sound P) : P.minBlock ∣ g.total := by
  rw [h.total_eq]
  exact Nat.dvd_mul_left _ _

/-- A block offset below the total leaves room for a minimum block. -/
theorem BuddyGeometry.Sound.unit_le (h : g.Sound P) {x : Nat} (unit : P.minBlock ∣ x)
    (inside : x < g.total)
    : x + P.minBlock ≤ g.total :=
  dvd_add_le unit h.total_dvd inside

/-- The tag index of a block offset is an index of the tag array. -/
theorem BuddyGeometry.Sound.index_lt (h : g.Sound P) {x : Nat} (inside : x < g.total)
    : x >>> P.log2Min < g.tagCount := by
  rw [P.shift_eq, Nat.div_lt_iff_lt_mul P.minBlock_pos, ← h.total_eq]
  exact inside

/-- Block offsets with one tag index are equal. -/
theorem BuddyParams.index_inj (P : BuddyParams) {x y : Nat} (hx : P.minBlock ∣ x)
    (hy : P.minBlock ∣ y) (same : x >>> P.log2Min = y >>> P.log2Min)
    : x = y := by
  obtain ⟨q, rfl⟩ := hx
  obtain ⟨p, rfl⟩ := hy
  simp only [P.shift_eq, Nat.mul_div_cancel_left _ P.minBlock_pos] at same
  rw [same]

theorem BuddyGeometry.Sound.node (_ : g.Sound P) {x : Nat} (unit : P.minBlock ∣ x)
    (inside : x < g.total)
    : g.Node P (g.base + x) :=
  ⟨x, rfl, unit, inside⟩

/-- A node is a non-null word with a minimum block of the data area behind it. -/
theorem BuddyGeometry.Node.bounds (h : g.Sound P) {a : Nat} (node : g.Node P a)
    : 0 < a ∧ g.base ≤ a ∧ a + P.minBlock ≤ g.base + g.total ∧ a < P.word := by
  obtain ⟨x, rfl, unit, inside⟩ := node
  have room := h.unit_le unit inside
  have positive := h.base_pos
  have fits := h.end_lt
  omega

/-- Distinct nodes are a minimum block apart. -/
theorem BuddyGeometry.Node.apart {a b : Nat} (ha : g.Node P a) (hb : g.Node P b) (ne : a ≠ b)
    : a + P.minBlock ≤ b ∨ b + P.minBlock ≤ a := by
  obtain ⟨x, rfl, ⟨q, rfl⟩, _⟩ := ha
  obtain ⟨y, rfl, ⟨p, rfl⟩, _⟩ := hb
  rcases Nat.lt_trichotomy q p with lt | rfl | gt
  · have := Nat.mul_le_mul_left P.minBlock (Nat.succ_le_of_lt lt)
    rw [Nat.mul_succ] at this
    omega
  · exact (ne rfl).elim
  · have := Nat.mul_le_mul_left P.minBlock (Nat.succ_le_of_lt gt)
    rw [Nat.mul_succ] at this
    omega

end Layout

-----------------------------------------------------------------------------------------
-- Effect of single stores
-----------------------------------------------------------------------------------------

namespace BuddyState

variable {P : BuddyParams} {s : BuddyState P} {a b v i j : Nat}

theorem next_setNext (ha : s.Node P a) (hb : s.Node P b) (fits : v < P.word)
    : (s.setNext a v).next b = if b = a then v else s.next b := by
  split
  · rename_i eq
    subst eq
    exact Memory.load_storeWord _ (P.word_eq ▸ fits)
  · rename_i ne
    have apart := ha.apart hb (Ne.symm ne)
    have links := P.links_fit
    exact Memory.load_storeWord_of_disjoint _ (by omega)

theorem next_setPrev (ha : s.Node P a) (hb : s.Node P b)
    : (s.setPrev a v).next b = s.next b := by
  have links := P.links_fit
  by_cases eq : b = a
  · subst eq
    exact Memory.load_storeWord_of_disjoint _ (by omega)
  · have apart := ha.apart hb (Ne.symm eq)
    exact Memory.load_storeWord_of_disjoint _ (by omega)

theorem prev_setPrev (ha : s.Node P a) (hb : s.Node P b) (fits : v < P.word)
    : (s.setPrev a v).prev b = if b = a then v else s.prev b := by
  split
  · rename_i eq
    subst eq
    exact Memory.load_storeWord _ (P.word_eq ▸ fits)
  · rename_i ne
    have apart := ha.apart hb (Ne.symm ne)
    have links := P.links_fit
    exact Memory.load_storeWord_of_disjoint _ (by omega)

theorem prev_setNext (ha : s.Node P a) (hb : s.Node P b)
    : (s.setNext a v).prev b = s.prev b := by
  have links := P.links_fit
  by_cases eq : b = a
  · subst eq
    exact Memory.load_storeWord_of_disjoint _ (by omega)
  · have apart := ha.apart hb (Ne.symm eq)
    exact Memory.load_storeWord_of_disjoint _ (by omega)

theorem tag_setTag (fits : v < 256)
    : (s.setTag i v).tag j = if j = i then v else s.tag j := by
  unfold tag setTag
  split
  · rename_i eq
    subst eq
    simp only [Memory.store_self, UInt8.toNat_ofNat']
    omega
  · rename_i ne
    simp only
    rw [Memory.store_of_ne _ _ (by omega)]

theorem tag_setNext (h : s.Sound P) (ha : s.Node P a) (hi : i < s.tagCount)
    : (s.setNext a v).tag i = s.tag i := by
  have bounds := ha.bounds h
  have apart := h.tags_apart
  have links := P.links_fit
  unfold tag setNext
  simp only
  rw [Memory.storeWord_outside _ (by omega)]

theorem tag_setPrev (h : s.Sound P) (ha : s.Node P a) (hi : i < s.tagCount)
    : (s.setPrev a v).tag i = s.tag i := by
  have bounds := ha.bounds h
  have apart := h.tags_apart
  have links := P.links_fit
  unfold tag setPrev
  simp only
  rw [Memory.storeWord_outside _ (by omega)]

theorem next_setTag (h : s.Sound P) (hi : i < s.tagCount) (hb : s.Node P b)
    : (s.setTag i v).next b = s.next b := by
  have bounds := hb.bounds h
  have apart := h.tags_apart
  have links := P.links_fit
  exact Memory.load_store_of_disjoint _ (by omega)

theorem prev_setTag (h : s.Sound P) (hi : i < s.tagCount) (hb : s.Node P b)
    : (s.setTag i v).prev b = s.prev b := by
  have bounds := hb.bounds h
  have apart := h.tags_apart
  have links := P.links_fit
  exact Memory.load_store_of_disjoint _ (by omega)

theorem next_lt (s : BuddyState P) (a : Nat) : s.next a < P.word := by
  rw [P.word_eq]
  exact Memory.load_lt _ _ _

theorem prev_lt (s : BuddyState P) (a : Nat) : s.prev a < P.word := by
  rw [P.word_eq]
  exact Memory.load_lt _ _ _

/-- A null or node address passes the link check. -/
theorem linkValid_of_node (node : a = 0 ∨ s.Node P a)
    : s.linkValid a = true := by
  rcases node with rfl | ⟨x, rfl, unit, inside⟩
  · simp [linkValid]
  · have diff : wrapSub P.word (s.base + x) s.base = x := by
      rw [wrapSub_of_le (by omega)]
      omega
    have low : x &&& (P.minBlock - 1) = 0 := by
      rw [BuddyParams.minBlock, and_low]
      exact Nat.mod_eq_zero_of_dvd unit
    simp [linkValid, diff, low, inside]

end BuddyState

end Bbmalloc
