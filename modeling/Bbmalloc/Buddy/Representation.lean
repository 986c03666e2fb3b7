import Bbmalloc.Foundations.IntrusiveList
import Bbmalloc.Buddy.Links

/-! The abstract buddy list: a partition of the data area into blocks of five kinds, and
the order of the free lists and of the order cache. `BuddyRep` says that a concrete state,
with its tags, link words and counter, represents such a view.
-/

namespace Bbmalloc

open Bbmalloc.Foundations

/-- What a block of the data area is used for. A held block belongs to the operation that
is running: it is in no list and its tag may be stale.
-/
inductive TileKind
  | free
  | alloc
  | sheet
  | cached
  | held
  deriving DecidableEq, Repr

/-- A block of the partition: its kind and its order. -/
abbrev Tile := TileKind × Nat

/-- The abstract state: the block that starts at each offset, and the node addresses of
each free list and cache list, front first.
-/
structure BuddyView where
  tile : Nat → Option Tile
  lists : Nat → List Nat
  cached : Nat → List Nat

/-- The tag byte of an offset where a block of the given kind, or none, starts. -/
def tileTag : Option Tile → Option Nat
  | some (.free, o) => some (tagFree ||| o)
  | some (.alloc, o) => some (tagAlloc ||| o)
  | some (.sheet, o) => some (tagSheet ||| o)
  | some (.cached, _) => some tagNone
  | some (.held, _) => none
  | none => some tagNone

/-- The bytes a block adds to `allocated_bytes`. -/
def ownedSize (P : BuddyParams) : Tile → Nat
  | (.alloc, o) => P.orderSize o
  | (.sheet, o) => P.orderSize o
  | _ => 0

/-- `lists` holds exactly the addresses of the blocks of kind `k`, sorted by order. -/
def Members (base : Nat) (tile : Nat → Option Tile) (k : TileKind) (lists : Nat → List Nat)
    : Prop :=
  ∀ o a, a ∈ lists o ↔ ∃ x, a = base + x ∧ tile x = some (k, o)

/-- The tag array shows the partition. -/
def TagsFit {P : BuddyParams} (s : BuddyState P) (tile : Nat → Option Tile) : Prop :=
  ∀ x, P.minBlock ∣ x → x < s.total → ∀ t, tileTag (tile x) = some t →
    s.tag (x >>> P.log2Min) = t

/-- The concrete state `s` represents the view `v`; the free mask and the cache counters,
which lag behind inside an operation, are not part of it.
-/
structure BuddyRep {P : BuddyParams} (s : BuddyState P) (v : BuddyView) : Prop where
  geometry : s.Sound P
  tiling : DyadicTiling P.log2Min s.maxOrder s.total v.tile
  tags : TagsFit s v.tile
  lists : ∀ o, Linked 0 s.next s.prev (s.freeLists o) (v.lists o)
  listed : Members s.base v.tile .free v.lists
  cache : ∀ o, Chain 0 s.next (s.cacheHead o) (v.cached o)
  cacheNodup : ∀ o, (v.cached o).Nodup
  inCache : Members s.base v.tile .cached v.cached
  counter : s.allocatedBytes = blockSum (ownedSize P) s.total v.tile

/-- Bit `o` of the mask says whether list `o` is non-empty. -/
def MaskFits {P : BuddyParams} (s : BuddyState P) (v : BuddyView) : Prop :=
  ∀ o, s.freeMask.testBit o = true ↔ v.lists o ≠ []

/-- The cache counters are the lengths of the cache lists, within the cap. -/
def CacheFits {P : BuddyParams} (s : BuddyState P) (v : BuddyView) : Prop :=
  ∀ o, s.cacheCount o = (v.cached o).length ∧ (v.cached o).length ≤ P.cacheCap

/-- Only the block at `x`, if any, is held. -/
def BuddyView.HeldOnly (v : BuddyView) (x : Nat) : Prop :=
  ∀ y o, v.tile y = some (.held, o) → y = x

/-- No block is held. -/
def BuddyView.NoneHeld (v : BuddyView) : Prop := ∀ y o, v.tile y ≠ some (.held, o)

-----------------------------------------------------------------------------------------
-- Tag bytes
-----------------------------------------------------------------------------------------

theorem tag_lt_256
    : ∀ o < 64, tagFree ||| o < 256 ∧ tagAlloc ||| o < 256 ∧ tagSheet ||| o < 256 := by
  decide

/-- A free tag names its order, and no other kind of block has one. -/
theorem free_tag_inj : ∀ o < 64, ∀ o' < 64, (tagFree ||| o = tagFree ||| o' → o = o')
    ∧ tagAlloc ||| o ≠ tagFree ||| o' ∧ tagSheet ||| o ≠ tagFree ||| o'
    ∧ tagNone ≠ tagFree ||| o' := by
  decide

/-- What `__order_at` and `is_sheet_at` read off the tag of each kind. -/
theorem tag_bits : ∀ o < 64,
    (tagAlloc ||| o) &&& tagOrder = o ∧ (tagSheet ||| o) &&& tagOrder = o
    ∧ (tagAlloc ||| o) &&& tagAlloc ≠ 0 ∧ (tagSheet ||| o) &&& tagAlloc ≠ 0
    ∧ (tagFree ||| o) &&& tagAlloc = 0
    ∧ (tagAlloc ||| o) &&& tagKind ≠ tagSheet ∧ (tagFree ||| o) &&& tagKind ≠ tagSheet
    ∧ (tagSheet ||| o) &&& tagKind = tagSheet
    ∧ (tagAlloc ||| o) ||| tagSheet = tagSheet ||| o
    ∧ (tagSheet ||| o) &&& (tagAlloc ||| tagOrder) = tagAlloc ||| o := by
  decide

theorem BuddyParams.word_cases (P : BuddyParams) : P.word = 2 ^ 32 ∨ P.word = 2 ^ 64 := by
  rcases P.wordBits_ok with bits | bits
  · exact Or.inl (by rw [BuddyParams.word, bits])
  · exact Or.inr (by rw [BuddyParams.word, bits])

theorem BuddyParams.word_large (P : BuddyParams) : 2 ^ 32 ≤ P.word := by
  rcases P.word_cases with word | word <;> rw [word]
  exact Nat.pow_le_pow_right (by decide) (by decide)

-----------------------------------------------------------------------------------------
-- Membership and tags under a change of one block
-----------------------------------------------------------------------------------------

section Updates

variable {base : Nat} {tile : Nat → Option Tile} {k : TileKind} {lists : Nat → List Nat}
  {x o : Nat} {b : Option Tile}

/-- A block that becomes one of kind `k` is added to its list. -/
theorem Members.add (h : Members base tile k lists) (new : ∀ o, tile x ≠ some (k, o))
    : Members base (Function.update tile x (some (k, o))) k
        (Function.update lists o ((base + x) :: lists o)) := by
  intro o' a
  have old := h o' a
  have only : ∀ y, Function.update tile x (some (k, o)) y = some (k, o')
      ↔ (y = x ∧ o' = o) ∨ tile y = some (k, o') := by
    intro y
    by_cases same : y = x
    · subst same
      have := new o'
      simp [this, eq_comm]
    · simp [same]
  simp only [only]
  by_cases same : o' = o
  · subst same
    simp only [Function.update_self, List.mem_cons, old, and_true]
    constructor
    · rintro (rfl | ⟨y, rfl, found⟩)
      · exact ⟨x, rfl, Or.inl rfl⟩
      · exact ⟨y, rfl, Or.inr found⟩
    · rintro ⟨y, rfl, rfl | found⟩
      · exact Or.inl rfl
      · exact Or.inr ⟨y, rfl, found⟩
  · simp only [Function.update_of_ne same, old, same, and_false, false_or]

/-- A block that stops being one of kind `k` is erased from its list. -/
theorem Members.remove (h : Members base tile k lists) (known : tile x = some (k, o))
    (nodup : (lists o).Nodup) (other : ∀ o, b ≠ some (k, o))
    : Members base (Function.update tile x b) k
        (Function.update lists o ((lists o).erase (base + x))) := by
  intro o' a
  have old := h o' a
  have only : ∀ y, Function.update tile x b y = some (k, o') ↔ y ≠ x ∧ tile y = some (k, o') := by
    intro y
    by_cases same : y = x
    · subst same
      simp [other o']
    · simp [same]
  simp only [only]
  by_cases same : o' = o
  · subst same
    simp only [Function.update_self, nodup.mem_erase_iff, old]
    constructor
    · rintro ⟨ne, y, rfl, found⟩
      exact ⟨y, rfl, fun eq => ne (by rw [eq]), found⟩
    · rintro ⟨y, rfl, ne, found⟩
      exact ⟨fun eq => ne (by omega), y, rfl, found⟩
  · simp only [Function.update_of_ne same, old]
    constructor
    · rintro ⟨y, rfl, found⟩
      refine ⟨y, rfl, ?_, found⟩
      rintro rfl
      rw [known] at found
      exact same (Prod.mk.inj (Option.some.inj found)).2.symm
    · rintro ⟨y, rfl, _, found⟩
      exact ⟨y, rfl, found⟩

/-- Changes among the other kinds leave the lists of kind `k` alone. -/
theorem Members.other (h : Members base tile k lists) (before : ∀ o, tile x ≠ some (k, o))
    (after : ∀ o, b ≠ some (k, o))
    : Members base (Function.update tile x b) k lists := by
  intro o' a
  rw [h o' a]
  have only : ∀ y, Function.update tile x b y = some (k, o') ↔ tile y = some (k, o') := by
    intro y
    by_cases same : y = x
    · subst same
      simp [before o', after o']
    · simp [same]
  simp only [only]

/-- The tag array shows a partition with one changed block, if that block's tag does. -/
theorem TagsFit.update {P : BuddyParams} {s u : BuddyState P} (h : TagsFit s tile)
    (sound : s.Sound P) (same : u.total = s.total) (unit : P.minBlock ∣ x)
    (others : ∀ i < s.tagCount, i ≠ x >>> P.log2Min → u.tag i = s.tag i)
    (here : ∀ t, tileTag b = some t → u.tag (x >>> P.log2Min) = t)
    : TagsFit u (Function.update tile x b) := by
  intro y unit' inside t expected
  by_cases eq : y = x
  · subst eq
    exact here t (by simpa using expected)
  · rw [Function.update_of_ne eq] at expected
    rw [others _ (sound.index_lt (same ▸ inside))]
    · exact h y unit' (same ▸ inside) t expected
    · exact fun index => eq (P.index_inj unit' unit index)

end Updates

-----------------------------------------------------------------------------------------
-- Facts about one block of a represented state
-----------------------------------------------------------------------------------------

section Blocks

variable {P : BuddyParams} {s : BuddyState P} {v : BuddyView} {x y o : Nat} {k : TileKind}

/-- Arithmetic facts about a block: it is aligned to its size and lies in the data area. -/
theorem BuddyRep.block (h : BuddyRep s v) (known : v.tile x = some (k, o))
    : P.orderSize o ∣ x ∧ P.minBlock ∣ x ∧ x + P.orderSize o ≤ s.total ∧ x < s.total
      ∧ o < s.maxOrder := by
  have aligned : 2 ^ (P.log2Min + o) ∣ x := h.tiling.aligned known
  have last : x + 2 ^ (P.log2Min + o) ≤ s.total := h.tiling.end_le known
  have order : o < s.maxOrder := h.tiling.order_lt known
  rw [← P.orderSize_eq] at aligned last
  have positive := P.orderSize_pos o
  exact ⟨aligned, dvd_trans (P.minBlock_dvd_orderSize o) aligned, last, by omega, order⟩

/-- Orders in use fit in the order bits of a tag. -/
theorem BuddyRep.order_lt_64 (h : BuddyRep s v) (order : o < s.maxOrder) : o < 64 := by
  have := h.geometry.order_le
  have := P.mx_range.2
  omega

theorem BuddyRep.node (h : BuddyRep s v) (known : v.tile x = some (k, o))
    : s.Node P (s.base + x) :=
  h.geometry.node (h.block known).2.1 (h.block known).2.2.2.1

/-- Members of a free list are nodes. -/
theorem BuddyRep.listed_node (h : BuddyRep s v) {a : Nat} (member : a ∈ v.lists o)
    : s.Node P a := by
  obtain ⟨y, rfl, found⟩ := (h.listed o a).mp member
  exact h.node found

/-- Members of a cache list are nodes. -/
theorem BuddyRep.cached_node (h : BuddyRep s v) {a : Nat} (member : a ∈ v.cached o)
    : s.Node P a := by
  obtain ⟨y, rfl, found⟩ := (h.inCache o a).mp member
  exact h.node found

/-- The front of a free list is null or a node of it. -/
theorem BuddyRep.front (h : BuddyRep s v) (o : Nat)
    : s.freeLists o = 0 ∨ s.freeLists o ∈ v.lists o := by
  by_cases null : s.freeLists o = 0
  · exact Or.inl null
  · obtain ⟨rest, eq, _⟩ := (h.lists o).chain.eq_cons null
    exact Or.inr (by simp [eq])

/-- A node is listed under one order only. -/
theorem BuddyRep.listed_unique (h : BuddyRep s v) {a i j : Nat} (hi : a ∈ v.lists i)
    (hj : a ∈ v.lists j)
    : i = j := by
  obtain ⟨y, rfl, found⟩ := (h.listed i a).mp hi
  obtain ⟨z, eq, found'⟩ := (h.listed j _).mp hj
  have : y = z := by omega
  subst this
  exact (Prod.mk.inj (Option.some.inj (found.symm.trans found'))).2

/-- A block of another kind is not in any free list. -/
theorem BuddyRep.not_listed (h : BuddyRep s v) (known : v.tile x = some (k, o))
    (kind : k ≠ .free) (i : Nat)
    : s.base + x ∉ v.lists i := by
  intro member
  obtain ⟨y, eq, found⟩ := (h.listed i _).mp member
  have : x = y := by omega
  subst this
  exact kind (Prod.mk.inj (Option.some.inj (known.symm.trans found))).1

/-- A block of another kind is not in the cache. -/
theorem BuddyRep.not_cached (h : BuddyRep s v) (known : v.tile x = some (k, o))
    (kind : k ≠ .cached) (i : Nat)
    : s.base + x ∉ v.cached i := by
  intro member
  obtain ⟨y, eq, found⟩ := (h.inCache i _).mp member
  have : x = y := by omega
  subst this
  exact kind (Prod.mk.inj (Option.some.inj (known.symm.trans found))).1

/-- The counter under a change of one block. -/
theorem BuddyRep.counter_update (h : BuddyRep s v) (known : v.tile x = some (k, o))
    (b : Option Tile)
    : blockSum (ownedSize P) s.total (Function.update v.tile x b) + ownedSize P (k, o)
      = s.allocatedBytes + b.elim 0 (ownedSize P) := by
  have := blockSum_update (ownedSize P) v.tile b (h.block known).2.2.2.1
  rw [known] at this
  rw [h.counter]
  exact this

/-- The expected tag of a block start is there. -/
theorem BuddyRep.tag_eq (h : BuddyRep s v) (unit : P.minBlock ∣ x) (inside : x < s.total)
    {t : Nat} (expected : tileTag (v.tile x) = some t)
    : s.tag (x >>> P.log2Min) = t :=
  h.tags x unit inside t expected

/-- A free tag outside the held block is that of a free block of the order. -/
theorem BuddyRep.free_of_tag (h : BuddyRep s v) (unit : P.minBlock ∣ x) (inside : x < s.total)
    (held : ∀ o, v.tile x ≠ some (.held, o)) (order : o < 64)
    (shown : s.tag (x >>> P.log2Min) = tagFree ||| o)
    : v.tile x = some (.free, o) := by
  have zero : tagNone ≠ tagFree ||| o := (free_tag_inj 0 (by omega) o order).2.2.2
  cases found : v.tile x with
  | none =>
      have := h.tag_eq unit inside (t := tagNone) (by rw [found]; rfl)
      exact (zero (this.symm.trans shown)).elim
  | some b =>
      obtain ⟨k, j⟩ := b
      have jLt := h.order_lt_64 (h.block found).2.2.2.2
      have facts := free_tag_inj j jLt o order
      cases k with
      | free =>
          have := h.tag_eq unit inside (t := tagFree ||| j) (by rw [found]; rfl)
          rw [facts.1 (this.symm.trans shown)]
      | alloc =>
          have := h.tag_eq unit inside (t := tagAlloc ||| j) (by rw [found]; rfl)
          exact (facts.2.1 (this.symm.trans shown)).elim
      | sheet =>
          have := h.tag_eq unit inside (t := tagSheet ||| j) (by rw [found]; rfl)
          exact (facts.2.2.1 (this.symm.trans shown)).elim
      | cached =>
          have := h.tag_eq unit inside (t := tagNone) (by rw [found]; rfl)
          exact (zero (this.symm.trans shown)).elim
      | held => exact (held j found).elim

end Blocks

end Bbmalloc
