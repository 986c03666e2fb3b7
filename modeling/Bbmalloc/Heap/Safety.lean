import Bbmalloc.Heap.Representation

/-! What keeps the blocks of the clients safe: they are pairwise disjoint, and no byte of
them belongs to the metadata of the allocator or to a free block.
-/

namespace Bbmalloc

open Bbmalloc.Foundations

/-- The bytes of a region that the allocator keeps to itself: the tag array, the free and the
cached blocks, the first and the last header and the bitmap of every sheet, the headers of
the small blocks and the small blocks that are free.
-/
inductive RegionView.Metadata (C : Config) (g : BuddyGeometry) (sheets : List Nat)
    (v : RegionView) (a : Nat)
    : Prop
  | tags (lo : g.blockTags ≤ a) (hi : a < g.blockTags + g.tagCount)
  | unowned {x o : Nat} {k : TileKind} (tile : v.buddy.tile x = some (k, o))
      (kind : k = .free ∨ k = .cached) (lo : g.base + x ≤ a)
      (hi : a < g.base + x + C.buddy.orderSize o)
  | sheetHead {sh : Nat} (member : sh ∈ sheets) (lo : g.base + sh ≤ a)
      (hi : a < g.base + sh + C.tlsf.dataOff)
  | sheetEnd {sh : Nat} (member : sh ∈ sheets)
      (lo : g.base + sh + (C.tlsf.sheet - headerSize) ≤ a) (hi : a < g.base + sh + C.tlsf.sheet)
  | header {x n : Nat} {k : TlsfKind} (block : v.tlsf.block x = some (k, n))
      (lo : g.base + x ≤ a) (hi : a < g.base + x + headerSize)
  | smallFree {x n : Nat} (block : v.tlsf.block x = some (.free, n)) (lo : g.base + x ≤ a)
      (hi : a < g.base + x + n)

section Region

variable {C : Config} {r : RegionState C} {v : RegionView} {a x o n p q : Nat} {b d : Block}

/-- A byte of a large block is metadata of nothing. -/
theorem RegionCore.large_not_metadata (h : RegionCore r v) (held : v.live.large x = some o)
    (lo : r.buddy.base + x ≤ a) (hi : a < r.buddy.base + x + C.buddy.orderSize o)
    : ¬v.Metadata C r.buddy.toBuddyGeometry r.tlsf.sheets a := by
  have owned := Live.of_large.mp held
  have tile := (ownedOf_eq_some.mp owned).1
  have inside : x + C.buddy.orderSize o ≤ r.buddy.total := (h.buddy.owned_le owned).2
  have tags : r.buddy.blockTags + r.buddy.tagCount ≤ r.buddy.base
      ∨ r.buddy.base + r.buddy.total ≤ r.buddy.blockTags := h.buddy.rep.geometry.tags_apart
  have inSheet : ∀ sh ∈ r.tlsf.sheets,
      ¬(r.buddy.base + sh ≤ a ∧ a < r.buddy.base + sh + C.tlsf.sheet) := by
    rintro sh member ⟨first, last⟩
    have sheet := h.sheet_owned member
    have apart := h.buddy.owned_apart owned sheet (fun same => by
      rw [same, sheet] at owned
      cases owned)
    rw [C.orderSize_sheet] at apart
    simp only at apart
    omega
  have parts := C.tlsf.sheet_parts
  have inBlock : ∀ y k m, v.tlsf.block y = some (k, m) →
      ¬(r.buddy.base + y ≤ a ∧ a < r.buddy.base + y + m) := by
    rintro y k m block ⟨first, last⟩
    obtain ⟨sh, member, start, stop⟩ := h.tlsf.sheet block
    exact inSheet sh member ⟨by omega, by omega⟩
  intro inner
  cases inner with
  | tags first last =>
      change r.buddy.blockTags ≤ a at first
      change a < r.buddy.blockTags + r.buddy.tagCount at last
      omega
  | @unowned y i k other kind first last =>
      have apart := h.buddy.rep.tiling.tiled.unique (x := a - r.buddy.base) tile other
      simp only [← C.buddy.orderSize_eq] at apart
      change r.buddy.base + y ≤ a at first
      change a < r.buddy.base + y + C.buddy.orderSize i at last
      obtain ⟨_, same⟩ := apart (by omega) (by omega) (by omega) (by omega)
      rcases kind with rfl | rfl <;> cases same
  | sheetHead member first last => exact inSheet _ member ⟨first, by
      change a < r.buddy.base + _ + C.tlsf.dataOff at last
      omega⟩
  | sheetEnd member first last => exact inSheet _ member ⟨by
      change r.buddy.base + _ + (C.tlsf.sheet - headerSize) ≤ a at first
      omega, last⟩
  | @header y m k block first last =>
      have size := (h.tlsf.shape block).2.2
      change a < r.buddy.base + y + headerSize at last
      simp only [headerSize] at last
      exact inBlock y k m block ⟨first, by omega⟩
  | smallFree block first last => exact inBlock _ _ _ block ⟨first, last⟩

/-- A byte of a small block is metadata of nothing. -/
theorem RegionCore.small_not_metadata (h : RegionCore r v) (held : v.live.small x = some n)
    (lo : r.buddy.base + x + headerSize ≤ a) (hi : a < r.buddy.base + x + n)
    : ¬v.Metadata C r.buddy.toBuddyGeometry r.tlsf.sheets a := by
  have granted := TlsfView.granted_eq_some.mp held
  obtain ⟨sh, member, start, stop⟩ := h.tlsf.sheet granted
  have fits := (h.sheet_lt member).2.1
  have parts := C.tlsf.sheet_parts
  have tags : r.buddy.blockTags + r.buddy.tagCount ≤ r.buddy.base
      ∨ r.buddy.base + r.buddy.total ≤ r.buddy.blockTags := h.buddy.rep.geometry.tags_apart
  simp only [headerSize] at lo
  have same : ∀ sh' ∈ r.tlsf.sheets, r.buddy.base + sh' ≤ a →
      a < r.buddy.base + sh' + C.tlsf.sheet → sh' = sh := by
    intro sh' member' first last
    exact h.tlsf.fit.apart member' member (x := a - r.buddy.base) (by omega) (by omega)
      (by omega) (by omega)
  have alone : ∀ y k m, v.tlsf.block y = some (k, m) →
      r.buddy.base + y ≤ a → a < r.buddy.base + y + m → y = x ∧ k = .granted := by
    intro y k m block first last
    obtain ⟨rfl, equal⟩ := h.tlsf.tiling.unique block granted (x := a - r.buddy.base)
      (by omega) (by simp only; omega) (by omega) (by simp only; omega)
    exact ⟨rfl, congrArg Prod.fst equal⟩
  intro inner
  cases inner with
  | tags first last =>
      change r.buddy.blockTags ≤ a at first
      change a < r.buddy.blockTags + r.buddy.tagCount at last
      omega
  | @unowned y i k other kind first last =>
      have tile := (ownedOf_eq_some.mp (h.sheet_owned member)).1
      have apart := h.buddy.rep.tiling.tiled.unique (x := a - r.buddy.base) tile other
      simp only [← C.buddy.orderSize_eq, C.orderSize_sheet] at apart
      change r.buddy.base + y ≤ a at first
      change a < r.buddy.base + y + C.buddy.orderSize i at last
      obtain ⟨_, equal⟩ := apart (by omega) (by omega) (by omega) (by omega)
      rcases kind with rfl | rfl <;> cases equal
  | @sheetHead sh' member' first last =>
      change r.buddy.base + sh' ≤ a at first
      change a < r.buddy.base + sh' + C.tlsf.dataOff at last
      obtain rfl := same sh' member' first (by omega)
      omega
  | @sheetEnd sh' member' first last =>
      change r.buddy.base + sh' + (C.tlsf.sheet - headerSize) ≤ a at first
      change a < r.buddy.base + sh' + C.tlsf.sheet at last
      simp only [headerSize] at first
      obtain rfl := same sh' member' (by omega) last
      omega
  | @header y m k block first last =>
      have size := (h.tlsf.shape block).2.2
      change r.buddy.base + y ≤ a at first
      change a < r.buddy.base + y + headerSize at last
      simp only [headerSize] at last
      obtain ⟨rfl, _⟩ := alone y k m block first (by omega)
      omega
  | @smallFree y m block first last =>
      obtain ⟨_, wrong⟩ := alone y .free m block first last
      cases wrong

/-- No byte of a client's block is metadata. -/
theorem RegionCore.not_metadata (h : RegionCore r v)
    (covered : v.live.Covers C.buddy r.buddy.base a)
    : ¬v.Metadata C r.buddy.toBuddyGeometry r.tlsf.sheets a := by
  rcases covered with ⟨x, o, held, lo, hi⟩ | ⟨x, n, held, lo, hi⟩
  · exact h.large_not_metadata held lo hi
  · exact h.small_not_metadata held lo hi

/-- Metadata lies in the tag array or in the data area. -/
theorem RegionCore.metadata_inside (h : RegionCore r v)
    (inner : v.Metadata C r.buddy.toBuddyGeometry r.tlsf.sheets a)
    : Footprint r.buddy.toBuddyGeometry a := by
  have parts := C.tlsf.sheet_parts
  have sheet : ∀ sh ∈ r.tlsf.sheets, sh + C.tlsf.sheet ≤ r.buddy.total := fun sh member =>
    (h.sheet_lt member).2.1
  have block : ∀ y k m, v.tlsf.block y = some (k, m) → y + m ≤ r.buddy.total ∧ 32 ≤ m := by
    intro y k m known
    obtain ⟨sh, member, _, stop⟩ := h.tlsf.sheet known
    have := sheet sh member
    exact ⟨by omega, (h.tlsf.shape known).2.2⟩
  cases inner with
  | tags lo hi => exact Or.inl ⟨lo, hi⟩
  | @unowned x o k tile kind lo hi =>
      have inside : x + C.buddy.orderSize o ≤ r.buddy.total := (h.buddy.rep.block tile).2.2.1
      exact Or.inr ⟨by omega, by omega⟩
  | @sheetHead sh member lo hi =>
      have := sheet sh member
      exact Or.inr ⟨by omega, by omega⟩
  | @sheetEnd sh member lo hi =>
      have := sheet sh member
      exact Or.inr ⟨by omega, by omega⟩
  | @header x n k known lo hi =>
      have := block x k n known
      simp only [headerSize] at hi
      exact Or.inr ⟨by omega, by omega⟩
  | @smallFree x n known lo hi =>
      have := block x .free n known
      exact Or.inr ⟨by omega, by omega⟩

/-- Two blocks of a region are the same or apart. -/
theorem RegionCore.holds_apart (h : RegionCore r v)
    (first : v.live.Holds C.buddy r.buddy.base p b)
    (second : v.live.Holds C.buddy r.buddy.base q d) (differ : p ≠ q)
    : p + b.len ≤ q ∨ q + d.len ≤ p := by
  have mixed : ∀ {x o y n}, v.live.large x = some o → v.live.small y = some n →
      x + C.buddy.orderSize o ≤ y ∨ y + n ≤ x := by
    intro x o y n large small
    obtain ⟨sh, member, lo, hi⟩ := h.small_inside small
    have owned := Live.of_large.mp large
    have sheet := h.sheet_owned member
    have apart := h.buddy.owned_apart owned sheet (fun same => by
      rw [same, sheet] at owned
      cases owned)
    rw [C.orderSize_sheet] at apart
    simp only at apart
    omega
  rcases first with ⟨x, o, held, rfl, rfl⟩ | ⟨x, n, held, rfl, rfl⟩
  · rcases second with ⟨y, i, held', rfl, rfl⟩ | ⟨y, m, held', rfl, rfl⟩
    · have apart := h.buddy.owned_apart (Live.of_large.mp held) (Live.of_large.mp held')
        (by omega)
      simp only at apart ⊢
      omega
    · have apart := mixed held held'
      have size := (h.tlsf.granted_block held').2.2.1
      simp only [headerSize]
      omega
  · rcases second with ⟨y, i, held', rfl, rfl⟩ | ⟨y, m, held', rfl, rfl⟩
    · have apart := mixed held' held
      have size := (h.tlsf.granted_block held).2.2.1
      simp only [headerSize] at differ ⊢
      omega
    · have apart := h.tlsf.tiling.disjoint (TlsfView.granted_eq_some.mp held)
        (TlsfView.granted_eq_some.mp held') (by omega)
      have size := (h.tlsf.granted_block held).2.2.1
      have size' := (h.tlsf.granted_block held').2.2.1
      simp only [headerSize] at apart ⊢
      omega

end Region

-----------------------------------------------------------------------------------------
-- The whole heap
-----------------------------------------------------------------------------------------

section Heap

variable {C : Config} {s : HeapState C} {v : Nat → RegionView} {held : Nat → Option Block}
  {p q a : Nat} {b d : Block}

/-- The bytes that the allocator keeps to itself, in any region. -/
def HeapState.Metadata (s : HeapState C) (v : Nat → RegionView) (a : Nat) : Prop :=
  ∃ i < s.count, (v i).Metadata C (s.geo i) (s.regions i).tlsf.sheets a

/-- Two blocks of the heap are the same or apart. -/
theorem HeapInv.disjoint (h : HeapInv s v held) (first : held p = some b)
    (second : held q = some d) (differ : p ≠ q)
    : p + b.len ≤ q ∨ q + d.len ≤ p := by
  obtain ⟨i, less, holds⟩ := (h.blocks p b).mp first
  obtain ⟨j, less', holds'⟩ := (h.blocks q d).mp second
  by_cases same : i = j
  · subst same
    exact (h.regions i less).holds_apart holds holds' differ
  · have inside := h.inside less holds
    have inside' := h.inside less' holds'
    by_contra overlap
    have common : ∃ x, p ≤ x ∧ x < p + b.len ∧ q ≤ x ∧ x < q + d.len :=
      ⟨max p q, by omega, by omega, by omega, by omega⟩
    obtain ⟨x, lo, hi, lo', hi'⟩ := common
    exact h.separate i less j less' same x (Or.inr ⟨by omega, by omega⟩)
      (Or.inr ⟨by omega, by omega⟩)

/-- A block lies in the data area of one region. -/
theorem HeapInv.held_inside (h : HeapInv s v held) (known : held p = some b)
    : ∃ i < s.count, (s.geo i).base ≤ p ∧ p + b.len ≤ (s.geo i).base + (s.geo i).total
        ∧ 0 < b.len := by
  obtain ⟨i, less, holds⟩ := (h.blocks p b).mp known
  exact ⟨i, less, h.inside less holds⟩

/-- No byte of a client's block is metadata. -/
theorem HeapInv.not_metadata (h : HeapInv s v held) (covered : Covered held a)
    : ¬s.Metadata v a := by
  rintro ⟨j, less', inner⟩
  obtain ⟨i, less, covers⟩ := h.covered_iff.mp covered
  by_cases same : i = j
  · subst same
    exact (h.regions i less).not_metadata covers inner
  · have here := (h.regions i less).covers_inside covers
    exact h.separate i less j less' same a (Or.inr here)
      ((h.regions j less').metadata_inside inner)

end Heap

end Bbmalloc
