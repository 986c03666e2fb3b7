import Bbmalloc.Buddy.Growth
import Bbmalloc.Buddy.Seeding

/-! Whole runs of one buddy list: any sequence of operations after a successful set-up,
with the owners of blocks writing to them in between. A run keeps the invariant, an
allocation fails only for want of room, and the free blocks do not depend on the history.
-/

namespace Bbmalloc

open Bbmalloc.Foundations

-----------------------------------------------------------------------------------------
-- Writes by others
-----------------------------------------------------------------------------------------

section Frame

variable {P : BuddyParams} {s : BuddyState P} {v : BuddyView} {m : Memory}

/-- The invariant reads the tags and the data outside owned blocks only. -/
theorem BuddyInv.congr (h : BuddyInv s v)
    (same : ∀ a, Loose P s.toBuddyGeometry v.owned a → (m a).byte = (s.mem a).byte)
    : BuddyInv ({ s with mem := m } : BuddyState P) v := by
  have links := P.links_fit
  have nexts : ∀ {x k o}, v.tile x = some (k, o) → k.isOwned = false →
      ({ s with mem := m } : BuddyState P).next (s.base + x) = s.next (s.base + x) := by
    intro x k o known free
    refine Memory.load_congr (fun a lo hi => same a ?_)
    exact h.rep.loose_node known free lo (by omega)
  have prevs : ∀ {x k o}, v.tile x = some (k, o) → k.isOwned = false →
      ({ s with mem := m } : BuddyState P).prev (s.base + x) = s.prev (s.base + x) := by
    intro x k o known free
    refine Memory.load_congr (fun a lo hi => same a ?_)
    exact h.rep.loose_node known free (by omega) (by omega)
  have rep : BuddyRep ({ s with mem := m } : BuddyState P) v := by
    refine ⟨h.rep.geometry, h.rep.tiling, ?_, ?_, h.rep.listed, ?_, h.rep.cacheNodup,
      h.rep.inCache, h.rep.counter⟩
    · intro x unit inside t expected
      have index : x >>> P.log2Min < s.tagCount := h.rep.geometry.index_lt inside
      simp only [BuddyState.tag]
      rw [same _ (loose_tag index)]
      exact h.rep.tag_eq unit inside expected
    · intro o
      refine (h.rep.lists o).congr ?_ ?_
      · intro n member
        obtain ⟨x, rfl, known⟩ := (h.rep.listed o n).mp member
        exact nexts known rfl
      · intro n member
        obtain ⟨x, rfl, known⟩ := (h.rep.listed o n).mp (List.mem_of_mem_tail member)
        exact prevs known rfl
    · intro o
      refine (h.rep.cache o).congr ?_
      intro n member
      obtain ⟨x, rfl, known⟩ := (h.rep.inCache o n).mp member
      exact nexts known rfl
  exact ⟨⟨rep, h.mask, h.merged, h.settled⟩, h.counts⟩

/-- Writing inside an owned block keeps the invariant. -/
theorem BuddyInv.write (h : BuddyInv s v) {x a : Nat} {b : Tile} (owned : v.owned x = some b)
    (lo : s.base + x ≤ a) (hi : a < s.base + x + P.orderSize b.2) (w : UInt8)
    : BuddyInv ({ s with mem := s.mem.store a w } : BuddyState P) v := by
  refine h.congr (fun c loose => ?_)
  rw [Memory.store_of_ne]
  rintro rfl
  have room := (h.rep.block (ownedOf_eq_some.mp owned).1).2.2.1
  rcases loose with tags | ⟨_, _, outside⟩
  · have := h.rep.geometry.tags_apart
    omega
  · exact outside x b owned ⟨lo, hi⟩

end Frame

-----------------------------------------------------------------------------------------
-- Operations with arbitrary arguments
-----------------------------------------------------------------------------------------

/-- No owned block is a sheet: the buddy list works on its own. -/
def BuddyView.Plain (v : BuddyView) : Prop := ∀ x b, v.owned x = some b → b.1 = .alloc

/-- The operations of a buddy list. -/
inductive BuddyOp
  | allocate (n : Nat)
  | allocateAligned (n alignment : Nat)
  | deallocate (p : Nat)
  | grow (p n : Nat)
  | flushCache
  | largestFree
  | reset

/-- The state after an operation. -/
def BuddyState.perform {P : BuddyParams} (s : BuddyState P) : BuddyOp → BuddyState P
  | .allocate n => (s.allocate n).1
  | .allocateAligned n alignment => (s.allocateAligned n alignment).1
  | .deallocate p => (s.deallocate p).1
  | .grow p n => (s.grow p n).1
  | .flushCache => s.flushCache
  | .largestFree => s.largestFree.1
  | .reset => s.reset.1

section Operations

variable {P : BuddyParams} {s : BuddyState P} {v : BuddyView} {o : Nat}

/-- Owned blocks stay plain when one is added or dropped. -/
theorem BuddyView.Plain.update (h : v.Plain) {v' : BuddyView} {x : Nat} {b : Option Tile}
    (owned : v'.owned = Function.update v.owned x b) (plain : ∀ c, b = some c → c.1 = .alloc)
    : v'.Plain := by
  intro y c found
  rw [owned] at found
  by_cases same : y = x
  · subst same
    exact plain c (by simpa using found)
  · exact h y c (by simpa [same] using found)

/-- Every operation keeps the invariant, the geometry and plainness. -/
theorem BuddyInv.perform (h : BuddyInv s v) (plain : v.Plain)
    (laid : s.layout P = some s.toBuddyGeometry) (op : BuddyOp)
    : ∃ v', BuddyInv (s.perform op) v' ∧ v'.Plain
        ∧ (s.perform op).toBuddyGeometry = s.toBuddyGeometry := by
  have order : ∀ o, ∃ v', BuddyInv (s.allocateOrder o).1 v' ∧ v'.Plain
      ∧ (s.allocateOrder o).1.toBuddyGeometry = s.toBuddyGeometry := by
    intro o
    obtain ⟨v', ⟨x, _, _, step⟩ | ⟨_, _, step⟩⟩ := h.allocateOrder o
    · exact ⟨v', step.inv, plain.update step.owned_eq (by simp), step.geometry⟩
    · refine ⟨v', step.inv, fun x b found => plain x b ?_, step.geometry⟩
      rwa [step.owned_eq] at found
  have known : ∀ {p o}, s.orderAt p = some o →
      ∃ x, p = s.base + x ∧ v.tile x = some (.alloc, o) := by
    intro p o read
    obtain ⟨x, k, rfl, owned⟩ := h.orderAt_iff.mp read
    obtain rfl : k = .alloc := plain x _ owned
    exact ⟨x, rfl, (ownedOf_eq_some.mp owned).1⟩
  cases op with
  | allocate n =>
      simp only [BuddyState.perform, BuddyState.allocate]
      split
      · exact ⟨v, h, plain, rfl⟩
      · exact order _
  | allocateAligned n alignment =>
      simp only [BuddyState.perform, BuddyState.allocateAligned]
      split
      · exact ⟨v, h, plain, rfl⟩
      · split
        · exact ⟨v, h, plain, rfl⟩
        · exact order _
  | deallocate p =>
      simp only [BuddyState.perform, BuddyState.deallocate]
      cases read : s.orderAt p with
      | none => exact ⟨v, h, plain, rfl⟩
      | some o =>
          obtain ⟨x, rfl, tile⟩ := known read
          obtain ⟨v', step⟩ := h.deallocateOrder tile
          exact ⟨v', step.inv, plain.update step.owned_eq (by simp), step.geometry⟩
  | grow p n =>
      simp only [BuddyState.perform]
      cases read : s.orderAt p with
      | none =>
          have same : s.grow p n = (s, 0) := by simp [BuddyState.grow, read]
          rw [same]
          exact ⟨v, h, plain, rfl⟩
      | some o =>
          obtain ⟨x, rfl, tile⟩ := known read
          rcases h.grow tile n with ⟨_, same⟩ | ⟨_, same, _⟩ | ⟨_, _, _, v', step, _⟩
          · rw [same]
            exact ⟨v, h, plain, rfl⟩
          · rw [same]
            exact ⟨v, h, plain, rfl⟩
          · exact ⟨v', step.inv, plain.update step.owned_eq (by simp), step.geometry⟩
  | flushCache =>
      obtain ⟨v', inv, move, _⟩ := h.flushCache
      refine ⟨v', inv, fun x b found => plain x b ?_, move.geometry⟩
      rwa [move.owned] at found
  | largestFree =>
      obtain ⟨v', step, _⟩ := h.largestFree
      refine ⟨v', step.inv, fun x b found => plain x b ?_, step.geometry⟩
      rwa [step.owned_eq] at found
  | reset =>
      obtain ⟨_, v', inv, geometry, owned, _⟩ :=
        BuddyState.setup_spec false laid h.rep.geometry (by simp)
      refine ⟨v', inv, fun x b found => ?_, geometry⟩
      simp [owned] at found

end Operations

-----------------------------------------------------------------------------------------
-- Runs
-----------------------------------------------------------------------------------------

/-- A range with its tag area as a caller owns them: no object wraps around or takes more
than half of the address space, an external tag area is another object, and a caller who
says that the tags are zeroed is right.
-/
structure RawArea (P : BuddyParams) (m : Memory) (mem len tags cap : Nat) (zeroed : Bool)
    : Prop where
  noWrap : mem + len < P.word
  half : 2 * len ≤ P.word
  apart : tags ≠ 0 → tags + cap ≤ mem ∨ mem + len ≤ tags
  cleanInside : zeroed = true → tags = 0 → ∀ a, mem ≤ a → a < mem + len → (m a).byte = 0
  cleanOutside : zeroed = true → ∀ a, tags ≤ a → a < tags + cap → (m a).byte = 0

/-- The states that a buddy list takes after a successful `init`, under any operations and
any writes to allocated blocks or to memory that is neither its data nor its tags.
-/
inductive BuddyReached (P : BuddyParams) : BuddyState P → Prop
  | init (s : BuddyState P) (mem len tags cap align : Nat) (zeroed : Bool)
      (area : RawArea P s.mem mem len tags cap zeroed)
      (accepted : (s.init mem len tags cap align zeroed).2 = true)
      : BuddyReached P (s.init mem len tags cap align zeroed).1
  | perform {s : BuddyState P} (before : BuddyReached P s) (op : BuddyOp)
      : BuddyReached P (s.perform op)
  | writeBlock {s : BuddyState P} (before : BuddyReached P s) {p o a : Nat}
      (live : s.orderAt p = some o) (lo : p ≤ a) (hi : a < p + P.orderSize o) (w : UInt8)
      : BuddyReached P { s with mem := s.mem.store a w }
  | writeElsewhere {s : BuddyState P} (before : BuddyReached P s) {a : Nat}
      (data : a < s.base ∨ s.base + s.total ≤ a)
      (tags : a < s.blockTags ∨ s.blockTags + s.tagCount ≤ a) (w : UInt8)
      : BuddyReached P { s with mem := s.mem.store a w }

section Runs

variable {P : BuddyParams} {s : BuddyState P}

/-- Areas that a caller owns give sound layouts. -/
theorem RawArea.sound {m : Memory} {mem len tags cap : Nat} {zeroed : Bool}
    (area : RawArea P m mem len tags cap zeroed) {g g' : BuddyGeometry}
    (laid : g.layout P = some g') (range : g.rawMem = mem ∧ g.rawLen = len)
    (tagArea : g.extTags = tags ∧ g.extCap = cap)
    : g'.Sound P
      ∧ (zeroed = true → ∀ i < g'.tagCount, (m (g'.blockTags + i)).byte = 0) := by
  obtain ⟨rfl, rfl⟩ := range
  obtain ⟨rfl, rfl⟩ := tagArea
  have layout := area.noWrap
  obtain ⟨rawLe, endLe, tagsAt⟩ := BuddyGeometry.layout_placed laid layout
  have apart : g'.TagsApart := by
    rcases tagsAt with ⟨internal, _⟩ | ⟨external, at_, fits⟩
    · exact BuddyGeometry.layout_apart laid layout internal
        (BuddyGeometry.layout_noWrap laid layout area.half)
    · rcases area.apart external with before | after
      · exact Or.inl (by omega)
      · exact Or.inr (by omega)
  have sound := BuddyGeometry.layout_sound laid layout apart
  refine ⟨sound, fun clean i hi => ?_⟩
  rcases tagsAt with ⟨internal, at_⟩ | ⟨external, at_, fits⟩
  · refine area.cleanInside clean internal _ (by omega) ?_
    rcases sound.tags_apart with before | after
    · have := sound.base_pos
      omega
    · have := sound.count_pos
      have := sound.total_eq
      have := Nat.mul_le_mul_left g'.tagCount P.minBlock_pos
      omega
  · exact area.cleanOutside clean _ (by omega) (by omega)

/-- What every reached state satisfies, by induction on the run. -/
theorem BuddyReached.inv (run : BuddyReached P s)
    : ∃ v, BuddyInv s v ∧ v.Plain ∧ s.layout P = some s.toBuddyGeometry := by
  induction run with
  | init s mem len tags cap align zeroed area accepted =>
      unfold BuddyState.init at accepted ⊢
      generalize start : ({ s with
        rawMem := mem, rawLen := len, extTags := tags, extCap := cap, wantAlign := align }
          : BuddyState P) = s₀ at accepted ⊢
      cases laid : s₀.layout P with
      | none =>
          obtain ⟨b, align, failed⟩ := BuddyState.setup_none zeroed laid
          simp [failed] at accepted
      | some g =>
          obtain ⟨sound, clean⟩ := area.sound laid (by subst start; exact ⟨rfl, rfl⟩)
            (by subst start; exact ⟨rfl, rfl⟩)
          obtain ⟨_, v, inv, geometry, owned, _⟩ :=
            BuddyState.setup_spec zeroed laid sound (by subst start; exact clean)
          refine ⟨v, inv, fun x b found => by simp [owned] at found, ?_⟩
          rw [geometry]
          exact BuddyGeometry.layout_again laid
  | perform _ op ih =>
      obtain ⟨v, inv, plain, laid⟩ := ih
      obtain ⟨v', inv', plain', geometry⟩ := inv.perform plain laid op
      exact ⟨v', inv', plain', by rw [geometry]; exact laid⟩
  | writeBlock _ live lo hi w ih =>
      obtain ⟨v, inv, plain, laid⟩ := ih
      obtain ⟨x, k, rfl, owned⟩ := inv.orderAt_iff.mp live
      exact ⟨v, inv.write owned lo hi w, plain, laid⟩
  | writeElsewhere _ data tags w ih =>
      obtain ⟨v, inv, plain, laid⟩ := ih
      refine ⟨v, inv.congr (fun c loose => ?_), plain, laid⟩
      rw [Memory.store_of_ne]
      rintro rfl
      rcases loose with inTags | ⟨lo, hi, _⟩ <;> omega

end Runs

-----------------------------------------------------------------------------------------
-- The representation after any run
-----------------------------------------------------------------------------------------

/-- An object that no constructor has run on, in zeroed memory. -/
def BuddyState.blankStart (P : BuddyParams) : BuddyState P where
  base := 0
  total := 0
  blockTags := 0
  maxOrder := 0
  baseAlign := 0
  tagCount := 0
  rawMem := 0
  rawLen := 0
  extTags := 0
  extCap := 0
  wantAlign := 0
  freeMask := 0
  allocatedBytes := 0
  freeLists := fun _ => 0
  scratch := ⟨0, 0⟩
  cacheHead := fun _ => 0
  cacheCount := fun _ => 0
  mem := fun _ => ⟨0, 0⟩

/-- A list of operations ends in a run on the same geometry. -/
theorem BuddyReached.performs {P : BuddyParams} {s : BuddyState P} (run : BuddyReached P s)
    (ops : List BuddyOp)
    : BuddyReached P (ops.foldl BuddyState.perform s)
      ∧ (ops.foldl BuddyState.perform s).toBuddyGeometry = s.toBuddyGeometry := by
  induction ops generalizing s with
  | nil => exact ⟨run, rfl⟩
  | cons op rest ih =>
      obtain ⟨v, inv, plain, laid⟩ := run.inv
      obtain ⟨_, _, _, kept⟩ := inv.perform plain laid op
      obtain ⟨after, geometry⟩ := ih (run.perform op)
      exact ⟨after, geometry.trans kept⟩

/-- The small list after some operations. -/
def BuddyState.smallAfter (ops : List BuddyOp) : BuddyState smallBuddy :=
  ops.foldl perform ((blankStart smallBuddy).init 4096 200 0 0 64 false).1

/-- The small list on 200 bytes from address 4096 on. -/
theorem smallBuddy_start
    : BuddyReached smallBuddy
        ((BuddyState.blankStart smallBuddy).init 4096 200 0 0 64 false).1 :=
  .init _ 4096 200 0 0 64 false
    ⟨by decide, by decide, by simp, by simp, by simp⟩ (by decide +kernel)

/-- After any run the blocks tile the data and all records agree with them: tags, free
lists, free mask, order cache and counter; and no two free buddies are left apart.
-/
theorem BuddyReached.representation {P : BuddyParams} {s : BuddyState P}
    (run : BuddyReached P s)
    : ∃ v, BuddyInv s v
        ∧ ∀ x b, v.tile x = some b → b.1 = .free ∨ b.1 = .alloc ∨ b.1 = .cached := by
  obtain ⟨v, inv, plain, _⟩ := run.inv
  refine ⟨v, inv, ?_⟩
  rintro x ⟨k, o⟩ found
  cases k with
  | free => exact Or.inl rfl
  | cached => exact Or.inr (Or.inr rfl)
  | held => exact (inv.settled x o found).elim
  | alloc => exact Or.inr (Or.inl rfl)
  | sheet => exact Or.inr (Or.inl (plain x _ (ownedOf_eq_some.mpr ⟨found, rfl⟩)))

theorem BuddyReached.representation_small
    : ∃ v, BuddyInv
          (((BuddyState.blankStart smallBuddy).init 4096 200 0 0 64 false).1.perform
            (.allocate 20)) v
        ∧ ∀ x b, v.tile x = some b → b.1 = .free ∨ b.1 = .alloc ∨ b.1 = .cached :=
  (smallBuddy_start.perform (.allocate 20)).representation

-----------------------------------------------------------------------------------------
-- Completeness of allocation
-----------------------------------------------------------------------------------------

/-- The `size` bytes from offset `k` on are an aligned range of the data that no allocated
block touches.
-/
def BuddyState.Vacant {P : BuddyParams} (s : BuddyState P) (size k : Nat) : Prop :=
  size ∣ k ∧ k + size ≤ s.total
  ∧ ∀ p o, s.orderAt p = some o →
    p + P.orderSize o ≤ s.base + k ∨ s.base + k + size ≤ p

section Completeness

variable {P : BuddyParams} {s : BuddyState P} {v : BuddyView} {x o n : Nat}

/-- Vacancy as the tags show it is room among the owned blocks. -/
theorem BuddyInv.vacant_iff (h : BuddyInv s v)
    : s.Vacant (P.orderSize o) x ↔ Room P s.total v.owned o x := by
  refine and_congr_right (fun _ => and_congr_right (fun _ => ?_))
  constructor
  · rintro apart y ⟨k, i⟩ owned
    have := apart (s.base + y) i (h.orderAt_iff.mpr ⟨y, k, rfl, owned⟩)
    simp only
    omega
  · intro apart p i read
    obtain ⟨y, k, rfl, owned⟩ := h.orderAt_iff.mp read
    have := apart y _ owned
    simp only at this
    omega

/-- The counter grows by the size of a block that is handed out. -/
theorem BuddyStep.counter_add (h : BuddyInv s v) {s' : BuddyState P} {v' : BuddyView}
    {loose : Nat → Option Tile} (room : Room P s.total v.owned o x)
    (step : BuddyStep s s' v' loose (Function.update v.owned x (some (.alloc, o))))
    : s'.allocatedBytes = s.allocatedBytes + P.orderSize o := by
  have positive := P.orderSize_pos o
  have unowned : v.owned x = none := by
    cases owned : v.owned x with
    | none => rfl
    | some b =>
        have := room.2.2 x b owned
        have := P.orderSize_pos b.2
        omega
  have total : s'.total = s.total := by rw [step.geometry]
  have sum := blockSum_update (ownedSize P) v.owned (some (.alloc, o))
    (show x < s.total by have := room.2.1; omega)
  rw [unowned] at sum
  rw [step.inv.rep.counter_owned, h.rep.counter_owned, step.owned_eq, total]
  simpa [ownedSize] using sum

/-- What `allocate` does, in terms of the tags. -/
theorem BuddyInv.allocate (h : BuddyInv s v) (positive : 0 < n)
    : (∃ x v', (s.allocate n).2 = ⟨s.base + x, P.orderSize (P.orderForSize n)⟩
        ∧ Room P s.total v.owned (P.orderForSize n) x
        ∧ BuddyStep s (s.allocate n).1 v' v.owned
          (Function.update v.owned x (some (.alloc, P.orderForSize n))))
      ∨ ((s.allocate n).2 = .null ∧ (∀ x, ¬Room P s.total v.owned (P.orderForSize n) x)
        ∧ ∃ v', BuddyStep s (s.allocate n).1 v' v.owned v.owned) := by
  unfold BuddyState.allocate
  rw [if_neg (by omega)]
  obtain ⟨v', ⟨x, result, room, step⟩ | ⟨result, none, step⟩⟩ :=
    h.allocateOrder (P.orderForSize n)
  · exact Or.inl ⟨x, v', result, room, step⟩
  · exact Or.inr ⟨result, none, v', step⟩

/-- The block size for `n` bytes is the least one that holds them; an allocation fails only
when no aligned range of that size is vacant, and otherwise hands out one such range.
-/
theorem BuddyReached.allocate_complete (run : BuddyReached P s) (n : Nat)
    : (0 < n → n ≤ P.orderSize (P.orderForSize n)
          ∧ ∀ o, n ≤ P.orderSize o → P.orderSize (P.orderForSize n) ≤ P.orderSize o)
      ∧ ((s.allocate n).2.ptr = 0
        ↔ n = 0 ∨ ∀ k, ¬s.Vacant (P.orderSize (P.orderForSize n)) k)
      ∧ ((s.allocate n).2.ptr ≠ 0 →
          (∃ k, (s.allocate n).2.ptr = s.base + k
            ∧ s.Vacant (P.orderSize (P.orderForSize n)) k)
          ∧ (s.allocate n).2.len = P.orderSize (P.orderForSize n)
          ∧ (s.allocate n).1.allocatedBytes
            = s.allocatedBytes + P.orderSize (P.orderForSize n)) := by
  obtain ⟨v, inv, _, _⟩ := run.inv
  refine ⟨fun positive => ⟨P.le_orderSize positive, fun o le => ?_⟩, ?_⟩
  · exact P.orderSize_mono ((P.orderForSize_le positive).mpr le)
  rcases Nat.eq_zero_or_pos n with rfl | positive
  · have null : s.allocate 0 = (s, .null) := rfl
    simp [null, Chunk.null]
  · have basePos := inv.rep.geometry.base_pos
    rcases inv.allocate positive with ⟨x, v', result, room, step⟩ | ⟨result, none, _⟩
    · have vacant := inv.vacant_iff.mpr room
      rw [result]
      refine ⟨⟨fun null => ?_, fun none => ?_⟩, fun _ => ⟨⟨x, rfl, vacant⟩, rfl, ?_⟩⟩
      · simp only at null
        omega
      · rcases none with zero | none
        · omega
        · exact (none x vacant).elim
      · exact step.counter_add inv room
    · rw [result]
      refine ⟨⟨fun _ => Or.inr (fun k vacant => none k (inv.vacant_iff.mp vacant)), ?_⟩, ?_⟩
      · exact fun _ => rfl
      · exact fun live => absurd rfl live

/-- A live block of 32 bytes, and another one in the cache. -/
def cachedHistory : List BuddyOp := [.allocate 20, .allocate 20, .deallocate 4160]

theorem BuddyReached.allocate_complete_small
    : let s := BuddyState.smallAfter cachedHistory
      (0 < 20 → 20 ≤ smallBuddy.orderSize (smallBuddy.orderForSize 20)
          ∧ ∀ o, 20 ≤ smallBuddy.orderSize o →
            smallBuddy.orderSize (smallBuddy.orderForSize 20) ≤ smallBuddy.orderSize o)
        ∧ ((s.allocate 20).2.ptr = 0
          ↔ 20 = 0 ∨ ∀ k, ¬s.Vacant (smallBuddy.orderSize (smallBuddy.orderForSize 20)) k)
        ∧ ((s.allocate 20).2.ptr ≠ 0 →
            (∃ k, (s.allocate 20).2.ptr = s.base + k
              ∧ s.Vacant (smallBuddy.orderSize (smallBuddy.orderForSize 20)) k)
            ∧ (s.allocate 20).2.len = smallBuddy.orderSize (smallBuddy.orderForSize 20)
            ∧ (s.allocate 20).1.allocatedBytes
              = s.allocatedBytes + smallBuddy.orderSize (smallBuddy.orderForSize 20)) :=
  (smallBuddy_start.performs cachedHistory).1.allocate_complete 20

end Completeness

-----------------------------------------------------------------------------------------
-- Independence of the history
-----------------------------------------------------------------------------------------

/-- Block `a` is on the free list of order `o`. -/
def BuddyState.Listed {P : BuddyParams} (s : BuddyState P) (o a : Nat) : Prop :=
  Follows 0 s.next (s.freeLists o) a

/-- The range of order `o` at offset `k` is vacant, and the aligned range of twice the size
around it is not.
-/
def BuddyState.MaximalVacant {P : BuddyParams} (s : BuddyState P) (o k : Nat) : Prop :=
  s.Vacant (P.orderSize o) k
  ∧ ∀ j, s.Vacant (P.orderSize (o + 1)) j → ¬(j ≤ k ∧ k < j + P.orderSize (o + 1))

/-- The free blocks, the tags and the free mask are the same. -/
structure BuddyState.SameFree {P : BuddyParams} (s t : BuddyState P) : Prop where
  listed : ∀ o a, s.Listed o a ↔ t.Listed o a
  tags : ∀ i < s.tagCount, s.tag i = t.tag i
  mask : s.freeMask = t.freeMask

/-- Free the given pointers in order. -/
def BuddyState.releaseAll {P : BuddyParams} (s : BuddyState P) (ps : List Nat) : BuddyState P :=
  ps.foldl (fun s p => s.perform (.deallocate p)) s

section History

variable {P : BuddyParams} {s t : BuddyState P} {v w : BuddyView} {o k : Nat}

/-- The nodes of a free list are its free blocks. -/
theorem BuddyInv.listed_iff (h : BuddyInv s v) {a : Nat}
    : s.Listed o a ↔ ∃ x, a = s.base + x ∧ v.tile x = some (.free, o) :=
  ((h.rep.lists o).chain.mem_iff_follows a).symm.trans (h.rep.listed o a)

/-- With an empty cache, the free blocks are the maximal vacant ranges. -/
theorem BuddyInv.free_iff_maximal (h : BuddyInv s v) (cached : ∀ i, v.cached i = [])
    : v.tile k = some (.free, o) ↔ s.MaximalVacant o k := by
  have sizes := fun i => P.orderSize_pos i
  constructor
  · intro known
    refine ⟨h.vacant_iff.mpr (h.rep.room known rfl), ?_⟩
    rintro j larger ⟨before, after⟩
    obtain ⟨a, i, found, le, lo, hi⟩ := h.toBuddyIdle.free_of_room cached (h.vacant_iff.mp larger)
    have := sizes o
    obtain ⟨rfl, eq⟩ := h.rep.tiling.tiled.unique found known (x := k) (by omega)
      (by simp only [← P.orderSize_eq]; omega) (Nat.le_refl k)
      (by simp only [← P.orderSize_eq]; omega)
    obtain ⟨_, rfl⟩ := Prod.mk.inj eq
    omega
  · rintro ⟨vacant, maximal⟩
    obtain ⟨a, i, found, le, lo, hi⟩ := h.toBuddyIdle.free_of_room cached (h.vacant_iff.mp vacant)
    have room := h.rep.room found rfl
    rcases Nat.eq_or_lt_of_le le with rfl | above
    · have : a = k := by omega
      rwa [← this]
    · -- the aligned range of twice the size around `k` lies in the same free block
      exfalso
      have double := P.orderSize_dvd (show o + 1 ≤ i from above)
      have aligned : P.orderSize (o + 1) ∣ a := double.trans room.1
      have positive := sizes (o + 1)
      generalize P.orderSize (o + 1) = S at double aligned positive maximal
      obtain ⟨c, rfl⟩ := aligned
      obtain ⟨d, whole⟩ := double
      have below := Nat.div_mul_le_self k S
      have next := Nat.lt_div_mul_add (a := k) positive
      have low : c ≤ k / S := (Nat.le_div_iff_mul_le positive).mpr (by rwa [Nat.mul_comm])
      have high : k / S < c + d := by
        rw [Nat.div_lt_iff_lt_mul positive, Nat.add_mul, Nat.mul_comm c, Nat.mul_comm d, ← whole]
        have := sizes o
        omega
      have start := Nat.mul_le_mul_right S low
      have stop := Nat.mul_le_mul_right S (show k / S + 1 ≤ c + d from high)
      rw [Nat.add_mul, Nat.add_mul, Nat.one_mul] at stop
      rw [Nat.mul_comm c, Nat.mul_comm d, ← whole] at stop
      rw [Nat.mul_comm c] at start
      refine maximal (k / S * S) ⟨Nat.dvd_mul_left _ _, ?_, ?_⟩ ⟨below, by omega⟩
      · have := room.2.1
        omega
      · intro p j read
        obtain ⟨y, kind, rfl, owned⟩ := h.orderAt_iff.mp read
        have := room.2.2 y _ owned
        simp only at this
        omega

/-- The tag of an owned or free block, or of no block, is read off the partition. -/
theorem BuddyInv.tag_of_tile (h : BuddyInv s v) {i : Nat} (inside : i < s.tagCount)
    : s.tag i = (tileTag (v.tile (i * P.minBlock))).getD tagNone := by
  have positive := P.minBlock_pos
  have index : (i * P.minBlock) >>> P.log2Min = i := by
    rw [P.shift_eq, Nat.mul_div_cancel _ positive]
  have fits : i * P.minBlock < s.total := by
    rw [h.rep.geometry.total_eq]
    exact Nat.mul_lt_mul_of_pos_right inside positive
  have read := fun t => h.rep.tags _ (Nat.dvd_mul_left P.minBlock i) fits t
  rw [index] at read
  cases expected : tileTag (v.tile (i * P.minBlock)) with
  | some t => exact read t expected
  | none =>
      cases found : v.tile (i * P.minBlock) with
      | none => simp [found, tileTag] at expected
      | some b =>
          obtain ⟨kind, j⟩ := b
          cases kind with
          | held => exact (h.settled _ j found).elim
          | free => simp [found, tileTag] at expected
          | alloc => simp [found, tileTag] at expected
          | sheet => simp [found, tileTag] at expected
          | cached => simp [found, tileTag] at expected

/-- The same owned blocks on the same geometry leave the same free blocks, once the caches
are empty.
-/
theorem BuddyInv.same_tiles (h : BuddyInv s v) (h' : BuddyInv t w)
    (geometry : s.toBuddyGeometry = t.toBuddyGeometry) (owned : v.owned = w.owned)
    (cached : ∀ i, v.cached i = []) (cached' : ∀ i, w.cached i = [])
    : v.tile = w.tile := by
  have kinds : ∀ {r : BuddyState P} {u : BuddyView}, BuddyInv r u → (∀ i, u.cached i = []) →
      ∀ x k o, k ≠ TileKind.free → (u.tile x = some (k, o) ↔ u.owned x = some (k, o)) := by
    intro r u inv empty x k o other
    refine ⟨fun found => ownedOf_eq_some.mpr ⟨found, ?_⟩, fun found => (ownedOf_eq_some.mp found).1⟩
    cases k with
    | free => exact (other rfl).elim
    | alloc => rfl
    | sheet => rfl
    | held => exact (inv.settled x o found).elim
    | cached =>
        have := (inv.rep.inCache o _).mpr ⟨x, rfl, found⟩
        simp [empty o] at this
  have others : ∀ x k o, k ≠ TileKind.free →
      (v.tile x = some (k, o) ↔ w.tile x = some (k, o)) := by
    intro x k o other
    rw [kinds h cached x k o other, kinds h' cached' x k o other, owned]
  have total : s.total = t.total := by rw [geometry]
  have top : s.maxOrder = t.maxOrder := by rw [geometry]
  have tiling : DyadicTiling P.log2Min t.maxOrder t.total v.tile := by
    rw [← top, ← total]
    exact h.rep.tiling
  have merged : v.Merged P t.maxOrder := by
    rw [← top]
    exact h.merged
  funext x
  refine Option.ext ?_
  rintro ⟨k, o⟩
  by_cases free : k = .free
  · subst free
    refine ⟨fun found => ?_, fun found => ?_⟩
    · exact tiling.free_unique h'.rep.tiling merged h'.merged others found
    · exact h'.rep.tiling.free_unique tiling h'.merged merged
        (fun a k o other => (others a k o other).symm) found
  · exact others x k o free

/-- Equal partitions with empty caches show the same free blocks, tags and mask. -/
theorem BuddyInv.same_free (h : BuddyInv s v) (h' : BuddyInv t w)
    (geometry : s.toBuddyGeometry = t.toBuddyGeometry) (owned : v.owned = w.owned)
    (cached : ∀ i, v.cached i = []) (cached' : ∀ i, w.cached i = [])
    : s.SameFree t := by
  have tiles := h.same_tiles h' geometry owned cached cached'
  have base : s.base = t.base := by rw [geometry]
  have count : s.tagCount = t.tagCount := by rw [geometry]
  refine ⟨fun o a => ?_, fun i inside => ?_, Nat.eq_of_testBit_eq (fun o => ?_)⟩
  · rw [h.listed_iff, h'.listed_iff, tiles, base]
  · rw [h.tag_of_tile inside, h'.tag_of_tile (by omega), tiles]
  · have lists : v.lists o ≠ [] ↔ w.lists o ≠ [] := by
      simp only [ne_eq, List.eq_nil_iff_forall_not_mem, h.rep.listed o, h'.rep.listed o, tiles,
        base]
    rw [Bool.eq_iff_iff, h.mask o, h'.mask o, lists]

/-- The owned blocks of a plain view are those that the tags show. -/
theorem BuddyInv.owned_eq (h : BuddyInv s v) (h' : BuddyInv t w) (plain : v.Plain)
    (plain' : w.Plain) (base : s.base = t.base) (live : ∀ p, s.orderAt p = t.orderAt p)
    : v.owned = w.owned := by
  have shown : ∀ {r : BuddyState P} {u : BuddyView}, BuddyInv r u → u.Plain → ∀ x k o,
      u.owned x = some (k, o) ↔ k = .alloc ∧ r.orderAt (r.base + x) = some o := by
    intro r u inv plain x k o
    constructor
    · exact fun found => ⟨plain x _ found, inv.orderAt_iff.mpr ⟨x, k, rfl, found⟩⟩
    · rintro ⟨rfl, read⟩
      obtain ⟨y, k', same, found⟩ := inv.orderAt_iff.mp read
      obtain rfl : x = y := by omega
      obtain rfl : k' = .alloc := plain x _ found
      exact found
  funext x
  refine Option.ext ?_
  rintro ⟨k, o⟩
  rw [shown h plain, shown h' plain', base, live]

/-- Freeing a pointer takes exactly its block out of the live ones. -/
theorem BuddyReached.orderAt_deallocate (run : BuddyReached P s) (p q : Nat)
    : (s.perform (.deallocate p)).orderAt q = if q = p then none else s.orderAt q := by
  obtain ⟨v, inv, plain, _⟩ := run.inv
  simp only [BuddyState.perform, BuddyState.deallocate]
  cases read : s.orderAt p with
  | none =>
      by_cases same : q = p
      · subst same
        simp [read]
      · simp [same]
  | some o =>
      obtain ⟨x, k, rfl, owned⟩ := inv.orderAt_iff.mp read
      obtain rfl : k = .alloc := plain x _ owned
      obtain ⟨v', step⟩ := inv.deallocateOrder (ownedOf_eq_some.mp owned).1
      have base : (s.deallocateOrder (s.base + x) o).base = s.base := by rw [step.geometry]
      refine Option.ext (fun i => ?_)
      simp only [step.inv.orderAt_iff, step.owned_eq, base]
      by_cases same : q = s.base + x
      · subst same
        simp
      · rw [if_neg same, inv.orderAt_iff]
        refine exists_congr (fun y => exists_congr (fun k' => and_congr_right (fun eq => ?_)))
        rw [Function.update_of_ne (by omega)]

/-- Freeing several pointers takes exactly their blocks out, by induction on the list. -/
theorem BuddyReached.releaseAll (run : BuddyReached P s) (ps : List Nat)
    : BuddyReached P (s.releaseAll ps)
      ∧ (s.releaseAll ps).toBuddyGeometry = s.toBuddyGeometry
      ∧ ∀ q, (s.releaseAll ps).orderAt q = if q ∈ ps then none else s.orderAt q := by
  induction ps generalizing s with
  | nil => exact ⟨run, rfl, fun q => by simp [BuddyState.releaseAll]⟩
  | cons p rest ih =>
      obtain ⟨v, inv, plain, laid⟩ := run.inv
      obtain ⟨_, _, _, first⟩ := inv.perform plain laid (.deallocate p)
      obtain ⟨after, geometry, live⟩ := ih (run.perform (.deallocate p))
      refine ⟨after, geometry.trans first, fun q => ?_⟩
      have call : s.releaseAll (p :: rest) = (s.perform (.deallocate p)).releaseAll rest := rfl
      rw [call, live, run.orderAt_deallocate]
      by_cases same : q = p
      · simp [same]
      · simp [same]

/-- The same live blocks on the same geometry leave the same free blocks. -/
theorem BuddyReached.same_free (left : BuddyReached P s) (right : BuddyReached P t)
    (geometry : s.toBuddyGeometry = t.toBuddyGeometry) (live : ∀ p, s.orderAt p = t.orderAt p)
    : s.flushCache.SameFree t.flushCache := by
  obtain ⟨v, inv, plain, _⟩ := left.inv
  obtain ⟨w, inv', plain', _⟩ := right.inv
  have owned := inv.owned_eq inv' plain plain' (by rw [geometry]) live
  obtain ⟨v₁, flushed, move, cached⟩ := inv.flushCache
  obtain ⟨w₁, flushed', move', cached'⟩ := inv'.flushCache
  refine flushed.same_free flushed' ?_ ?_ cached cached'
  · rw [move.geometry, move'.geometry, geometry]
  · rw [move.owned, move'.owned, owned]

/-- Two runs on one geometry that end with the same live blocks have the same free blocks,
tags and free mask once the caches are flushed: the maximal vacant ranges, whatever the
order in which blocks were released.
-/
theorem BuddyReached.history_free (left : BuddyReached P s) (right : BuddyReached P t)
    (geometry : s.toBuddyGeometry = t.toBuddyGeometry) (live : ∀ p, s.orderAt p = t.orderAt p)
    : s.flushCache.SameFree t.flushCache
      ∧ (∀ o a, s.flushCache.Listed o a
          ↔ ∃ k, a = s.base + k ∧ s.flushCache.MaximalVacant o k)
      ∧ ∀ ps qs : List Nat, ps.Perm qs →
          (s.releaseAll ps).flushCache.SameFree (s.releaseAll qs).flushCache := by
  refine ⟨left.same_free right geometry live, ?_, ?_⟩
  · intro o a
    obtain ⟨v, inv, _, _⟩ := left.inv
    obtain ⟨v', flushed, move, cached⟩ := inv.flushCache
    have base : s.flushCache.base = s.base := by rw [move.geometry]
    rw [flushed.listed_iff, base]
    exact exists_congr (fun k => and_congr_right (fun _ => flushed.free_iff_maximal cached))
  · intro ps qs permuted
    obtain ⟨run, geometry, after⟩ := left.releaseAll ps
    obtain ⟨run', geometry', after'⟩ := left.releaseAll qs
    refine run.same_free run' (geometry.trans geometry'.symm) (fun p => ?_)
    rw [after, after']
    simp only [permuted.mem_iff]

/-- Live blocks only show at the offsets of the data. -/
theorem BuddyState.orderAt_eq_of_offsets {P : BuddyParams} {s t : BuddyState P}
    (geometry : s.toBuddyGeometry = t.toBuddyGeometry)
    (same : ∀ k < s.total, s.orderAt (s.base + k) = t.orderAt (s.base + k)) (p : Nat)
    : s.orderAt p = t.orderAt p := by
  have base : t.base = s.base := by rw [geometry]
  have total : t.total = s.total := by rw [geometry]
  by_cases inside : wrapSub P.word p s.base < s.total
  · have back : wrapSub P.word (s.base + wrapSub P.word p s.base) s.base
        = wrapSub P.word p s.base := by
      rw [wrapSub_of_le (Nat.le_add_right _ _), Nat.add_sub_cancel_left]
    have here := same _ inside
    simpa only [BuddyState.orderAt, base, back] using here
  · simp only [BuddyState.orderAt, base, total, if_pos (show (decide
      (wrapSub P.word p s.base ≥ s.total) || _) = true by simp [Nat.not_lt.mp inside])]

/-- The small list after four calls, and after six others, with a block of 32 bytes and one of
64 live both times.
-/
def splitHistory : List BuddyOp := [.allocate 20, .allocate 20, .allocate 40, .deallocate 4160]

def mergedHistory : List BuddyOp :=
  [.allocateAligned 20 64, .allocate 40, .deallocate 4160, .allocate 20, .allocate 20,
    .deallocate 4160]

theorem BuddyReached.history_free_small
    : let s := BuddyState.smallAfter splitHistory
      let t := BuddyState.smallAfter mergedHistory
      s.flushCache.SameFree t.flushCache
        ∧ (∀ o a, s.flushCache.Listed o a
            ↔ ∃ k, a = s.base + k ∧ s.flushCache.MaximalVacant o k)
        ∧ ∀ ps qs : List Nat, ps.Perm qs →
            (s.releaseAll ps).flushCache.SameFree (s.releaseAll qs).flushCache := by
  obtain ⟨left, first⟩ := smallBuddy_start.performs splitHistory
  obtain ⟨right, second⟩ := smallBuddy_start.performs mergedHistory
  have geometry := first.trans second.symm
  exact left.history_free right geometry
    (BuddyState.orderAt_eq_of_offsets geometry (by decide +kernel))

end History

end Bbmalloc
