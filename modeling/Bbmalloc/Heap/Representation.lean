import Bbmalloc.Region.Gauges

/-! The heap as a whole: regions on separate memory, and the blocks that clients hold, by
address. A call on one region changes nothing that another region reads.
-/

namespace Bbmalloc

open Bbmalloc.Foundations

-----------------------------------------------------------------------------------------
-- Blocks by address
-----------------------------------------------------------------------------------------

/-- A block that a client holds: its bytes, the redzone among them, and its tier. -/
structure Block where
  len : Nat
  tier : Tier
  deriving DecidableEq, Repr

/-- The region at `base` holds block `b` at address `p` for a client. -/
def Live.Holds (P : BuddyParams) (base : Nat) (l : Live) (p : Nat) (b : Block) : Prop :=
  (∃ x o, l.large x = some o ∧ p = base + x ∧ b = ⟨P.orderSize o, .buddy⟩)
  ∨ ∃ x n, l.small x = some n ∧ p = base + x + headerSize ∧ b = ⟨n - headerSize, .tlsf⟩

/-- No large block starts where the payload of a small one starts. -/
def Live.Apart (l : Live) : Prop :=
  ∀ x o y n, l.large x = some o → l.small y = some n → x ≠ y + headerSize

/-- The address is in a block that a client holds. -/
def Covered (held : Nat → Option Block) (a : Nat) : Prop :=
  ∃ p b, held p = some b ∧ p ≤ a ∧ a < p + b.len

section Blocks

variable {C : Config} {P : BuddyParams} {base : Nat} {l : Live} {r : RegionState C}
  {v : RegionView} {p a x : Nat} {b d : Block}

/-- Covered addresses are those of the blocks. -/
theorem Live.covers_iff
    : l.Covers P base a ↔ ∃ p b, l.Holds P base p b ∧ p ≤ a ∧ a < p + b.len := by
  constructor
  · rintro (⟨x, o, held, lo, hi⟩ | ⟨x, n, held, lo, hi⟩)
    · exact ⟨_, _, Or.inl ⟨x, o, held, rfl, rfl⟩, lo, hi⟩
    · exact ⟨_, _, Or.inr ⟨x, n, held, rfl, rfl⟩, lo, by
        simp only [headerSize] at lo ⊢
        omega⟩
  · rintro ⟨p, b, ⟨x, o, held, rfl, rfl⟩ | ⟨x, n, held, rfl, rfl⟩, lo, hi⟩
    · exact Or.inl ⟨x, o, held, lo, hi⟩
    · refine Or.inr ⟨x, n, held, lo, ?_⟩
      simp only [headerSize] at lo hi
      omega

/-- A large block granted, released or resized. -/
theorem Live.holds_setLarge {c : Option Nat} (apart : l.Apart) (apart' : (l.setLarge x c).Apart)
    (some : l.large x ≠ Option.none ∨ c ≠ Option.none)
    : (l.setLarge x c).Holds P base p b
      ↔ if p = base + x then c.map (fun o => (⟨P.orderSize o, .buddy⟩ : Block)) = Option.some b
        else l.Holds P base p b := by
  have noSmall : ∀ y n, l.small y = Option.some n → x ≠ y + headerSize := by
    intro y n held
    rcases some with before | after
    · obtain ⟨o, known⟩ := Option.ne_none_iff_exists'.mp before
      exact apart x o y n known held
    · obtain ⟨o, known⟩ := Option.ne_none_iff_exists'.mp after
      exact apart' x o y n (by simp [Live.setLarge, known]) held
  split
  case isTrue here =>
    subst here
    constructor
    · rintro (⟨y, o, held, same, rfl⟩ | ⟨y, n, held, same, rfl⟩)
      · obtain rfl : x = y := by omega
        simp only [Live.setLarge, Function.update_self] at held
        simp [held]
      · exact absurd (by omega) (noSmall y n held)
    · intro known
      obtain ⟨o, rfl, rfl⟩ := Option.map_eq_some_iff.mp known
      exact Or.inl ⟨x, o, by simp [Live.setLarge], rfl, rfl⟩
  case isFalse away =>
    refine or_congr (exists_congr fun y => exists_congr fun o => ?_) Iff.rfl
    refine and_congr_left (fun both => ?_)
    have : y ≠ x := fun equal => away (by rw [both.1, equal])
    simp [Live.setLarge, Function.update_of_ne this]

/-- A small block granted, released or resized. -/
theorem Live.holds_setSmall {c : Option Nat} (apart : l.Apart) (apart' : (l.setSmall x c).Apart)
    (some : l.small x ≠ Option.none ∨ c ≠ Option.none)
    : (l.setSmall x c).Holds P base p b
      ↔ if p = base + x + headerSize then
          c.map (fun n => (⟨n - headerSize, .tlsf⟩ : Block)) = Option.some b
        else l.Holds P base p b := by
  have noLarge : ∀ y o, l.large y = Option.some o → y ≠ x + headerSize := by
    intro y o held
    rcases some with before | after
    · obtain ⟨n, known⟩ := Option.ne_none_iff_exists'.mp before
      exact apart y o x n held known
    · obtain ⟨n, known⟩ := Option.ne_none_iff_exists'.mp after
      exact apart' y o x n held (by simp [Live.setSmall, known])
  split
  case isTrue here =>
    subst here
    constructor
    · rintro (⟨y, o, held, same, rfl⟩ | ⟨y, n, held, same, rfl⟩)
      · exact absurd (by omega) (noLarge y o held)
      · obtain rfl : x = y := by omega
        simp only [Live.setSmall, Function.update_self] at held
        simp [held]
    · intro known
      obtain ⟨n, rfl, rfl⟩ := Option.map_eq_some_iff.mp known
      exact Or.inr ⟨x, n, by simp [Live.setSmall], rfl, rfl⟩
  case isFalse away =>
    refine or_congr Iff.rfl (exists_congr fun y => exists_congr fun n => ?_)
    refine and_congr_left (fun both => ?_)
    have : y ≠ x := fun equal => away (by rw [both.1, equal])
    simp [Live.setSmall, Function.update_of_ne this]

/-- Large blocks lie outside the sheets and small ones inside. -/
theorem RegionCore.apart (h : RegionCore r v) : v.live.Apart := by
  intro x o y n large small same
  obtain ⟨sh, member, lo, hi⟩ := h.small_inside small
  have owned := h.sheet_owned member
  have known := Live.of_large.mp large
  have size := (h.tlsf.granted_block small).2.2.1
  have split := h.buddy.owned_apart known owned (fun equal => by
    rw [equal, owned] at known
    cases known)
  have sheetSize := C.orderSize_sheet
  have positive := C.buddy.orderSize_pos o
  simp only [headerSize] at same
  simp only [sheetSize] at split
  have parts := C.tlsf.sheet_parts
  omega

/-- The blocks of a region lie in its data area. -/
theorem RegionCore.holds_inside (h : RegionCore r v)
    (held : v.live.Holds C.buddy r.buddy.base p b)
    : r.buddy.base ≤ p ∧ p + b.len ≤ r.buddy.base + r.buddy.total ∧ 0 < b.len := by
  rcases held with ⟨x, o, held, rfl, rfl⟩ | ⟨x, n, held, rfl, rfl⟩
  · have fits := (h.buddy.owned_le (Live.of_large.mp held)).2
    change x + C.buddy.orderSize o ≤ r.buddy.total at fits
    have := C.buddy.orderSize_pos o
    exact ⟨by omega, by simp only; omega, this⟩
  · obtain ⟨sh, member, lo, hi⟩ := h.small_inside held
    have size := (h.tlsf.granted_block held).2.2.1
    have fits := (h.sheet_lt member).2.1
    simp only [headerSize]
    exact ⟨by omega, by omega, by omega⟩

end Blocks

-----------------------------------------------------------------------------------------
-- The invariant of the heap
-----------------------------------------------------------------------------------------

/-- The addresses of a static pool and its tag array. -/
def Config.Static (C : Config) (a : Nat) : Prop :=
  ∃ mem len tags, C.pool = .static mem len tags
    ∧ ((mem ≤ a ∧ a < mem + len) ∨ (tags ≤ a ∧ a < tags + len / C.buddy.minBlock))

/-- The layout of region `i`. -/
def HeapState.geo {C : Config} (s : HeapState C) (i : Nat) : BuddyGeometry :=
  (s.regions i).buddy.toBuddyGeometry

/-- The regions in use represent views and use separate memory, the others were never filled,
and `held` are the blocks of the clients. A static pool is zero until it is used.
-/
structure HeapInv {C : Config} (s : HeapState C) (v : Nat → RegionView)
    (held : Nat → Option Block)
    : Prop where
  regions : ∀ i < s.count, RegionInv (s.region i) (v i)
  laid : ∀ i < s.count, (s.geo i).layout C.buddy = some (s.geo i)
  idle : ∀ i, s.count ≤ i → (s.region i).Idle
  separate : ∀ i < s.count, ∀ j < s.count, i ≠ j → ∀ a,
    Footprint (s.geo i) a → ¬Footprint (s.geo j) a
  few : s.count ≤ C.maxRegions
  ready : s.inited = false → s.count = 0
  clean : s.inited = false → ∀ a, C.Static a → (s.mem a).byte = 0
  blocks : ∀ p b, held p = some b
    ↔ ∃ i < s.count, (v i).live.Holds C.buddy (s.geo i).base p b

/-- The addresses that the heap may write: its regions without the blocks in `kept`. -/
def HeapLoose {C : Config} (s : HeapState C) (kept : Nat → Option Block) (a : Nat) : Prop :=
  (∃ i < s.count, Footprint (s.geo i) a) ∧ ¬Covered kept a

/-- What an operation on the heap does: the clients hold `held` afterwards, regions stay where
they are, and only memory outside the blocks of `kept` is written.
-/
structure HeapStep {C : Config} (s s' : HeapState C) (v' : Nat → RegionView)
    (kept held : Nat → Option Block)
    : Prop where
  inv : HeapInv s' v' held
  more : s.count ≤ s'.count
  geo : ∀ i < s.count, s'.geo i = s.geo i
  inited : s.inited = true → s'.inited = true
  within : Memory.Within (HeapLoose s' kept) s.mem s'.mem

/-- No region was added and no page requested. -/
structure Steady {C : Config} (s s' : HeapState C) : Prop where
  count : s'.count = s.count
  inited : s'.inited = s.inited
  requests : s'.requests = s.requests

section Frame

variable {C : Config} {s s' s'' : HeapState C} {v v' v'' : Nat → RegionView} {m : Memory}
  {held held' held'' kept kept' : Nat → Option Block} {i p a : Nat} {b d : Block}

theorem Steady.refl (s : HeapState C) : Steady s s := ⟨rfl, rfl, rfl⟩

theorem Steady.trans (first : Steady s s') (second : Steady s' s'') : Steady s s'' :=
  ⟨second.count.trans first.count, second.inited.trans first.inited,
    second.requests.trans first.requests⟩

/-- Blocks in `held` cover what the regions' live blocks cover. -/
theorem HeapInv.covered_iff (h : HeapInv s v held)
    : Covered held a ↔ ∃ i < s.count, (v i).live.Covers C.buddy (s.geo i).base a := by
  constructor
  · rintro ⟨p, b, found, lo, hi⟩
    obtain ⟨i, less, holds⟩ := (h.blocks p b).mp found
    exact ⟨i, less, Live.covers_iff.mpr ⟨p, b, holds, lo, hi⟩⟩
  · rintro ⟨i, less, covers⟩
    obtain ⟨p, b, holds, lo, hi⟩ := Live.covers_iff.mp covers
    exact ⟨p, b, (h.blocks p b).mpr ⟨i, less, holds⟩, lo, hi⟩

/-- A block lies in the data area of its region. -/
theorem HeapInv.inside (h : HeapInv s v held) (less : i < s.count)
    (holds : (v i).live.Holds C.buddy (s.geo i).base p b)
    : (s.geo i).base ≤ p ∧ p + b.len ≤ (s.geo i).base + (s.geo i).total ∧ 0 < b.len :=
  (h.regions i less).holds_inside holds

/-- A block of one region is no block of another. -/
theorem HeapInv.holds_apart (h : HeapInv s v held) {j : Nat} (hi : i < s.count)
    (hj : j < s.count) (first : (v i).live.Holds C.buddy (s.geo i).base p b)
    (inside : (s.geo j).base ≤ p ∧ p < (s.geo j).base + (s.geo j).total)
    : i = j := by
  by_contra differ
  obtain ⟨lo, hi', pos⟩ := h.inside hi first
  exact h.separate i hi j hj differ p (Or.inr ⟨lo, by omega⟩) (Or.inr inside)

/-- What region `i` may write is loose for the heap. -/
theorem HeapInv.loose_of_region (h : HeapInv s v held) (less : i < s.count)
    (loose : RegionLoose C.buddy (s.geo i) (v i).live a)
    : HeapLoose s held a := by
  refine ⟨⟨i, less, loose.1⟩, fun covered => ?_⟩
  obtain ⟨j, lessJ, covers⟩ := h.covered_iff.mp covered
  have inside := (h.regions j lessJ).covers_inside covers
  by_cases same : i = j
  · subst same
    exact loose.2 covers
  · exact h.separate i less j lessJ same a loose.1 (Or.inr inside)

/-- The heap depends on its loose bytes only. -/
theorem HeapInv.congr (h : HeapInv s v held)
    (same : ∀ a, HeapLoose s held a → (m a).byte = (s.mem a).byte)
    (clean : s.inited = false → ∀ a, C.Static a → (m a).byte = 0)
    : HeapInv ({ s with mem := m } : HeapState C) v held where
  regions i less := (h.regions i less).congr (fun a loose =>
    same a (h.loose_of_region less loose))
  laid := h.laid
  idle i le := ⟨(h.idle i le).live, (h.idle i le).total, (h.idle i le).maxOrder,
    (h.idle i le).count, (h.idle i le).noRollback⟩
  separate := h.separate
  few := h.few
  ready := h.ready
  clean := clean
  blocks := h.blocks

/-- A heap with a region is initialised. -/
theorem HeapInv.inited_of_count (h : HeapInv s v held) (some : 0 < s.count)
    : s.inited = true := by
  cases known : s.inited with
  | true => rfl
  | false => exact absurd (h.ready known) (by omega)

/-- The counters play no role. -/
theorem HeapInv.collect (h : HeapInv s v held) (t : StatType) (n : Nat)
    : HeapInv (s.collect t n) v held where
  regions i less := by
    have inv := h.regions i less
    exact ⟨⟨inv.live, inv.buddy, inv.tlsf, inv.base, inv.sheets, inv.noRollback⟩,
      inv.spareSheet, inv.onlySpare⟩
  laid := h.laid
  idle i le := ⟨(h.idle i le).live, (h.idle i le).total, (h.idle i le).maxOrder,
    (h.idle i le).count, (h.idle i le).noRollback⟩
  separate := h.separate
  few := h.few
  ready := h.ready
  clean := h.clean
  blocks := h.blocks

theorem HeapInv.refl (h : HeapInv s v held) (kept : Nat → Option Block)
    : HeapStep s s v kept held :=
  ⟨h, le_rfl, fun _ _ => rfl, id, Memory.Within.refl _ _⟩

/-- Loose addresses stay loose when regions are added and fewer blocks are kept. -/
theorem HeapLoose.mono (more : s.count ≤ s'.count) (geo : ∀ i < s.count, s'.geo i = s.geo i)
    (sub : ∀ p b, kept' p = some b → kept p = some b) (loose : HeapLoose s kept a)
    : HeapLoose s' kept' a := by
  obtain ⟨⟨i, less, inside⟩, free⟩ := loose
  refine ⟨⟨i, by omega, geo i less ▸ inside⟩, ?_⟩
  rintro ⟨p, b, found, lo, hi⟩
  exact free ⟨p, b, sub p b found, lo, hi⟩

/-- Steps compose; blocks that both keep are kept. -/
theorem HeapStep.trans (first : HeapStep s s' v' kept held)
    (second : HeapStep s' s'' v'' kept' held') {k : Nat → Option Block}
    (sub : ∀ p b, k p = some b → kept p = some b)
    (sub' : ∀ p b, k p = some b → kept' p = some b)
    : HeapStep s s'' v'' k held' where
  inv := second.inv
  more := first.more.trans second.more
  geo i less := (second.geo i (lt_of_lt_of_le less first.more)).trans (first.geo i less)
  inited h := second.inited (first.inited h)
  within := (first.within.mono (fun _ loose => loose.mono second.more second.geo sub)).trans
    (second.within.mono (fun _ loose => loose.mono le_rfl (fun _ _ => rfl) sub'))

/-- The counters change nothing. -/
theorem HeapStep.collect (step : HeapStep s s' v' kept held) (t : StatType) (n : Nat)
    : HeapStep s (s'.collect t n) v' kept held :=
  ⟨step.inv.collect t n, step.more, step.geo, step.inited, step.within⟩

end Frame

-----------------------------------------------------------------------------------------
-- A call on one region
-----------------------------------------------------------------------------------------

/-- The block of a large entry. -/
def largeBlock (P : BuddyParams) (c : Option Nat) : Option Block :=
  c.map (fun o => ⟨P.orderSize o, .buddy⟩)

/-- The block of a small entry. -/
def smallBlock (c : Option Nat) : Option Block :=
  c.map (fun n => ⟨n - headerSize, .tlsf⟩)

section OneRegion

variable {C : Config} {s : HeapState C} {v : Nat → RegionView} {w : RegionView}
  {r : RegionState C} {held held' kept : Nat → Option Block} {k l : Live} {i x p : Nat}
  {c : Option Nat} {b : Option Block}

@[simp]
theorem HeapState.region_setRegion (s : HeapState C) (i : Nat) (r : RegionState C)
    : (s.setRegion i r).region i = r := by
  simp [region, setRegion]

theorem HeapState.region_setRegion_ne (s : HeapState C) (r : RegionState C) {j : Nat} (ne : j ≠ i)
    : (s.setRegion i r).region j = { s.region j with mem := r.mem, stats := r.stats } := by
  simp [region, setRegion, ne]

theorem HeapState.geo_setRegion (geometry : r.buddy.toBuddyGeometry = s.geo i) (j : Nat)
    : (s.setRegion i r).geo j = s.geo j := by
  by_cases same : j = i
  · subst same
    simpa [geo, setRegion] using geometry
  · simp [geo, setRegion, same]

theorem Steady.setRegion (s : HeapState C) (i : Nat) (r : RegionState C)
    : Steady s (s.setRegion i r) :=
  ⟨rfl, rfl, rfl⟩

/-- A step of one region is a step of the heap: the other regions use other memory. -/
theorem HeapInv.regionStep (h : HeapInv s v held) (less : i < s.count)
    (step : RegionStep (s.region i) r w k l)
    (blocks : ∀ p b, held' p = some b
      ↔ (∃ j < s.count, j ≠ i ∧ (v j).live.Holds C.buddy (s.geo j).base p b)
        ∨ l.Holds C.buddy (s.geo i).base p b)
    (keeps : ∀ p b, kept p = some b →
      (∃ j < s.count, j ≠ i ∧ (v j).live.Holds C.buddy (s.geo j).base p b)
        ∨ k.Holds C.buddy (s.geo i).base p b)
    : HeapStep s (s.setRegion i r) (Function.update v i w) kept held' := by
  have geo := s.geo_setRegion (i := i) step.geometry
  have inits : s.inited = true := h.inited_of_count (by omega)
  have elsewhere : ∀ j < s.count, j ≠ i → ∀ a, Footprint (s.geo j) a → r.mem a = s.mem a := by
    intro j lessJ ne a inside
    exact step.within a (fun loose => h.separate i less j lessJ (Ne.symm ne) a loose.1 inside)
  refine ⟨⟨?_, ?_, ?_, ?_, h.few, ?_, ?_, ?_⟩, le_rfl, fun j _ => geo j, id, ?_⟩
  · intro j lessJ
    by_cases same : j = i
    · subst same
      simpa using step.inv
    · rw [s.region_setRegion_ne r same, Function.update_of_ne same]
      have inv := (h.regions j lessJ).congr (m := r.mem) (fun a loose =>
        congrArg Cell.byte (elsewhere j lessJ same a loose.1))
      exact ⟨⟨inv.live, inv.buddy, inv.tlsf, inv.base, inv.sheets, inv.noRollback⟩,
        inv.spareSheet, inv.onlySpare⟩
  · intro j lessJ
    rw [geo]
    exact h.laid j lessJ
  · intro j le
    have ne : j ≠ i := fun same => absurd (same ▸ less) (Nat.not_lt.mpr le)
    rw [s.region_setRegion_ne r ne]
    have idle := h.idle j le
    exact ⟨idle.live, idle.total, idle.maxOrder, idle.count, idle.noRollback⟩
  · intro j lessJ j' lessJ' ne a
    rw [geo, geo]
    exact h.separate j lessJ j' lessJ' ne a
  · exact fun not => absurd (inits.symm.trans not) (by decide)
  · exact fun not => absurd (inits.symm.trans not) (by decide)
  · intro p b
    rw [blocks]
    constructor
    · rintro (⟨j, lessJ, ne, holds⟩ | holds)
      · exact ⟨j, lessJ, by rwa [geo, Function.update_of_ne ne]⟩
      · exact ⟨i, less, by rwa [geo, Function.update_self, step.live_eq]⟩
    · rintro ⟨j, lessJ, holds⟩
      rw [geo] at holds
      by_cases same : j = i
      · subst same
        rw [Function.update_self, step.live_eq] at holds
        exact Or.inr holds
      · rw [Function.update_of_ne same] at holds
        exact Or.inl ⟨j, lessJ, same, holds⟩
  · refine step.within.mono (fun a loose => ⟨⟨i, less, ?_⟩, ?_⟩)
    · rw [geo]
      exact loose.1
    · rintro ⟨p, b, found, lo, hi⟩
      rcases keeps p b found with ⟨j, lessJ, ne, holds⟩ | holds
      · have inside := h.inside lessJ holds
        exact h.separate i less j lessJ (Ne.symm ne) a loose.1 (Or.inr ⟨by omega, by omega⟩)
      · exact loose.2 (Live.covers_iff.mpr ⟨p, b, holds, lo, hi⟩)

/-- The blocks of the other regions and of region `i`. -/
theorem HeapInv.held_split (h : HeapInv s v held) (less : i < s.count) (p : Nat) (b : Block)
    : held p = some b
      ↔ (∃ j < s.count, j ≠ i ∧ (v j).live.Holds C.buddy (s.geo j).base p b)
        ∨ (v i).live.Holds C.buddy (s.geo i).base p b := by
  rw [h.blocks]
  constructor
  · rintro ⟨j, lessJ, holds⟩
    by_cases same : j = i
    · exact Or.inr (same ▸ holds)
    · exact Or.inl ⟨j, lessJ, same, holds⟩
  · rintro (⟨j, lessJ, _, holds⟩ | holds)
    · exact ⟨j, lessJ, holds⟩
    · exact ⟨i, less, holds⟩

/-- A step that keeps the live blocks of the region. -/
theorem HeapInv.regionQuiet (h : HeapInv s v held) (less : i < s.count)
    (step : RegionStep (s.region i) r w (v i).live (v i).live)
    : HeapStep s (s.setRegion i r) (Function.update v i w) held held :=
  h.regionStep less step (h.held_split less) (fun p b => (h.held_split less p b).mp)

/-- A step that changes one block of the region, which keeps all the blocks there were or all
the blocks there are.
-/
theorem HeapInv.regionSet (h : HeapInv s v held) (less : i < s.count)
    (step : RegionStep (s.region i) r w k l)
    (inside : (s.geo i).base ≤ p ∧ p < (s.geo i).base + (s.geo i).total)
    (change : ∀ q d, l.Holds C.buddy (s.geo i).base q d
      ↔ if q = p then b = some d else (v i).live.Holds C.buddy (s.geo i).base q d)
    (keeps : (kept = held ∧ k = (v i).live) ∨ (kept = Function.update held p b ∧ k = l))
    : HeapStep s (s.setRegion i r) (Function.update v i w) kept (Function.update held p b) := by
  have blocks : ∀ q d, Function.update held p b q = some d
      ↔ (∃ j < s.count, j ≠ i ∧ (v j).live.Holds C.buddy (s.geo j).base q d)
        ∨ l.Holds C.buddy (s.geo i).base q d := by
    intro q d
    rw [change]
    by_cases here : q = p
    · subst here
      rw [Function.update_self, if_pos rfl, iff_or_self]
      rintro ⟨j, lessJ, ne, holds⟩
      exact absurd (h.holds_apart lessJ less holds inside) ne
    · rw [Function.update_of_ne here, if_neg here, h.held_split less]
  refine h.regionStep less step blocks ?_
  rcases keeps with ⟨rfl, rfl⟩ | ⟨rfl, rfl⟩
  · exact fun p b => (h.held_split less p b).mp
  · exact fun p b => (blocks p b).mp

/-- A large block granted, released or resized. -/
theorem HeapInv.setLarge {t : Nat → Option Block} (h : HeapInv s v held) (less : i < s.count)
    (step : RegionStep (s.region i) r w k ((v i).live.setLarge x c))
    (some : (v i).live.large x ≠ none ∨ c ≠ none) (inside : x < (s.geo i).total)
    (keeps : (t = held ∧ k = (v i).live)
      ∨ (t = Function.update held ((s.geo i).base + x) (largeBlock C.buddy c)
        ∧ k = (v i).live.setLarge x c))
    : HeapStep s (s.setRegion i r) (Function.update v i w) t
        (Function.update held ((s.geo i).base + x) (largeBlock C.buddy c)) := by
  have apart' := step.inv.toRegionCore.apart
  rw [step.live_eq] at apart'
  exact h.regionSet less step ⟨by omega, by omega⟩
    (fun q d => Live.holds_setLarge (h.regions i less).toRegionCore.apart apart' some) keeps

/-- A small block granted, released or resized. -/
theorem HeapInv.setSmall {t : Nat → Option Block} (h : HeapInv s v held) (less : i < s.count)
    (step : RegionStep (s.region i) r w k ((v i).live.setSmall x c))
    (some : (v i).live.small x ≠ none ∨ c ≠ none) (inside : x + headerSize < (s.geo i).total)
    (keeps : (t = held ∧ k = (v i).live)
      ∨ (t = Function.update held ((s.geo i).base + x + headerSize) (smallBlock c)
        ∧ k = (v i).live.setSmall x c))
    : HeapStep s (s.setRegion i r) (Function.update v i w) t
        (Function.update held ((s.geo i).base + x + headerSize) (smallBlock c)) := by
  have apart' := step.inv.toRegionCore.apart
  rw [step.live_eq] at apart'
  exact h.regionSet less step ⟨by omega, by omega⟩
    (fun q d => Live.holds_setSmall (h.regions i less).toRegionCore.apart apart' some) keeps

end OneRegion

end Bbmalloc
