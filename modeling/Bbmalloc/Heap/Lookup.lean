import Bbmalloc.Heap.Representation

/-! Pointer recognition. `locate` reads a sheet tag, then a mark and a header or a block tag,
and it answers for exactly the pointers that start a block of a client.
-/

namespace Bbmalloc

open Bbmalloc.Foundations

/-- The right answers of `locate` for `p`: the block that starts there, or nothing. -/
inductive LocatedAt {C : Config} (s : HeapState C) (v : Nat → RegionView)
    (held : Nat → Option Block) (p : Nat)
    : Located → Prop
  | small {i x n : Nat} (less : i < s.count) (block : (v i).live.small x = some n)
      (place : p = (s.geo i).base + x + headerSize)
      : LocatedAt s v held p ⟨some i, n - headerSize, x, .tlsf⟩
  | large {i x o : Nat} (less : i < s.count) (block : (v i).live.large x = some o)
      (place : p = (s.geo i).base + x)
      : LocatedAt s v held p ⟨some i, C.buddy.orderSize o, o, .buddy⟩
  | absent {r : Option Nat} (free : held p = none)
      : LocatedAt s v held p ⟨r, 0, nullOff, .none⟩

section Lookup

variable {C : Config} {s : HeapState C} {v : Nat → RegionView} {held : Nat → Option Block}
  {i p x o : Nat} {l : Located} {b : Block}

/-- A located block is a client's block, with its length and its tier. -/
theorem LocatedAt.held_iff (h : HeapInv s v held) (found : LocatedAt s v held p l)
    : held p = some b ↔ l.len ≠ 0 ∧ b = ⟨l.len, l.t⟩ := by
  have known : ∀ {i c}, i < s.count → (v i).live.Holds C.buddy (s.geo i).base p c →
      (held p = some b ↔ c.len ≠ 0 ∧ b = c) := by
    intro i c less holds
    have here := (h.blocks p c).mpr ⟨i, less, holds⟩
    have positive := (h.inside less holds).2.2
    rw [here, Option.some_inj, eq_comm]
    exact (and_iff_right (by omega)).symm
  cases found with
  | small less block place => exact known less (Or.inr ⟨_, _, block, place, rfl⟩)
  | large less block place => exact known less (Or.inl ⟨_, _, block, place, rfl⟩)
  | absent free => simp [free]

/-- Two records of a pointer agree if the same blocks are held. -/
theorem LocatedAt.agree {s' : HeapState C} {v' : Nat → RegionView} {l' : Located}
    (h : HeapInv s v held) (h' : HeapInv s' v' held) (found : LocatedAt s v held p l)
    (found' : LocatedAt s' v' held p l')
    : l'.len = l.len ∧ l'.t = l.t := by
  have absent : ∀ {t : HeapState C} {u : Nat → RegionView} {d : Located}, HeapInv t u held →
      LocatedAt t u held p d → held p = none → d.len = 0 ∧ d.t = .none := by
    intro t u d inv at_p none
    cases at_p with
    | small less block place =>
        rw [(inv.blocks p _).mpr ⟨_, less, Or.inr ⟨_, _, block, place, rfl⟩⟩] at none
        cases none
    | large less block place =>
        rw [(inv.blocks p _).mpr ⟨_, less, Or.inl ⟨_, _, block, place, rfl⟩⟩] at none
        cases none
    | absent _ => exact ⟨rfl, rfl⟩
  cases known : held p with
  | none =>
      obtain ⟨len, tier⟩ := absent h found known
      obtain ⟨len', tier'⟩ := absent h' found' known
      exact ⟨len'.trans len.symm, tier'.trans tier.symm⟩
  | some b =>
      have first := ((found.held_iff h).mp known).2
      have second := ((found'.held_iff h').mp known).2
      rw [first] at second
      obtain ⟨len, tier⟩ := Block.mk.inj second
      exact ⟨len.symm, tier.symm⟩

/-- What the tags and headers of a region tell about a pointer into it. -/
theorem HeapInv.locateIn (h : HeapInv s v held) (less : i < s.count)
    (inside : (s.geo i).base ≤ p ∧ p < (s.geo i).base + (s.geo i).total)
    : LocatedAt s v held p (s.locateIn i p) := by
  have inv := h.regions i less
  obtain ⟨x, rfl⟩ := Nat.exists_eq_add_of_le inside.1
  have low : x < (s.region i).buddy.total := by
    have := inside.2
    change (s.geo i).base + x < (s.geo i).base + (s.region i).buddy.total at this
    omega
  have most := inv.tlsf.fit.limit_le
  have offset : (s.region i).offOf ((s.geo i).base + x) = x :=
    (s.region i).offOf_base (lt_of_lt_of_le low (most.trans (by decide)))
  have bounds := andNot_low_bounds x C.tlsf.log2Sheet
  have sheetLe : TlsfState.sheetOf C.tlsf x ≤ x := bounds.1
  have sheetDvd : C.tlsf.sheet ∣ TlsfState.sheetOf C.tlsf x := bounds.2.2
  have tag := inv.isSheetAt_iff (dvd_trans C.minBlock_dvd_sheet sheetDvd) (by omega)
  have base : (s.region i).tlsfState.rbase = (s.geo i).base := inv.base
  unfold HeapState.locateIn
  simp only [offset]
  by_cases sheet : TlsfState.sheetOf C.tlsf x ∈ (s.region i).tlsf.sheets
  · rw [if_pos (tag.mpr sheet)]
    have back : (s.geo i).base + x - (s.region i).tlsfState.rbase = x := by omega
    obtain ⟨found, absent⟩ := inv.tlsf.ownsLen (w := C.buddy.word)
      (p := (s.geo i).base + x) (by omega) (by rw [back]; exact low) (by rw [back]; exact sheet)
    by_cases some : ∃ y n, (v i).live.small y = some n
        ∧ (s.geo i).base + x = (s.geo i).base + y + headerSize
    · obtain ⟨y, n, held, place⟩ := some
      obtain ⟨read, notNull⟩ := found y n held (by rw [base]; exact place)
      rw [read]
      simp only [if_neg notNull]
      exact LocatedAt.small less held place
    · have read := absent (fun y n held same => some ⟨y, n, held, by rw [base] at same; exact same⟩)
      rw [read]
      simp only [if_true]
      refine LocatedAt.absent ?_
      rw [Option.eq_none_iff_forall_ne_some]
      intro b known
      obtain ⟨j, lessJ, holds⟩ := (h.blocks _ b).mp known
      obtain rfl := h.holds_apart lessJ less holds inside
      rcases holds with ⟨y, o, held, same, _⟩ | ⟨y, n, held, same, _⟩
      · obtain rfl : x = y := by omega
        have owned := Live.of_large.mp held
        have apart := inv.buddy.owned_apart owned (inv.sheet_owned sheet) (fun same => by
          rw [same, inv.sheet_owned sheet] at owned
          cases owned)
        have size := C.orderSize_sheet
        have positive := C.buddy.orderSize_pos o
        have upper := bounds.2.1
        change x < TlsfState.sheetOf C.tlsf x + C.tlsf.sheet at upper
        simp only [size] at apart
        omega
      · exact some ⟨y, n, held, same⟩
  · rw [if_neg (by rw [tag]; exact sheet)]
    have noSmall : ∀ y n, (v i).live.small y = some n →
        (s.geo i).base + x ≠ (s.geo i).base + y + headerSize := by
      intro y n held same
      obtain ⟨sh, member, lo, hi⟩ := inv.small_inside held
      have size := (inv.tlsf.granted_block held).2.2.1
      simp only [headerSize] at same
      have here := (sheetOf_eq (T := C.tlsf) (inv.sheet_lt member).1
        (show sh ≤ x by omega) (by omega)).1
      exact sheet (here ▸ member)
    cases read : (s.region i).buddyState.orderAt ((s.geo i).base + x) with
    | some o =>
        obtain ⟨y, k, same, owned⟩ := inv.buddy.orderAt_iff.mp read
        change (s.geo i).base + x = (s.geo i).base + y at same
        obtain rfl : x = y := by omega
        have kind := (ownedOf_eq_some.mp owned).2
        cases k with
        | alloc => exact LocatedAt.large less (Live.of_large.mpr owned) rfl
        | sheet =>
            have member := ((inv.sheets x o).mp owned).1
            have here := (sheetOf_eq (T := C.tlsf) (inv.sheet_lt member).1 le_rfl
              (by have := C.tlsf.sheet_pos; omega)).1
            rw [here] at sheet
            exact absurd member sheet
        | free => cases kind
        | cached => cases kind
        | held => cases kind
    | none =>
        refine LocatedAt.absent ?_
        rw [Option.eq_none_iff_forall_ne_some]
        intro b known
        obtain ⟨j, lessJ, holds⟩ := (h.blocks _ b).mp known
        obtain rfl := h.holds_apart lessJ less holds inside
        rcases holds with ⟨y, o, held, same, _⟩ | ⟨y, n, held, same, _⟩
        · have : (s.region j).buddyState.orderAt ((s.geo j).base + x) = some o :=
            inv.buddy.orderAt_iff.mpr ⟨y, .alloc, same, Live.of_large.mp held⟩
          rw [read] at this
          cases this
        · exact noSmall y n held same

/-- The range test of a region in use. -/
theorem HeapInv.contains_iff (h : HeapInv s v held) (less : i < s.count)
    : (s.region i).contains p = true
      ↔ (s.geo i).base ≤ p ∧ p < (s.geo i).base + (s.geo i).total :=
  BuddyState.inRange_iff (h.regions i less).buddy.rep.geometry

/-- A region that was never filled contains nothing. -/
theorem RegionState.Idle.contains {r : RegionState C} (idle : r.Idle) (p : Nat)
    : r.contains p = false := by
  have : r.buddyState.total = 0 := idle.total
  simp [RegionState.contains, BuddyState.inRange, this]

/-- `region_of` on an initialised heap: the first region that contains the pointer. -/
theorem HeapInv.regionOf_eq (h : HeapInv s v held) (ready : s.inited = true) (p : Nat)
    : s.regionOf p = (s, (List.range s.count).find? (fun i => (s.region i).contains p)) := by
  have ensure : s.ensure = (s, decide (0 < s.count)) := by simp [HeapState.ensure, ready]
  rw [HeapState.regionOf]
  by_cases first : (s.region 0).contains p = true
  · rw [if_pos first]
    have some : 0 < s.count := by
      by_contra none
      rw [(h.idle 0 (by omega)).contains p] at first
      cases first
    obtain ⟨n, count⟩ := Nat.exists_eq_succ_of_ne_zero (by omega : s.count ≠ 0)
    simp [count, List.range_succ_eq_map, first]
  · rw [if_neg first, HeapState.regionSlow, ensure]
    by_cases none : s.count = 0
    · simp [none]
    · simp [Nat.pos_of_ne_zero none]

/-- `locate` on an initialised heap changes nothing and is right about every pointer. -/
theorem HeapInv.locate (h : HeapInv s v held) (ready : s.inited = true) (p : Nat)
    : (s.locate p).1 = s ∧ LocatedAt s v held p (s.locate p).2 := by
  rw [HeapState.locate, h.regionOf_eq ready]
  refine ⟨rfl, ?_⟩
  cases found : (List.range s.count).find? (fun i => (s.region i).contains p) with
  | some i =>
      have contained : (s.region i).contains p = true := by
        simpa using List.find?_some found
      have less : i < s.count := List.mem_range.mp (List.mem_of_find?_eq_some found)
      exact h.locateIn less ((h.contains_iff less).mp contained)
  | none =>
      refine LocatedAt.absent ?_
      rw [Option.eq_none_iff_forall_ne_some]
      intro b known
      obtain ⟨i, less, holds⟩ := (h.blocks p b).mp known
      have inside := h.inside less holds
      have out := List.find?_eq_none.mp found i (List.mem_range.mpr less)
      exact out ((h.contains_iff less).mpr ⟨inside.1, by omega⟩)

theorem HeapState.init_ready (s : HeapState C) : s.init.2 = decide (s.init.1.count > 0) := by
  rw [init]
  split <;> rfl

/-- A lookup on a heap that was never used initialises it first. -/
theorem HeapInv.locate_first (h : HeapInv s v held) (fresh : s.inited = false)
    {v' : Nat → RegionView} {held' : Nat → Option Block} (h' : HeapInv s.init.1 v' held')
    (ready : s.init.1.inited = true) (p : Nat)
    : s.locate p = s.init.1.locate p := by
  have out := (h.idle 0 (by have := h.ready fresh; omega)).contains p
  have ensure : s.ensure = s.init := by simp [HeapState.ensure, fresh]
  have first : s.regionOf p = s.init.1.regionOf p := by
    rw [h'.regionOf_eq ready, HeapState.regionOf, if_neg (by simp [out]), HeapState.regionSlow,
      ensure, s.init_ready]
    by_cases none : s.init.1.count = 0
    · simp [none]
    · simp [Nat.pos_of_ne_zero none]
  rw [HeapState.locate, HeapState.locate, first]

end Lookup

end Bbmalloc
