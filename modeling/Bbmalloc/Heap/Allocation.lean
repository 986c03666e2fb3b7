import Bbmalloc.Heap.Setup

/-! Allocation from the heap. The scans try one region after the other, so a request is
granted by the first region that serves it and refused only when none does.
-/

namespace Bbmalloc

open Bbmalloc.Foundations

-----------------------------------------------------------------------------------------
-- Outcomes
-----------------------------------------------------------------------------------------

/-- The client's blocks stay, and every region serves the same requests as before. -/
structure Quiet {C : Config} (s : HeapState C) (v : Nat → RegionView)
    (held : Nat → Option Block) (s' : HeapState C) (v' : Nat → RegionView)
    : Prop where
  step : HeapStep s s' v' held held
  steady : Steady s s'
  live : ∀ i < s.count, (v' i).live = (v i).live
  serves : ∀ i < s.count, ∀ n, 0 < n →
    ((v' i).Serves C (s.geo i).total n ↔ (v i).Serves C (s.geo i).total n)

/-- What block a request of `n` bytes may get: a small one, or a buddy block of order `o`. -/
def Suits (C : Config) (n o : Nat) (b : Block) : Prop :=
  (b.tier = .tlsf ∧ n ≤ C.classSmall ∧ TlsfState.adjusted C.tlsf n ≤ b.len + headerSize
    ∧ b.len ≤ TlsfState.adjusted C.tlsf n)
  ∨ (b.tier = .buddy ∧ b.len = C.buddy.orderSize o)

/-- A buddy block starts at a multiple of its size from the base of its region. -/
def Placed {C : Config} (s : HeapState C) (p : Nat) (b : Block) : Prop :=
  b.tier = .buddy → ∃ i < s.count, ∃ x, p = (s.geo i).base + x ∧ b.len ∣ x

/-- A region that can grant a buddy block of order `o` at a multiple of `a`, or `n` bytes of
the small class.
-/
def Source (C : Config) (n o a : Nat) (g : BuddyGeometry) (w : RegionView) : Prop :=
  (a ≤ g.baseAlign ∧ ∃ x, Room C.buddy g.total (w.busy C.tlsf) o x)
  ∨ (0 < n ∧ n ≤ C.classSmall ∧ w.Serves C g.total n)

/-- The call granted a suitable block that no client held, at a multiple of `a`; the block
comes from a new region or from one that had a source for it.
-/
inductive HeapGranted {C : Config} (s : HeapState C) (v : Nat → RegionView)
    (held : Nat → Option Block) (n o a : Nat) (c : HeapState C × Chunk)
    : Prop
  | block {p : Nat} {b : Block} {v' : Nat → RegionView} (chunk : c.2 = ⟨p, b.len⟩)
      (notNull : p ≠ 0) (aligned : a ∣ p) (unused : held p = none) (suits : Suits C n o b)
      (placed : Placed c.1 p b)
      (source : s.count < c.1.count ∨ ∃ i < s.count, Source C n o a (s.geo i) (v i))
      (step : HeapStep s c.1 v' held (Function.update held p (some b)))

section Outcomes

variable {C : Config} {s s' s'' : HeapState C} {v v' v'' : Nat → RegionView}
  {held : Nat → Option Block} {n o a i p x : Nat} {c : HeapState C × Chunk}
  {r : RegionState C} {w : RegionView}

theorem Quiet.refl (h : HeapInv s v held) : Quiet s v held s v :=
  ⟨h.refl held, .refl s, fun _ _ => rfl, fun _ _ _ _ => Iff.rfl⟩

theorem Quiet.trans (first : Quiet s v held s' v') (second : Quiet s' v' held s'' v'')
    : Quiet s v held s'' v'' := by
  refine ⟨first.step.trans second.step (fun _ _ => id) (fun _ _ => id),
    first.steady.trans second.steady, fun i less => ?_, fun i less n positive => ?_⟩
  · exact (second.live i (first.steady.count ▸ less)).trans (first.live i less)
  · have later := second.serves i (first.steady.count ▸ less) n positive
    rw [first.step.geo i less] at later
    exact later.trans (first.serves i less n positive)

theorem Quiet.collect (quiet : Quiet s v held s' v') (t : StatType) (n : Nat)
    : Quiet s v held (s'.collect t n) v' :=
  ⟨quiet.step.collect t n, ⟨quiet.steady.count, quiet.steady.inited, quiet.steady.requests⟩,
    quiet.live, quiet.serves⟩

/-- A quiet part leaves as much room as there was. -/
theorem Quiet.room (h : HeapInv s v held) (quiet : Quiet s v held s' v') (less : i < s.count)
    : Room C.buddy (s'.geo i).total ((v' i).busy C.tlsf) o x
      ↔ Room C.buddy (s.geo i).total ((v i).busy C.tlsf) o x := by
  have less' : i < s'.count := by
    rw [quiet.steady.count]
    exact less
  rw [quiet.step.geo i less, (h.regions i less).busy_congr
    (quiet.step.inv.regions i less').toRegionCore (quiet.live i less)]

/-- A source after a quiet part was a source before. -/
theorem Quiet.source (h : HeapInv s v held) (quiet : Quiet s v held s' v') (less : i < s.count)
    (source : Source C n o a (s'.geo i) (v' i))
    : Source C n o a (s.geo i) (v i) := by
  rcases source with ⟨le, x, room⟩ | ⟨positive, small, serves⟩
  · rw [quiet.step.geo i less] at le
    exact Or.inl ⟨le, x, (quiet.room h less).mp room⟩
  · rw [quiet.step.geo i less] at serves
    exact Or.inr ⟨positive, small, (quiet.serves i less n positive).mp serves⟩

/-- A grant after a quiet part is a grant. -/
theorem Quiet.granted (h : HeapInv s v held) (quiet : Quiet s v held s' v')
    (granted : HeapGranted s' v' held n o a c)
    : HeapGranted s v held n o a c := by
  obtain ⟨chunk, notNull, aligned, unused, suits, placed, source, step⟩ := granted
  refine .block chunk notNull aligned unused suits placed ?_
    (quiet.step.trans step (fun _ _ => id) (fun _ _ => id))
  rw [quiet.steady.count] at source
  rcases source with fresh | ⟨i, less, source⟩
  · exact Or.inl fresh
  · exact Or.inr ⟨i, less, quiet.source h less source⟩

/-- A grant after a step that kept the blocks is a grant. -/
theorem HeapStep.granted (first : HeapStep s s' v' held held) (more : s.count < s'.count)
    (granted : HeapGranted s' v' held n o a c)
    : HeapGranted s v held n o a c := by
  obtain ⟨chunk, notNull, aligned, unused, suits, placed, _, step⟩ := granted
  exact .block chunk notNull aligned unused suits placed
    (Or.inl (lt_of_lt_of_le more step.more)) (first.trans step (fun _ _ => id) (fun _ _ => id))

theorem HeapGranted.notNull (granted : HeapGranted s v held n o a c) : c.2.ptr ≠ 0 := by
  obtain ⟨chunk, notNull, _, _, _, _, _, _⟩ := granted
  rw [chunk]
  exact notNull

/-- A region that is unchanged to its clients is so within the heap. -/
theorem HeapInv.regionUnchanged (h : HeapInv s v held) (less : i < s.count)
    (quiet : Unchanged (s.region i) (v i) r w)
    : Quiet s v held (s.setRegion i r) (Function.update v i w) := by
  refine ⟨h.regionQuiet less quiet.step, Steady.setRegion s i r, fun j _ => ?_,
    fun j _ n positive => ?_⟩
  · by_cases same : j = i
    · subst same
      rw [Function.update_self]
      exact quiet.step.live_eq
    · rw [Function.update_of_ne same]
  · by_cases same : j = i
    · subst same
      rw [Function.update_self]
      exact quiet.serves n positive
    · rw [Function.update_of_ne same]

/-- Nothing is held where no block of the region is. -/
theorem HeapInv.unused (h : HeapInv s v held) (less : i < s.count)
    (inside : (s.geo i).base ≤ p ∧ p < (s.geo i).base + (s.geo i).total)
    (none : ∀ b, ¬(v i).live.Holds C.buddy (s.geo i).base p b)
    : held p = Option.none := by
  rw [Option.eq_none_iff_forall_ne_some]
  intro b known
  obtain ⟨j, lessJ, holds⟩ := (h.blocks p b).mp known
  obtain rfl := h.holds_apart lessJ less holds inside
  exact none b holds

/-- A grant of one region is a grant of the heap. -/
theorem HeapInv.regionGranted (h : HeapInv s v held) (less : i < s.count)
    {f : RegionState C → RegionState C × Chunk}
    (granted : Granted (s.region i) (v i) n o (f (s.region i)))
    (aligned : a ∣ (f (s.region i)).2.ptr) (le : a ≤ (s.geo i).baseAlign)
    : HeapGranted s v held n o a (s.onRegion i f) := by
  have sound := (h.regions i less).buddy.rep.geometry
  have basePos : 0 < (s.geo i).base := sound.base_pos
  have geo : ∀ {r : RegionState C}, r.buddy.toBuddyGeometry = s.geo i →
      ∀ j, (s.setRegion i r).geo j = s.geo j := fun same => s.geo_setRegion same
  simp only [HeapState.onRegion]
  generalize f (s.region i) = c at granted aligned ⊢
  cases granted with
  | @small x take w chunk request serves least most unused step =>
      have block : w.live.small x = some take := by
        rw [step.live_eq]
        simp [Live.setSmall]
      obtain ⟨sh, member, lo, hi⟩ := step.inv.small_inside block
      have size := (step.inv.tlsf.granted_block block).2.2.1
      have fits := (step.inv.sheet_lt member).2.1
      have total : c.1.buddy.total = (s.geo i).total := step.total_eq
      have inside : x + headerSize < (s.geo i).total := by
        simp only [headerSize]
        omega
      have apart := step.inv.toRegionCore.apart
      rw [step.live_eq] at apart
      have free : held ((s.geo i).base + x + headerSize) = none := by
        refine h.unused less ⟨by omega, by omega⟩ ?_
        rintro b (⟨y, i, found, same, _⟩ | ⟨y, m, found, same, _⟩)
        · exact apart y i x take found (by simp [Live.setSmall]) (by omega)
        · obtain rfl : x = y := by omega
          rw [unused] at found
          cases found
      have done := h.setSmall less (t := held) step (Or.inr (by simp)) inside
        (Or.inl ⟨rfl, rfl⟩)
      have notNull : (s.geo i).base + x + headerSize ≠ 0 := by omega
      refine .block (b := ⟨take - headerSize, .tlsf⟩) chunk notNull
        (by rw [chunk] at aligned; exact aligned) free
        (Or.inl ⟨rfl, request.2, ?_, ?_⟩) (fun kind => absurd kind (by simp))
        (Or.inr ⟨i, less, Or.inr ⟨request.1, request.2, serves⟩⟩) done
      · simp only [headerSize]
        omega
      · simp only [headerSize]
        omega
  | @large x w chunk room step =>
      have block : w.live.large x = some o := by
        rw [step.live_eq]
        simp [Live.setLarge]
      have fits := room.2.1
      have pos := C.buddy.orderSize_pos o
      have inside : x < (s.geo i).total := by
        change x + C.buddy.orderSize o ≤ (s.geo i).total at fits
        omega
      have apart := step.inv.toRegionCore.apart
      rw [step.live_eq] at apart
      have free : held ((s.geo i).base + x) = none := by
        refine h.unused less ⟨by omega, by omega⟩ ?_
        rintro b (⟨y, j, found, same, _⟩ | ⟨y, m, found, same, _⟩)
        · obtain rfl : x = y := by omega
          have none := room.not_owned
          have busy := ((h.regions i less).busy_iff (c := (.alloc, j))).mpr
            (Or.inl ⟨j, rfl, found⟩)
          rw [none] at busy
          cases busy
        · exact apart x o y m (by simp [Live.setLarge]) found (by omega)
      have done := h.setLarge less (t := held) step (Or.inr (by simp)) inside
        (Or.inl ⟨rfl, rfl⟩)
      have notNull : (s.geo i).base + x ≠ 0 := by omega
      refine .block (b := ⟨C.buddy.orderSize o, .buddy⟩) chunk notNull
        (by rw [chunk] at aligned; exact aligned) free
        (Or.inr ⟨rfl, rfl⟩) (fun _ => ⟨i, less, x, ?_, room.1⟩)
        (Or.inr ⟨i, less, Or.inl ⟨le, x, room⟩⟩) done
      rw [geo step.geometry]
      rfl

end Outcomes

-----------------------------------------------------------------------------------------
-- Scans
-----------------------------------------------------------------------------------------

section Scans

variable {C : Config} {s s' : HeapState C} {v v' : Nat → RegionView}
  {held : Nat → Option Block} {n o i x a : Nat} {r : RegionState C}
  {f : RegionState C → RegionState C × Chunk}

/-- A region that is not attached refuses everything and stays as it is. -/
theorem RegionState.Idle.refuses (idle : r.Idle) (n : Nat)
    : r.smallAllocSlow n = (r, .null) ∧ r.largeAllocSlow n = (r, .null)
      ∧ r.largeAlloc n = (r, .null) := by
  have refused : ∀ m, r.buddyState.allocate m = (r.buddyState, .null) := by
    intro m
    have top : r.buddyState.maxOrder = 0 := idle.maxOrder
    by_cases zero : m = 0
    · simp [BuddyState.allocate, zero]
    · simp [BuddyState.allocate, BuddyState.allocateOrder, zero, top]
  have budget : ¬r.tlsf.count ≥ C.tlsf.maxSheets := by
    have := C.tlsf.maxSheets_range
    rw [idle.count]
    omega
  have slow : r.largeAllocSlow n = (r, .null) := by
    have top : r.buddyState.maxOrder = 0 := idle.maxOrder
    simp [RegionState.largeAllocSlow, BuddyState.servable, top]
  refine ⟨?_, slow, ?_⟩
  · rw [RegionState.smallAllocSlow, if_neg budget]
    simp only [refused, Chunk.null, if_true]
    rfl
  · rw [RegionState.largeAlloc, RegionState.buddyAlloc]
    simp only [refused, Chunk.null, if_true]
    exact slow

/-- A call that leaves a region as it is leaves the heap as it is. -/
theorem HeapState.onRegion_same {α : Type} {f : RegionState C → RegionState C × α} {b : α}
    (same : f (s.region i) = (s.region i, b))
    : s.onRegion i f = (s, b) := by
  change (s.setRegion i (f (s.region i)).1, (f (s.region i)).2) = (s, b)
  rw [same]
  simp [setRegion, region]

/-- The scan over the regions attaches none. -/
theorem HeapState.tryFrom_count (f : RegionState C → RegionState C × Chunk) (k : Nat)
    : ∀ (i : Nat) (c : HeapState C × Chunk), (tryFrom f k i c).1.count = c.1.count := by
  induction k with
  | zero => exact fun _ _ => rfl
  | succ k ih =>
      intro i c
      rw [tryFrom]
      split
      · rfl
      · exact ih (i + 1) _

/-- Neither do all the scans of a request. -/
theorem HeapState.allocScan_count (s : HeapState C) (n : Nat)
    : (s.allocScan n).1.count = s.count := by
  rw [allocScan]
  split
  · simp only
    split
    · exact tryFrom_count _ _ _ _
    · exact (tryFrom_count _ _ _ _).trans (tryFrom_count _ _ _ _)
  · exact tryFrom_count _ _ _ _

/-- A scan stops at the first grant. -/
theorem HeapState.tryFrom_done {c : HeapState C × Chunk} (live : c.2.ptr ≠ 0) (k i : Nat)
    : tryFrom f k i c = c := by
  cases k with
  | zero => rfl
  | succ k => rw [tryFrom, if_pos live]

/-- A scan, by induction on the regions left: a grant, or a reason for each region. -/
theorem HeapInv.tryFrom {D : BuddyGeometry → RegionView → Prop}
    (spec : ∀ {r : RegionState C} {w : RegionView}, RegionInv r w →
      (Granted r w n o (f r) ∧ a ∣ (f r).2.ptr ∧ a ≤ r.buddy.baseAlign)
        ∨ (Declined r w (f r) ∧ D r.buddy.toBuddyGeometry w))
    (k : Nat)
    : ∀ {i : Nat} {s : HeapState C} {v : Nat → RegionView}, HeapInv s v held →
      i + k ≤ s.count →
      HeapGranted s v held n o a (HeapState.tryFrom f k i (s, .null))
        ∨ ∃ v', (HeapState.tryFrom f k i (s, .null)).2 = .null
          ∧ Quiet s v held (HeapState.tryFrom f k i (s, .null)).1 v'
          ∧ ∀ j, i ≤ j → j < i + k → D (s.geo j) (v j) := by
  induction k with
  | zero =>
      intro i s v h _
      exact Or.inr ⟨v, rfl, .refl h, fun j _ _ => by omega⟩
  | succ k ih =>
      intro i s v h fits
      have less : i < s.count := by omega
      rw [HeapState.tryFrom, if_neg (by simp [Chunk.null])]
      rcases spec (h.regions i less) with ⟨granted, aligned, le⟩ | ⟨⟨null, w, unchanged⟩, reason⟩
      · have done := h.regionGranted less granted aligned le
        rw [HeapState.tryFrom_done done.notNull]
        exact Or.inl done
      · have first := h.regionUnchanged less unchanged
        have call : s.onRegion i f = (s.setRegion i (f (s.region i)).1, .null) :=
          Prod.ext rfl null
        rw [call]
        rcases ih first.step.inv (by change i + 1 + k ≤ s.count; omega) with
            granted | ⟨v', null', rest, reasons⟩
        · exact Or.inl (first.granted h granted)
        · refine Or.inr ⟨v', null', first.trans rest, fun j lo hi => ?_⟩
          by_cases same : j = i
          · subst same
            exact reason
          · have later := reasons j (by omega) (by omega)
            rw [Function.update_of_ne same, first.step.geo j (by omega)] at later
            exact later

/-- A scan of an empty heap finds nothing. -/
theorem HeapInv.allocScan_none (h : HeapInv s v held) (empty : s.count = 0) (n : Nat)
    : s.allocScan n
      = (if n ≤ C.classSmall then (s.collect .fallback 0, .null) else (s, .null)) := by
  obtain ⟨small, slow, _⟩ := (h.idle 0 (by omega)).refuses n
  have idle := (h.collect .fallback 0).idle 0 (show s.count ≤ 0 by omega)
  have first := HeapState.onRegion_same (f := fun r => r.smallAllocSlow n) small
  have second := HeapState.onRegion_same (f := fun r => r.largeAllocSlow n) slow
  have third := HeapState.onRegion_same (f := fun r => r.largeAlloc n) (idle.refuses n).2.2
  rw [HeapState.allocScan]
  simp only [first, second, empty, Nat.zero_sub, HeapState.tryFrom, Chunk.null, ne_eq,
    not_true_eq_false, if_false]
  split
  · exact third
  · rfl

/-- A scan of an empty heap. -/
theorem HeapInv.allocScan_empty (h : HeapInv s v held) (empty : s.count = 0) (n : Nat)
    : (s.allocScan n).2 = .null ∧ Quiet s v held (s.allocScan n).1 v := by
  rw [h.allocScan_none empty]
  split
  · exact ⟨rfl, (Quiet.refl h).collect _ _⟩
  · exact ⟨rfl, .refl h⟩

/-- The scan for a small request that no block of region 0's sheets serves. -/
theorem HeapInv.allocScan_small (h : HeapInv s v held) (some : 0 < s.count) (positive : 0 < n)
    (small : n ≤ C.classSmall)
    (none : ¬(v 0).tlsf.Offers C.tlsf (TlsfState.adjusted C.tlsf n))
    : HeapGranted s v held n (C.buddy.orderForSize n) nativeAlignment (s.allocScan n)
      ∨ ∃ v', (s.allocScan n).2 = .null ∧ Quiet s v held (s.allocScan n).1 v'
        ∧ ∀ i < s.count, ¬(v i).Serves C (s.geo i).total n := by
  have region := h.regions 0 some
  rw [HeapState.allocScan, if_pos small]
  -- The small pass: the fresh sheet of region 0, then the other regions.
  rcases region.smallAllocSlow_outcome positive small none
      (C.buddy.orderForSize n) with granted | ⟨null, w, unchanged⟩
  · have done := h.regionGranted (f := fun r => r.smallAllocSlow n) some granted
      (granted.native region) region.native_le
    simp only [HeapState.tryFrom_done done.notNull, if_pos done.notNull]
    exact Or.inl done
  have first := h.regionUnchanged some unchanged
  have call : s.onRegion 0 (fun r => r.smallAllocSlow n)
      = (s.setRegion 0 ((s.region 0).smallAllocSlow n).1, .null) := Prod.ext rfl null
  simp only [call]
  generalize s.setRegion 0 ((s.region 0).smallAllocSlow n).1 = s₁ at first ⊢
  rcases first.step.inv.tryFrom
      (D := fun _ w => ¬w.tlsf.Offers C.tlsf (TlsfState.adjusted C.tlsf n))
      (fun inv => (inv.smallAlloc positive small (C.buddy.orderForSize n)).imp_left
        (fun granted => ⟨granted, granted.native inv, inv.native_le⟩)) (s.count - 1) (i := 1)
      (by rw [first.steady.count]; omega) with granted | ⟨v₂, null₂, second, reasons⟩
  · rw [if_pos granted.notNull]
    exact Or.inl (first.granted h granted)
  generalize HeapState.tryFrom (fun r : RegionState C => r.smallAlloc n) (s.count - 1) 1
    (s₁, .null) = c₂ at null₂ second ⊢
  obtain ⟨s₂, c₂⟩ := c₂
  simp only at null₂ second
  subst null₂
  rw [if_neg (by simp [Chunk.null])]
  -- The large pass, over all regions.
  have before := (first.trans second).collect .fallback 0
  generalize s₂.collect .fallback 0 = s₃ at before ⊢
  have some₃ : 0 < s₃.count := by
    rw [before.steady.count]
    exact some
  have refusal : ∀ i < s.count, (∀ x, ¬Room C.buddy (s₃.geo i).total ((v₂ i).busy C.tlsf)
      (C.buddy.orderForSize n) x) → ¬(v i).Serves C (s.geo i).total n := by
    rintro i less away (⟨x, room⟩ | ⟨_, offers⟩)
    · exact away x ((before.room h less).mpr room)
    · by_cases zero : i = 0
      · subst zero
        exact none offers
      · have reason := reasons i (by omega) (by omega)
        rw [Function.update_of_ne zero] at reason
        exact reason offers
  rcases (before.step.inv.regions 0 some₃).largeAlloc positive with
      granted | ⟨⟨null₄, w₄, unchanged₄⟩, away⟩
  · have done := before.step.inv.regionGranted (f := fun r => r.largeAlloc n) some₃ granted
      (granted.native (before.step.inv.regions 0 some₃)) (before.step.inv.regions 0 some₃).native_le
    simp only [HeapState.tryFrom_done done.notNull]
    exact Or.inl (before.granted h done)
  have fourth := before.step.inv.regionUnchanged some₃ unchanged₄
  have call₄ : s₃.onRegion 0 (fun r => r.largeAlloc n)
      = (s₃.setRegion 0 ((s₃.region 0).largeAlloc n).1, .null) := Prod.ext rfl null₄
  simp only [call₄]
  generalize s₃.setRegion 0 ((s₃.region 0).largeAlloc n).1 = s₄ at fourth ⊢
  have count₃ := before.steady.count
  rcases fourth.step.inv.tryFrom
      (D := fun g w => ∀ x, ¬Room C.buddy g.total (w.busy C.tlsf) (C.buddy.orderForSize n) x)
      (fun inv => (inv.largeAlloc positive).imp_left
        (fun granted => ⟨granted, granted.native inv, inv.native_le⟩)) (s.count - 1) (i := 1)
      (by rw [fourth.steady.count]; omega) with granted | ⟨v₅, null₅, fifth, aways⟩
  · exact Or.inl ((before.trans fourth).granted h granted)
  · refine Or.inr ⟨v₅, null₅, (before.trans fourth).trans fifth, fun i less => ?_⟩
    refine refusal i less ?_
    by_cases zero : i = 0
    · subst zero
      exact away
    · have reason := aways i (by omega) (by omega)
      rw [Function.update_of_ne zero, fourth.step.geo i (by omega)] at reason
      exact reason

/-- The scan for a large request; without a spare sheet it passes region 0 by. -/
theorem HeapInv.allocScan_large (h : HeapInv s v held) (some : 0 < s.count) (positive : 0 < n)
    (large : ¬n ≤ C.classSmall)
    : HeapGranted s v held n (C.buddy.orderForSize n) nativeAlignment (s.allocScan n)
      ∨ ∃ v', (s.allocScan n).2 = .null ∧ Quiet s v held (s.allocScan n).1 v'
        ∧ ∀ i < s.count, (i = 0 →
            ∀ x, ¬Room C.buddy (s.geo 0).total (v 0).buddy.owned (C.buddy.orderForSize n) x) →
          ¬(v i).Serves C (s.geo i).total n := by
  have region := h.regions 0 some
  rw [HeapState.allocScan, if_neg large]
  rcases region.largeAllocSlow positive with granted | ⟨⟨null, w, unchanged⟩, away⟩
  · have done := h.regionGranted (f := fun r => r.largeAllocSlow n) some granted
      (granted.native region) region.native_le
    simp only [HeapState.tryFrom_done done.notNull]
    exact Or.inl done
  have first := h.regionUnchanged some unchanged
  have call : s.onRegion 0 (fun r => r.largeAllocSlow n)
      = (s.setRegion 0 ((s.region 0).largeAllocSlow n).1, .null) := Prod.ext rfl null
  simp only [call]
  generalize s.setRegion 0 ((s.region 0).largeAllocSlow n).1 = s₁ at first ⊢
  rcases first.step.inv.tryFrom
      (D := fun g w => ∀ x, ¬Room C.buddy g.total (w.busy C.tlsf) (C.buddy.orderForSize n) x)
      (fun inv => (inv.largeAlloc positive).imp_left
        (fun granted => ⟨granted, granted.native inv, inv.native_le⟩)) (s.count - 1) (i := 1)
      (by rw [first.steady.count]; omega) with granted | ⟨v₂, null₂, second, aways⟩
  · exact Or.inl (first.granted h granted)
  · refine Or.inr ⟨v₂, null₂, first.trans second, fun i less fast => ?_⟩
    rintro (⟨x, room⟩ | ⟨small, _⟩)
    · by_cases zero : i = 0
      · subst zero
        exact away (fast rfl) x room
      · have reason := aways i (by omega) (by omega)
        rw [Function.update_of_ne zero, first.step.geo i (by omega)] at reason
        exact reason x room
    · exact large small

/-- `__alloc_scan` once the fast attempt on region 0 has failed: a grant, or no region serves
the request.
-/
theorem HeapInv.allocScan (h : HeapInv s v held) (positive : 0 < n)
    (none : 0 < s.count → n ≤ C.classSmall →
      ¬(v 0).tlsf.Offers C.tlsf (TlsfState.adjusted C.tlsf n))
    : HeapGranted s v held n (C.buddy.orderForSize n) nativeAlignment (s.allocScan n)
      ∨ ∃ v', (s.allocScan n).2 = .null ∧ Quiet s v held (s.allocScan n).1 v'
        ∧ ∀ i < s.count, (i = 0 → n ≤ C.classSmall
            ∨ ∀ x, ¬Room C.buddy (s.geo 0).total (v 0).buddy.owned (C.buddy.orderForSize n) x) →
          ¬(v i).Serves C (s.geo i).total n := by
  rcases Nat.eq_zero_or_pos s.count with empty | some
  · obtain ⟨null, quiet⟩ := h.allocScan_empty empty n
    exact Or.inr ⟨v, null, quiet, by omega⟩
  · by_cases small : n ≤ C.classSmall
    · rcases h.allocScan_small some positive small (none some small) with
          granted | ⟨v', null, quiet, refused⟩
      · exact Or.inl granted
      · exact Or.inr ⟨v', null, quiet, fun i less _ => refused i less⟩
    · rcases h.allocScan_large some positive small with granted | ⟨v', null, quiet, refused⟩
      · exact Or.inl granted
      · exact Or.inr ⟨v', null, quiet, fun i less fast => refused i less (fun zero =>
          (fast zero).resolve_left small)⟩

end Scans

-----------------------------------------------------------------------------------------
-- Allocation
-----------------------------------------------------------------------------------------

/-- The page source is sound now, and after the pool of a heap that was never used is taken. -/
structure HeapState.Supplied {C : Config} (s : HeapState C) : Prop where
  now : s.FreshPages
  afterInit : s.inited = false → s.init.1.FreshPages

/-- The common form of the slow paths: `init`, a scan, growth and a second scan. -/
def HeapState.slowWith {C : Config} (scan : HeapState C → HeapState C × Chunk) (bytes : Nat)
    (s : HeapState C)
    : HeapState C × Chunk :=
  let ready := if !s.inited then s.init else (s, true)
  if !ready.2 then (ready.1, .null)
  else
    let c := scan ready.1
    if c.2.ptr = 0 then
      let g := c.1.grow bytes
      if g.2 then scan g.1 else (g.1, c.2)
    else c

section Allocation

variable {C : Config} {s s' : HeapState C} {v v' : Nat → RegionView}
  {held : Nat → Option Block} {n o i a bytes : Nat} {scan : HeapState C → HeapState C × Chunk}
  {Pre : Nat → (Nat → RegionView) → Prop}

theorem HeapState.allocSlow_eq (s : HeapState C) (positive : 0 < n)
    : s.allocSlow n = s.slowWith (fun s => s.allocScan n) n := by
  rw [allocSlow, if_neg (by omega)]
  rfl

theorem HeapState.allocAlignedSlow_eq (s : HeapState C) (n a : Nat)
    : s.allocAlignedSlow n a
      = s.slowWith (fun s => s.allocAlignedScan n a) (alignedGrowth C n a) :=
  rfl

/-- Without growth the slow path of an initialised heap is its scan. -/
theorem HeapState.slowWith_fixed (ready : s.inited = true) (fixed : C.growBytes = none)
    : s.slowWith scan bytes = scan s := by
  have stays : ∀ t : HeapState C, t.grow bytes = (t, false) := by
    intro t
    rw [grow, fixed]
  simp [slowWith, ready, stays]

/-- A quiet part leaves the page source as sound as it was. -/
theorem Quiet.pages (quiet : Quiet s v held s' v') (pages : s.FreshPages) : s'.FreshPages := by
  intro n d served
  rw [quiet.steady.requests] at served
  obtain ⟨half, apart⟩ := pages n d served
  refine ⟨half, fun i less a inside => ?_⟩
  rw [quiet.steady.count] at less
  rw [quiet.step.geo i less] at inside
  exact apart i less a inside

/-- A scan and, if it refuses, growth and a second scan. -/
theorem HeapInv.scanGrow (h : HeapInv s v held) (pages : s.FreshPages) (pre : Pre s.count v)
    (spec : ∀ {t : HeapState C} {w : Nat → RegionView}, HeapInv t w held → Pre t.count w →
      HeapGranted t w held n o a (scan t)
        ∨ ∃ w', (scan t).2 = .null ∧ Quiet t w held (scan t).1 w' ∧ Pre t.count w')
    (add : ∀ {count : Nat} {w : Nat → RegionView} {u : RegionView}, Pre count w →
      u.tlsf = TlsfView.empty → Pre (count + 1) (Function.update w count u))
    : let c := if (scan s).2.ptr = 0 then
          (if ((scan s).1.grow bytes).2 then scan ((scan s).1.grow bytes).1
            else (((scan s).1.grow bytes).1, (scan s).2))
        else scan s
      HeapGranted s v held n o a c ∨ ∃ v', c.2 = .null ∧ HeapStep s c.1 v' held held := by
  intro c
  rcases spec h pre with granted | ⟨w, null, quiet, pre'⟩
  · have call : c = scan s := if_neg granted.notNull
    rw [call]
    exact Or.inl granted
  have call : c = if ((scan s).1.grow bytes).2 then scan ((scan s).1.grow bytes).1
      else (((scan s).1.grow bytes).1, .null) := by
    simp only [c, null, Chunk.null, if_true]
  rw [call]
  cases quiet.step.inv.grow (quiet.pages pages) bytes with
  | same no step count =>
      rw [if_neg (by simp [no])]
      exact Or.inr ⟨w, rfl, quiet.step.trans step (fun _ _ => id) (fun _ _ => id)⟩
  | added ok fresh step count inited =>
      rw [if_pos ok]
      have both := quiet.step.trans step (fun _ _ => id) (fun _ _ => id)
      have more : s.count < ((scan s).1.grow bytes).1.count := by
        rw [count, quiet.steady.count]
        omega
      have pre'' := add pre' fresh.noBlock
      rw [← quiet.steady.count, ← count] at pre''
      rcases spec step.inv pre'' with granted | ⟨w', null', later, _⟩
      · exact Or.inl (both.granted more granted)
      · exact Or.inr ⟨w', null', both.trans later.step (fun _ _ => id) (fun _ _ => id)⟩

/-- The slow paths grant a block or keep the blocks there are. -/
theorem HeapInv.slowWith {P : Nat → (Nat → RegionView) → Prop} (h : HeapInv s v held)
    (fits : C.PoolFits) (supply : s.Supplied)
    (pre : P s.count v)
    (spec : ∀ {t : HeapState C} {w : Nat → RegionView}, HeapInv t w held → P t.count w →
      HeapGranted t w held n o a (scan t)
        ∨ ∃ w', (scan t).2 = .null ∧ Quiet t w held (scan t).1 w' ∧ P t.count w')
    (add : ∀ {count : Nat} {w : Nat → RegionView} {u : RegionView}, P count w →
      u.tlsf = TlsfView.empty → P (count + 1) (Function.update w count u))
    : HeapGranted s v held n o a (s.slowWith scan bytes)
      ∨ ∃ v', (s.slowWith scan bytes).2 = .null
        ∧ HeapStep s (s.slowWith scan bytes).1 v' held held := by
  cases ready : s.inited with
  | true =>
      have call : s.slowWith scan bytes
          = if (scan s).2.ptr = 0 then
              (if ((scan s).1.grow bytes).2 then scan ((scan s).1.grow bytes).1
                else (((scan s).1.grow bytes).1, (scan s).2))
            else scan s := by
        simp [HeapState.slowWith, ready]
      rw [call]
      exact h.scanGrow supply.now pre spec add
  | false =>
      obtain ⟨extended, _⟩ := h.init ready fits supply.now
      have pages := supply.afterInit ready
      cases extended with
      | same no step count =>
          have call : s.slowWith scan bytes = (s.init.1, .null) := by
            simp [HeapState.slowWith, ready, no]
          rw [call]
          exact Or.inr ⟨v, rfl, step⟩
      | added ok fresh step count inited =>
          have call : s.slowWith scan bytes
              = if (scan s.init.1).2.ptr = 0 then
                  (if ((scan s.init.1).1.grow bytes).2 then
                    scan ((scan s.init.1).1.grow bytes).1
                  else (((scan s.init.1).1.grow bytes).1, (scan s.init.1).2))
                else scan s.init.1 := by
            simp [HeapState.slowWith, ready, ok]
          rw [call]
          have pre' := add pre fresh.noBlock
          rw [← count] at pre'
          rcases step.inv.scanGrow pages pre' spec add with granted | ⟨w, null, later⟩
          · exact Or.inl (step.granted (by omega) granted)
          · exact Or.inr ⟨w, null, step.trans later (fun _ _ => id) (fun _ _ => id)⟩

/-- No block to offer without blocks. -/
theorem TlsfView.empty_offers {T : TlsfParams} {w : TlsfView} (empty : w = TlsfView.empty)
    : ¬w.Offers T a := by
  subst empty
  rintro (⟨i, _, some⟩ | ⟨x, m, front, _⟩)
  · exact some rfl
  · cases front

/-- What the scan of `alloc` needs, and what a refusal leaves. -/
def ScanReady (C : Config) (n count : Nat) (v : Nat → RegionView) : Prop :=
  n ≤ C.classSmall → 0 < count → ¬(v 0).tlsf.Offers C.tlsf (TlsfState.adjusted C.tlsf n)

theorem ScanReady.add {count : Nat} {w : Nat → RegionView} {u : RegionView}
    (ready : ScanReady C n count w) (empty : u.tlsf = TlsfView.empty)
    : ScanReady C n (count + 1) (Function.update w count u) := by
  intro small _
  rcases Nat.eq_zero_or_pos count with rfl | some
  · rw [Function.update_self]
    exact TlsfView.empty_offers empty
  · rw [Function.update_of_ne (by omega)]
    exact ready small some

/-- The scan of `alloc`, with what its refusal leaves. -/
theorem HeapInv.allocScan_again (h : HeapInv s v held) (positive : 0 < n)
    (ready : ScanReady C n s.count v)
    : HeapGranted s v held n (C.buddy.orderForSize n) nativeAlignment (s.allocScan n)
      ∨ ∃ v', (s.allocScan n).2 = .null ∧ Quiet s v held (s.allocScan n).1 v'
        ∧ ScanReady C n s.count v' := by
  rcases h.allocScan positive (fun some small => ready small some) with
      granted | ⟨v', null, quiet, refused⟩
  · exact Or.inl granted
  · refine Or.inr ⟨v', null, quiet, fun small some offers => ?_⟩
    have serves := (quiet.serves 0 some n positive).mp (Or.inr ⟨small, offers⟩)
    exact refused 0 some (fun _ => Or.inl small) serves

/-- The fast attempt on region 0. -/
theorem HeapInv.allocFast (h : HeapInv s v held) (some : 0 < s.count) (positive : 0 < n)
    : HeapGranted s v held n (C.buddy.orderForSize n) nativeAlignment (s.alloc n)
      ∨ ∃ s' v', s.alloc n = s'.allocSlow n ∧ Quiet s v held s' v'
        ∧ ScanReady C n s.count v'
        ∧ (¬n ≤ C.classSmall →
          ∀ x, ¬Room C.buddy (s.geo 0).total (v' 0).buddy.owned (C.buddy.orderForSize n) x) := by
  have region := h.regions 0 some
  rw [HeapState.alloc, if_neg (by omega)]
  by_cases small : n ≤ C.classSmall
  · rw [if_pos small]
    rcases region.tlsfAlloc positive small (C.buddy.orderForSize n) with granted | ⟨same, none⟩
    · have done := h.regionGranted (f := fun r => r.tlsfAlloc n) some granted
        (granted.native region) region.native_le
      simp only [if_pos done.notNull]
      exact Or.inl done
    · have call := HeapState.onRegion_same (f := fun r => r.tlsfAlloc n) same
      simp only [call, Chunk.null, ne_eq, not_true_eq_false, if_false]
      exact Or.inr ⟨s, v, rfl, .refl h, fun _ _ => none, fun large => absurd small large⟩
  · rw [if_neg small]
    have call : s.onRegion 0 (fun r => r.buddyAlloc n)
        = s.onRegion 0 (fun r => r.orderAlloc (C.buddy.orderForSize n)) := by
      simp only [HeapState.onRegion, (s.region 0).buddyAlloc_eq positive]
    rw [call]
    rcases region.orderAlloc n (C.buddy.orderForSize n) with
        granted | ⟨null, away, _, w, unchanged, owned⟩
    · have done := h.regionGranted (f := fun r => r.orderAlloc (C.buddy.orderForSize n)) some
        granted (granted.native region) region.native_le
      simp only [if_pos done.notNull]
      exact Or.inl done
    · have first := h.regionUnchanged some unchanged
      have result : s.onRegion 0 (fun r => r.orderAlloc (C.buddy.orderForSize n))
          = (s.setRegion 0 ((s.region 0).orderAlloc (C.buddy.orderForSize n)).1, .null) :=
        Prod.ext rfl null
      simp only [result, Chunk.null, ne_eq, not_true_eq_false, if_false]
      refine Or.inr ⟨_, _, rfl, first, fun fits => absurd fits small, fun _ => ?_⟩
      rw [Function.update_self, owned]
      exact away

/-- `alloc` grants a suitable block, or it keeps the blocks there are. -/
theorem HeapInv.alloc (h : HeapInv s v held) (fits : C.PoolFits) (supply : s.Supplied)
    (positive : 0 < n)
    : HeapGranted s v held n (C.buddy.orderForSize n) nativeAlignment (s.alloc n)
      ∨ ∃ v', (s.alloc n).2 = .null ∧ HeapStep s (s.alloc n).1 v' held held := by
  have slow : ∀ {t : HeapState C} {w : Nat → RegionView}, HeapInv t w held → t.Supplied →
      ScanReady C n t.count w →
      HeapGranted t w held n (C.buddy.orderForSize n) nativeAlignment (t.allocSlow n)
        ∨ ∃ w', (t.allocSlow n).2 = .null ∧ HeapStep t (t.allocSlow n).1 w' held held := by
    intro t w inv supplied ready
    rw [t.allocSlow_eq positive]
    exact inv.slowWith (P := ScanReady C n) fits supplied ready
      (fun inv ready => inv.allocScan_again positive ready) (fun ready empty => ready.add empty)
  rcases Nat.eq_zero_or_pos s.count with empty | some
  · rw [HeapState.alloc, if_pos empty]
    exact slow h supply (fun _ some => absurd some (by omega))
  · rcases h.allocFast some positive with granted | ⟨s', v', call, quiet, ready, _⟩
    · exact Or.inl granted
    · rw [call]
      have inited : s'.inited = true := quiet.step.inited (h.inited_of_count some)
      rw [← quiet.steady.count] at ready
      rcases slow quiet.step.inv ⟨quiet.pages supply.now, fun not => by
          rw [inited] at not
          cases not⟩ ready with granted | ⟨w, null, step⟩
      · exact Or.inl (quiet.granted h granted)
      · exact Or.inr ⟨w, null, quiet.step.trans step (fun _ _ => id) (fun _ _ => id)⟩

/-- Without growth a refusal of `alloc` is quiet, and no region serves the request. -/
theorem HeapInv.alloc_fixed (h : HeapInv s v held) (ready : s.inited = true)
    (fixed : C.growBytes = none) (positive : 0 < n)
    : HeapGranted s v held n (C.buddy.orderForSize n) nativeAlignment (s.alloc n)
      ∨ ∃ v', (s.alloc n).2 = .null ∧ Quiet s v held (s.alloc n).1 v'
        ∧ ∀ i < s.count, ¬(v i).Serves C (s.geo i).total n := by
  rcases Nat.eq_zero_or_pos s.count with empty | some
  · have call : s.alloc n = s.allocScan n := by
      rw [HeapState.alloc, if_pos empty, s.allocSlow_eq positive,
        HeapState.slowWith_fixed ready fixed]
    obtain ⟨null, quiet⟩ := h.allocScan_empty empty n
    rw [call]
    exact Or.inr ⟨v, null, quiet, by omega⟩
  · rcases h.allocFast some positive with granted | ⟨s', v', call, quiet, scanReady, away⟩
    · exact Or.inl granted
    · have inited : s'.inited = true := quiet.step.inited ready
      rw [call, s'.allocSlow_eq positive, HeapState.slowWith_fixed inited fixed]
      rcases quiet.step.inv.allocScan positive (fun _ small => scanReady small some) with
          granted | ⟨w, null, later, refused⟩
      · exact Or.inl (quiet.granted h granted)
      · refine Or.inr ⟨w, null, quiet.trans later, fun i less => ?_⟩
        rw [← quiet.serves i less n positive, ← quiet.step.geo i less]
        refine refused i (by rw [quiet.steady.count]; exact less) (fun _ => ?_)
        by_cases small : n ≤ C.classSmall
        · exact Or.inl small
        · refine Or.inr ?_
          rw [quiet.step.geo 0 some]
          exact away small

end Allocation

-----------------------------------------------------------------------------------------
-- Over-aligned allocation
-----------------------------------------------------------------------------------------

section Aligned

variable {C : Config} {s : HeapState C} {v : Nat → RegionView} {held : Nat → Option Block}
  {n o a m : Nat} {r : RegionState C} {w : RegionView} {c : RegionState C × Chunk}

/-- A power of two divides every size of at least that order. -/
theorem BuddyParams.dvd_alignedOrder (P : BuddyParams) (pow : isPow2 a = true)
    : a ∣ P.orderSize (BuddyState.alignedOrder P n a) := by
  obtain ⟨k, rfl⟩ := (isPow2_iff _).mp pow
  have positive : 0 < 2 ^ k := Nat.two_pow_pos k
  have le : 2 ^ k ≤ P.orderSize (P.orderForSize (2 ^ k)) := P.le_orderSize positive
  have up : P.orderForSize (2 ^ k) ≤ BuddyState.alignedOrder P n (2 ^ k) := by
    unfold BuddyState.alignedOrder
    split <;> omega
  refine dvd_trans ?_ (P.orderSize_dvd up)
  rw [P.orderSize_eq] at le ⊢
  exact pow_dvd_pow 2 ((Nat.pow_le_pow_iff_right (by omega)).mp le)

/-- A buddy block of an order for the alignment is aligned if the base is. -/
theorem Granted.aligned (h : RegionInv r w) (pow : isPow2 a = true) (le : a ≤ r.buddy.baseAlign)
    (granted : Granted r w (C.classSmall + 1) (BuddyState.alignedOrder C.buddy n a) c)
    : a ∣ c.2.ptr := by
  have sound := h.buddy.rep.geometry
  have order := C.buddy.dvd_alignedOrder (n := n) pow
  have base : a ∣ r.buddy.base := by
    refine dvd_trans ?_ sound.aligned
    obtain ⟨k, align, _⟩ := sound.align_eq
    obtain ⟨j, rfl⟩ := (isPow2_iff _).mp pow
    change 2 ^ j ≤ r.buddyState.baseAlign at le
    rw [align] at le ⊢
    exact pow_dvd_pow 2 ((Nat.pow_le_pow_iff_right (by omega)).mp le)
  cases granted with
  | small chunk request => omega
  | large chunk room step =>
      rw [chunk]
      exact Nat.dvd_add base (dvd_trans order room.1)

/-- `__alloc_aligned_scan`: an aligned buddy block, or no region has the alignment and the
room.
-/
theorem HeapInv.allocAlignedScan (h : HeapInv s v held) (positive : 0 < n)
    (pow : isPow2 a = true)
    : HeapGranted s v held (C.classSmall + 1) (BuddyState.alignedOrder C.buddy n a) a
        (s.allocAlignedScan n a)
      ∨ ∃ v', (s.allocAlignedScan n a).2 = .null ∧ Quiet s v held (s.allocAlignedScan n a).1 v'
        ∧ ∀ i < s.count, (s.geo i).baseAlign < a
          ∨ ∀ x, ¬Room C.buddy (s.geo i).total ((v i).busy C.tlsf)
            (BuddyState.alignedOrder C.buddy n a) x := by
  rcases h.tryFrom (D := fun g w => g.baseAlign < a
      ∨ ∀ x, ¬Room C.buddy g.total (w.busy C.tlsf) (BuddyState.alignedOrder C.buddy n a) x)
      (f := fun r => r.largeAllocAligned n a) (a := a) (n := C.classSmall + 1)
      (fun inv => (inv.largeAllocAligned positive pow (C.classSmall + 1)).imp_left
        (fun won => ⟨won.2, won.2.aligned inv pow won.1, won.1⟩)) s.count (i := 0)
      (by omega) with granted | ⟨v', null, quiet, reasons⟩
  · exact Or.inl granted
  · exact Or.inr ⟨v', null, quiet, fun i less => reasons i (by omega) (by omega)⟩

/-- The fast attempt on region 0. -/
theorem HeapInv.allocAlignedFast (h : HeapInv s v held) (some : 0 < s.count)
    (positive : 0 < n) (pow : isPow2 a = true)
    : HeapGranted s v held (C.classSmall + 1) (BuddyState.alignedOrder C.buddy n a) a
        (s.onRegion 0 (fun r => r.buddyAllocAligned n a))
      ∨ ∃ v', (s.onRegion 0 (fun r => r.buddyAllocAligned n a)).2 = .null
        ∧ Quiet s v held (s.onRegion 0 (fun r => r.buddyAllocAligned n a)).1 v' := by
  have region := h.regions 0 some
  have zero : n ≠ 0 := by omega
  by_cases degraded : (s.region 0).buddy.baseAlign < a
  · have low : (s.region 0).buddyState.baseAlign < a := degraded
    have same : (s.region 0).buddyAllocAligned n a = (s.region 0, .null) := by
      simp only [RegionState.buddyAllocAligned, BuddyState.allocateAligned, zero, pow, low,
        decide_false, Bool.not_true, Bool.or_false, Bool.false_eq_true, if_false,
        if_true]
      rfl
    rw [HeapState.onRegion_same (f := fun r => r.buddyAllocAligned n a) same]
    exact Or.inr ⟨v, rfl, .refl h⟩
  · have same : (s.region 0).buddyAllocAligned n a
        = (s.region 0).orderAlloc (BuddyState.alignedOrder C.buddy n a) := by
      have high : ¬(s.region 0).buddyState.baseAlign < a := degraded
      simp only [RegionState.buddyAllocAligned, BuddyState.allocateAligned, zero, pow, high,
        decide_false, Bool.not_true, Bool.or_false, Bool.false_eq_true, if_false,
        RegionState.orderAlloc]
    have call : s.onRegion 0 (fun r => r.buddyAllocAligned n a)
        = s.onRegion 0 (fun r => r.orderAlloc (BuddyState.alignedOrder C.buddy n a)) := by
      simp only [HeapState.onRegion, same]
    rw [call]
    rcases region.orderAlloc (C.classSmall + 1) (BuddyState.alignedOrder C.buddy n a) with
        granted | ⟨null, _, _, w, unchanged, _⟩
    · exact Or.inl (h.regionGranted
        (f := fun r => r.orderAlloc (BuddyState.alignedOrder C.buddy n a)) some granted
        (granted.aligned region pow (by omega)) (by
          change a ≤ (s.region 0).buddy.baseAlign
          omega))
    · exact Or.inr ⟨_, null, h.regionUnchanged some unchanged⟩

/-- `alloc_aligned` above the native alignment grants an aligned buddy block, or it keeps the
blocks there are.
-/
theorem HeapInv.allocAligned (h : HeapInv s v held) (fits : C.PoolFits) (supply : s.Supplied)
    (positive : 0 < n) (pow : isPow2 a = true) (beyond : nativeAlignment < a)
    : HeapGranted s v held (C.classSmall + 1) (BuddyState.alignedOrder C.buddy n a) a
        (s.allocAligned n a)
      ∨ ∃ v', (s.allocAligned n a).2 = .null ∧ HeapStep s (s.allocAligned n a).1 v' held held := by
  have slow : ∀ {t : HeapState C} {w : Nat → RegionView}, HeapInv t w held → t.Supplied →
      HeapGranted t w held (C.classSmall + 1) (BuddyState.alignedOrder C.buddy n a) a
          (t.allocAlignedSlow n a)
        ∨ ∃ w', (t.allocAlignedSlow n a).2 = .null
          ∧ HeapStep t (t.allocAlignedSlow n a).1 w' held held := by
    intro t w inv supplied
    rw [t.allocAlignedSlow_eq]
    refine inv.slowWith (P := fun _ _ => True) fits supplied trivial (fun inv _ => ?_)
      (fun _ _ => trivial)
    rcases inv.allocAlignedScan positive pow with granted | ⟨w', null, quiet, _⟩
    · exact Or.inl granted
    · exact Or.inr ⟨w', null, quiet, trivial⟩
  have zero : n ≠ 0 := by omega
  rw [HeapState.allocAligned]
  simp only [zero, pow, decide_false, Bool.not_true, Bool.or_false, Bool.false_eq_true, if_false,
    Nat.not_le.mpr beyond]
  rcases Nat.eq_zero_or_pos s.count with empty | some
  · rw [if_pos empty]
    exact slow h supply
  · rw [if_neg (by omega)]
    rcases h.allocAlignedFast some positive pow with granted | ⟨v', null, quiet⟩
    · rw [if_pos granted.notNull]
      exact Or.inl granted
    · rw [if_neg (by rw [null]; simp [Chunk.null])]
      have inited := quiet.step.inited (h.inited_of_count some)
      rcases slow quiet.step.inv ⟨quiet.pages supply.now, fun not => by
          rw [inited] at not
          cases not⟩ with granted | ⟨w, null, step⟩
      · exact Or.inl (quiet.granted h granted)
      · exact Or.inr ⟨w, null, quiet.step.trans step (fun _ _ => id) (fun _ _ => id)⟩

/-- Without growth a refusal of `alloc_aligned` is quiet, and no region has the alignment and
the room.
-/
theorem HeapInv.allocAligned_fixed (h : HeapInv s v held) (ready : s.inited = true)
    (fixed : C.growBytes = none) (positive : 0 < n) (pow : isPow2 a = true)
    (beyond : nativeAlignment < a)
    : HeapGranted s v held (C.classSmall + 1) (BuddyState.alignedOrder C.buddy n a) a
        (s.allocAligned n a)
      ∨ ∃ v', (s.allocAligned n a).2 = .null ∧ Quiet s v held (s.allocAligned n a).1 v'
        ∧ ∀ i < s.count, (s.geo i).baseAlign < a
          ∨ ∀ x, ¬Room C.buddy (s.geo i).total ((v i).busy C.tlsf)
            (BuddyState.alignedOrder C.buddy n a) x := by
  have slow : ∀ t : HeapState C, t.inited = true →
      t.allocAlignedSlow n a = t.allocAlignedScan n a := by
    intro t inited
    rw [t.allocAlignedSlow_eq, HeapState.slowWith_fixed inited fixed]
  have zero : n ≠ 0 := by omega
  rw [HeapState.allocAligned]
  simp only [zero, pow, decide_false, Bool.not_true, Bool.or_false, Bool.false_eq_true, if_false,
    Nat.not_le.mpr beyond]
  rcases Nat.eq_zero_or_pos s.count with empty | some
  · rw [if_pos empty, slow s ready]
    exact h.allocAlignedScan positive pow
  · rw [if_neg (by omega)]
    rcases h.allocAlignedFast some positive pow with granted | ⟨v', null, quiet⟩
    · rw [if_pos granted.notNull]
      exact Or.inl granted
    · rw [if_neg (by rw [null]; simp [Chunk.null]), slow _ (quiet.step.inited ready)]
      rcases quiet.step.inv.allocAlignedScan positive pow with
          granted | ⟨w, null, later, reasons⟩
      · exact Or.inl (quiet.granted h granted)
      · refine Or.inr ⟨w, null, quiet.trans later, fun i less => ?_⟩
        have reason := reasons i (by rw [quiet.steady.count]; exact less)
        rw [quiet.step.geo i less] at reason
        refine reason.imp_right (fun away x room => away x ?_)
        have moved := (quiet.room h less).mpr room
        rw [quiet.step.geo i less] at moved
        exact moved

end Aligned

end Bbmalloc
