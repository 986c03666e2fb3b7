import Bbmalloc.World.Runs

/-! The regions in reached worlds: sheets belong to both allocators at once or to neither, and
a heap whose blocks are all released is the heap that a reset would make.
-/

namespace Bbmalloc

open Bbmalloc.Foundations

namespace World

-----------------------------------------------------------------------------------------
-- Sheets
-----------------------------------------------------------------------------------------

section Sheets

variable {C : Config} {ok : Op → Prop} {w : World C} {i : Nat}

/-- The tags show exactly the sheets of the small-block allocator, each a block of the buddy
allocator of the size of a sheet, within the budget. Only the spare may be without a live
block, and neither allocator ever refuses what the other one offers.
-/
theorem Reached.sheet_life_cycle (reached : Reached ok w) (less : i < w.heap.count)
    : (∀ x, C.buddy.minBlock ∣ x → x < (w.heap.region i).buddy.total →
        ((w.heap.region i).buddyState.isSheetAt x = true ↔ x ∈ (w.heap.region i).tlsf.sheets))
      ∧ ((w.heap.region i).tlsf.sheets.Nodup
        ∧ (w.heap.region i).tlsf.count = (w.heap.region i).tlsf.sheets.length
        ∧ (w.heap.region i).tlsf.count ≤ C.tlsf.maxSheets)
      ∧ (∀ sh ∈ (w.heap.region i).tlsf.sheets, C.tlsf.sheet ∣ sh
        ∧ sh + C.tlsf.sheet ≤ (w.heap.region i).buddy.total
        ∧ ∃ o, (w.heap.region i).buddyState.orderAt ((w.heap.region i).buddy.base + sh) = some o
          ∧ C.buddy.orderSize o = C.tlsf.sheet)
      ∧ ((w.heap.region i).spare = nullOff
        ∨ (w.heap.region i).spare ∈ (w.heap.region i).tlsf.sheets)
      ∧ (∀ sh ∈ (w.heap.region i).tlsf.sheets,
        (∀ y < C.tlsf.sheet, w.ledger ((w.heap.region i).buddy.base + (sh + y)) = none) →
          (w.heap.region i).spare = sh)
      ∧ (w.heap.region i).rollbacks = 0 := by
  obtain ⟨v, rep⟩ := reached.inv.rep
  have inv := rep.regions i less
  refine ⟨fun x unit inside => inv.isSheetAt_iff unit inside,
    ⟨inv.tlsf.fit.nodup, inv.tlsf.counted, inv.tlsf.budget⟩, fun sh member => ?_, inv.spareSheet,
    fun sh member empty => ?_, inv.noRollback⟩
  · obtain ⟨dvd, fits, _, _⟩ := inv.sheet_lt member
    exact ⟨dvd, fits, C.sheetOrder,
      inv.buddy.orderAt_iff.mpr ⟨sh, .sheet, rfl, inv.sheet_owned member⟩, C.orderSize_sheet⟩
  · refine inv.onlySpare sh member ((rep.emptySheet_iff less member).mpr (fun y inside => ?_))
    exact Ledger.blocks_eq_none.mpr (empty y inside)

theorem Reached.sheet_life_cycle_small
    : (∀ x, bareBuild.buddy.minBlock ∣ x → x < (bareWorld.heap.region 0).buddy.total →
        ((bareWorld.heap.region 0).buddyState.isSheetAt x = true
          ↔ x ∈ (bareWorld.heap.region 0).tlsf.sheets))
      ∧ ((bareWorld.heap.region 0).tlsf.sheets.Nodup
        ∧ (bareWorld.heap.region 0).tlsf.count = (bareWorld.heap.region 0).tlsf.sheets.length
        ∧ (bareWorld.heap.region 0).tlsf.count ≤ bareBuild.tlsf.maxSheets)
      ∧ (∀ sh ∈ (bareWorld.heap.region 0).tlsf.sheets, bareBuild.tlsf.sheet ∣ sh
        ∧ sh + bareBuild.tlsf.sheet ≤ (bareWorld.heap.region 0).buddy.total
        ∧ ∃ o, (bareWorld.heap.region 0).buddyState.orderAt
            ((bareWorld.heap.region 0).buddy.base + sh) = some o
          ∧ bareBuild.buddy.orderSize o = bareBuild.tlsf.sheet)
      ∧ ((bareWorld.heap.region 0).spare = nullOff
        ∨ (bareWorld.heap.region 0).spare ∈ (bareWorld.heap.region 0).tlsf.sheets)
      ∧ (∀ sh ∈ (bareWorld.heap.region 0).tlsf.sheets,
        (∀ y < bareBuild.tlsf.sheet,
          bareWorld.ledger ((bareWorld.heap.region 0).buddy.base + (sh + y)) = none) →
          (bareWorld.heap.region 0).spare = sh)
      ∧ (bareWorld.heap.region 0).rollbacks = 0 :=
  bareWorld_reached.sheet_life_cycle bareWorld_attached

end Sheets

end World

-----------------------------------------------------------------------------------------
-- Releasing every block
-----------------------------------------------------------------------------------------

/-- The calls that release the block at `p`. -/
def Op.Releases (op : Op) (p : Nat) : Prop :=
  op = .heapDealloc p ∨ op = .dealloc p ∨ op = .destroy p

/-- The blocks of a list are released one after the other, each by some call. -/
inductive World.Drains {C : Config} : World C → List Nat → World C → Prop
  | done {w : World C} : Drains w [] w
  | next {w w' w'' : World C} {p : Nat} {order : List Nat} {op : Op} (releases : op.Releases p)
      (step : w.step op = some w') (gone : w'.ledger p = none) (rest : Drains w' order w'')
      : Drains w (p :: order) w''

/-- Nothing is in use, everything is available, and after `largest_free` every region is laid
out as after `reset`: the free blocks are those that the loop over the digits of the tag count
seeds.
-/
structure Restored {C : Config} (s : HeapState C) : Prop where
  used : s.used.2 = 0
  available : s.available.2 = s.total.2
  usedIn : ∀ i < s.ensure.1.count, (s.ensure.1.region i).used = 0
  availableIn : ∀ i < s.ensure.1.count,
    (s.ensure.1.region i).available = (s.ensure.1.region i).buddy.total
  layout : ∀ i < s.ensure.1.count, (s.largestFree.1.region i).SameLayout (s.reset.region i)
  seeded : ∀ i < s.ensure.1.count, ∀ o a, (s.largestFree.1.region i).buddyState.Listed o a
    ↔ ∃ x, a = (s.ensure.1.geo i).base + x
      ∧ seedTiles C.buddy (s.ensure.1.geo i) .free x = some (.free, o)

section Draining

variable {C : Config} {ok : Op → Prop} {w w' : World C} {op : Op} {p : Nat} {g : Grant}
  {order : List Nat}

/-- A block can be live only in a heap that is initialised. -/
theorem WorldInv.inited (h : WorldInv w) (known : w.ledger p = some g)
    : w.heap.inited = true := by
  obtain ⟨v, rep⟩ := h.rep
  obtain ⟨i, less, _⟩ := rep.held_inside (Ledger.blocks_eq_some.mpr ⟨g, known, rfl⟩)
  exact rep.inited_of_count (by omega)

/-- A call that releases a live block takes it out of the ledger. -/
theorem WorldInv.released (h : WorldInv w) (fits : C.PoolFits) (known : w.ledger p = some g)
    (releases : op.Releases p) (step : w.step op = some w') (gone : w'.ledger p = none)
    : WorldInv w' ∧ w'.ledger = w.ledger.erase p ∧ w'.heap.inited = true := by
  have ready := h.inited known
  have pages : w.heap.inited = false → w.heap.FreshPages := fun wrong => by
    rw [ready] at wrong
    cases wrong
  obtain ⟨v, rep⟩ := h.rep
  have effect : Effect w (.dealloc p) w'
      ∧ (w'.ledger = w.ledger.erase p ∨ w'.ledger = w.ledger) := by
    have shown : ∀ s, s = (w.heap.bbDealloc p).1 → w' = ⟨s, w.ledger.release w.heap p⟩ →
        Effect w (.dealloc p) w' ∧ (w'.ledger = w.ledger.erase p ∨ w'.ledger = w.ledger) := by
      rintro s state rfl
      refine ⟨(rep.bbDealloc fits pages p).effect state rep rfl, ?_⟩
      simp only [Ledger.release]
      split
      · exact Or.inl rfl
      · exact Or.inr rfl
    rcases releases with rfl | rfl | rfl
    · cases Option.some.inj step
      refine ⟨rep.heapDealloc_effect fits pages rfl, ?_⟩
      simp only
      split
      · exact Or.inl rfl
      · exact Or.inr rfl
    · obtain ⟨_, same⟩ := World.next_some step
      exact shown _ rfl same
    · obtain ⟨_, same⟩ := World.next_some step
      exact shown _ (by rw [HeapState.destroy_eq]) same
  have erased : w'.ledger = w.ledger.erase p := by
    rcases effect.2 with erased | same
    · exact erased
    · rw [same, known] at gone
      cases gone
  exact ⟨effect.1.inv h, erased, effect.1.inited ready⟩

/-- Whatever the order, nothing is live once every live block is released. -/
theorem World.Drains.empty (drains : World.Drains w order w')
    : WorldInv w → C.PoolFits → order.Nodup → (∀ p, p ∈ order ↔ w.ledger p ≠ none) →
      WorldInv w' ∧ (∀ p, w'.ledger p = none) ∧ (w'.heap.inited = true ∨ w' = w) := by
  induction drains with
  | done =>
      intro h _ _ all
      refine ⟨h, fun p => ?_, Or.inr rfl⟩
      by_contra live
      simpa using (all p).mpr live
  | @next w w₁ w' p order op releases step gone rest ih =>
      intro h fits once all
      obtain ⟨g, known⟩ := Option.ne_none_iff_exists'.mp ((all p).mp (by simp))
      obtain ⟨h₁, erased, ready⟩ := h.released fits known releases step gone
      obtain ⟨fresh, once⟩ := List.nodup_cons.mp once
      obtain ⟨h', empty, same⟩ := ih h₁ fits once (fun q => by
        rw [erased]
        by_cases here : q = p
        · subst here
          simp [Ledger.erase_same, fresh]
        · rw [Ledger.erase_other _ here, ← all q]
          simp [here])
      refine ⟨h', empty, Or.inl ?_⟩
      rcases same with ready' | same
      · exact ready'
      · rw [same]
        exact ready

/-- The live blocks of a world can be released in any order. -/
theorem WorldInv.drains (order : List Nat)
    : ∀ {w : World C}, WorldInv w → C.PoolFits → order.Nodup →
      (∀ p ∈ order, w.ledger p ≠ none) → ∃ w', World.Drains w order w' := by
  induction order with
  | nil => exact fun _ _ _ _ => ⟨_, .done⟩
  | cons p order ih =>
      intro w h fits once live
      obtain ⟨g, known⟩ := Option.ne_none_iff_exists'.mp (live p (by simp))
      obtain ⟨v, rep⟩ := h.rep
      have ready := h.inited known
      obtain ⟨stays, found⟩ := rep.locate ready p
      have alive := (found.held_len rep (Ledger.blocks_eq_some.mpr ⟨g, known, rfl⟩)).2.1
      have done : (w.heap.dealloc p).2 = true := by
        rw [HeapState.dealloc, stays]
        exact (rep.release found alive).1
      have step : w.step (.heapDealloc p) = some ⟨(w.heap.dealloc p).1, w.ledger.erase p⟩ := by
        simp only [World.step, done, if_true]
      have gone : (w.ledger.erase p) p = none := Ledger.erase_same ..
      obtain ⟨h₁, _, _⟩ := h.released fits known (Or.inl rfl) step gone
      obtain ⟨fresh, once⟩ := List.nodup_cons.mp once
      obtain ⟨w', rest⟩ := ih h₁ fits once (fun q member => by
        have differ : q ≠ p := fun same => fresh (same ▸ member)
        change (w.ledger.erase p) q ≠ none
        rw [Ledger.erase_other _ differ]
        exact live q (by simp [member]))
      exact ⟨w', .next (Or.inl rfl) step gone rest⟩

/-- A heap without live blocks is restored. -/
theorem WorldInv.restored (h : WorldInv w) (fits : C.PoolFits)
    (pages : w.heap.inited = false → w.heap.FreshPages) (empty : ∀ p, w.ledger p = none)
    : Restored w.heap := by
  obtain ⟨v, rep⟩ := h.rep
  have none : w.ledger.blocks = fun _ => Option.none := funext (fun p =>
    Ledger.blocks_eq_none.mpr (empty p))
  rw [none] at rep
  obtain ⟨u, step, ready, _⟩ := rep.ensure fits pages
  have inv := step.inv
  have used : w.heap.used = w.heap.ensure.1.used := by
    simp only [HeapState.used, HeapState.ensure_ready ready]
  have available : w.heap.available = w.heap.ensure.1.available := by
    simp only [HeapState.available, HeapState.ensure_ready ready]
  have total : w.heap.total = w.heap.ensure.1.total := by
    simp only [HeapState.total, HeapState.ensure_ready ready]
  have largest : w.heap.largestFree = w.heap.ensure.1.largestFree := by
    simp only [HeapState.largestFree, HeapState.ensure_ready ready]
  have reset : w.heap.reset = w.heap.ensure.1.reset := by
    simp only [HeapState.reset, HeapState.ensure_ready ready]
  obtain ⟨usedSum, availableSum, totalSum⟩ := HeapState.gauges_ready ready
  refine ⟨?_, ?_, fun i less => (inv.vacant_gauges less).1,
    fun i less => (inv.vacant_gauges less).2, fun i less => ?_, fun i less => ?_⟩
  · rw [used, usedSum]
    exact HeapState.sumRegions_zero (fun i less => (inv.vacant_gauges less).1)
  · rw [available, total, availableSum, totalSum]
    exact HeapState.sumRegions_congr (f := fun r => r.buddy.total) (g := RegionState.available) rfl
      (fun i less => (inv.vacant_gauges less).2)
  · rw [largest, reset]
    exact (inv.vacant_reset ready less).1
  · rw [largest]
    exact (inv.vacant_reset ready less).2

/-- The live blocks can be released in any order, and in whatever order and by whatever calls
they are, the heap is restored.
-/
theorem World.Reached.draining (reached : World.Reached ok w) (supply : w.heap.Supplied)
    (once : order.Nodup) (all : ∀ p, p ∈ order ↔ w.ledger p ≠ none)
    : (∃ w', World.Drains w order w')
      ∧ ∀ w', World.Drains w order w' → (∀ p, w'.ledger p = none) ∧ Restored w'.heap := by
  refine ⟨reached.inv.drains order reached.fits once (fun p => (all p).mp), fun w' drains => ?_⟩
  obtain ⟨h', empty, ready⟩ := drains.empty reached.inv reached.fits once all
  refine ⟨empty, h'.restored reached.fits (fun fresh => ?_) empty⟩
  rcases ready with ready | same
  · rw [ready] at fresh
    cases fresh
  · rw [same]
    exact supply.now

theorem World.Reached.draining_small
    : (∃ w', World.Drains World.pairWorld [5248, 4272] w')
      ∧ ∀ w', World.Drains World.pairWorld [5248, 4272] w' →
        (∀ p, w'.ledger p = none) ∧ Restored w'.heap := by
  refine World.pairWorld_reached.draining (World.supplied_of_pageless (fun _ _ => rfl) _)
    (by decide) (fun p => ?_)
  simp only [World.pairWorld, Function.update_apply, List.mem_cons, List.not_mem_nil, or_false]
  split
  · simp_all
  · split
    · simp_all
    · simp_all

end Draining

end Bbmalloc
