import Bbmalloc.Foundations.ClientBlocks
import Bbmalloc.Heap.Locality
import Bbmalloc.World.Runs

/-! Where calls write. No run of calls touches memory outside the regions, and calls about one
block touch its region only.
-/

namespace Bbmalloc

open Bbmalloc.Foundations

namespace World

-----------------------------------------------------------------------------------------
-- Memory outside the heap
-----------------------------------------------------------------------------------------

/-- A step that the environment allows. -/
def Steps {C : Config} (w : World C) (op : Op) (w' : World C) : Prop :=
  w.Allowed op ∧ w.step op = some w'

section Outside

variable {C : Config} {ok : Op → Prop} {w w' : World C} {op : Op} {ops : List Op} {a : Nat}

/-- Every effect is a step of the heap. -/
theorem Effect.heapStep (effect : Effect w op w')
    : ∃ u kept, HeapStep w.heap w'.heap u kept w'.ledger.blocks := by
  cases effect with
  | kept _ step => exact ⟨_, _, step⟩
  | cleared _ _ step => exact ⟨_, _, step⟩
  | added _ _ _ _ step => exact ⟨_, _, step⟩
  | dropped _ _ step => exact ⟨_, _, step⟩
  | changed _ _ _ _ _ step => exact ⟨_, _, step⟩
  | moved _ _ _ _ _ _ step => exact ⟨_, _, step⟩

/-- One step keeps the regions and writes inside those there are afterwards. -/
theorem outside_step (inv : WorldInv w) (fits : C.PoolFits) (step : Steps w op w')
    : w.heap.count ≤ w'.heap.count ∧ (∀ i < w.heap.count, w'.heap.geo i = w.heap.geo i)
      ∧ ((∀ i < w'.heap.count, ¬Footprint (w'.heap.geo i) a) → (∀ b, op ≠ .store a b) →
        w'.heap.mem a = w.heap.mem a) := by
  by_cases store : ∃ x b, op = .store x b
  · obtain ⟨x, b, rfl⟩ := store
    cases Option.some.inj step.2
    refine ⟨le_rfl, fun _ _ => rfl, fun _ spared => Memory.store_of_ne _ _ ?_⟩
    rintro rfl
    exact spared b rfl
  · have effect := inv.effect fits step.1 step.2 (fun x b same => store ⟨x, b, same⟩)
    obtain ⟨u, kept, heap⟩ := Effect.heapStep effect
    refine ⟨heap.more, heap.geo, fun out _ => heap.within a ?_⟩
    rintro ⟨⟨i, less, foot⟩, _⟩
    exact out i less foot

/-- The same of a run, by induction on its steps. -/
theorem outside_run (run : Run Steps w ops w') (fits : C.PoolFits)
    : WorldInv w →
      w.heap.count ≤ w'.heap.count ∧ (∀ i < w.heap.count, w'.heap.geo i = w.heap.geo i)
        ∧ ((∀ i < w'.heap.count, ¬Footprint (w'.heap.geo i) a) → (∀ b, .store a b ∉ ops) →
          w'.heap.mem a = w.heap.mem a) := by
  induction run with
  | nil => exact fun _ => ⟨le_rfl, fun _ _ => rfl, fun _ _ => rfl⟩
  | @cons w t w' op ops first rest ih =>
      intro inv
      obtain ⟨more, geo, here⟩ := outside_step (a := a) inv fits first
      obtain ⟨more', geo', later⟩ := ih (inv_step inv fits first.1 first.2)
      refine ⟨more.trans more', fun i less => (geo' i (by omega)).trans (geo i less),
        fun out spared => ?_⟩
      have out' : ∀ i < t.heap.count, ¬Footprint (t.heap.geo i) a := by
        intro i less
        rw [← geo' i less]
        exact out i (by omega)
      have tail := later out (fun b mem => spared b (List.mem_cons_of_mem _ mem))
      rw [tail]
      exact here out' (fun b same => spared b (same ▸ List.mem_cons_self))

/-- No run of calls touches memory outside the tag arrays and the data areas of the regions:
what changes there was stored by a client. Regions stay where they are.
-/
theorem Reached.outside_untouched (reached : Reached ok w) (run : Run Steps w ops w')
    : (∀ i < w.heap.count, w'.heap.geo i = w.heap.geo i)
      ∧ ∀ a, (∀ i < w'.heap.count, ¬Footprint (w'.heap.geo i) a) → (∀ b, .store a b ∉ ops) →
        w'.heap.mem a = w.heap.mem a :=
  ⟨(outside_run (a := 0) run reached.fits reached.inv).2.1,
    fun _ => (outside_run run reached.fits reached.inv).2.2⟩

theorem Reached.outside_untouched_small
    : (∀ i < bareRegion.heap.count, pairWorld.heap.geo i = bareRegion.heap.geo i)
      ∧ ∀ a, (∀ i < pairWorld.heap.count, ¬Footprint (pairWorld.heap.geo i) a) →
        (∀ b, .store a b ∉ [Op.balloc 20, Op.balloc 200]) →
        pairWorld.heap.mem a = bareRegion.heap.mem a := by
  obtain ⟨first, second⟩ := pairWorld_steps
  have supplied : ∀ s : HeapState bareBuild, s.Supplied := supplied_of_pageless (fun _ _ => rfl)
  have reached : Reached (fun op => op.isPublic = true) bareRegion := bareRegion_reached rfl
  exact reached.outside_untouched
    (.cons ⟨supplied _, first⟩ (.cons ⟨supplied _, second⟩ .nil))

end Outside

-----------------------------------------------------------------------------------------
-- The region of a block
-----------------------------------------------------------------------------------------

section OneRegion

variable {C : Config} {ok : Op → Prop} {w : World C} {p : Nat} {g : Grant}

/-- Every live block lies in one region, and to release it, to resize it in place, or to try to,
touches that region only: the records of the others, their memory and all other memory stay
as they are.
-/
theorem Reached.region_local (reached : Reached ok w) (supply : w.heap.Supplied)
    (live : w.ledger p = some g)
    : ∃ i < w.heap.count, (w.heap.geo i).base ≤ p
      ∧ p + g.block.len ≤ (w.heap.geo i).base + (w.heap.geo i).total
      ∧ w.heap.Local i (w.heap.dealloc p).1 ∧ w.heap.Local i (w.heap.bbDealloc p).1
      ∧ (∀ n, let l := w.heap.locate p
        w.heap.Local i (l.1.shrinkAt l.2 n).1 ∧ w.heap.Local i (l.1.growAt l.2 p n).1)
      ∧ ∀ len size preserve a c,
        (w.heap.resize ⟨p, len⟩ size preserve a).2 = .returned c → c.ptr = p →
        w.heap.Local i (w.heap.resize ⟨p, len⟩ size preserve a).1 := by
  obtain ⟨v, rep⟩ := reached.inv.rep
  have known : w.ledger.blocks p = some g.block := Ledger.blocks_eq_some.mpr ⟨g, live, rfl⟩
  obtain ⟨_, some, _⟩ := rep.held_inside known
  have ready := rep.inited_of_count (show 0 < w.heap.count by omega)
  obtain ⟨same, found⟩ := rep.locate ready p
  obtain ⟨len, positive, _⟩ := found.held_len rep known
  obtain ⟨i, less, here, lo, hi⟩ := found.region rep positive
  refine ⟨i, less, lo, len ▸ hi, ?_, rep.bbDealloc_local ready here known, fun n => ?_,
    fun len size preserve a c result stays =>
      rep.resize_local reached.fits supply ready here known result stays⟩
  · rw [HeapState.dealloc, same]
    exact rep.release_local found here
  · simp only [same]
    exact ⟨rep.shrinkAt_local found here n, rep.growAt_local found here n⟩

theorem Reached.region_local_small
    : ∃ i < pairWorld.heap.count, (pairWorld.heap.geo i).base ≤ 4272
      ∧ 4272 + 32 ≤ (pairWorld.heap.geo i).base + (pairWorld.heap.geo i).total
      ∧ pairWorld.heap.Local i (pairWorld.heap.dealloc 4272).1
      ∧ pairWorld.heap.Local i (pairWorld.heap.bbDealloc 4272).1
      ∧ (∀ n, let l := pairWorld.heap.locate 4272
        pairWorld.heap.Local i (l.1.shrinkAt l.2 n).1
          ∧ pairWorld.heap.Local i (l.1.growAt l.2 4272 n).1)
      ∧ ∀ len size preserve a c,
        (pairWorld.heap.resize ⟨4272, len⟩ size preserve a).2 = .returned c → c.ptr = 4272 →
        pairWorld.heap.Local i (pairWorld.heap.resize ⟨4272, len⟩ size preserve a).1 :=
  pairWorld_reached.region_local (g := ⟨⟨32, .tlsf⟩, 20, none⟩)
    (supplied_of_pageless (fun _ _ => rfl) _) rfl

end OneRegion

end World

end Bbmalloc
