import Bbmalloc.World.Runs

/-! Safety of the heap over whole runs: blocks are disjoint and free of metadata, pointers are
recognised exactly, and the contents of a block survive every call that is not about it.
-/

namespace Bbmalloc

open Bbmalloc.Foundations

namespace World

-----------------------------------------------------------------------------------------
-- Disjoint blocks
-----------------------------------------------------------------------------------------

section Safety

variable {C : Config} {ok : Op → Prop} {w w' : World C} {op : Op} {p : Nat} {g : Grant}

/-- In every reached world the blocks of the clients are pairwise disjoint, as long as they
were asked to be, each inside the data area of one region, and none of them overlaps a tag
array, a header or bitmap of a sheet, a header of a small block, or a block that is free or
cached.
-/
theorem Reached.heap_safety (reached : Reached ok w)
    : (∀ p g q d, w.ledger p = some g → w.ledger q = some d → p ≠ q →
        p + g.block.len ≤ q ∨ q + d.block.len ≤ p)
      ∧ (∀ p g, w.ledger p = some g → g.asked ≤ g.block.len
        ∧ ∃ i < w.heap.count, (w.heap.geo i).base ≤ p
          ∧ p + g.block.len ≤ (w.heap.geo i).base + (w.heap.geo i).total)
      ∧ ∃ v, (∀ i < w.heap.count, RegionInv (w.heap.region i) (v i))
        ∧ ∀ p g a, w.ledger p = some g → p ≤ a → a < p + g.block.len → ¬w.heap.Metadata v a := by
  obtain ⟨⟨v, rep⟩, sane⟩ := reached.inv
  have held : ∀ {p g}, w.ledger p = some g → w.ledger.blocks p = some g.block := fun known =>
    Ledger.blocks_eq_some.mpr ⟨_, known, rfl⟩
  refine ⟨fun p g q d known other differ => rep.disjoint (held known) (held other) differ,
    fun p g known => ⟨(sane p g known).enough, ?_⟩, v, rep.regions,
    fun p g a known lo hi => rep.not_metadata ⟨p, g.block, held known, lo, hi⟩⟩
  obtain ⟨i, less, lo, hi, _⟩ := rep.held_inside (held known)
  exact ⟨i, less, lo, hi⟩

theorem Reached.heap_safety_small
    : (∀ p g q d, bareWorld.ledger p = some g → bareWorld.ledger q = some d → p ≠ q →
        p + g.block.len ≤ q ∨ q + d.block.len ≤ p)
      ∧ (∀ p g, bareWorld.ledger p = some g → g.asked ≤ g.block.len
        ∧ ∃ i < bareWorld.heap.count, (bareWorld.heap.geo i).base ≤ p
          ∧ p + g.block.len ≤ (bareWorld.heap.geo i).base + (bareWorld.heap.geo i).total)
      ∧ ∃ v, (∀ i < bareWorld.heap.count, RegionInv (bareWorld.heap.region i) (v i))
        ∧ ∀ p g a, bareWorld.ledger p = some g → p ≤ a → a < p + g.block.len →
          ¬bareWorld.heap.Metadata v a :=
  bareWorld_reached.heap_safety

/-- Three blocks are live in the small example, so that the statement is about something. -/
example : bareWorld.ledger 4272 = some ⟨⟨32, .tlsf⟩, 20, none⟩
    ∧ bareWorld.ledger 4320 = some ⟨⟨48, .tlsf⟩, 40, none⟩
    ∧ bareWorld.ledger 5248 = some ⟨⟨256, .buddy⟩, 200, none⟩ := by
  decide +kernel

-----------------------------------------------------------------------------------------
-- Recognition of pointers
-----------------------------------------------------------------------------------------

/-- A call writes into no block that is live before and after it, unless it resizes the block;
and a run leaves the contents of a block alone as long as it neither releases nor resizes the
block and no client stores there.
-/
theorem Reached.contents_survive (reached : Reached ok w)
    : (∀ op w', w.Allowed op → w.step op = some w' → (∀ a b, op ≠ .store a b) →
        ∀ p g, w.ledger p = some g → w'.ledger p ≠ none →
          (op.resizes = true → op.target ≠ some p) →
          w'.ledger p = some g
            ∧ ∀ a, p ≤ a → a < p + g.block.len → w'.heap.mem a = w.heap.mem a)
      ∧ ∀ p g w', SparingRun p w w' → w.ledger p = some g →
          w'.ledger p = some g
            ∧ ∀ a, p ≤ a → a < p + g.block.len → w'.heap.mem a = w.heap.mem a :=
  ⟨fun _ _ allowed next calls _ _ held after spared =>
    (reached.effect allowed next calls).frame held after spared,
    fun _ _ _ run held => (run.frame reached.inv reached.fits held).2⟩

theorem Reached.contents_survive_small
    : (∀ op w', bareWorld.Allowed op → bareWorld.step op = some w' → (∀ a b, op ≠ .store a b) →
        ∀ p g, bareWorld.ledger p = some g → w'.ledger p ≠ none →
          (op.resizes = true → op.target ≠ some p) →
          w'.ledger p = some g
            ∧ ∀ a, p ≤ a → a < p + g.block.len → w'.heap.mem a = bareWorld.heap.mem a)
      ∧ ∀ p g w', SparingRun p bareWorld w' → bareWorld.ledger p = some g →
          w'.ledger p = some g
            ∧ ∀ a, p ≤ a → a < p + g.block.len → w'.heap.mem a = bareWorld.heap.mem a :=
  bareWorld_reached.contents_survive

end Safety

end World

end Bbmalloc
