import Bbmalloc.World.Runs

/-! `resize` and the container adapter over whole runs: what a resized block is, what it
holds, and how far the length that the adapter advertises can be trusted.
-/

namespace Bbmalloc

open Bbmalloc.Foundations

-----------------------------------------------------------------------------------------
-- Blocks that stay
-----------------------------------------------------------------------------------------

section Stays

variable {C : Config} {s t : HeapState C} {v v' : Nat → RegionView}
  {held held' : Nat → Option Block} {p : Nat} {b : Block}

/-- A block that two heaps hold is located alike in both. -/
theorem HeapInv.locate_alike (h : HeapInv s v held) (known : held p = some b)
    (h' : HeapInv t v' held') (known' : held' p = some b)
    : (t.locate p).2.len = (s.locate p).2.len ∧ (t.querySize p).2 = (s.querySize p).2 := by
  obtain ⟨_, len, _, _, query⟩ := h.locate_known known
  obtain ⟨_, len', _, _, query'⟩ := h'.locate_known known'
  exact ⟨len'.trans len.symm, query'.trans query.symm⟩

/-- A step that keeps the blocks keeps what they hold and how they are located. -/
theorem HeapInv.keeps_blocks (h : HeapInv s v held) (step : HeapStep s t v' held held)
    (known : held p = some b)
    : (∀ i < (s.locate p).2.len, t.mem (p + i) = s.mem (p + i))
      ∧ (t.locate p).2.len = (s.locate p).2.len ∧ (t.querySize p).2 = (s.querySize p).2 := by
  obtain ⟨_, len, _⟩ := h.locate_known known
  exact ⟨fun i less => step.kept_mem known (by omega) (by omega),
    h.locate_alike known step.inv known⟩

end Stays

namespace World

-----------------------------------------------------------------------------------------
-- The contract of resize
-----------------------------------------------------------------------------------------

section Contract

variable {C : Config} {w : World C} {p : Nat}

/-- The contract of `resize`. For a live block `p`, a size of at least one and any other
arguments: a block that is returned is aligned as asked, at least as long as asked and as long
as `query_size` says; it holds the old contents as far as `preserve`, the old lengths and the
new one reach; the old block is gone if it moved. If nothing is returned, the block is still
there with its extent and its contents. Either way every other block stays as it was.
-/
theorem Reached.resize_contract (reached : Reached (fun op => op.isPublic = true) w)
    (supply : w.heap.Supplied) (live : w.ledger p ≠ none) {size : Nat} (positive : 1 ≤ size)
    (oldLen preserve a : Nat)
    : let c := w.heap.resize ⟨p, oldLen⟩ size preserve a
      (w.heap.locate p).2.len ≠ 0
      ∧ (∀ q len, c.2 = .returned ⟨q, len⟩ → q ≠ 0 →
        a ∣ q ∧ size ≤ len ∧ (c.1.querySize q).2 = len
        ∧ (∀ i, i < preserve → i < oldLen → i < (w.heap.querySize p).2 → i < len →
          (c.1.mem (q + i)).byte = (w.heap.mem (p + i)).byte)
        ∧ (q ≠ p → (c.1.locate p).2.len = 0)
        ∧ ∀ r, w.ledger r ≠ none → r ≠ p →
          (c.1.locate r).2.len = (w.heap.locate r).2.len
            ∧ (c.1.querySize r).2 = (w.heap.querySize r).2)
      ∧ (c.2 = .returned .null →
        (∀ i < (w.heap.locate p).2.len, c.1.mem (p + i) = w.heap.mem (p + i))
        ∧ ∀ r, w.ledger r ≠ none →
          (c.1.locate r).2.len = (w.heap.locate r).2.len
            ∧ (c.1.querySize r).2 = (w.heap.querySize r).2) := by
  obtain ⟨⟨v, rep⟩, sane⟩ := reached.inv
  obtain ⟨g, grant⟩ := Option.ne_none_iff_exists'.mp live
  have block := Ledger.blocks_eq_some.mpr ⟨g, grant, rfl⟩
  have held : ∀ {r}, w.ledger r ≠ none → ∃ b, w.ledger.blocks r = some b := by
    intro r known
    obtain ⟨d, grant'⟩ := Option.ne_none_iff_exists'.mp known
    exact ⟨d.block, Ledger.blocks_eq_some.mpr ⟨d, grant', rfl⟩⟩
  have padded := reached.padded (fun _ => id) p g grant
  have enough := (sane p g grant).enough
  have inside := rep.held_lt block
  obtain ⟨i, less, _⟩ := rep.held_inside block
  have ready := rep.inited_of_count (show 0 < w.heap.count by omega)
  obtain ⟨_, oldLength, _, located, usable⟩ := rep.locate_known block
  -- nothing was returned: the blocks are the same
  have kept : ∀ {c : HeapState C × Exit Chunk} {v'},
      HeapStep w.heap c.1 v' w.ledger.blocks w.ledger.blocks →
      (∀ i < (w.heap.locate p).2.len, c.1.mem (p + i) = w.heap.mem (p + i))
        ∧ ∀ r, w.ledger r ≠ none →
          (c.1.locate r).2.len = (w.heap.locate r).2.len
            ∧ (c.1.querySize r).2 = (w.heap.querySize r).2 := by
    intro c v' step
    refine ⟨(rep.keeps_blocks step block).1, fun r known => ?_⟩
    obtain ⟨b, before⟩ := held known
    exact (rep.keeps_blocks step before).2
  refine ⟨located, ?_⟩
  generalize call : w.heap.resize ⟨p, oldLen⟩ size preserve a = c
  have outcome : Resizes w.heap v w.ledger.blocks ⟨p, oldLen⟩ size preserve a c := by
    rw [← call]
    exact rep.resize reached.fits supply ⟨p, oldLen⟩ size preserve a
  cases outcome with
  | ignored _ result =>
      refine ⟨fun q len returned notNull => ?_, fun _ => ?_⟩
      · rw [result] at returned
        cases returned
        exact absurd rfl notNull
      · rw [result]
        exact kept (c := (w.heap, .returned .null)) (rep.refl _)
  | allocated null _ =>
      simp only at null
      omega
  | released zero _ _ _ _ => omega
  | bad _ short _ _ _ =>
      have := short g.block block
      omega
  | reshaped _ reshaped =>
      cases reshaped with
      | refused result step =>
          refine ⟨fun q len returned notNull => ?_, fun _ => kept step⟩
          rw [returned] at result
          rcases result with null | failure | halted
          · exact absurd (C.refused_null (Or.inl null)) notNull
          · exact absurd (C.refused_null (Or.inr failure)) notNull
          · cases halted
      | @inPlace b m v' known chunk aligned enough' _ _ _ _ step contents =>
          obtain rfl : b = g.block := Option.some.inj (known.symm.trans block)
          refine ⟨fun q len returned notNull => ?_, fun null => ?_⟩
          · rw [chunk] at returned
            cases returned
            have after : Function.update w.ledger.blocks p (some ⟨m, g.block.tier⟩) p
                = some ⟨m, g.block.tier⟩ := Function.update_self _ _ _
            obtain ⟨_, _, _, _, query⟩ := step.inv.locate_known after
            refine ⟨aligned, by omega, query, fun i _ _ below within => ?_,
              fun moved => absurd rfl moved, fun r other differ => ?_⟩
            · rw [contents i (by omega) within]
            · obtain ⟨b, before⟩ := held other
              exact rep.locate_alike before step.inv
                (by rw [Function.update_of_ne differ]; exact before)
          · rw [chunk, Exit.returned.injEq, Chunk.null, Chunk.mk.injEq] at null
            simp only at null
            omega
      | @moved b d q v' known chunk notNull aligned unused enough' _ step contents =>
          obtain rfl : b = g.block := Option.some.inj (known.symm.trans block)
          have apart : p ≠ q := by
            rintro rfl
            rw [unused] at known
            cases known
          refine ⟨fun q' len returned _ => ?_, fun null => ?_⟩
          · have pow := HeapState.resize_pow2 ((congrArg Prod.snd call).trans chunk) notNull
            rw [chunk] at returned
            cases returned
            obtain ⟨_, _, _, _, query⟩ := step.inv.locate_known (p := q) (b := d) (by simp)
            refine ⟨(dvd_max_native pow).trans aligned, by omega, query,
              fun i inPreserve inOld below within => ?_, fun _ => ?_, fun r other differ => ?_⟩
            · exact contents i inPreserve inOld (by omega) within
            · exact step.inv.locate_unknown (step.inited ready)
                (by rw [Function.update_of_ne apart, Function.update_self])
            · obtain ⟨b, before⟩ := held other
              have away : r ≠ q := by
                rintro rfl
                rw [unused] at before
                cases before
              refine rep.locate_alike before step.inv ?_
              rw [Function.update_of_ne away, Function.update_of_ne differ]
              exact before
          · rw [chunk, Exit.returned.injEq, Chunk.null, Chunk.mk.injEq] at null
            exact absurd null.1 notNull

theorem Reached.resize_contract_small
    : ∃ q len, (pairWorld.heap.resize ⟨4272, 32⟩ 100 32 64).2 = .returned ⟨q, len⟩
      ∧ ((pairWorld.heap.resize ⟨4272, 32⟩ 100 32 64).1.querySize q).2 = len ∧ 64 ∣ q
      ∧ ((pairWorld.heap.resize ⟨4272, 32⟩ 100 32 64).1.locate 4272).2.len = 0 := by
  have supplied := supplied_of_pageless (C := bareBuild) (fun _ _ => rfl) pairWorld.heap
  obtain ⟨_, granted, _⟩ := pairWorld_reached.resize_contract supplied (p := 4272)
    (fun none => by cases none) (show 1 ≤ 100 by decide) 32 32 64
  have returned : (pairWorld.heap.resize ⟨4272, 32⟩ 100 32 64).2 = .returned ⟨5504, 128⟩ := by
    decide +kernel
  obtain ⟨aligned, _, query, _, gone, _⟩ := granted 5504 128 returned (by decide)
  exact ⟨5504, 128, returned, query, aligned, gone (by decide)⟩

end Contract

section Advertised

variable {C : Config} {ok : Op → Prop} {w : World C} {a : Nat}

/-- The length that the adapter advertises for a block. A chunk that `create` returns lies in its
block. So does one that `resize` returns, of whatever chunk, unless a block stays where it is
that is shorter than the adapter expects.
-/
theorem Reached.advertised (reached : Reached ok w) (supply : w.heap.Supplied)
    (pow : isPow2 a = true) (bytes : Nat)
    : HeapState.ExtentFits bytes (w.heap.create bytes a)
      ∧ ∀ old preserve, HeapState.ExtentFits bytes (w.heap.containerResize old bytes preserve a)
        ↔ ¬w.heap.Overreports old bytes a := by
  obtain ⟨⟨v, rep⟩, _⟩ := reached.inv
  exact ⟨rep.create_fits reached.fits supply bytes a,
    fun old preserve => rep.containerResize_exact reached.fits supply pow old bytes preserve⟩

/-- The calls that leave a small block with the rest of its free block: 64 bytes find one of
80, which is too short to be split.
-/
def slackCalls : List Op :=
  [.create 16 16, .create 48 16, .create 16 16, .destroy 4272, .destroy 4304, .create 64 16]

/-- The bare build with a small block that is longer than small requests get. -/
def slackWorld : World bareBuild := (bareRegion.run slackCalls).getD bareStart

theorem slackWorld_reached : Reached (fun op => op.isPublic = true) slackWorld :=
  bareRegion_run slackCalls (by decide +kernel) (by simp [slackCalls, Op.isPublic, Calls])

theorem Reached.advertised_small
    : (slackWorld.heap.create 100 64).2 = .returned ⟨5248, 128⟩
      ∧ 128 ≤ ((slackWorld.heap.create 100 64).1.querySize 5248).2
      ∧ (slackWorld.heap.containerResize ⟨4272, 64⟩ 60 64 16).2 = .returned ⟨4272, 64⟩
      ∧ 64 ≤ ((slackWorld.heap.containerResize ⟨4272, 64⟩ 60 64 16).1.querySize 4272).2 := by
  have supplied := supplied_of_pageless (C := bareBuild) (fun _ _ => rfl) slackWorld.heap
  have created : (slackWorld.heap.create 100 64).2 = .returned ⟨5248, 128⟩ := by decide +kernel
  have resized : (slackWorld.heap.containerResize ⟨4272, 64⟩ 60 64 16).2
      = .returned ⟨4272, 64⟩ := by
    decide +kernel
  have fitting : ¬slackWorld.heap.Overreports ⟨4272, 64⟩ 60 16 := by
    intro excess
    obtain ⟨r, reaches, short⟩ := excess.short
    rw [reaches.unique (.own (by decide +kernel))] at short
    exact absurd short (by decide +kernel)
  have first := (slackWorld_reached.advertised supplied (a := 64) (by decide) 100).1
  have second := (slackWorld_reached.advertised supplied (a := 16) (by decide) 60).2 ⟨4272, 64⟩ 64
  exact ⟨created, (first 5248 128 created (by decide)).2, resized,
    (second.mpr fitting 4272 64 resized (by decide)).2⟩

/-- A block of 80 bytes is resized to 65: the adapter advertises 128. -/
theorem Reached.advertised_outgrown
    : ¬∀ (w : World bareBuild) (old : Chunk) (bytes preserve a q len : Nat),
        Reached (fun op => op.isPublic = true) w → w.heap.Supplied → isPow2 a = true →
        (∃ g, w.ledger old.ptr = some g ∧ g.made = some a) →
        (w.heap.containerResize old bytes preserve a).2 = .returned ⟨q, len⟩ → q ≠ 0 →
        bytes ≤ len ∧ len ≤ ((w.heap.containerResize old bytes preserve a).1.querySize q).2 := by
  intro claim
  have supplied := supplied_of_pageless (C := bareBuild) (fun _ _ => rfl) slackWorld.heap
  have within := claim slackWorld ⟨4272, 64⟩ 65 64 16 4272 128 slackWorld_reached supplied
    (by decide) ⟨⟨⟨80, .tlsf⟩, 64, some 16⟩, by decide +kernel, rfl⟩ (by decide +kernel) (by decide)
  revert within
  decide +kernel

/-- The calls that advertise a small block twice with the length of a large one: it lies at a
multiple of 64 by chance and stays there when the alignment is raised.
-/
def raisedCalls : List Op :=
  [.create 20 16, .create 16 16, .create 20 16, .containerResize ⟨4352, 32⟩ 20 20 64]

example
    : let w := (bareRegion.run raisedCalls).getD bareStart
      (w.ledger 4352).bind Grant.made = some 64
        ∧ (w.heap.containerResize ⟨4352, 64⟩ 20 20 64).2 = .returned ⟨4352, 64⟩
        ∧ ((w.heap.containerResize ⟨4352, 64⟩ 20 20 64).1.querySize 4352).2 = 32 := by
  decide +kernel

end Advertised

end World

end Bbmalloc
