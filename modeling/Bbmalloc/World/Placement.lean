import Bbmalloc.Heap.Placement
import Bbmalloc.World.Runs

/-! Which region serves a request, in reached worlds: the searches with and without the fast
paths agree, and both follow the choice that can be read off the regions before the call.
-/

namespace Bbmalloc

open Bbmalloc.Foundations

/-- The call follows the choice that was made for it: a block of that tier in that region, and
no growth. If there is no choice, the call is refused or adds a region for its block.
-/
def HeapState.Follows {C : Config} (s : HeapState C) (c : HeapState C × Chunk)
    : Option (Nat × Tier) → Prop
  | some (i, t) => c.2.ptr ≠ 0 ∧ c.1.count = s.count
      ∧ (c.1.locate c.2.ptr).2.r = some i ∧ (c.1.locate c.2.ptr).2.t = t
  | none => c.2 = .null
      ∨ c.1.count = s.count + 1 ∧ (c.1.locate c.2.ptr).2.r = some s.count

namespace World

section Placement

variable {C : Config} {ok : Op → Prop} {w : World C} {n a : Nat}

/-- The fast paths agree with the plain search, which takes one region after the other from
the first on and tries each of them in full: they return the same chunk and leave the same
heap, in every bit. Only large requests of a heap without a region are left out.
-/
theorem Reached.fast_plain (reached : Reached ok w) (supply : w.heap.Supplied)
    : (∀ n, n ≤ C.classSmall ∨ 0 < w.heap.count → w.heap.alloc n = w.heap.plainAlloc n)
      ∧ ∀ n a, n ≤ C.classSmall ∨ 0 < w.heap.count ∨ nativeAlignment < a →
        w.heap.allocAligned n a = w.heap.plainAllocAligned n a := by
  obtain ⟨⟨v, rep⟩, _⟩ := reached.inv
  exact ⟨fun n some => rep.alloc_plain reached.fits supply some,
    fun n a some => rep.allocAligned_plain reached.fits supply some⟩

theorem Reached.fast_plain_small
    : (∀ n, n ≤ bareBuild.classSmall ∨ 0 < bareWorld.heap.count →
        bareWorld.heap.alloc n = bareWorld.heap.plainAlloc n)
      ∧ ∀ n a, n ≤ bareBuild.classSmall ∨ 0 < bareWorld.heap.count ∨ nativeAlignment < a →
        bareWorld.heap.allocAligned n a = bareWorld.heap.plainAllocAligned n a :=
  bareWorld_reached.fast_plain (supplied_of_pageless (fun _ _ => rfl) _)

/-- First fit. A request is served by the first region that could serve it by itself, a small
request by sheets if those of any region can, and the heap grows only if no region can.
-/
theorem Reached.first_fit (reached : Reached ok w) (supply : w.heap.Supplied)
    (attached : 0 < w.heap.count) (positive : 0 < n)
    : w.heap.Follows (w.heap.alloc n) (w.heap.choice n)
      ∧ (isPow2 a = true → nativeAlignment < a →
        w.heap.Follows (w.heap.allocAligned n a) (w.heap.choiceAligned n a)) := by
  obtain ⟨⟨v, rep⟩, _⟩ := reached.inv
  have follows : ∀ {c : HeapState C × Chunk} {pick : Option (Nat × Tier)},
      (∃ i k, pick = some (i, k) ∧ Chosen w.heap w.ledger.blocks i k c)
        ∨ (pick = none ∧ (c.2 = .null
          ∨ c.1.count = w.heap.count + 1 ∧ (c.1.locate c.2.ptr).2.r = some w.heap.count)) →
      w.heap.Follows c pick := by
    rintro c pick (⟨i, k, rfl, chosen⟩ | ⟨rfl, outcome⟩)
    · have located := chosen.located
      have notNull := chosen.notNull
      cases chosen with
      | block _ _ _ _ _ count _ => exact ⟨notNull, count, located⟩
    · exact outcome
  exact ⟨follows (rep.alloc_choice reached.fits supply attached positive),
    fun pow beyond =>
      follows (rep.allocAligned_choice reached.fits supply attached positive pow beyond)⟩

/-- The bare build with two regions. -/
def twinStart : World bareBuild :=
  ⟨(bareRegion.heap.attach 16384 4224 0 0).1, fun _ => none⟩

example : twinStart.heap.count = 2 := by decide +kernel

theorem twinStart_reached : Reached (fun op => op.isPublic = true) twinStart := by
  have first : Reached (fun op => op.isPublic = true) bareRegion := bareRegion_reached rfl
  have shown : (Op.attach 16384 4224 0 0).isPublic = true := rfl
  refine .step first shown ?_ rfl
  refine ⟨by decide +kernel, by decide +kernel, fun i less a foot => ?_,
    fun wrong => (by cases wrong), fun wrong => (by cases wrong)⟩
  have count : bareRegion.heap.count = 1 := by decide +kernel
  obtain rfl : i = 0 := by omega
  have tags : (bareRegion.heap.geo 0).blockTags + (bareRegion.heap.geo 0).tagCount ≤ 16384 := by
    decide +kernel
  have data : (bareRegion.heap.geo 0).base + (bareRegion.heap.geo 0).total ≤ 16384 := by
    decide +kernel
  refine ⟨fun inside => ?_, fun wrong => wrong.1 rfl⟩
  rcases foot with foot | foot <;> omega

/-- The same with the first region full. -/
def twinWorld : World bareBuild := (twinStart.run [.balloc 4096]).getD bareStart

theorem twinWorld_reached : Reached (fun op => op.isPublic = true) twinWorld := by
  have live : (twinStart.run [.balloc 4096]).isSome = true := by decide +kernel
  obtain ⟨w, done⟩ := Option.isSome_iff_exists.mp live
  rw [twinWorld, done, Option.getD_some]
  exact twinStart_reached.run (fun _ _ => rfl) [.balloc 4096]
    (by simp [Op.isPublic, Calls]) done

theorem Reached.first_fit_small
    : twinWorld.heap.Follows (twinWorld.heap.alloc 20) (twinWorld.heap.choice 20)
      ∧ (isPow2 64 = true → nativeAlignment < 64 →
        twinWorld.heap.Follows (twinWorld.heap.allocAligned 20 64)
          (twinWorld.heap.choiceAligned 20 64)) :=
  twinWorld_reached.first_fit (supplied_of_pageless (fun _ _ => rfl) _) (by decide +kernel)
    (by decide)

/-- The second region is chosen there: a sheet for a small request, a block for an aligned one. -/
example : twinWorld.heap.choice 20 = some (1, .tlsf)
    ∧ twinWorld.heap.choiceAligned 20 64 = some (1, .buddy) := by
  decide +kernel

end Placement

end World

end Bbmalloc
