import Bbmalloc.World.Runs

/-! The gauges in reached worlds: `used` and `available` account for every byte of a region,
`largest_free` is the largest request that is granted, and a refused request changes neither
the blocks nor a gauge.
-/

namespace Bbmalloc

open Bbmalloc.Foundations

namespace World

-----------------------------------------------------------------------------------------
-- Accounting
-----------------------------------------------------------------------------------------

section Accounting

variable {C : Config} {ok : Op → Prop} {w : World C} {i : Nat}

/-- The bytes in use of a region are those of its live blocks and of its sheets in use, the
other bytes are available, and `largest_free` changes neither. The guard of `used` never
triggers, that of `available` only in a full region, where it returns the difference.
-/
theorem Reached.accounting (reached : Reached ok w) (less : i < w.heap.count)
    : (w.heap.region i).used = w.heap.bytesInUse w.ledger.blocks i
      ∧ (w.heap.region i).used + (w.heap.region i).available = (w.heap.region i).buddy.total
      ∧ ¬(w.heap.region i).buddy.allocatedBytes < (w.heap.region i).credit
      ∧ ((w.heap.region i).used ≥ (w.heap.region i).buddy.total →
        (w.heap.region i).used = (w.heap.region i).buddy.total)
      ∧ ((w.heap.region i).largestFree.1.used = (w.heap.region i).used
        ∧ (w.heap.region i).largestFree.1.available = (w.heap.region i).available
        ∧ (w.heap.region i).largestFree.1.buddy.total = (w.heap.region i).buddy.total)
      ∧ (w.heap.largestFree.1.region i).used = (w.heap.region i).used
      ∧ (w.heap.largestFree.1.region i).available = (w.heap.region i).available
      ∧ (w.heap.largestFree.1.region i).buddy.total = (w.heap.region i).buddy.total := by
  obtain ⟨v, rep⟩ := reached.inv.rep
  have inv := rep.regions i less
  obtain ⟨_, enough, most⟩ := inv.used_eq
  have left := inv.available_eq
  refine ⟨rep.used_eq less, by omega, by omega, fun full => by omega, ?_, ?_⟩
  · obtain ⟨v', unchanged, _⟩ := inv.largestFree
    exact inv.gauges_congr unchanged.step.inv unchanged.step.geometry unchanged.step.live_eq
  · obtain ⟨v', quiet, _⟩ := rep.largestFree (rep.inited_of_count (by omega))
    exact quiet.region_gauges rep less

/-- The bare build with a block that takes up the whole region. -/
def fullWorld : World bareBuild := (bareRegion.run [.balloc 4096]).getD bareStart

/-- Nothing is left in it. -/
example : (fullWorld.heap.region 0).available = 0 := by decide +kernel

theorem fullWorld_reached : Reached (fun op => op.isPublic = true) fullWorld :=
  bareRegion_run [.balloc 4096] (by decide +kernel) (by simp [Op.isPublic, Calls])

theorem Reached.accounting_small
    : (bareWorld.heap.region 0).used = bareWorld.heap.bytesInUse bareWorld.ledger.blocks 0
      ∧ (bareWorld.heap.region 0).used + (bareWorld.heap.region 0).available
        = (bareWorld.heap.region 0).buddy.total
      ∧ ¬(bareWorld.heap.region 0).buddy.allocatedBytes < (bareWorld.heap.region 0).credit
      ∧ ((bareWorld.heap.region 0).used ≥ (bareWorld.heap.region 0).buddy.total →
        (bareWorld.heap.region 0).used = (bareWorld.heap.region 0).buddy.total)
      ∧ ((bareWorld.heap.region 0).largestFree.1.used = (bareWorld.heap.region 0).used
        ∧ (bareWorld.heap.region 0).largestFree.1.available = (bareWorld.heap.region 0).available
        ∧ (bareWorld.heap.region 0).largestFree.1.buddy.total
          = (bareWorld.heap.region 0).buddy.total)
      ∧ (bareWorld.heap.largestFree.1.region 0).used = (bareWorld.heap.region 0).used
      ∧ (bareWorld.heap.largestFree.1.region 0).available = (bareWorld.heap.region 0).available
      ∧ (bareWorld.heap.largestFree.1.region 0).buddy.total
        = (bareWorld.heap.region 0).buddy.total :=
  bareWorld_reached.accounting bareWorld_attached

/-- In a full region the guard of `available` triggers. -/
theorem Reached.accounting_full
    : ¬∀ w : World bareBuild, Reached (fun op => op.isPublic = true) w → ∀ i < w.heap.count,
        ¬(w.heap.region i).used ≥ (w.heap.region i).buddy.total := by
  intro never
  exact never fullWorld fullWorld_reached 0 (by decide +kernel) (by decide +kernel)

end Accounting

-----------------------------------------------------------------------------------------
-- The largest free request
-----------------------------------------------------------------------------------------

section Requests

variable {C : Config} {ok : Op → Prop} {w : World C} {n : Nat}

/-- In a heap that cannot grow, a request is granted if it is no larger than what
`largest_free` reports.
-/
theorem Reached.largest_free_exact (reached : Reached ok w) (fixed : C.growBytes = none)
    (attached : 0 < w.heap.count) (positive : 0 < n)
    : (∃ c, (w.heap.balloc n).2 = .returned c ∧ c.ptr ≠ 0) ↔ n ≤ w.heap.bbLargestFree.2 := by
  obtain ⟨v, rep⟩ := reached.inv.rep
  exact rep.balloc_iff (rep.inited_of_count attached) fixed positive

theorem Reached.largest_free_exact_small
    : (∃ c, (bareWorld.heap.balloc 512).2 = .returned c ∧ c.ptr ≠ 0)
      ↔ 512 ≤ bareWorld.heap.bbLargestFree.2 :=
  bareWorld_reached.largest_free_exact rfl bareWorld_attached (by decide)

/-- Two heaps with the same blocks at every address and the same gauges. -/
structure Alike (s s' : HeapState C) : Prop where
  lengths : ∀ p, (s'.locate p).2.len = (s.locate p).2.len
  tiers : ∀ p, (s'.locate p).2.t = (s.locate p).2.t
  used : s'.used.2 = s.used.2
  available : s'.available.2 = s.available.2
  total : s'.total.2 = s.total.2
  largestFree : s'.bbLargestFree.2 = s.bbLargestFree.2

/-- A quiet part of a call leaves the heap alike. -/
theorem Alike.of_quiet {s s' : HeapState C} {v v' : Nat → RegionView}
    {held : Nat → Option Block} (h : HeapInv s v held) (ready : s.inited = true)
    (quiet : Quiet s v held s' v')
    : Alike s s' := by
  have ready' := quiet.step.inited ready
  obtain ⟨used, available, total, largest⟩ := quiet.gauges h ready
  have found : ∀ p, (s'.locate p).2.len = (s.locate p).2.len
      ∧ (s'.locate p).2.t = (s.locate p).2.t := fun p =>
    (h.locate ready p).2.agree h quiet.step.inv (quiet.step.inv.locate ready' p).2
  exact ⟨fun p => (found p).1, fun p => (found p).2, used, available, total,
    by rw [HeapState.bbLargestFree, HeapState.bbLargestFree, largest]⟩

/-- In a heap that cannot grow, a request that is refused leaves all blocks where they are,
and every gauge as it was.
-/
theorem Reached.refusal_harmless (reached : Reached ok w) (fixed : C.growBytes = none)
    (ready : w.heap.inited = true) (n a : Nat)
    : ((¬∃ c, (w.heap.balloc n).2 = .returned c ∧ c.ptr ≠ 0) →
        Alike w.heap (w.heap.balloc n).1)
      ∧ ((¬∃ c, (w.heap.alignedBalloc a n).2 = .returned c ∧ c.ptr ≠ 0) →
        Alike w.heap (w.heap.alignedBalloc a n).1) := by
  obtain ⟨v, rep⟩ := reached.inv.rep
  refine ⟨fun refused => ?_, fun refused => ?_⟩
  · by_cases zero : n = 0
    · have same : (w.heap.balloc n).1 = w.heap := by simp [HeapState.balloc, zero]
      rw [same]
      exact .of_quiet rep ready (.refl rep)
    · rcases rep.balloc_fixed ready fixed (Nat.pos_of_ne_zero zero) with
        ⟨granted, _⟩ | ⟨_, _, quiet, _⟩
      · exact absurd granted refused
      · exact .of_quiet rep ready quiet
  · rcases rep.alignedBalloc_fixed ready fixed n a with granted | ⟨_, quiet⟩
    · exact absurd granted refused
    · exact .of_quiet rep ready quiet

theorem Reached.refusal_harmless_small
    : (bareWorld.heap.balloc 4096).2 = .returned .null
      ∧ Alike bareWorld.heap (bareWorld.heap.balloc 4096).1
      ∧ (bareWorld.heap.alignedBalloc 64 4096).2 = .returned .null
      ∧ Alike bareWorld.heap (bareWorld.heap.alignedBalloc 64 4096).1 := by
  have first : (bareWorld.heap.balloc 4096).2 = .returned .null := by decide +kernel
  have second : (bareWorld.heap.alignedBalloc 64 4096).2 = .returned .null := by decide +kernel
  have null : ∀ {c : Exit Chunk}, c = .returned .null → ¬∃ d, c = .returned d ∧ d.ptr ≠ 0 := by
    rintro c rfl ⟨d, same, notNull⟩
    cases same
    exact notNull rfl
  obtain ⟨plain, aligned⟩ := bareWorld_reached.refusal_harmless rfl (by decide +kernel) 4096 64
  exact ⟨first, plain (null first), second, aligned (null second)⟩

end Requests

end World

end Bbmalloc
