import Bbmalloc.Heap.Additions
import Bbmalloc.World.Runs

/-! Where the regions of a heap come from: runs of `attach`, the first request of a heap, and
requests that make it grow.
-/

namespace Bbmalloc

open Bbmalloc.Foundations

namespace World

-----------------------------------------------------------------------------------------
-- Runs of attach
-----------------------------------------------------------------------------------------

section Attaching

variable {C : Config} {m : Memory} {calls : List AttachCall}

/-- After any sequence of calls, a call is accepted if and only if its ranges are in the
address space, meet each other nowhere, meet no region of an accepted call, and can be laid
out. So regions stay apart from each other and from the tag arrays of later calls. All
regions and tag arrays stay apart if and only if no accepted call meets the tag array of an
earlier one, which is not checked; if none does, the heap is in order.
-/
theorem attachAll_apart (clean : ∀ a, C.Static a → (m a).byte = 0)
    (words : ∀ c ∈ calls, c.Words C)
    : let r := (HeapState.zero C m).attachAll calls
      (∀ c : AttachCall, c.Words C →
          ((r.1.attachCall c).2 = true
            ↔ r.2.length < C.maxRegions ∧ c.Sound C ∧ (∀ e ∈ r.2, e.Beside c) ∧ c.Layable C))
        ∧ (∀ e ∈ r.2, e.Sound C) ∧ r.2.Pairwise AttachCall.Beside
        ∧ ((r.2.flatMap AttachCall.ranges).Pairwise Range.Apart
          ↔ r.2.Pairwise AttachCall.ClearsTags)
        ∧ (r.2.Pairwise AttachCall.ClearsTags → (∀ e ∈ r.2, 2 * e.len ≤ C.buddy.word) →
          ∃ v, HeapInv r.1 v fun _ => none) := by
  intro r
  have run : AttachRun r.1 r.2 := AttachRun.start.all words
  refine ⟨fun c word => run.registered.attach_iff word, run.registered.sound, run.beside,
    run.apart_iff, fun clears half => ?_⟩
  obtain ⟨v, start⟩ := (inv_start clean).rep
  exact AttachRun.start.all_inv start words half clears

/-- The region of the second of these calls contains the tag array of the first one. -/
def overlaidCalls : List AttachCall := [⟨4096, 4096, 16384, 128⟩, ⟨12288, 8192, 0, 0⟩]

theorem overlaidCalls_words : ∀ c ∈ overlaidCalls, c.Words bareBuild := by
  simp only [overlaidCalls, List.forall_mem_cons, List.not_mem_nil, false_implies, implies_true,
    and_true]
  refine ⟨⟨?_, ?_, ?_, ?_⟩, ⟨?_, ?_, ?_, ?_⟩⟩ <;> decide

/-- Both are accepted. -/
theorem overlaidCalls_accepted
    : let r := (HeapState.zero bareBuild (fun _ => ⟨0, 0⟩)).attachAll overlaidCalls
      r.2 = overlaidCalls ∧ r.1.attached = overlaidCalls := by
  decide +kernel

theorem attachAll_apart_small
    : let r := (HeapState.zero bareBuild (fun _ => ⟨0, 0⟩)).attachAll
        [⟨4096, 4096, 16384, 128⟩, ⟨12288, 8192, 0, 0⟩]
      r.2 = [⟨4096, 4096, 16384, 128⟩, ⟨12288, 8192, 0, 0⟩]
        ∧ ¬(r.2.flatMap AttachCall.ranges).Pairwise Range.Apart := by
  have accepted := overlaidCalls_accepted.1
  have all := attachAll_apart (C := bareBuild) (m := fun _ => ⟨0, 0⟩) (fun _ _ => rfl)
    overlaidCalls_words
  obtain ⟨_, _, _, apart, _⟩ := all
  refine ⟨accepted, fun wrong => ?_⟩
  have clears := apart.mp wrong
  rw [accepted, overlaidCalls, List.pairwise_pair] at clears
  exact clears.region 16384 ⟨by decide, by decide⟩ ⟨by decide, by decide⟩

/-- All regions and tag arrays stay apart, and a call that would bring two of them together is
refused, if and only if no call is overlooked: none that the checks let through meets the tag
array of an earlier region.
-/
theorem attachAll_disjoint (words : ∀ c ∈ calls, c.Words C)
    : (∀ done rest, calls = done ++ rest →
          AttachCall.AllApart ((HeapState.zero C m).attachAll done).1.attached)
        ∧ (∀ done c rest, calls = done ++ c :: rest →
          ¬AttachCall.AllApart (((HeapState.zero C m).attachAll done).1.attached ++ [c]) →
          (((HeapState.zero C m).attachAll done).1.attachCall c).2 = false)
      ↔ (HeapState.zero C m).NoneOverlooked calls := by
  have run : ∀ {done c rest}, calls = done ++ c :: rest → c.Words C
      ∧ AttachRun ((HeapState.zero C m).attachAll done).1
        ((HeapState.zero C m).attachAll done).2 := by
    intro done c rest split
    refine ⟨words c (split ▸ List.mem_append_right _ List.mem_cons_self), ?_⟩
    exact AttachRun.start.all (fun d mem => words d (split ▸ List.mem_append_left _ mem))
  constructor
  · rintro ⟨apart, -⟩ done c rest split
    obtain ⟨word, before⟩ := run split
    have after := apart (done ++ [c]) rest (by simpa using split)
    rw [HeapState.attachAll_concat] at after
    exact (before.keeps_apart word (apart done _ split)).mp after
  · intro seen
    have apart := AttachRun.all_apart words seen
    refine ⟨apart, fun done c rest split breaks => ?_⟩
    obtain ⟨word, before⟩ := run split
    exact before.refuses word (apart done _ split) (seen done c rest split) breaks

/-- Three calls: a region with its tags elsewhere, a region behind those tags, and a range that
meets the first region.
-/
def spreadCalls : List AttachCall :=
  [⟨4096, 4096, 16384, 128⟩, ⟨20480, 4096, 0, 0⟩, ⟨6144, 4096, 0, 0⟩]

/-- Two of these calls are accepted, and their ranges stay apart. -/
theorem attachAll_disjoint_small
    : let s := ((HeapState.zero bareBuild (fun _ => ⟨0, 0⟩)).attachAll spreadCalls).1
      s.attached = spreadCalls.take 2 ∧ AttachCall.AllApart s.attached := by
  have words : ∀ c ∈ spreadCalls, c.Words bareBuild := by
    simp only [spreadCalls, List.forall_mem_cons, List.not_mem_nil, false_implies, implies_true,
      and_true]
    refine ⟨⟨?_, ?_, ?_, ?_⟩, ⟨?_, ?_, ?_, ?_⟩, ⟨?_, ?_, ?_, ?_⟩⟩ <;> decide
  have one : ((HeapState.zero bareBuild (fun _ => ⟨0, 0⟩)).attachAll
      (spreadCalls.take 1)).1.attached = spreadCalls.take 1 := by
    decide +kernel
  have two : ((HeapState.zero bareBuild (fun _ => ⟨0, 0⟩)).attachAll
      (spreadCalls.take 2)).1.attached = spreadCalls.take 2 := by
    decide +kernel
  have seen : (HeapState.zero bareBuild (fun _ => ⟨0, 0⟩)).NoneOverlooked spreadCalls := by
    rintro (_ | ⟨d, _ | ⟨e, _ | ⟨f, done⟩⟩⟩) c rest split overlooks
    · obtain ⟨e, mem, -⟩ := overlooks.meets
      cases mem
    · obtain ⟨rfl, rfl, rfl⟩ : d = ⟨4096, 4096, 16384, 128⟩ ∧ c = ⟨20480, 4096, 0, 0⟩
          ∧ rest = [⟨6144, 4096, 0, 0⟩] := by
        simpa [spreadCalls, eq_comm] using split
      obtain ⟨e, mem, meets⟩ := overlooks.meets
      have mem : e ∈ spreadCalls.take 1 := one ▸ mem
      obtain rfl : e = ⟨4096, 4096, 16384, 128⟩ := by
        simpa [spreadCalls] using mem
      have behind : Range.Apart ⟨16384, 128⟩ ⟨20480, 4096⟩ := by
        rintro a ⟨_, before⟩ ⟨after, _⟩
        simp only at before after
        omega
      exact meets ⟨behind, Range.apart_empty rfl⟩
    · obtain ⟨rfl, rfl, rfl, rfl⟩ : d = ⟨4096, 4096, 16384, 128⟩ ∧ e = ⟨20480, 4096, 0, 0⟩
          ∧ c = ⟨6144, 4096, 0, 0⟩ ∧ rest = [] := by
        simpa [spreadCalls, eq_comm] using split
      have beside := overlooks.beside ⟨4096, 4096, 16384, 128⟩ (by
        rw [show [(⟨4096, 4096, 16384, 128⟩ : AttachCall), ⟨20480, 4096, 0, 0⟩]
          = spreadCalls.take 2 from rfl, two]
        exact List.mem_cons_self)
      exact beside.region 6144 ⟨by decide, by decide⟩ ⟨by decide, by decide⟩
    · simp [spreadCalls] at split
  have apart := (attachAll_disjoint words).mpr seen
  exact ⟨by decide +kernel, apart.1 spreadCalls [] (by simp)⟩

/-- The region of the second call contains the tag array of the first one. -/
theorem attachAll_disjoint_overlooked
    : ¬∀ (C : Config) (m : Memory) (calls : List AttachCall), (∀ c ∈ calls, c.Words C) →
        ∀ done rest, calls = done ++ rest →
          AttachCall.AllApart ((HeapState.zero C m).attachAll done).1.attached := by
  intro claim
  have apart := claim bareBuild (fun _ => ⟨0, 0⟩) overlaidCalls overlaidCalls_words overlaidCalls
    [] (List.append_nil _).symm
  rw [overlaidCalls_accepted.2] at apart
  change [⟨4096, 4096⟩, ⟨16384, 128⟩, ⟨12288, 8192⟩, ⟨0, 0⟩].Pairwise Range.Apart at apart
  rw [List.pairwise_cons, List.pairwise_cons] at apart
  exact apart.2.1 ⟨12288, 8192⟩ List.mem_cons_self 16384 ⟨by decide, by decide⟩
    ⟨by decide, by decide⟩

end Attaching

-----------------------------------------------------------------------------------------
-- The first request
-----------------------------------------------------------------------------------------

section FirstRequest

variable {C : Config} {ok : Op → Prop} {w : World C} {n : Nat}

/-- On a heap that was never used, a request returns the same block and leaves the same heap
as `init` followed by the request, if and only if `init` makes no difference to it: it is
small or over-aligned or too large for the region of the pool, or there is neither a pool nor
growth that makes a region.
-/
theorem Reached.lazy_init (reached : Reached ok w) (unused : w.heap.inited = false)
    (supply : w.heap.Supplied) (positive : 1 ≤ n)
    : (SameOutcome (w.heap.alloc n) (w.heap.init.1.alloc n) ↔ w.heap.InitFree n nativeAlignment)
      ∧ ∀ a, isPow2 a = true →
        (SameOutcome (w.heap.allocAligned n a) (w.heap.init.1.allocAligned n a)
          ↔ w.heap.InitFree n a) := by
  obtain ⟨v, rep⟩ := reached.inv.rep
  exact ⟨rep.alloc_init unused reached.fits supply positive le_rfl,
    fun a pow => rep.first_request unused reached.fits supply positive pow⟩

end FirstRequest

/-- A build that does not grow has no grow size to check. -/
theorem no_grow_bytes (n : Nat) (same : (none : Option Nat) = some n)
    : 4 * 1024 ≤ n ∧ n ≤ 8192 := by
  cases same

/-- The small build with a static pool of 4096 bytes and its tags elsewhere. -/
def staticBuild : Config :=
  smallBuild (.static 4096 4096 16384) none (fun _ _ => none)
    (fun _ _ _ same => by cases same; decide) no_grow_bytes

/-- That build at program start, in zeroed memory. -/
def staticStart : World staticBuild :=
  ⟨HeapState.zero staticBuild (fun _ => ⟨0, 0⟩), fun _ => none⟩

theorem staticStart_reached {ok : Op → Prop} : Reached ok staticStart := by
  refine .start ⟨fun _ _ _ same => ?_, fun _ _ same => by cases same⟩ (fun _ _ => rfl)
  cases same
  decide

/-- The request is refused there, and granted after `init`. -/
example : (staticStart.heap.alloc 200).2 = .null
    ∧ (staticStart.heap.init.1.alloc 200).2 = ⟨4096, 256⟩ := by
  decide +kernel

theorem Reached.lazy_init_small
    : SameOutcome (staticStart.heap.alloc 20) (staticStart.heap.init.1.alloc 20)
      ∧ SameOutcome (staticStart.heap.allocAligned 200 64)
        (staticStart.heap.init.1.allocAligned 200 64) := by
  have supplied := supplied_of_pageless (C := staticBuild) (fun _ _ => rfl) staticStart.heap
  have reached : Reached (fun _ => True) staticStart := staticStart_reached
  have small := reached.lazy_init rfl supplied (n := 20) (by decide)
  have aligned := reached.lazy_init rfl supplied (n := 200) (by decide)
  refine ⟨small.1.mpr ?_, (aligned.2 64 (by decide)).mpr ?_⟩
  · unfold HeapState.InitFree
    split
    · exact Or.inl (by decide)
    · rfl
  · unfold HeapState.InitFree
    split
    · exact Or.inr (Or.inl (by decide))
    · rfl

/-- The first request for 200 bytes is refused; after `init` it is granted. -/
theorem Reached.lazy_init_refused
    : ¬∀ (C : Config) (w : World C) (n : Nat), Reached (fun _ => True) w →
        w.heap.inited = false → w.heap.Supplied → 1 ≤ n →
        SameOutcome (w.heap.alloc n) (w.heap.init.1.alloc n) := by
  intro claim
  have supplied := supplied_of_pageless (C := staticBuild) (fun _ _ => rfl) staticStart.heap
  have same := claim staticBuild staticStart 200 staticStart_reached rfl supplied (by decide)
  have chunks := same.1
  revert chunks
  decide +kernel

-----------------------------------------------------------------------------------------
-- Requests that make the heap grow
-----------------------------------------------------------------------------------------

section Growing

variable {C : Config} {ok : Op → Prop} {w : World C} {n growBytes : Nat}

/-- A request that adds a region gets a block, if and only if it is one for a gigabyte or less
and, unless it is small, the heap had a region before. An over-aligned request needs no region
before it, but an alignment within the cap, and pages that hold an aligned block where the
alignment is a gigabyte. In all other cases the new region is added for nothing.
-/
theorem Reached.growth_used (reached : Reached ok w) (supply : w.heap.Supplied)
    (enough : C.PagesSuffice) (growable : C.growBytes = some growBytes) (positive : 1 ≤ n)
    : (w.heap.ensure.1.count < (w.heap.alloc n).1.count →
        ((w.heap.alloc n).2.ptr ≠ 0
          ↔ n ≤ 2 ^ 30 ∧ (n ≤ C.classSmall ∨ 0 < w.heap.ensure.1.count)))
      ∧ ∀ a, isPow2 a = true → nativeAlignment < a →
        w.heap.ensure.1.count < (w.heap.allocAligned n a).1.count →
        ∃ d, w.heap.ensure.1.pagesFor growBytes (HeapState.alignedGrowth C n a) = some d
          ∧ ((w.heap.allocAligned n a).2.ptr ≠ 0
            ↔ n ≤ 2 ^ 30 ∧ a ≤ C.maxAlignment
              ∧ (a < 2 ^ 30 ∨ a = 2 ^ 30 ∧ HoldsAligned C.buddy d.ptr d.len a)) := by
  obtain ⟨v, rep⟩ := reached.inv.rep
  refine ⟨fun more => ?_, fun a pow beyond more => ?_⟩
  · rcases rep.alloc_grew reached.fits supply growable positive more with
      ⟨place, d, grew, used⟩ | ⟨misplaced, null⟩
    · rw [used, grew.grown.order_iff (enough.pagesFor grew.asked) positive]
      exact ⟨fun small => ⟨small, place⟩, And.left⟩
    · exact iff_of_false (fun some => some null) (fun both => misplaced both.2)
  · obtain ⟨d, grew, used⟩ :=
      rep.allocAligned_grew reached.fits supply growable positive pow beyond more
    exact ⟨d, grew.asked,
      used.trans (grew.grown.aligned_iff (enough.pagesFor grew.asked) positive pow)⟩

/-- A request that adds a region gets a block, so that a refused one leaves the number of regions
and the total as they were, if and only if it adds none or the region that it adds can serve it.
-/
theorem Reached.growth_kept (reached : Reached ok w) (supply : w.heap.Supplied)
    (enough : C.PagesSuffice) (growable : C.growBytes = some growBytes) (positive : 1 ≤ n)
    : (w.heap.GrowthKept (w.heap.alloc n)
        ↔ (w.heap.AddsRegion n nativeAlignment →
          w.heap.RegionServes growBytes n nativeAlignment))
      ∧ ∀ a, isPow2 a = true →
        (w.heap.GrowthKept (w.heap.allocAligned n a)
          ↔ (w.heap.AddsRegion n a → w.heap.RegionServes growBytes n a)) := by
  obtain ⟨v, rep⟩ := reached.inv.rep
  have all := fun a (pow : isPow2 a = true) =>
    rep.growthKept_iff reached.fits supply enough growable positive pow
  refine ⟨?_, all⟩
  rw [← w.heap.allocAligned_native positive (by decide) le_rfl]
  exact all nativeAlignment (by decide)

end Growing

/-- A growable build on the same pool: the page source serves one request, at 65536. -/
def growBuild : Config :=
  smallBuild (.static 4096 4096 16384) (some 4096)
    (fun requests n => if requests = [] ∧ n ≤ 8192 then some ⟨65536, n⟩ else none)
    (fun _ _ _ same => by cases same; decide) (fun _ same => by cases same; decide)

/-- That build at program start, in zeroed memory. -/
def growStart : World growBuild :=
  ⟨HeapState.zero growBuild (fun _ => ⟨0, 0⟩), fun _ => none⟩

theorem growStart_reached {ok : Op → Prop} : Reached ok growStart := by
  refine .start ⟨fun _ _ _ same => ?_, fun _ _ same => by cases same⟩ (fun _ _ => rfl)
  cases same
  decide

theorem growBuild_pages {requests : List Nat} {n : Nat} {d : Chunk}
    (answer : growBuild.pageAlloc requests n = some d)
    : d = ⟨65536, n⟩ ∧ n ≤ 8192 := by
  by_cases first : requests = [] ∧ n ≤ 8192
  · have same : some ⟨65536, n⟩ = some d := (if_pos first).symm.trans answer
    exact ⟨(Option.some.inj same).symm, first.2⟩
  · have refused : none = some d := (if_neg first).symm.trans answer
    cases refused

/-- The region of the pool. -/
theorem growStart_init
    : growStart.heap.init.1.count = 1
      ∧ (growStart.heap.init.1.geo 0).base + (growStart.heap.init.1.geo 0).total ≤ 65536
      ∧ (growStart.heap.init.1.geo 0).blockTags + (growStart.heap.init.1.geo 0).tagCount
        ≤ 65536 := by
  decide +kernel

theorem growStart_supplied : growStart.heap.Supplied := by
  have half : ∀ {requests n d}, growBuild.pageAlloc requests n = some d →
      2 * d.len ≤ growBuild.buddy.word := by
    intro requests n d answer
    obtain ⟨rfl, small⟩ := growBuild_pages answer
    have : growBuild.buddy.word = 2 ^ 64 := rfl
    simp only
    omega
  refine ⟨fun n d answer => ⟨half answer, fun i less => absurd less (Nat.not_lt_zero i)⟩,
    fun _ n d answer => ⟨half answer, fun i less a inside => ?_⟩⟩
  obtain ⟨one, below⟩ := growStart_init
  have first : i = 0 := by omega
  subst first
  obtain ⟨rfl, _⟩ := growBuild_pages answer
  rcases inside with ⟨_, before⟩ | ⟨_, before⟩
  · simp only
    omega
  · simp only
    omega

theorem growBuild_enough : growBuild.PagesSuffice := by
  intro requests n d answer
  obtain ⟨rfl, _⟩ := growBuild_pages answer
  exact le_rfl

/-- Two requests that add a region; the alignment of the second one is above the cap. -/
theorem growStart_calls
    : growStart.heap.ensure.1.count = 1 ∧ (growStart.heap.alloc 200).1.count = 2
      ∧ (growStart.heap.allocAligned 200 128).1.count = 2
      ∧ (growStart.heap.allocAligned 200 128).2.ptr = 0 := by
  decide +kernel

/-- A request for 200 bytes uses the region that it adds; at an alignment of 128, above the
cap of the build, the region is added and the request refused.
-/
theorem Reached.growth_used_small
    : (growStart.heap.alloc 200).1.count = 2 ∧ (growStart.heap.alloc 200).2.ptr ≠ 0
      ∧ (growStart.heap.allocAligned 200 128).1.count = 2
      ∧ (growStart.heap.allocAligned 200 128).2.ptr = 0 := by
  obtain ⟨one, large, aligned, _⟩ := growStart_calls
  have reached : Reached (fun _ => True) growStart := growStart_reached
  have growable : growBuild.growBytes = some 4096 := rfl
  obtain ⟨used, alignedUsed⟩ :=
    reached.growth_used growStart_supplied growBuild_enough growable (n := 200) (by decide)
  obtain ⟨d, _, refused⟩ := alignedUsed 128 (by decide) (by decide) (by omega)
  refine ⟨large, (used (by omega)).mpr ⟨by decide, Or.inr (by omega)⟩, aligned, ?_⟩
  by_contra granted
  exact absurd (refused.mp granted).2.1 (by decide)

/-- A request for 200 bytes adds a region, and is granted. -/
theorem Reached.growth_kept_small
    : (growStart.heap.alloc 200).1.count = 2
      ∧ growStart.heap.GrowthKept (growStart.heap.alloc 200)
      ∧ growStart.heap.GrowthKept (growStart.heap.allocAligned 200 64) := by
  have reached : Reached (fun _ => True) growStart := growStart_reached
  have growable : growBuild.growBytes = some 4096 := rfl
  obtain ⟨one, added, _⟩ := growStart_calls
  obtain ⟨native, aligned⟩ :=
    reached.growth_kept growStart_supplied growBuild_enough growable (n := 200) (by decide)
  refine ⟨added, native.mpr (fun _ => ⟨by decide, ?_⟩),
    (aligned 64 (by decide)).mpr (fun _ => ⟨by decide, ?_⟩)⟩
  · rw [if_pos (by decide)]
    exact Or.inr (by omega)
  · rw [if_neg (by decide)]
    exact ⟨by decide, Or.inl (by decide)⟩

/-- At an alignment of 128, above the cap of the build, the region is added for nothing. -/
theorem Reached.growth_kept_wasted
    : ¬∀ (C : Config) (w : World C) (growBytes n a : Nat), Reached (fun _ => True) w →
        w.heap.Supplied → C.PagesSuffice → C.growBytes = some growBytes → 1 ≤ n →
        isPow2 a = true → w.heap.GrowthKept (w.heap.allocAligned n a) := by
  intro claim
  have kept := claim growBuild growStart 4096 200 128 growStart_reached growStart_supplied
    growBuild_enough rfl (by decide) (by decide)
  obtain ⟨one, _, aligned, null⟩ := growStart_calls
  exact kept.used (by omega) null

end World

end Bbmalloc
