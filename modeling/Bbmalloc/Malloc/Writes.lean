import Bbmalloc.Heap.Extension
import Bbmalloc.Heap.Safety
import Bbmalloc.Model.Malloc

/-! What the public calls write themselves: redzones, zeroes, scrubbing and copies, all of it
inside one block. Such writes leave the representation and all other blocks alone.
-/

namespace Bbmalloc

open Bbmalloc.Foundations

/-- Writes into the `len` bytes at `q` and updates of the counters lead from `s` to `t`. -/
structure Written {C : Config} (q len : Nat) (s t : HeapState C) : Prop where
  heap : t.toHeap = s.toHeap
  requests : t.requests = s.requests
  mem : Memory.Within (fun a => q ≤ a ∧ a < q + len) s.mem t.mem

section Writes

variable {C : Config} {s s' t u : HeapState C} {v v' : Nat → RegionView}
  {held kept : Nat → Option Block} {p q n len : Nat} {b : Block} {c : Chunk}

theorem Written.refl (s : HeapState C) : Written q len s s :=
  ⟨rfl, rfl, Memory.Within.refl _ _⟩

theorem Written.trans (first : Written q len s t) (second : Written q len t u)
    : Written q len s u :=
  ⟨second.heap.trans first.heap, second.requests.trans first.requests,
    first.mem.trans second.mem⟩

theorem Written.collect (written : Written q len s t) (k : StatType) (n : Nat)
    : Written q len s (t.collect k n) :=
  ⟨written.heap, written.requests, written.mem⟩

theorem Written.steady (written : Written q len s t) : Steady s t :=
  ⟨congrArg Heap.count written.heap, congrArg Heap.inited written.heap, written.requests⟩

theorem Written.geo (written : Written q len s t) (i : Nat) : t.geo i = s.geo i :=
  congrArg (fun h : Heap => (h.regions i).buddy.toBuddyGeometry) written.heap

/-- A cell outside the block is as before. -/
theorem Written.outside (written : Written q len s t) {a : Nat} (out : a < q ∨ q + len ≤ a)
    : t.mem a = s.mem a :=
  written.mem a (by omega)

theorem HeapState.fill_written (s : HeapState C) (w : UInt8) (lo : q ≤ p) (hi : p + n ≤ q + len)
    : Written q len s (s.fill p n w) := by
  refine ⟨rfl, rfl, fun a out => ?_⟩
  exact Memory.fill_outside _ _ (by omega)

theorem HeapState.writeRedzone_written {m : Nat} (s : HeapState C) (lo : q ≤ p)
    (hi : p + n + C.rz ≤ q + m)
    : Written q m s (s.writeRedzone p n) := by
  rw [writeRedzone]
  split
  · exact s.fill_written _ (by omega) (by omega)
  · exact .refl s

theorem HeapState.zeroOnAlloc_written {m : Nat} (s : HeapState C) (lo : q ≤ p) (hi : p + n ≤ q + m)
    : Written q m s (s.zeroOnAlloc p n) := by
  rw [zeroOnAlloc]
  split
  · exact s.fill_written _ lo hi
  · exact .refl s

theorem HeapState.scrubOnFree_written {m : Nat} (s : HeapState C) (lo : q ≤ p) (hi : p + n ≤ q + m)
    : Written q m s (s.scrubOnFree p n) := by
  rw [scrubOnFree]
  split
  · exact s.fill_written _ lo hi
  · split
    · exact s.fill_written _ lo hi
    · exact .refl s

/-- `__finish` writes into the block and returns it without the redzone. -/
theorem HeapState.finish_written (s : HeapState C) (notNull : c.ptr ≠ 0) (fits : C.rz ≤ c.len)
    (requested : Nat)
    : Written c.ptr c.len s (s.finish c requested).1
      ∧ (s.finish c requested).2 = ⟨c.ptr, c.len - C.rz⟩ := by
  rw [finish, if_neg notNull]
  have redzone := s.writeRedzone_written (q := c.ptr) (p := c.ptr) (n := c.len - C.rz)
    (m := c.len) le_rfl (by omega)
  have zeroed := (s.writeRedzone c.ptr (c.len - C.rz)).zeroOnAlloc_written (q := c.ptr)
    (p := c.ptr) (n := c.len - C.rz) (m := c.len) le_rfl (by omega)
  exact ⟨(((redzone.trans zeroed).collect _ _).collect _ _).collect _ _, rfl⟩

/-- The counters and the past page requests play no role. -/
theorem HeapInv.sameHeap (h : HeapInv s v held) (heap : t.toHeap = s.toHeap)
    (mem : t.mem = s.mem)
    : HeapInv t v held := by
  obtain ⟨known, m, stats, requests⟩ := t
  obtain rfl : known = s.toHeap := heap
  obtain rfl : m = s.mem := mem
  refine ⟨fun i less => ?_, h.laid, fun i le => ?_, h.separate, h.few, h.ready, h.clean, h.blocks⟩
  · have inv := h.regions i less
    exact ⟨⟨inv.live, inv.buddy, inv.tlsf, inv.base, inv.sheets, inv.noRollback⟩,
      inv.spareSheet, inv.onlySpare⟩
  · have idle := h.idle i le
    exact ⟨idle.live, idle.total, idle.maxOrder, idle.count, idle.noRollback⟩

/-- A byte of a block is outside the other blocks. -/
theorem HeapInv.not_covered (h : HeapInv s v held) (known : held q = some b)
    (others : ∀ p d, kept p = some d → held p = some d ∧ p ≠ q) {a : Nat} (lo : q ≤ a)
    (hi : a < q + b.len)
    : ¬Covered kept a := by
  rintro ⟨p, d, other, first, last⟩
  obtain ⟨live, differ⟩ := others p d other
  have apart := h.disjoint known live (Ne.symm differ)
  omega

/-- Writes into a live block keep the representation. -/
theorem HeapInv.written (h : HeapInv s v held) (known : held q = some b)
    (written : Written q b.len s t)
    : HeapInv t v held := by
  obtain ⟨i, less, _⟩ := h.held_inside known
  have ready := h.inited_of_count (show 0 < s.count by omega)
  have kept := h.congr (m := t.mem) (fun a loose => ?_) (fun fresh => by
    rw [ready] at fresh
    cases fresh)
  · exact kept.sameHeap written.heap rfl
  · by_cases inside : q ≤ a ∧ a < q + b.len
    · exact absurd ⟨q, b, known, inside.1, inside.2⟩ loose.2
    · rw [written.mem a inside]

/-- A step that goes on with writes into a block writes nothing into the others. -/
theorem HeapStep.written (step : HeapStep s s' v' kept held) (known : held q = some b)
    (written : Written q b.len s' t)
    (others : ∀ p d, kept p = some d → held p = some d ∧ p ≠ q)
    : HeapStep s t v' kept held := by
  obtain ⟨i, less, inside⟩ := step.inv.held_inside known
  have count : t.count = s'.count := written.steady.count
  refine ⟨step.inv.written known written, by rw [count]; exact step.more,
    fun j below => (written.geo j).trans (step.geo j below),
    fun ready => written.steady.inited.trans (step.inited ready), fun a tight => ?_⟩
  have same : t.mem a = s'.mem a := by
    refine written.mem a (fun here => tight ⟨⟨i, by omega, ?_⟩, ?_⟩)
    · rw [written.geo i]
      exact Or.inr ⟨by omega, by omega⟩
    · exact step.inv.not_covered known others here.1 here.2
  have loose : ¬HeapLoose s' kept a := by
    rintro ⟨⟨j, below, foot⟩, free⟩
    exact tight ⟨⟨j, by omega, by rw [written.geo j]; exact foot⟩, free⟩
  rw [same, step.within a loose]

/-- The blocks but one are blocks, and other ones. -/
theorem of_erased {q : Nat} {d : Block} (known : Function.update held p none q = some d)
    : held q = some d ∧ q ≠ p := by
  have differ : q ≠ p := by
    rintro rfl
    rw [Function.update_self] at known
    cases known
  rw [Function.update_of_ne differ] at known
  exact ⟨known, differ⟩

/-- A cell of a kept block is as before the step. -/
theorem HeapStep.kept_mem (step : HeapStep s s' v' kept held) (known : kept q = some b)
    {a : Nat} (lo : q ≤ a) (hi : a < q + b.len)
    : s'.mem a = s.mem a :=
  step.within a (fun loose => loose.2 ⟨q, b, known, lo, hi⟩)

/-- The frame of a step may name fewer blocks. -/
theorem HeapStep.weaken (step : HeapStep s s' v' kept held) {k : Nat → Option Block}
    (sub : ∀ p d, k p = some d → kept p = some d)
    : HeapStep s s' v' k held :=
  ⟨step.inv, step.more, step.geo, step.inited,
    step.within.mono (fun _ loose => loose.mono le_rfl (fun _ _ => rfl) sub)⟩

end Writes

end Bbmalloc
