import Bbmalloc.Heap.Gauges
import Bbmalloc.Malloc.Writes

/-! The allocation calls of the public interface. Each of them grants a finished block that
no client held, or it fails and the clients keep what they have.
-/

namespace Bbmalloc

open Bbmalloc.Foundations

-----------------------------------------------------------------------------------------
-- Outcomes
-----------------------------------------------------------------------------------------

/-- The order of the buddy block for `want` bytes at alignment `a`. -/
def Config.wantOrder (C : Config) (want a : Nat) : Nat :=
  if a ≤ nativeAlignment then C.buddy.orderForSize want
  else BuddyState.alignedOrder C.buddy want a

/-- The block that a request for `want` bytes at alignment `a` gets. -/
def Fitting (C : Config) (want a : Nat) (b : Block) : Prop :=
  (b.tier = .tlsf ∧ a ≤ nativeAlignment ∧ want ≤ C.classSmall
    ∧ TlsfState.adjusted C.tlsf want ≤ b.len + headerSize
    ∧ b.len ≤ TlsfState.adjusted C.tlsf want)
  ∨ (b.tier = .buddy ∧ b.len = C.buddy.orderSize (C.wantOrder want a))

/-- What a failing call answers. -/
def Config.failure (C : Config) : Exit Chunk :=
  match C.failResult with
  | .null => .returned .null
  | .halt => .halted
  | .throw => .threw

/-- A call for `n` bytes granted a fitting block, finished and at a multiple of `a`, that no
client held; or it failed and the clients keep their blocks.
-/
inductive Served {C : Config} (s : HeapState C) (v : Nat → RegionView)
    (held : Nat → Option Block) (n a : Nat) (c : HeapState C × Exit Chunk)
    : Prop
  | granted {p : Nat} {b : Block} {v' : Nat → RegionView}
      (chunk : c.2 = .returned ⟨p, b.len - C.rz⟩) (notNull : p ≠ 0) (aligned : a ∣ p)
      (unused : held p = none) (positive : 0 < n) (enough : n + C.rz ≤ b.len)
      (fitting : Fitting C (n + C.rz) a b)
      (step : HeapStep s c.1 v' held (Function.update held p (some b)))
  | refused {v' : Nat → RegionView} (result : c.2 = .returned .null ∨ c.2 = C.failure)
      (step : HeapStep s c.1 v' held held)

section Outcomes

variable {C : Config} {s s' : HeapState C} {v v' : Nat → RegionView}
  {held : Nat → Option Block} {n o a want p : Nat} {b : Block} {c : HeapState C × Chunk}

theorem BuddyParams.le_alignedOrder (P : BuddyParams) (n a : Nat)
    : P.orderForSize n ≤ BuddyState.alignedOrder P n a
        ∧ P.orderForSize a ≤ BuddyState.alignedOrder P n a := by
  unfold BuddyState.alignedOrder
  split <;> omega

/-- A fitting block holds the request. -/
theorem Fitting.le (fitting : Fitting C want a b) (positive : 0 < want) : want ≤ b.len := by
  rcases fitting with ⟨_, _, small, least, _⟩ | ⟨_, size⟩
  · have fits := C.small_with_redzone
    have nonzero : TlsfState.adjusted C.tlsf want ≠ 0 := by
      rw [ne_eq, TlsfState.adjusted_eq_zero]
      simp only [Config.classSmall, headerSize] at small fits
      omega
    have := (TlsfState.adjusted_pos nonzero).2.2.2.1
    simp only [headerSize] at least
    omega
  · rw [size]
    refine (C.buddy.le_orderSize positive).trans (C.buddy.orderSize_mono ?_)
    rw [Config.wantOrder]
    split
    · exact le_rfl
    · exact (C.buddy.le_alignedOrder want a).1

theorem HeapState.fail_failure (s : HeapState C) (n : Nat)
    : s.fail n = (s.collect .failure n, C.failure) := by
  rw [fail, Config.failure]
  cases C.failResult <;> rfl

theorem Config.failure_cases (C : Config)
    : C.failure = .returned .null ∨ C.failure = .halted ∨ C.failure = .threw := by
  rw [failure]
  cases C.failResult <;> simp

/-- A refused call returns no block. -/
theorem Config.refused_null (C : Config) {q len : Nat}
    (refused : (.returned ⟨q, len⟩ : Exit Chunk) = .returned .null
      ∨ (.returned ⟨q, len⟩ : Exit Chunk) = C.failure)
    : q = 0 := by
  have null : (.returned ⟨q, len⟩ : Exit Chunk) = .returned .null := by
    rcases refused with null | failure
    · exact null
    · rcases C.failure_cases with null | halted | threw
      · exact failure.trans null
      · cases failure.trans halted
      · cases failure.trans threw
  cases null
  rfl

/-- A failing call keeps the blocks. -/
theorem Served.failed (step : HeapStep s s' v' held held) (size : Nat)
    : Served s v held n a (s'.fail size) := by
  rw [HeapState.fail_failure]
  exact .refused (Or.inr rfl) (step.collect .failure size)

/-- A block granted by the heap is finished before the client gets it. -/
theorem HeapGranted.served (granted : HeapGranted s v held want o a c)
    (positive : 0 < n) {a' : Nat} (align : a' ∣ a)
    (fitting : ∀ b, Suits C want o b → Fitting C (n + C.rz) a' b)
    : Served s v held n a' (HeapState.conclude c n) := by
  rcases granted with @⟨p, b, v', chunk, notNull, aligned, unused, suits, _, _, step⟩
  have fits := fitting b suits
  have enough := fits.le (by omega)
  have live : c.2.ptr ≠ 0 := by
    rw [chunk]
    exact notNull
  obtain ⟨written, result⟩ := c.1.finish_written live (by rw [chunk]; simp only; omega) n
  have call : HeapState.conclude c n
      = ((c.1.finish c.2 n).1, .returned (c.1.finish c.2 n).2) := by
    simp only [HeapState.conclude, if_neg live]
  rw [call]
  rw [chunk] at written result
  refine .granted (p := p) (b := b) ?_ notNull (align.trans aligned) unused positive enough fits
    (step.written (q := p) (b := b) (by simp) ?_ ?_)
  · rw [chunk]
    exact congrArg Exit.returned result
  · rw [chunk]
    exact written
  · intro q d known
    have differ : q ≠ p := by
      rintro rfl
      rw [unused] at known
      cases known
    exact ⟨by rw [Function.update_of_ne differ]; exact known, differ⟩

/-- A null of the heap makes the call fail. -/
theorem Served.of_null (null : c.2 = .null) (step : HeapStep s c.1 v' held held) (size : Nat)
    : Served s v held n a (HeapState.conclude c size) := by
  have call : HeapState.conclude c size = c.1.fail size := by
    simp [HeapState.conclude, null, Chunk.null]
  rw [call]
  exact .failed step size

/-- A request of the native alignment asks for the order of its size. -/
theorem Suits.native (suits : Suits C want (C.buddy.orderForSize want) b) {a : Nat}
    (le : a ≤ nativeAlignment)
    : Fitting C want a b := by
  have order : C.wantOrder want a = C.buddy.orderForSize want := if_pos le
  rcases suits with ⟨tier, small, least, most⟩ | ⟨tier, size⟩
  · exact Or.inl ⟨tier, le, small, least, most⟩
  · exact Or.inr ⟨tier, by rw [order]; exact size⟩

/-- A request of a larger alignment is served by the buddy list. -/
theorem Suits.beyond (suits : Suits C (C.classSmall + 1) (BuddyState.alignedOrder C.buddy want a) b)
    (beyond : nativeAlignment < a)
    : Fitting C want a b := by
  have order : C.wantOrder want a = BuddyState.alignedOrder C.buddy want a := if_neg (by omega)
  rcases suits with ⟨_, small, _⟩ | ⟨tier, size⟩
  · omega
  · exact Or.inr ⟨tier, by rw [order]; exact size⟩

end Outcomes

-----------------------------------------------------------------------------------------
-- The calls
-----------------------------------------------------------------------------------------

section Calls

variable {C : Config} {s : HeapState C} {v : Nat → RegionView} {held : Nat → Option Block}
  {n a : Nat}

theorem HeapInv.balloc (h : HeapInv s v held) (fits : C.PoolFits) (supply : s.Supplied) (n : Nat)
    : Served s v held n nativeAlignment (s.balloc n) := by
  rw [HeapState.balloc]
  by_cases zero : n = 0
  · rw [if_pos zero]
    exact .refused (Or.inl rfl) (h.refl held)
  rw [if_neg zero]
  by_cases sane : n + C.rz < C.buddy.word
  · simp only [HeapState.checkAddOverflow, if_pos sane]
    rcases h.alloc fits supply (n := n + C.rz) (by omega) with granted | ⟨v', null, step⟩
    · exact granted.served (by omega) dvd_rfl (fun b suits => suits.native le_rfl)
    · exact .of_null null step n
  · simp only [HeapState.checkAddOverflow, if_neg sane]
    exact .failed (h.refl held) n

theorem HeapInv.alignedBalloc (h : HeapInv s v held) (fits : C.PoolFits) (supply : s.Supplied)
    (n a : Nat)
    : Served s v held n (max nativeAlignment a) (s.alignedBalloc a n) := by
  rw [HeapState.alignedBalloc]
  by_cases unfit : (n = 0 || !isPow2 a) = true
  · rw [if_pos (by simpa using unfit)]
    exact .refused (Or.inl rfl) (h.refl held)
  rw [if_neg (by simpa using unfit)]
  obtain ⟨nonzero, pow⟩ : n ≠ 0 ∧ isPow2 a = true := by simpa using unfit
  by_cases native : a ≤ nativeAlignment
  · rw [if_pos native, max_eq_left native]
    exact h.balloc fits supply n
  rw [if_neg native, max_eq_right (by omega)]
  by_cases sane : n + C.rz < C.buddy.word
  · simp only [HeapState.checkAddOverflow, if_pos sane]
    rcases h.allocAligned fits supply (n := n + C.rz) (by omega) pow (by omega) with
        granted | ⟨v', null, step⟩
    · exact granted.served (by omega) dvd_rfl (fun b suits => suits.beyond (by omega))
    · exact .of_null null step n
  · simp only [HeapState.checkAddOverflow, if_neg sane]
    exact .failed (h.refl held) n

/-- The allocation inside `resize` and the container adapter. -/
theorem HeapInv.allocFor (h : HeapInv s v held) (fits : C.PoolFits) (supply : s.Supplied)
    (n a : Nat)
    : Served s v held n (max nativeAlignment a) (s.allocFor n a) := by
  rw [HeapState.allocFor]
  by_cases native : a ≤ nativeAlignment
  · rw [if_pos native, max_eq_left native]
    exact h.balloc fits supply n
  · rw [if_neg native]
    exact h.alignedBalloc fits supply n a

theorem HeapInv.zalloc (h : HeapInv s v held) (fits : C.PoolFits) (supply : s.Supplied) (n : Nat)
    : Served s v held n nativeAlignment (s.zalloc n) := by
  rw [HeapState.zalloc]
  cases h.balloc fits supply n with
  | @granted p b v' chunk notNull aligned unused positive enough fitting step =>
      simp only [HeapState.andThen, chunk, notNull, ne_eq, not_false_eq_true, if_true]
      refine .granted rfl notNull aligned unused positive enough fitting
        (step.written (q := p) (b := b) (by simp)
          ((s.balloc n).1.fill_written 0 le_rfl (by omega)) ?_)
      intro q d known
      have differ : q ≠ p := by
        rintro rfl
        rw [unused] at known
        cases known
      exact ⟨by rw [Function.update_of_ne differ]; exact known, differ⟩
  | @refused v' result step =>
      have failed : (s.balloc n).2 = .returned .null ∨ (s.balloc n).2 = .halted
          ∨ (s.balloc n).2 = .threw := by
        rcases result with null | failure
        · exact Or.inl null
        · rw [failure]
          exact C.failure_cases
      rcases failed with null | halted | threw
      · simp only [HeapState.andThen, null, Chunk.null, ne_eq, not_true_eq_false, if_false]
        exact .refused (Or.inl rfl) step
      · simp only [HeapState.andThen, halted]
        exact .refused (by rw [halted] at result; exact result.imp_left (by simp)) step
      · simp only [HeapState.andThen, threw]
        exact .refused (by rw [threw] at result; exact result.imp_left (by simp)) step

end Calls

-----------------------------------------------------------------------------------------
-- Without growth
-----------------------------------------------------------------------------------------

section Fixed

variable {C : Config} {s : HeapState C} {v : Nat → RegionView} {held : Nat → Option Block}
  {n a want : Nat}

/-- Without growth the calls of an initialised heap attach no region. -/
theorem HeapState.alloc_count (ready : s.inited = true) (fixed : C.growBytes = none)
    (positive : 0 < n)
    : (s.alloc n).1.count = s.count := by
  have slow : ∀ t : HeapState C, t.inited = true → (t.allocSlow n).1.count = t.count := by
    intro t inited
    rw [t.allocSlow_eq positive, slowWith_fixed inited fixed]
    exact t.allocScan_count n
  rw [alloc]
  split
  · exact slow s ready
  · split
    · simp only
      split
      · rfl
      · exact slow _ ready
    · simp only
      split
      · rfl
      · exact slow _ ready

theorem HeapState.allocAligned_count (ready : s.inited = true) (fixed : C.growBytes = none)
    (n a : Nat)
    : (s.allocAligned n a).1.count = s.count := by
  have slow : ∀ t : HeapState C, t.inited = true → (t.allocAlignedSlow n a).1.count = t.count := by
    intro t inited
    rw [t.allocAlignedSlow_eq, slowWith_fixed inited fixed]
    exact tryFrom_count _ _ _ _
  rw [allocAligned]
  split
  · rfl
  · next unfit =>
      have nonzero : n ≠ 0 := by
        rintro rfl
        simp at unfit
      split
      · exact alloc_count ready fixed (by omega)
      · split
        · exact slow s ready
        · simp only
          split
          · rfl
          · exact slow _ ready

/-- A region serves no request that is as large as the address space. -/
theorem RegionInv.serves_lt {r : RegionState C} {w : RegionView} (h : RegionInv r w)
    (positive : 0 < n) (serves : w.Serves C r.buddy.total n)
    : n < C.buddy.word := by
  have geometry := h.buddy.rep.geometry
  have inside : r.buddy.base + r.buddy.total < C.buddy.word := geometry.end_lt
  rcases serves with ⟨x, room⟩ | ⟨small, _⟩
  · have fits := room.2.1
    have := C.buddy.le_orderSize positive
    omega
  · have fits := C.small_in_sheet
    have bytes := C.sheet_le
    have word := C.buddy.word_large
    rw [Config.classSmall] at small
    omega

/-- `balloc` without growth: a block if a region serves the request, else a failure that
nothing shows of.
-/
theorem HeapInv.balloc_fixed (h : HeapInv s v held) (ready : s.inited = true)
    (fixed : C.growBytes = none) (positive : 0 < n)
    : ((∃ c, (s.balloc n).2 = .returned c ∧ c.ptr ≠ 0)
        ∧ ∃ i < s.count, (v i).Serves C (s.geo i).total (n + C.rz))
      ∨ ∃ v', (s.balloc n).2 = C.failure ∧ Quiet s v held (s.balloc n).1 v'
        ∧ ∀ i < s.count, ¬(v i).Serves C (s.geo i).total (n + C.rz) := by
  rw [HeapState.balloc, if_neg (by omega)]
  by_cases sane : n + C.rz < C.buddy.word
  · simp only [HeapState.checkAddOverflow, if_pos sane]
    rcases h.alloc_fixed ready fixed (n := n + C.rz) (by omega) with
        granted | ⟨v', null, quiet, none⟩
    · left
      have count := HeapState.alloc_count ready fixed (n := n + C.rz) (by omega)
      have live := granted.notNull
      rcases granted with @⟨p, b, v', chunk, notNull, aligned, unused, suits, _, source, step⟩
      refine ⟨?_, ?_⟩
      · simp only [HeapState.conclude, if_neg live]
        refine ⟨_, rfl, ?_⟩
        simpa only [HeapState.finish, if_neg live] using live
      · obtain ⟨i, less, source⟩ := source.resolve_left (by omega)
        refine ⟨i, less, ?_⟩
        rcases source with ⟨_, x, room⟩ | ⟨_, _, serves⟩
        · exact Or.inl ⟨x, room⟩
        · exact serves
    · right
      refine ⟨v', ?_, ?_, none⟩
      · simp [HeapState.conclude, null, Chunk.null, HeapState.fail_failure]
      · simpa [HeapState.conclude, null, Chunk.null, HeapState.fail_failure] using
          quiet.collect .failure n
  · simp only [HeapState.checkAddOverflow, if_neg sane]
    right
    rw [HeapState.fail_failure]
    refine ⟨v, rfl, (Quiet.refl h).collect .failure n, fun i less serves => ?_⟩
    exact sane ((h.regions i less).serves_lt (by omega) serves)

/-- A request fits into what `largest_free` reports if and only if a region serves it. -/
theorem HeapInv.le_bbLargestFree (h : HeapInv s v held) (ready : s.inited = true)
    (positive : 0 < n)
    : n ≤ s.bbLargestFree.2 ↔ ∃ i < s.count, (v i).Serves C (s.geo i).total (n + C.rz) := by
  obtain ⟨_, _, _, largest⟩ := h.largestFree ready
  rw [← largest (n + C.rz) (by omega), HeapState.bbLargestFree]
  simp only
  split <;> omega

/-- `balloc` without growth succeeds if and only if `largest_free` reports enough. -/
theorem HeapInv.balloc_iff (h : HeapInv s v held) (ready : s.inited = true)
    (fixed : C.growBytes = none) (positive : 0 < n)
    : (∃ c, (s.balloc n).2 = .returned c ∧ c.ptr ≠ 0) ↔ n ≤ s.bbLargestFree.2 := by
  rw [h.le_bbLargestFree ready positive]
  rcases h.balloc_fixed ready fixed positive with ⟨granted, serves⟩ | ⟨_, failed, _, none⟩
  · exact ⟨fun _ => serves, fun _ => granted⟩
  · constructor
    · rintro ⟨c, returned, live⟩
      rw [failed] at returned
      rcases C.failure_cases with null | halted | threw
      · rw [null] at returned
        cases returned
        exact absurd rfl live
      · rw [halted] at returned
        cases returned
      · rw [threw] at returned
        cases returned
    · rintro ⟨i, less, serves⟩
      exact absurd serves (none i less)

/-- `aligned_balloc` without growth: a block, or a failure that nothing shows of. -/
theorem HeapInv.alignedBalloc_fixed (h : HeapInv s v held) (ready : s.inited = true)
    (fixed : C.growBytes = none) (n a : Nat)
    : (∃ c, (s.alignedBalloc a n).2 = .returned c ∧ c.ptr ≠ 0)
      ∨ ∃ v', Quiet s v held (s.alignedBalloc a n).1 v' := by
  rw [HeapState.alignedBalloc]
  by_cases unfit : (n = 0 || !isPow2 a) = true
  · rw [if_pos (by simpa using unfit)]
    exact Or.inr ⟨v, .refl h⟩
  rw [if_neg (by simpa using unfit)]
  obtain ⟨nonzero, pow⟩ : n ≠ 0 ∧ isPow2 a = true := by simpa using unfit
  by_cases native : a ≤ nativeAlignment
  · rw [if_pos native]
    rcases h.balloc_fixed ready fixed (n := n) (by omega) with granted | ⟨v', _, quiet, _⟩
    · exact Or.inl granted.1
    · exact Or.inr ⟨v', quiet⟩
  rw [if_neg native]
  by_cases sane : n + C.rz < C.buddy.word
  · simp only [HeapState.checkAddOverflow, if_pos sane]
    rcases h.allocAligned_fixed ready fixed (n := n + C.rz) (by omega) pow (by omega) with
        granted | ⟨v', null, quiet, _⟩
    · left
      have live := granted.notNull
      simp only [HeapState.conclude, if_neg live]
      refine ⟨_, rfl, ?_⟩
      simpa only [HeapState.finish, if_neg live] using live
    · right
      refine ⟨v', ?_⟩
      simpa [HeapState.conclude, null, Chunk.null, HeapState.fail_failure] using
        quiet.collect .failure n
  · simp only [HeapState.checkAddOverflow, if_neg sane]
    right
    rw [HeapState.fail_failure]
    exact ⟨v, (Quiet.refl h).collect .failure n⟩

end Fixed

end Bbmalloc
