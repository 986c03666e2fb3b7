import Bbmalloc.Heap.Statistics
import Bbmalloc.Malloc.Resizing

/-! The statistics of the public interface agree with the blocks that clients hold: every call
counts the blocks and the bytes that it hands out or takes back, and the lengths it counts are
those of the blocks, not those of the requests.
-/

namespace Bbmalloc

open Bbmalloc.Foundations

-----------------------------------------------------------------------------------------
-- Counted blocks
-----------------------------------------------------------------------------------------

/-- The number of blocks that clients hold. -/
def blockCount (C : Config) (held : Nat → Option Block) : Nat :=
  blockSum (fun _ => 1) C.buddy.word held

/-- The bytes that clients hold, redzones included. -/
def blockBytes (C : Config) (held : Nat → Option Block) : Nat :=
  blockSum Block.len C.buddy.word held

/-- The counters agree with the blocks `held` and with the sheets of the regions. The counters
have 64 bits; the usage was never clamped.
-/
structure Balanced {C : Config} (s : HeapState C) (held : Nat → Option Block) : Prop where
  requests : s.stats.allocRequests % 2 ^ 64
    = (s.stats.deallocRequests + blockCount C held) % 2 ^ 64
  bytes : s.stats.bytesGranted % 2 ^ 64 = (s.stats.bytesFreed + blockBytes C held) % 2 ^ 64
  usage : s.stats.currentUsage = blockBytes C held
  clamps : s.stats.clamps = 0
  sheets : s.stats.sheetsAcquired % 2 ^ 64 = (s.stats.sheetsReleased + s.sheetCount) % 2 ^ 64

/-- The counters agree with the heap, whatever its blocks are. -/
def Accounted {C : Config} (s : HeapState C) : Prop :=
  ∀ v held, HeapInv s v held → Balanced s held

section Blocks

variable {C : Config} {s t : HeapState C} {v v' : Nat → RegionView}
  {held held' : Nat → Option Block} {p n k : Nat} {b : Block}

/-- A heap represents one set of blocks only, the one that `locate` finds. -/
theorem HeapInv.held_unique (h : HeapInv s v held) (h' : HeapInv s v' held') : held = held' := by
  funext p
  cases ready : s.inited with
  | true =>
      have found := (h.locate ready p).2
      have found' := (h'.locate ready p).2
      exact Option.ext (fun b => (found.held_iff h).trans (found'.held_iff h').symm)
  | false =>
      have none : ∀ {v held}, HeapInv s v held → held p = Option.none := by
        intro v held h
        rw [Option.eq_none_iff_forall_ne_some]
        intro b known
        obtain ⟨i, less, _⟩ := h.held_inside known
        have := h.ready ready
        omega
      rw [none h, none h']

theorem Accounted.of (h : HeapInv s v held) (balanced : Balanced s held) : Accounted s := by
  intro w other inv
  rw [← h.held_unique inv]
  exact balanced

/-- The tiers of a region never disagree about a sheet. -/
theorem HeapInv.rollbackCount_zero (h : HeapInv s v held) : s.rollbackCount = 0 :=
  Finset.sum_eq_zero (fun i inside => (h.regions i (Finset.mem_range.mp inside)).noRollback)

/-- The blocks have fewer bytes than the address space, hence no counter of theirs wraps. -/
theorem HeapInv.blockBytes_lt (h : HeapInv s v held) : blockBytes C held < 2 ^ 64 := by
  have word : C.buddy.word ≤ 2 ^ 64 := by
    rw [BuddyParams.word]
    rcases C.buddy.wordBits_ok with bits | bits
    · rw [bits]
      decide
    · rw [bits]
  have positive : 0 < C.buddy.word := Nat.two_pow_pos _
  have room := blockSum_le_card (w := Block.len) (n := C.buddy.word) (t := held)
    (Finset.Ico 1 C.buddy.word)
    (fun p b q d first second before => by
      have apart := h.disjoint first second (by omega)
      have := (h.held_lt second).1
      obtain ⟨i, less, lo, hi, length⟩ := h.held_inside second
      omega)
    (fun p b x known lo hi => by
      have inside := h.held_lt known
      exact Finset.mem_Ico.mpr ⟨by omega, by omega⟩)
  rw [Nat.card_Ico] at room
  change blockBytes C held ≤ _ at room
  omega

end Blocks

-----------------------------------------------------------------------------------------
-- Counters
-----------------------------------------------------------------------------------------

section Counters

variable {C : Config} {s t : HeapState C} {v v' : Nat → RegionView}
  {held held' : Nat → Option Block} {p n k : Nat} {b d : Block}

/-- One block more, or one less. -/
theorem blockCount_update (held : Nat → Option Block) (less : p < C.buddy.word)
    (c : Option Block)
    : blockCount C (Function.update held p c) + (held p).elim 0 (fun _ => 1)
      = blockCount C held + c.elim 0 (fun _ => 1) :=
  blockSum_update (fun _ => 1) held c less

theorem blockBytes_update (held : Nat → Option Block) (less : p < C.buddy.word)
    (c : Option Block)
    : blockBytes C (Function.update held p c) + (held p).elim 0 Block.len
      = blockBytes C held + c.elim 0 Block.len :=
  blockSum_update Block.len held c less

/-- The balance is about the counters and the regions. -/
theorem Balanced.congr (balanced : Balanced s held) (heap : t.toHeap = s.toHeap)
    (stats : t.stats = s.stats)
    : Balanced t held := by
  have sheets : t.sheetCount = s.sheetCount := by
    rw [HeapState.sheetCount, HeapState.sheetCount, heap]
  exact ⟨by rw [stats]; exact balanced.requests, by rw [stats]; exact balanced.bytes,
    by rw [stats]; exact balanced.usage, by rw [stats]; exact balanced.clamps,
    by rw [stats, sheets]; exact balanced.sheets⟩

/-- A part of a call that is not about blocks keeps the balance. -/
theorem Balanced.audited (balanced : Balanced s held) (audited : s.Audited t)
    (clean : t.rollbackCount = 0)
    : Balanced t held := by
  obtain ⟨tally, rollbacks, sheets⟩ := audited
  have follow := sheets (by omega)
  refine ⟨?_, ?_, ?_, ?_, ?_⟩
  · rw [tally.allocs, tally.deallocs]
    exact balanced.requests
  · rw [tally.granted, tally.freed]
    exact balanced.bytes
  · rw [tally.usage]
    exact balanced.usage
  · rw [tally.clamps]
    exact balanced.clamps
  · have before := balanced.sheets
    unfold Stats.SheetsFollow at follow
    omega

/-- Bytes that a block gains are counted as granted. -/
theorem Balanced.more (balanced : Balanced s held) (on : C.collectStats = true)
    (count : blockCount C held' = blockCount C held)
    (bytes : blockBytes C held' = blockBytes C held + k) (fits : blockBytes C held' < 2 ^ 64)
    : Balanced (s.collect .granted k) held' := by
  obtain ⟨requests, before, usage, clamps, sheets⟩ := balanced
  refine ⟨?_, ?_, ?_, ?_, ?_⟩ <;>
    simp only [HeapState.collect, Stats.collect, on, if_true, bump]
  · rw [count]
    exact requests
  · omega
  · omega
  · exact clamps
  · exact sheets

/-- Bytes that a block loses are counted as freed, and there is usage to take them from. -/
theorem Balanced.less (balanced : Balanced s held) (on : C.collectStats = true)
    (count : blockCount C held' = blockCount C held)
    (bytes : blockBytes C held' + k = blockBytes C held)
    : Balanced (s.collect .freed k) held' := by
  obtain ⟨requests, before, usage, clamps, sheets⟩ := balanced
  have enough : ¬k > s.stats.currentUsage := by omega
  refine ⟨?_, ?_, ?_, ?_, ?_⟩ <;>
    simp only [HeapState.collect, Stats.collect, on, if_true, bump, if_neg enough]
  · rw [count]
    exact requests
  · omega
  · omega
  · exact clamps
  · exact sheets

/-- A block that is handed out is counted with all its bytes. -/
theorem Balanced.grant (balanced : Balanced s held) (on : C.collectStats = true)
    (unused : held p = none) (less : p < C.buddy.word)
    (fits : blockBytes C (Function.update held p (some b)) < 2 ^ 64) (size : Nat)
    : Balanced (((s.collect .alloc 0).collect .requested size).collect .granted b.len)
        (Function.update held p (some b)) := by
  have count := blockCount_update (C := C) held less (some b)
  have bytes := blockBytes_update (C := C) held less (some b)
  simp only [unused, Option.elim_none, Option.elim_some, Nat.add_zero] at count bytes
  obtain ⟨requests, before, usage, clamps, sheets⟩ := balanced
  refine ⟨?_, ?_, ?_, ?_, ?_⟩ <;>
    simp only [HeapState.collect, Stats.collect, on, if_true, bump]
  · omega
  · omega
  · omega
  · exact clamps
  · exact sheets

/-- A block that is taken back is counted with all its bytes. -/
theorem Balanced.release (balanced : Balanced s held) (on : C.collectStats = true)
    (known : held p = some b) (less : p < C.buddy.word)
    : Balanced ((s.collect .dealloc 0).collect .freed b.len) (Function.update held p none) := by
  have count := blockCount_update (C := C) held less none
  have bytes := blockBytes_update (C := C) held less none
  simp only [known, Option.elim_none, Option.elim_some, Nat.add_zero] at count bytes
  obtain ⟨requests, before, usage, clamps, sheets⟩ := balanced
  have enough : ¬b.len > s.stats.currentUsage := by omega
  refine ⟨?_, ?_, ?_, ?_, ?_⟩ <;>
    simp only [HeapState.collect, Stats.collect, on, if_true, bump, if_neg enough]
  · omega
  · omega
  · omega
  · exact clamps
  · exact sheets

/-- A call that is not about blocks keeps the accounts. -/
theorem Accounted.audited (accounted : Accounted s) (h : HeapInv s v held)
    (step : HeapStep s t v' held held) (audited : s.Audited t)
    : Accounted t :=
  .of step.inv ((accounted v held h).audited audited step.inv.rollbackCount_zero)

end Counters

-----------------------------------------------------------------------------------------
-- Allocation
-----------------------------------------------------------------------------------------

section Allocation

variable {C : Config} {s t : HeapState C} {v v' : Nat → RegionView}
  {held : Nat → Option Block} {want o a p n : Nat} {b : Block} {c : HeapState C × Chunk}

/-- `__fail` counts a failure and nothing else. -/
theorem Accounted.fail (accounted : Accounted s) (h : HeapInv s v held) (n : Nat)
    : Accounted (s.fail n).1 := by
  rw [s.fail_failure]
  exact accounted.audited h ((h.refl held).collect .failure n)
    (.collect s n (Or.inr (Or.inr rfl)))

/-- `__finish` counts the block it hands out with the length that the heap granted. -/
theorem HeapState.finish_counts (s : HeapState C) {c : Chunk} (notNull : c.ptr ≠ 0)
    (requested : Nat)
    : (s.finish c requested).1.toHeap = s.toHeap
      ∧ (s.finish c requested).1.stats
        = (((s.collect .alloc 0).collect .requested requested).collect .granted c.len).stats := by
  simp only [finish, if_neg notNull, zeroOnAlloc, writeRedzone]
  constructor
  · split <;> split <;> rfl
  · split <;> split <;> rfl

/-- The end of an allocation keeps the accounts. -/
theorem HeapInv.conclude_accounted (h : HeapInv s v held) (accounted : Accounted s)
    (on : C.collectStats = true)
    (outcome : HeapGranted s v held want o a c
      ∨ ∃ v', c.2 = .null ∧ HeapStep s c.1 v' held held)
    (audited : s.Audited c.1) (enough : ∀ b, Suits C want o b → C.rz ≤ b.len) (size : Nat)
    : Accounted (HeapState.conclude c size).1 := by
  rcases outcome with @⟨p, b, v', chunk, notNull, aligned, unused, suits, _, _, step⟩
      | ⟨v', null, step⟩
  · have live : c.2.ptr ≠ 0 := by
      rw [chunk]
      exact notNull
    have balanced := (accounted v held h).audited audited step.inv.rollbackCount_zero
    obtain ⟨written, _⟩ := c.1.finish_written live (by rw [chunk]; exact enough b suits) size
    obtain ⟨heap, stats⟩ := c.1.finish_counts live size
    rw [HeapState.conclude, if_neg live]
    rw [chunk] at written heap stats ⊢
    have inv := step.inv.written (q := p) (b := b) (by simp) written
    have less := (step.inv.held_lt (p := p) (b := b) (by simp)).2
    exact .of inv ((balanced.grant on unused (by omega) inv.blockBytes_lt size).congr heap stats)
  · have call : HeapState.conclude c size = c.1.fail size := by
      simp [HeapState.conclude, null, Chunk.null]
    rw [call]
    exact (accounted.audited h step audited).fail step.inv size

end Allocation

section Calls

variable {C : Config} {s : HeapState C} {v : Nat → RegionView} {held : Nat → Option Block}
  {p n a size preserve : Nat} {l : Located} {old : Chunk}

theorem HeapInv.balloc_accounted (h : HeapInv s v held) (fits : C.PoolFits)
    (supply : s.Supplied) (accounted : Accounted s) (on : C.collectStats = true) (n : Nat)
    : Accounted (s.balloc n).1 := by
  rw [HeapState.balloc]
  split
  · exact accounted
  · next nonzero =>
      by_cases sane : n + C.rz < C.buddy.word
      · simp only [HeapState.checkAddOverflow, if_pos sane]
        refine h.conclude_accounted accounted on (h.alloc fits supply (by omega))
          (HeapState.alloc_audited h on _) (fun b suits => ?_) n
        exact le_trans (Nat.le_add_left C.rz n)
          ((suits.native (le_refl nativeAlignment)).le (by omega))
      · simp only [HeapState.checkAddOverflow, if_neg sane]
        exact accounted.fail h n

theorem HeapInv.alignedBalloc_accounted (h : HeapInv s v held) (fits : C.PoolFits)
    (supply : s.Supplied) (accounted : Accounted s) (on : C.collectStats = true) (a n : Nat)
    : Accounted (s.alignedBalloc a n).1 := by
  rw [HeapState.alignedBalloc]
  split
  · exact accounted
  · next unfit =>
      obtain ⟨nonzero, pow⟩ : n ≠ 0 ∧ isPow2 a = true := by simpa using unfit
      split
      · exact h.balloc_accounted fits supply accounted on n
      · next beyond =>
          by_cases sane : n + C.rz < C.buddy.word
          · simp only [HeapState.checkAddOverflow, if_pos sane]
            refine h.conclude_accounted accounted on
              (h.allocAligned fits supply (by omega) pow (by omega))
              (HeapState.allocAligned_audited h on _ a) (fun b suits => ?_) n
            exact le_trans (Nat.le_add_left C.rz n)
              ((suits.beyond (by omega)).le (by omega))
          · simp only [HeapState.checkAddOverflow, if_neg sane]
            exact accounted.fail h n

theorem HeapInv.allocFor_accounted (h : HeapInv s v held) (fits : C.PoolFits)
    (supply : s.Supplied) (accounted : Accounted s) (on : C.collectStats = true) (n a : Nat)
    : Accounted (s.allocFor n a).1 := by
  rw [HeapState.allocFor]
  split
  · exact h.balloc_accounted fits supply accounted on n
  · exact h.alignedBalloc_accounted fits supply accounted on a n

/-- `zalloc` clears the block after it is counted. -/
theorem HeapInv.zalloc_accounted (h : HeapInv s v held) (fits : C.PoolFits)
    (supply : s.Supplied) (accounted : Accounted s) (on : C.collectStats = true) (n : Nat)
    : Accounted (s.zalloc n).1 := by
  have counted := h.balloc_accounted fits supply accounted on n
  rw [HeapState.zalloc]
  cases h.balloc fits supply n with
  | @granted p b v' chunk notNull _ _ _ _ _ step =>
      simp only [HeapState.andThen, chunk, notNull, ne_eq, not_false_eq_true, if_true]
      have filled := step.inv.written (q := p) (b := b) (by simp)
        ((s.balloc n).1.fill_written 0 (p := p) (n := b.len - C.rz) le_rfl (by omega))
      exact .of filled ((counted _ _ step.inv).congr rfl rfl)
  | refused result _ =>
      have failed : (s.balloc n).2 = .returned .null ∨ (s.balloc n).2 = .halted
          ∨ (s.balloc n).2 = .threw := by
        rcases result with null | failure
        · exact Or.inl null
        · rw [failure]
          exact C.failure_cases
      rcases failed with null | halted | threw
      · simp only [HeapState.andThen, null, Chunk.null, ne_eq, not_true_eq_false, if_false]
        exact counted
      · simp only [HeapState.andThen, halted]
        exact counted
      · simp only [HeapState.andThen, threw]
        exact counted

end Calls

-----------------------------------------------------------------------------------------
-- Release
-----------------------------------------------------------------------------------------

section Release

variable {C : Config} {s : HeapState C} {v : Nat → RegionView} {held : Nat → Option Block}
  {p : Nat} {l : Located}

theorem HeapState.scrubOnFree_counts (s : HeapState C) (p n : Nat)
    : (s.scrubOnFree p n).toHeap = s.toHeap ∧ (s.scrubOnFree p n).stats = s.stats := by
  rw [scrubOnFree]
  split
  · exact ⟨rfl, rfl⟩
  · split <;> exact ⟨rfl, rfl⟩

/-- `__release_located` counts the block that it takes back. -/
theorem HeapInv.releaseLocated_accounted (h : HeapInv s v held) (accounted : Accounted s)
    (on : C.collectStats = true) (found : LocatedAt s v held p l) (live : l.len ≠ 0)
    : Accounted (s.releaseLocated l p l.len).1 := by
  have known := (found.held_iff h).mpr ⟨live, rfl⟩
  have less := (h.held_lt known).2
  obtain ⟨_, _, v', step⟩ := h.releaseLocated found live
  have scrubbed : Written p l.len s
      (((s.scrubOnFree p l.len).collect .dealloc 0).collect .freed l.len) :=
    ((s.scrubOnFree_written (q := p) (m := l.len) le_rfl le_rfl).collect _ _).collect _ _
  have first := (h.refl (Function.update held p none)).written known scrubbed
    (fun q d other => of_erased other)
  have found' := found.persist h live first rfl
  obtain ⟨heap, stats⟩ := s.scrubOnFree_counts p l.len
  have taken := ((accounted v held h).congr heap stats).release on known
    (by simp only at less; omega)
  exact .of step.inv (taken.audited (HeapState.release_audited found' on)
    step.inv.rollbackCount_zero)

/-- `bb::dealloc` of any pointer keeps the accounts. -/
theorem HeapInv.bbDealloc_accounted (h : HeapInv s v held) (fits : C.PoolFits)
    (pages : s.inited = false → s.FreshPages) (accounted : Accounted s)
    (on : C.collectStats = true) (p : Nat)
    : Accounted (s.bbDealloc p).1 := by
  rw [HeapState.bbDealloc]
  split
  · exact accounted
  obtain ⟨w, first, ready, found, same⟩ := h.locate_ready fits pages p
  have located : Accounted (s.locate p).1 := by
    rw [same] at first ⊢
    exact accounted.audited h first s.ensure_audited
  generalize s.locate p = c at *
  simp only
  split
  · exact located
  · next short =>
      have live : c.2.len ≠ 0 := by
        intro none
        simp [none] at short
      rcases c.1.checkRedzone_eq p (c.2.len - C.rz) with ⟨ok, check⟩ | ⟨check, _⟩
      · rw [check]
        exact first.inv.releaseLocated_accounted located on found live
      · rw [check]
        exact located

end Release

-----------------------------------------------------------------------------------------
-- Resizing
-----------------------------------------------------------------------------------------

section Resizing

variable {C : Config} {s : HeapState C} {v : Nat → RegionView} {held : Nat → Option Block}
  {p size preserve a : Nat} {l : Located} {old : Chunk}

theorem HeapState.writeRedzone_counts (s : HeapState C) (p n : Nat)
    : (s.writeRedzone p n).toHeap = s.toHeap ∧ (s.writeRedzone p n).stats = s.stats := by
  rw [writeRedzone]
  split <;> exact ⟨rfl, rfl⟩

/-- A block that keeps its place keeps being counted once, and its bytes change by as much as
its length.
-/
theorem HeapInv.recut_counts (h : HeapInv s v held) {b : Block} (known : held p = some b)
    (d : Block)
    : blockCount C (Function.update held p (some d)) = blockCount C held
      ∧ blockBytes C (Function.update held p (some d)) + b.len = blockBytes C held + d.len := by
  have less := (h.held_lt known).2
  have count := blockCount_update (C := C) held (p := p) (by omega) (some d)
  have bytes := blockBytes_update (C := C) held (p := p) (by omega) (some d)
  simp only [known, Option.elim_some] at count bytes
  exact ⟨by omega, bytes⟩

/-- A block that shrinks in place: the bytes it loses are freed. -/
theorem HeapInv.resizeDown_accounted (h : HeapInv s v held) (accounted : Accounted s)
    (on : C.collectStats = true) (found : LocatedAt s v held p l) (live : l.len ≠ 0)
    (positive : 0 < size) (enough : size + C.rz ≤ l.len)
    : Accounted (s.resizeDown l p (some (size + C.rz))).1 := by
  have known := (found.held_iff h).mpr ⟨live, rfl⟩
  obtain ⟨v', m, answer, _, most, _, _, _, step⟩ := h.shrinkAt found live (size + C.rz)
  obtain ⟨value, least⟩ : (s.shrinkAt l (size + C.rz)).2 = m ∧ size + C.rz ≤ m := by
    rcases answer with done | ⟨_, _, wrong⟩
    · exact done
    · omega
  have nonzero : m ≠ 0 := by omega
  obtain ⟨count, bytes⟩ := h.recut_counts known ⟨m, l.t⟩
  simp only at bytes
  have shrunk := (accounted v held h).audited
    (HeapState.shrinkAt_audited found (size + C.rz)) step.inv.rollbackCount_zero
  simp only [HeapState.resizeDown, value, if_pos nonzero, if_neg (show ¬m < C.rz by omega)]
  have inv := step.inv.written (q := p) (b := ⟨m, l.t⟩) (by simp)
    ((s.shrinkAt l (size + C.rz)).1.writeRedzone_written (q := p) (p := p) (n := m - C.rz)
      (m := m) le_rfl (by omega))
  obtain ⟨heap, stats⟩ := (s.shrinkAt l (size + C.rz)).1.writeRedzone_counts p (m - C.rz)
  have written := shrunk.congr heap stats
  split
  · exact .of (inv.collect .freed (l.len - m)) (written.less on count (by omega))
  · obtain rfl : m = l.len := by omega
    rw [Function.update_eq_self_iff.mpr known.symm] at inv
    exact .of inv written

/-- A block that grows in place: the bytes it gains are granted. -/
theorem HeapInv.resizeUp_accounted (h : HeapInv s v held) (accounted : Accounted s)
    (on : C.collectStats = true) (found : LocatedAt s v held p l) (live : l.len ≠ 0)
    (redzone : C.rz ≤ l.len) (want : Nat)
    : Accounted (s.resizeUp l p want).1 := by
  have known := (found.held_iff h).mpr ⟨live, rfl⟩
  rcases h.growAt found live want with
      ⟨zero, same⟩ | ⟨v', m, value, _, more, _, _, _, _, step⟩
  · simp only [HeapState.resizeUp, zero, ne_eq, not_true_eq_false, if_false, same]
    exact accounted
  have nonzero : m ≠ 0 := by omega
  obtain ⟨count, bytes⟩ := h.recut_counts known ⟨m, l.t⟩
  simp only at bytes
  have grown := (accounted v held h).audited (HeapState.growAt_audited found want)
    step.inv.rollbackCount_zero
  have inv := step.inv.written (q := p) (b := ⟨m, l.t⟩) (by simp)
    ((s.growAt l p want).1.writeRedzone_written (q := p) (p := p) (n := m - C.rz) (m := m)
      le_rfl (by omega))
  obtain ⟨heap, stats⟩ := (s.growAt l p want).1.writeRedzone_counts p (m - C.rz)
  simp only [HeapState.resizeUp, value, if_pos nonzero]
  exact .of (inv.collect .granted (m - l.len))
    ((grown.congr heap stats).more on count (by omega) inv.blockBytes_lt)

/-- A block that moves: the new one is granted before the old one is freed. -/
theorem HeapInv.resizeMove_accounted (h : HeapInv s v held) (fits : C.PoolFits)
    (supply : s.Supplied) (accounted : Accounted s) (on : C.collectStats = true)
    (found : LocatedAt s v held old.ptr l) (live : l.len ≠ 0) (size preserve a : Nat)
    : Accounted (s.resizeMove l old size preserve a).1 := by
  have allocated := h.allocFor_accounted fits supply accounted on size a
  rw [HeapState.resizeMove]
  cases h.allocFor fits supply size a with
  | refused result _ =>
      have failed : (s.allocFor size a).2 = .returned .null ∨ (s.allocFor size a).2 = .halted
          ∨ (s.allocFor size a).2 = .threw := by
        rcases result with null | failure
        · exact Or.inl null
        · rw [failure]
          exact C.failure_cases
      rcases failed with null | halted | threw
      · simp only [HeapState.andThen, null, Chunk.null, if_true]
        exact allocated
      · simp only [HeapState.andThen, halted]
        exact allocated
      · simp only [HeapState.andThen, threw]
        exact allocated
  | @granted q d v' chunk notNull _ unused _ _ _ step =>
      simp only [HeapState.andThen, chunk, if_neg notNull]
      generalize (if preserve > old.len then old.len else preserve) = k
      generalize (if k > l.len - C.rz then l.len - C.rz else k) = k'
      have room : (if k' > d.len - C.rz then d.len - C.rz else k') ≤ d.len := by
        split <;> omega
      generalize (if k' > d.len - C.rz then d.len - C.rz else k') = k'' at room ⊢
      obtain ⟨first, found'⟩ := h.filled found live unused step
        ((s.allocFor size a).1.copied_written room old.ptr)
      refine first.inv.releaseLocated_accounted ?_ on found' live
      refine .of first.inv ((allocated _ _ step.inv).congr ?_ ?_)
      · split <;> rfl
      · split <;> rfl

/-- `resize` with any arguments keeps the accounts. -/
theorem HeapInv.resize_accounted (h : HeapInv s v held) (fits : C.PoolFits)
    (supply : s.Supplied) (accounted : Accounted s) (on : C.collectStats = true) (old : Chunk)
    (size preserve a : Nat)
    : Accounted (s.resize old size preserve a).1 := by
  rw [HeapState.resize]
  by_cases pow : isPow2 a = true
  swap
  · rw [if_pos (by simp [pow])]
    exact accounted
  rw [if_neg (by simp [pow])]
  split
  · exact h.allocFor_accounted fits supply accounted on size a
  split
  · have freed := h.bbDealloc_accounted fits (fun _ => supply.now) accounted on old.ptr
    cases result : (s.bbDealloc old.ptr).2 <;>
      simpa only [HeapState.andThen, result] using freed
  next null zero =>
    obtain ⟨w, first, ready, found, same⟩ := h.locate_ready fits (fun _ => supply.now) old.ptr
    simp only
    by_cases short : (s.locate old.ptr).2.len = 0 ∨ (s.locate old.ptr).2.len < C.rz
    · rw [if_pos (by simpa using short)]
      have located : Accounted (s.locate old.ptr).1 := by
        rw [same] at first ⊢
        exact accounted.audited h first s.ensure_audited
      by_cases halt : C.doubleFreeAction = .halt
      · simpa only [HeapState.handleBadFree, halt, if_true, HeapState.andThen] using located
      · simpa only [HeapState.handleBadFree, halt, if_false, HeapState.andThen] using located
    rw [if_neg (by simpa using short)]
    have live : (s.locate old.ptr).2.len ≠ 0 := fun none => short (Or.inl none)
    have known := (found.held_iff first.inv).mpr ⟨live, rfl⟩
    obtain ⟨i, less, _⟩ := h.held_inside known
    have inited := h.inited_of_count (show 0 < s.count by omega)
    obtain ⟨_, found'⟩ := h.locate inited old.ptr
    rw [same, HeapState.ensure_ready inited]
    generalize record : (s.locate old.ptr).2 = l at short live found' ⊢
    rcases s.checkRedzone_eq old.ptr (l.len - C.rz) with ⟨ok, check⟩ | ⟨check, _⟩
    swap
    · simpa only [check, HeapState.andThen] using accounted
    simp only [check, HeapState.andThen]
    have move := h.resizeMove_accounted fits supply accounted on found' live size preserve a
    have bound := (h.held_lt ((found'.held_iff h).mpr ⟨live, rfl⟩)).2
    simp only at bound
    by_cases placed : old.ptr &&& (a - 1) = 0
    · by_cases down : size ≤ l.len - C.rz
      · have sane : HeapState.checkAddOverflow C size C.rz = some (size + C.rz) :=
          if_pos (by omega)
        simp only [placed, down, decide_true, Bool.and_self, if_true, sane]
        exact h.resizeDown_accounted accounted on found' live (by omega) (by omega)
      · simp only [placed, down, decide_true, decide_false, Bool.false_and, Bool.false_eq_true,
          if_false]
        by_cases sane : size + C.rz < C.buddy.word
        · have some : HeapState.checkAddOverflow C size C.rz = some (size + C.rz) := if_pos sane
          simp only [some]
          have up := h.resizeUp_accounted accounted on found' live (by omega) (size + C.rz)
          rcases h.resizeUp (r := preserve) (e := size) found' record live (by omega)
              ((placed_iff pow old.ptr).mp placed) with ⟨grown, _⟩ | none
          · rw [if_pos grown]
            exact up
          · rw [none]
            simpa [Chunk.null] using move
        · have none : HeapState.checkAddOverflow C size C.rz = none := if_neg sane
          simp only [none]
          simpa [Chunk.null] using move
    · simp only [placed, decide_false, Bool.and_false, Bool.false_eq_true, if_false]
      simpa [Chunk.null] using move

end Resizing

end Bbmalloc
