import Bbmalloc.Malloc.Advertised
import Bbmalloc.World.Steps

/-! What one step can do: it keeps the ledger, clears it, or adds, drops, changes or moves one
block; and it writes into no block that it leaves alone. The invariants of whole runs follow.
-/

namespace Bbmalloc

open Bbmalloc.Foundations

/-- What holds of every block of the ledger. -/
structure Grant.Sane (C : Config) (g : Grant) : Prop where
  enough : g.asked ≤ g.block.len
  small : g.block.tier = .tlsf → g.block.len ≤ C.classSmall + headerSize

/-- The heap represents the ledger, and every block of it is sane. -/
structure WorldInv {C : Config} (w : World C) : Prop where
  rep : ∃ v, HeapInv w.heap v w.ledger.blocks
  sane : ∀ p g, w.ledger p = some g → g.Sane C

/-- The effect of a step other than a store. Its frame names the blocks that it leaves alone,
which are all blocks but its target.
-/
inductive Effect {C : Config} (w : World C) (op : Op) (w' : World C) : Prop
  | kept {u : Nat → RegionView} (same : w'.ledger = w.ledger)
      (step : HeapStep w.heap w'.heap u w.ledger.blocks w'.ledger.blocks)
  | cleared {u : Nat → RegionView} (reset : op = .reset) (gone : w'.ledger = fun _ => none)
      (step : HeapStep w.heap w'.heap u (fun _ => none) w'.ledger.blocks)
  | added {u : Nat → RegionView} {p : Nat} {g : Grant} (unused : w.ledger p = none)
      (sane : g.Sane C) (padded : op.isPublic = true → C.rz < g.asked)
      (new : w'.ledger = Function.update w.ledger p (some g))
      (step : HeapStep w.heap w'.heap u w.ledger.blocks w'.ledger.blocks)
  | dropped {u : Nat → RegionView} {p : Nat} (target : op.target = some p)
      (gone : w'.ledger = w.ledger.erase p)
      (step : HeapStep w.heap w'.heap u (w.ledger.erase p).blocks w'.ledger.blocks)
  | changed {u : Nat → RegionView} {p : Nat} {g : Grant} (target : op.target = some p)
      (resizes : op.resizes = true) (sane : g.Sane C) (padded : op.isPublic = true → C.rz < g.asked)
      (new : w'.ledger = Function.update w.ledger p (some g))
      (step : HeapStep w.heap w'.heap u (w.ledger.erase p).blocks w'.ledger.blocks)
  | moved {u : Nat → RegionView} {p q : Nat} {g : Grant} (target : op.target = some p)
      (resizes : op.resizes = true) (unused : w.ledger q = none) (sane : g.Sane C)
      (padded : op.isPublic = true → C.rz < g.asked)
      (new : w'.ledger = Function.update (w.ledger.erase p) q (some g))
      (step : HeapStep w.heap w'.heap u (w.ledger.erase p).blocks w'.ledger.blocks)

-----------------------------------------------------------------------------------------
-- The ledger
-----------------------------------------------------------------------------------------

section Ledgers

variable {C : Config} {l : Ledger} {g : Grant} {p : Nat} {b : Block}

theorem Ledger.blocks_eq_some : l.blocks p = some b ↔ ∃ g, l p = some g ∧ g.block = b := by
  simp [blocks]

theorem Ledger.blocks_eq_none : l.blocks p = none ↔ l p = none := by
  simp [blocks]

theorem Ledger.blocks_update (l : Ledger) (p : Nat) (c : Option Grant)
    : Ledger.blocks (Function.update l p c) = Function.update l.blocks p (c.map Grant.block) := by
  funext q
  by_cases same : q = p
  · subst same
    simp [blocks]
  · simp [blocks, same]

theorem Ledger.blocks_erase (l : Ledger) (p : Nat)
    : (l.erase p).blocks = Function.update l.blocks p none :=
  l.blocks_update p none

/-- Erasing a block that is not held changes nothing. -/
theorem Ledger.erase_unused (unused : l p = none) : l.erase p = l := by
  rw [erase, ← unused, Function.update_eq_self]

theorem Ledger.erase_same (l : Ledger) (p : Nat) : l.erase p p = none := by
  simp [erase]

theorem Ledger.erase_other (l : Ledger) {q : Nat} (differ : q ≠ p) : l.erase p q = l q := by
  simp [erase, differ]

end Ledgers

section Tiers

variable {C : Config} {s : HeapState C} {v : Nat → RegionView} {held : Nat → Option Block}
  {p n a : Nat} {b : Block}

/-- The tier of a block is read off its address. -/
theorem HeapInv.tierOf (h : HeapInv s v held) (known : held p = some b) : s.tierOf p = b.tier := by
  obtain ⟨i, less, holds⟩ := (h.blocks p b).mp known
  have inside := h.inside less holds
  have any : ((List.range s.count).any (fun i => (s.regions i).tlsf.sheets.any (fun sh =>
        decide ((s.geo i).base + sh ≤ p ∧ p < (s.geo i).base + sh + C.tlsf.sheet)))) = true
      ↔ ∃ j < s.count, ∃ sh ∈ (s.regions j).tlsf.sheets,
        (s.geo j).base + sh ≤ p ∧ p < (s.geo j).base + sh + C.tlsf.sheet := by
    simp
  rw [HeapState.tierOf]
  rcases holds with ⟨x, o, block, rfl, rfl⟩ | ⟨x, n, block, rfl, rfl⟩
  · rw [if_neg]
    rw [any]
    rintro ⟨j, below, sh, member, lo, hi⟩
    have inv := h.regions j below
    have fits : sh + C.tlsf.sheet ≤ (s.geo j).total := (inv.sheet_lt member).2.1
    obtain rfl : i = j := by
      by_contra differ
      exact h.separate i less j below differ _
        (Or.inr ⟨inside.1, lt_of_lt_of_le (by omega) inside.2.1⟩)
        (Or.inr ⟨by omega, by omega⟩)
    have owned := Live.of_large.mp block
    have sheet := inv.sheet_owned member
    have apart := inv.buddy.owned_apart owned sheet (fun same => by
      rw [same, sheet] at owned
      cases owned)
    rw [C.orderSize_sheet] at apart
    have positive := C.buddy.orderSize_pos o
    simp only at apart
    omega
  · rw [if_pos]
    rw [any]
    obtain ⟨sh, member, lo, hi⟩ := (h.regions i less).small_inside block
    have size := ((h.regions i less).tlsf.granted_block block).2.2.1
    refine ⟨i, less, sh, member, by omega, ?_⟩
    simp only [headerSize]
    omega

/-- What a small request can get at most. -/
theorem TlsfState.adjusted_classSmall (small : n ≤ C.classSmall)
    : TlsfState.adjusted C.tlsf n ≤ C.classSmall + headerSize := by
  have unit := C.tlsf.small_fits.1
  by_cases zero : TlsfState.adjusted C.tlsf n = 0
  · omega
  · obtain ⟨_, _, dvd, _, less, _⟩ := TlsfState.adjusted_pos zero
    rw [Config.classSmall] at small ⊢
    simp only [headerSize]
    omega

theorem Suits.small (suits : Suits C n a b) (tier : b.tier = .tlsf)
    : b.len ≤ C.classSmall + headerSize := by
  rcases suits with ⟨_, small, _, most⟩ | ⟨wrong, _⟩
  · exact most.trans (TlsfState.adjusted_classSmall small)
  · rw [tier] at wrong
    cases wrong

theorem Fitting.small (fitting : Fitting C n a b) (tier : b.tier = .tlsf)
    : b.len ≤ C.classSmall + headerSize := by
  rcases fitting with ⟨_, _, small, _, most⟩ | ⟨wrong, _⟩
  · exact most.trans (TlsfState.adjusted_classSmall small)
  · rw [tier] at wrong
    cases wrong

/-- A block for an alignment beyond the native one is a buddy block of at least that size. -/
theorem Fitting.beyond (fitting : Fitting C n a b) (positive : 0 < a)
    (beyond : nativeAlignment < a)
    : b.tier = .buddy ∧ a ≤ b.len := by
  rcases fitting with ⟨_, wrong, _⟩ | ⟨tier, size⟩
  · omega
  · refine ⟨tier, ?_⟩
    rw [size, Config.wantOrder, if_neg (by omega)]
    exact (C.buddy.le_orderSize positive).trans
      (C.buddy.orderSize_mono (C.buddy.le_alignedOrder n a).2)

/-- A request that fits a block of the heap has `n` bytes at most. -/
theorem Suits.le {o : Nat} (suits : Suits C n o b) (positive : 0 < n)
    (order : C.buddy.orderForSize n ≤ o)
    : n ≤ b.len := by
  rcases suits with ⟨_, small, least, _⟩ | ⟨_, size⟩
  · have fits := C.small_with_redzone
    have nonzero : TlsfState.adjusted C.tlsf n ≠ 0 := by
      rw [ne_eq, TlsfState.adjusted_eq_zero]
      simp only [Config.classSmall, headerSize] at small fits
      omega
    have := (TlsfState.adjusted_pos nonzero).2.2.2.1
    simp only [headerSize] at least
    omega
  · rw [size]
    exact (C.buddy.le_orderSize positive).trans (C.buddy.orderSize_mono order)

end Tiers

-----------------------------------------------------------------------------------------
-- Calls of the heap
-----------------------------------------------------------------------------------------

section HeapCalls

variable {C : Config} {w w' : World C} {v v' : Nat → RegionView} {op : Op} {n o a p : Nat}
  {c : HeapState C × Chunk} {l : Located}

/-- A request for no bytes does nothing. -/
theorem HeapState.alloc_zero (s : HeapState C) : s.alloc 0 = (s, .null) := by
  have slow : s.allocSlow 0 = (s, .null) := by
    rw [allocSlow, if_pos rfl]
  have call := HeapState.onRegion_same (f := fun r => r.tlsfAlloc 0) (s.region 0).tlsfAlloc_zero
  rw [alloc]
  split
  · exact slow
  · rw [if_pos (Nat.zero_le _), call]
    simpa [Chunk.null] using slow

/-- A chunk that is noted with the blocks of the ledger as they were granted. -/
theorem HeapGranted.effect (granted : HeapGranted w.heap v w.ledger.blocks n o a c)
    {asked : Nat} (enough : ∀ b, Suits C n o b → asked ≤ b.len)
    (hidden : op.isPublic = false)
    : Effect w op ⟨c.1, w.ledger.note c.1 c.2 0 asked none⟩ := by
  rcases granted with @⟨p, b, v', chunk, notNull, aligned, unused, suits, _, _, step⟩
  have known : Function.update w.ledger.blocks p (some b) p = some b := by simp
  have tier := step.inv.tierOf known
  have noted : w.ledger.note c.1 c.2 0 asked none
      = Function.update w.ledger p (some ⟨b, asked, none⟩) := by
    simp only [Ledger.note, chunk, if_neg notNull, tier, Nat.add_zero]
  refine .added (u := v') (Ledger.blocks_eq_none.mp unused)
    ⟨enough b suits, suits.small⟩
    (fun wrong => by rw [hidden] at wrong; cases wrong) noted ?_
  simp only [noted, Ledger.blocks_update]
  exact step

/-- A null of the heap is not noted. -/
theorem Effect.of_null (null : c.2 = .null)
    (step : HeapStep w.heap c.1 v' w.ledger.blocks w.ledger.blocks) (margin asked : Nat)
    (made : Option Nat)
    : Effect w op ⟨c.1, w.ledger.note c.1 c.2 margin asked made⟩ := by
  have noted : w.ledger.note c.1 c.2 margin asked made = w.ledger := by
    simp [Ledger.note, null, Chunk.null]
  refine .kept (u := v') noted ?_
  simp only [noted]
  exact step

theorem HeapInv.heapAlloc_effect (h : HeapInv w.heap v w.ledger.blocks) (fits : C.PoolFits)
    (supply : w.heap.Supplied) (hidden : op.isPublic = false) (n : Nat)
    : Effect w op ⟨(w.heap.alloc n).1,
        w.ledger.note (w.heap.alloc n).1 (w.heap.alloc n).2 0 n none⟩ := by
  rcases Nat.eq_zero_or_pos n with rfl | positive
  · rw [w.heap.alloc_zero]
    exact .of_null rfl (h.refl _) 0 0 none
  · rcases h.alloc fits supply positive with granted | ⟨v', null, step⟩
    · exact granted.effect (fun b suits => suits.le positive le_rfl) hidden
    · exact .of_null null step 0 n none

theorem HeapInv.heapAllocAligned_effect (h : HeapInv w.heap v w.ledger.blocks)
    (fits : C.PoolFits) (supply : w.heap.Supplied) (hidden : op.isPublic = false) (n a : Nat)
    : Effect w op ⟨(w.heap.allocAligned n a).1,
        w.ledger.note (w.heap.allocAligned n a).1 (w.heap.allocAligned n a).2 0 n none⟩ := by
  by_cases unfit : (n = 0 || !isPow2 a) = true
  · have call : w.heap.allocAligned n a = (w.heap, .null) := by
      rw [HeapState.allocAligned, if_pos (by simpa using unfit)]
    rw [call]
    exact .of_null rfl (h.refl _) 0 n none
  obtain ⟨nonzero, pow⟩ : n ≠ 0 ∧ isPow2 a = true := by simpa using unfit
  by_cases native : a ≤ nativeAlignment
  · have call : w.heap.allocAligned n a = w.heap.alloc n := by
      rw [HeapState.allocAligned, if_neg (by simpa using unfit), if_pos native]
    rw [call]
    exact h.heapAlloc_effect fits supply hidden n
  · rcases h.allocAligned fits supply (n := n) (by omega) pow (by omega) with
        granted | ⟨v', null, step⟩
    · refine granted.effect (fun b suits => ?_) hidden
      rcases suits with ⟨_, wrong, _⟩ | ⟨_, size⟩
      · omega
      · rw [size]
        exact (C.buddy.le_orderSize (by omega)).trans
          (C.buddy.orderSize_mono (C.buddy.le_alignedOrder n a).1)
    · exact .of_null null step 0 n none

/-- The release of a located block, or of nothing. -/
theorem HeapInv.heapDealloc_effect (h : HeapInv w.heap v w.ledger.blocks) (fits : C.PoolFits)
    (pages : w.heap.inited = false → w.heap.FreshPages) (target : op.target = some p)
    : Effect w op ⟨(w.heap.dealloc p).1,
        if (w.heap.dealloc p).2 then w.ledger.erase p else w.ledger⟩ := by
  obtain ⟨v', first, ready, found, same⟩ := h.locate_ready fits pages p
  rw [HeapState.dealloc]
  generalize w.heap.locate p = c at *
  by_cases live : c.2.len = 0
  · rw [(found.nothing first.inv live).2.1]
    exact .kept (u := v') rfl first
  · obtain ⟨ok, _, u, second⟩ := first.inv.release found live
    rw [ok]
    refine .dropped (u := u) target rfl ?_
    simp only [if_true, Ledger.blocks_erase]
    exact first.trans second (fun q d other => (of_erased other).1) (fun _ _ => id)

/-- A resize in place is noted with its new length. -/
theorem Ledger.recut_known {l : Ledger} {g : Grant} {m : Nat} (known : l p = some g)
    (nonzero : m ≠ 0) (asked : Nat)
    : l.recut p m asked = Function.update l p (some ⟨⟨m, g.block.tier⟩, asked, g.made⟩) := by
  simp [recut, nonzero, known]

theorem Ledger.recut_none (l : Ledger) (p asked : Nat) : l.recut p 0 asked = l :=
  if_pos rfl

/-- The block at `p` got the length `m`, and nothing else changed. -/
theorem HeapStep.recut {s : HeapState C} {g : Grant} {m asked : Nat}
    (step : HeapStep w.heap s v' (w.ledger.erase p).blocks
      (Function.update w.ledger.blocks p (some ⟨m, g.block.tier⟩)))
    (known : w.ledger p = some g) (nonzero : m ≠ 0) (enough : asked ≤ m)
    (small : g.block.tier = .tlsf → m ≤ C.classSmall + headerSize)
    (target : op.target = some p) (resizes : op.resizes = true) (hidden : op.isPublic = false)
    : Effect w op ⟨s, w.ledger.recut p m asked⟩ := by
  refine .changed (u := v') target resizes (g := ⟨⟨m, g.block.tier⟩, asked, g.made⟩)
    ⟨enough, small⟩
    (fun wrong => by rw [hidden] at wrong; cases wrong) (Ledger.recut_known known nonzero asked) ?_
  simp only [Ledger.recut_known known nonzero, Ledger.blocks_update]
  exact step

theorem WorldInv.shrinkAt_effect (h : WorldInv w) (fits : C.PoolFits) (supply : w.heap.Supplied)
    (target : op.target = some p) (resizes : op.resizes = true) (hidden : op.isPublic = false)
    (n : Nat)
    : Effect w op ⟨((w.heap.locate p).1.shrinkAt (w.heap.locate p).2 n).1,
        w.ledger.recut p ((w.heap.locate p).1.shrinkAt (w.heap.locate p).2 n).2 n⟩ := by
  obtain ⟨v, rep⟩ := h.rep
  obtain ⟨v', first, ready, found, _⟩ := rep.locate_ready fits (fun _ => supply.now) p
  generalize w.heap.locate p = c at *
  by_cases live : c.2.len = 0
  · rw [(found.nothing first.inv live).2.2.1 n, Ledger.recut_none]
    exact .kept (u := v') rfl first
  obtain ⟨g, known, block⟩ := Ledger.blocks_eq_some.mp ((found.held_iff first.inv).mpr ⟨live, rfl⟩)
  have tier : g.block.tier = c.2.t := congrArg Block.tier block
  have len : g.block.len = c.2.len := congrArg Block.len block
  obtain ⟨u, m, answer, positive, most, _, _, _, second⟩ := first.inv.shrinkAt found live n
  have both := first.trans second (k := (w.ledger.erase p).blocks)
    (fun q d other => by
      rw [Ledger.blocks_erase] at other
      exact (of_erased other).1)
    (fun q d other => by
      rw [Ledger.blocks_erase] at other
      obtain ⟨other, apart⟩ := of_erased other
      rw [Function.update_of_ne apart]
      exact other)
  rcases answer with ⟨value, enough⟩ | ⟨value, same, _⟩
  · rw [value]
    rw [← tier] at both
    exact both.recut known (by omega) enough
      (fun kind => most.trans (len ▸ (h.sane p g known).small kind)) target resizes hidden
  · rw [value, Ledger.recut_none]
    have unchanged : Function.update w.ledger.blocks p (some ⟨m, c.2.t⟩) = w.ledger.blocks := by
      rw [same, ← block, ← Ledger.blocks_eq_some.mpr ⟨g, known, rfl⟩, Function.update_eq_self]
    rw [unchanged] at second
    exact .kept (u := u) rfl (first.trans second (fun _ _ => id) (fun _ _ => id))

theorem WorldInv.growAt_effect (h : WorldInv w) (fits : C.PoolFits) (supply : w.heap.Supplied)
    (target : op.target = some p) (resizes : op.resizes = true) (hidden : op.isPublic = false)
    (n : Nat)
    : Effect w op ⟨((w.heap.locate p).1.growAt (w.heap.locate p).2 p n).1,
        w.ledger.recut p ((w.heap.locate p).1.growAt (w.heap.locate p).2 p n).2 n⟩ := by
  obtain ⟨v, rep⟩ := h.rep
  obtain ⟨v', first, ready, found, _⟩ := rep.locate_ready fits (fun _ => supply.now) p
  generalize w.heap.locate p = c at *
  by_cases live : c.2.len = 0
  · rw [(found.nothing first.inv live).2.2.2 n, Ledger.recut_none]
    exact .kept (u := v') rfl first
  obtain ⟨g, known, block⟩ := Ledger.blocks_eq_some.mp ((found.held_iff first.inv).mpr ⟨live, rfl⟩)
  have tier : g.block.tier = c.2.t := congrArg Block.tier block
  have len : g.block.len = c.2.len := congrArg Block.len block
  rcases first.inv.growAt found live n with
      ⟨value, same⟩ | ⟨u, m, value, enough, more, positive, small, resized, _, second⟩
  · rw [value, same, Ledger.recut_none]
    exact .kept (u := v') rfl first
  · rw [value]
    rw [← tier] at second
    have both := first.trans second (k := (w.ledger.erase p).blocks)
      (fun q d other => by
        rw [Ledger.blocks_erase] at other
        exact (of_erased other).1)
      (fun q d other => by
        rw [Ledger.blocks_erase] at other
        exact (of_erased other).1)
    refine both.recut known (by omega) enough (fun kind => ?_) target resizes hidden
    rcases resized with same | ⟨_, _, most⟩ | ⟨wrong, _⟩
    · simp only at same
      rw [same, ← len]
      exact (h.sane p g known).small kind
    · exact most.trans (TlsfState.adjusted_classSmall (small (tier.symm.trans kind)))
    · simp only at wrong
      rw [← tier, kind] at wrong
      cases wrong

end HeapCalls

-----------------------------------------------------------------------------------------
-- Calls of the public interface
-----------------------------------------------------------------------------------------

section PublicCalls

variable {C : Config} {w w' : World C} {v v' : Nat → RegionView} {op : Op} {n a p : Nat}
  {c : HeapState C × Exit Chunk} {old : Chunk}

/-- An allocation of the public interface. -/
theorem Served.effect (served : Served w.heap v w.ledger.blocks n (max nativeAlignment a) c)
    (made : Option Nat)
    : Effect w op ⟨c.1, w.ledger.noteExit c (n + C.rz) made⟩ := by
  cases served with
  | @granted p b v' chunk notNull aligned unused positive enough fitting step =>
      have tier := step.inv.tierOf (p := p) (b := b) (by simp)
      have noted : w.ledger.noteExit c (n + C.rz) made
          = Function.update w.ledger p (some ⟨b, n + C.rz, made⟩) := by
        simp only [Ledger.noteExit, chunk, Ledger.note, if_neg notNull, tier]
        rw [Nat.sub_add_cancel (by omega)]
      refine .added (u := v') (Ledger.blocks_eq_none.mp unused)
        ⟨enough, fitting.small⟩ (fun _ => by simp only; omega) noted ?_
      simp only [noted, Ledger.blocks_update]
      exact step
  | @refused v' result step =>
      have noted : w.ledger.noteExit c (n + C.rz) made = w.ledger := by
        have nulls : c.2 = .returned .null ∨ c.2 = .halted ∨ c.2 = .threw := by
          rcases result with null | failure
          · exact Or.inl null
          · rw [failure]
            exact C.failure_cases
        rcases nulls with null | halted | threw
        · simp [Ledger.noteExit, null, Ledger.note, Chunk.null]
        · simp only [Ledger.noteExit, halted]
        · simp only [Ledger.noteExit, threw]
      refine .kept (u := v') noted ?_
      simp only [noted]
      exact step

/-- A release through the public interface. -/
theorem Freed.effect {s : HeapState C}
    (freed : Freed w.heap v w.ledger.blocks p (w.heap.bbDealloc p))
    (state : s = (w.heap.bbDealloc p).1) (h : HeapInv w.heap v w.ledger.blocks)
    (target : op.target = some p)
    : Effect w op ⟨s, w.ledger.release w.heap p⟩ := by
  subst state
  cases freed with
  | null zero result =>
      subst zero
      have unused : w.ledger 0 = none := by
        by_contra known
        obtain ⟨g, known⟩ := Option.ne_none_iff_exists'.mp known
        have := (h.held_lt (Ledger.blocks_eq_some.mpr ⟨g, known, rfl⟩)).1
        omega
      have same : w.ledger.release w.heap 0 = w.ledger := by
        rw [Ledger.release]
        split
        · exact Ledger.erase_unused unused
        · rfl
      rw [same, result]
      exact .kept (u := v) rfl (h.refl _)
  | @bad v' short result step _ =>
      have same : w.ledger.release w.heap p = w.ledger := by
        rw [Ledger.release, if_neg]
        rw [result, Config.badFree]
        split <;> simp
      rw [same]
      exact .kept (u := v') rfl step
  | @tripped b v' known policy result step =>
      have same : w.ledger.release w.heap p = w.ledger := by
        rw [Ledger.release, if_neg (by rw [result]; simp)]
      rw [same]
      exact .kept (u := v') rfl step
  | @freed b v' known result step =>
      have same : w.ledger.release w.heap p = w.ledger.erase p := by
        rw [Ledger.release, if_pos result]
      refine .dropped (u := v') target same ?_
      simp only [same, Ledger.blocks_erase]
      exact step

end PublicCalls

-----------------------------------------------------------------------------------------
-- Resizing
-----------------------------------------------------------------------------------------

section ResizeCalls

variable {C : Config} {w w' : World C} {v v' : Nat → RegionView} {op : Op}
  {size preserve a p : Nat} {old : Chunk} {made : Option Nat}

/-- No block starts at the null pointer. -/
theorem WorldInv.null_unused (h : WorldInv w) : w.ledger 0 = none := by
  obtain ⟨v, rep⟩ := h.rep
  by_contra known
  obtain ⟨g, known⟩ := Option.ne_none_iff_exists'.mp known
  have := (rep.held_lt (Ledger.blocks_eq_some.mpr ⟨g, known, rfl⟩)).1
  omega

/-- A resize whose result is not a chunk is not noted. -/
theorem Ledger.reshape_null {m : Option Nat} {l : Ledger} {s : HeapState C}
    (result : (s.resize old size preserve a).2 = .returned .null)
    (kept : isPow2 a = false ∨ size ≠ 0)
    : l.reshape s old size preserve a m = l := by
  simp only [reshape, result, Chunk.null, ne_eq, not_true_eq_false, if_false]
  rw [if_neg]
  rcases kept with odd | positive
  · simp [odd]
  · simp [positive]

/-- A resize that fails or ends the program is not noted. -/
theorem Ledger.reshape_refused {m : Option Nat} {l : Ledger} {s : HeapState C}
    (result : (s.resize old size preserve a).2 = .returned .null
      ∨ (s.resize old size preserve a).2 = C.failure
      ∨ (s.resize old size preserve a).2 = .halted)
    (positive : size ≠ 0)
    : l.reshape s old size preserve a m = l := by
  have cases : (s.resize old size preserve a).2 = .returned .null
      ∨ (s.resize old size preserve a).2 = .halted ∨ (s.resize old size preserve a).2 = .threw := by
    rcases result with null | failure | halted
    · exact Or.inl null
    · rw [failure]
      exact C.failure_cases
    · exact Or.inr (Or.inl halted)
  rcases cases with null | halted | threw
  · exact reshape_null null (Or.inr positive)
  · simp only [reshape, halted]
  · simp only [reshape, threw]

/-- A resize of no block is noted as an allocation. -/
theorem Ledger.reshape_allocated {m : Option Nat} {l : Ledger} {s : HeapState C}
    (null : old.ptr = 0) (unused : l 0 = none)
    : l.reshape s old size preserve a m
      = l.noteExit (s.resize old size preserve a) (size + C.rz) m := by
  simp only [reshape, noteExit, null, erase_unused unused]
  split
  · next d result =>
      by_cases none : d.ptr = 0
      · have released : l.release s 0 = l := by
          rw [release]
          split
          · exact erase_unused unused
          · rfl
        simp only [none, ne_eq, not_true_eq_false, note, if_true, released, ite_self]
      · simp only [none, ne_eq, not_false_eq_true, if_true, if_false, Option.or_none]
  · rfl

/-- A resize that returns a chunk. -/
theorem Ledger.reshape_chunk {l : Ledger} {s : HeapState C} {q n : Nat}
    (result : (s.resize old size preserve a).2 = .returned ⟨q, n⟩) (notNull : q ≠ 0)
    : l.reshape s old size preserve a made
      = Function.update (l.erase old.ptr) q (some
        ⟨⟨n + C.rz, (s.resize old size preserve a).1.tierOf q⟩, size + C.rz,
          made.or (if q = old.ptr then (l old.ptr).bind Grant.made else none)⟩) := by
  simp only [reshape, result, ne_eq, notNull, not_false_eq_true, if_true, note, if_false]

/-- A resize of the public interface or of the container adapter. -/
theorem WorldInv.resize_effect (h : WorldInv w) (fits : C.PoolFits) (supply : w.heap.Supplied)
    (target : op.target = some old.ptr) (resizes : op.resizes = true)
    (goes : (w.heap.resize old size preserve a).2.goesOn = true)
    : Effect w op ⟨(w.heap.resize old size preserve a).1,
        w.ledger.reshape w.heap old size preserve a made⟩ := by
  obtain ⟨v, rep⟩ := h.rep
  have outcome := rep.resize fits supply old size preserve a
  have quiet : ∀ {v'}, HeapStep w.heap (w.heap.resize old size preserve a).1 v'
        w.ledger.blocks w.ledger.blocks →
      w.ledger.reshape w.heap old size preserve a made = w.ledger →
      Effect w op ⟨(w.heap.resize old size preserve a).1,
        w.ledger.reshape w.heap old size preserve a made⟩ := by
    intro v' step noted
    refine .kept (u := v') noted ?_
    simp only [noted]
    exact step
  cases outcome with
  | ignored odd result =>
      have noted := Ledger.reshape_null (l := w.ledger) (m := made)
        (by rw [result]) (Or.inl odd)
      exact quiet (by rw [result]; exact rep.refl _) noted
  | allocated null served =>
      rw [Ledger.reshape_allocated null h.null_unused]
      exact served.effect made
  | released zero pow state result freed =>
      have returned := result.resolve_right (fun halted => by
        rw [halted] at goes
        cases goes)
      have noted : w.ledger.reshape w.heap old size preserve a made
          = w.ledger.release w.heap old.ptr := by
        simp only [Ledger.reshape, returned, Chunk.null, ne_eq, not_true_eq_false, if_false]
        rw [if_pos (by simp [pow, zero])]
      rw [noted]
      exact freed.effect state rep target
  | bad positive short result step _ =>
      have returned := result.resolve_right (fun halted => by
        rw [halted] at goes
        cases goes)
      exact quiet step (Ledger.reshape_null returned (Or.inr (by omega)))
  | reshaped positive reshaped =>
      cases reshaped with
      | refused result step => exact quiet step (Ledger.reshape_refused result (by omega))
      | @inPlace b m v' known chunk aligned enough resized large small _ step contents =>
          obtain ⟨g, grant, block⟩ := Ledger.blocks_eq_some.mp known
          have notNull := (rep.held_lt known).1
          have tier := step.inv.tierOf (p := old.ptr) (b := ⟨m, b.tier⟩) (by simp)
          have noted : w.ledger.reshape w.heap old size preserve a made
              = Function.update w.ledger old.ptr (some ⟨⟨m, b.tier⟩, size + C.rz,
                made.or g.made⟩) := by
            rw [Ledger.reshape_chunk chunk (by omega), tier, Nat.sub_add_cancel (by omega)]
            simp only [grant, Option.bind_some, if_true, Ledger.erase, Function.update_idem]
          refine .changed (u := v') target resizes ⟨enough, fun kind => ?_⟩
            (fun _ => by simp only; omega) noted ?_
          · rcases small kind with low | ⟨_, most⟩
            · rcases resized with len | ⟨_, _, most⟩ | ⟨wrong, _⟩
              · simp only at len ⊢
                rw [len, ← block]
                exact (h.sane _ g grant).small (by rw [block]; exact kind)
              · exact most.trans (TlsfState.adjusted_classSmall low)
              · simp only at kind wrong
                rw [kind] at wrong
                cases wrong
            · refine most.trans ?_
              rw [← block]
              exact (h.sane _ g grant).small (by rw [block]; exact kind)
          · simp only [noted, Ledger.blocks_update, Ledger.blocks_erase]
            exact step
      | @moved b d q v' known chunk notNull aligned unused enough fitting step contents =>
          have apart : q ≠ old.ptr := by
            rintro rfl
            rw [unused] at known
            cases known
          have tier := step.inv.tierOf (p := q) (b := d) (by simp)
          have noted : w.ledger.reshape w.heap old size preserve a made
              = Function.update (w.ledger.erase old.ptr) q (some ⟨d, size + C.rz, made⟩) := by
            rw [Ledger.reshape_chunk chunk notNull, tier, Nat.sub_add_cancel (by omega)]
            simp only [apart, if_false, Option.or_none]
          refine .moved (u := v') target resizes (Ledger.blocks_eq_none.mp unused)
            ⟨enough, fitting.small⟩ (fun _ => by simp only; omega) noted ?_
          simp only [noted, Ledger.blocks_update, Ledger.blocks_erase]
          exact step

end ResizeCalls

-----------------------------------------------------------------------------------------
-- Every step
-----------------------------------------------------------------------------------------

section Steps

variable {C : Config} {w w' : World C} {v v' : Nat → RegionView} {op : Op}
  {s : HeapState C} {held : Nat → Option Block}

/-- `largest_free` keeps the blocks, also on a heap that was never used. -/
theorem HeapInv.largestFree_step (h : HeapInv s v held) (fits : C.PoolFits) (pages : s.FreshPages)
    : ∃ v', HeapStep s s.largestFree.1 v' held held := by
  obtain ⟨u, first, ready, _⟩ := h.ensure fits (fun _ => pages)
  obtain ⟨v', quiet, _⟩ := first.inv.largestFree ready
  have again := HeapState.ensure_ready ready
  have call : s.ensure.1.largestFree = s.largestFree := by
    rw [HeapState.largestFree, HeapState.largestFree, again]
  rw [call] at quiet
  exact ⟨v', first.trans quiet.step (fun _ _ => id) (fun _ _ => id)⟩

/-- `which` leaves the heap as `largest_free` does. -/
theorem HeapInv.which_state (h : HeapInv s v held) (fits : C.PoolFits) (pages : s.FreshPages)
    : s.which.1 = s.largestFree.1 := by
  obtain ⟨_, _, ready, _⟩ := h.ensure fits (fun _ => pages)
  have again := HeapState.ensure_ready ready
  simp only [HeapState.which, HeapState.regionCount, HeapState.total, HeapState.used,
    HeapState.available, HeapState.largestFree, again]

theorem HeapState.destroy_eq (s : HeapState C) (p : Nat) : s.destroy p = s.bbDealloc p := by
  by_cases zero : p = 0
  · simp [destroy, bbDealloc, zero]
  · simp [destroy, zero]

/-- A step that returns no block and changes no ledger. -/
theorem Effect.plain {t : HeapState C} (step : ∃ v', HeapStep w.heap t v' w.ledger.blocks
      w.ledger.blocks)
    : Effect w op ⟨t, w.ledger⟩ := by
  obtain ⟨v', step⟩ := step
  exact .kept (u := v') rfl step

theorem World.next_some {α : Type} {c : HeapState C × Exit α} {l : Ledger}
    (next : World.next c l = some w')
    : c.2.goesOn = true ∧ w' = ⟨c.1, l⟩ := by
  rw [World.next] at next
  split at next
  · next goes => exact ⟨goes, (Option.some.inj next).symm⟩
  · cases next

/-- What the adapter does with a chunk neither halts nor is seen in the heap. -/
theorem HeapState.andThen_advertise (c : HeapState C × Exit Chunk) (n a : Nat)
    : (andThen c (advertise n a)).1 = c.1
      ∧ ((andThen c (advertise n a)).2.goesOn = true → c.2.goesOn = true) := by
  refine ⟨advertise_state c n a, fun goes => ?_⟩
  obtain ⟨t, e⟩ := c
  cases e with
  | returned d => rfl
  | threw => rfl
  | halted => exact goes

/-- The effect of every step but a store. -/
theorem WorldInv.effect (h : WorldInv w) (fits : C.PoolFits) (allowed : w.Allowed op)
    (next : w.step op = some w') (calls : ∀ a b, op ≠ .store a b)
    : Effect w op w' := by
  obtain ⟨v, rep⟩ := h.rep
  cases op with
  | attach mem len tags tagCap =>
      cases Option.some.inj next
      cases rep.attachPool (z := false) allowed with
      | accepted ok fresh laid step _ _ _ => exact .plain ⟨_, step⟩
      | refused no step _ _ => exact .plain ⟨_, step⟩
  | init =>
      cases Option.some.inj next
      rw [w.heap.init_ensure]
      obtain ⟨v', step, _⟩ := rep.ensure fits (fun _ => (allowed : w.heap.Supplied).now)
      exact .plain ⟨v', step⟩
  | reset =>
      cases Option.some.inj next
      obtain ⟨u, first, ready, _⟩ := rep.ensure fits (fun _ => (allowed : w.heap.Supplied).now)
      obtain ⟨v', second, _⟩ := first.inv.reset ready
      have again := HeapState.ensure_ready ready
      have call : w.heap.ensure.1.reset = w.heap.reset := by
        rw [HeapState.reset, HeapState.reset, again]
      rw [call] at second
      have both := first.trans second (k := fun _ => none) (fun _ _ none => by cases none)
        (fun _ _ => id)
      exact .cleared rfl rfl both
  | used =>
      cases Option.some.inj next
      obtain ⟨v', step, _⟩ := rep.ensure fits (fun _ => (allowed : w.heap.Supplied).now)
      exact .plain ⟨v', step⟩
  | available =>
      cases Option.some.inj next
      obtain ⟨v', step, _⟩ := rep.ensure fits (fun _ => (allowed : w.heap.Supplied).now)
      exact .plain ⟨v', step⟩
  | total =>
      cases Option.some.inj next
      obtain ⟨v', step, _⟩ := rep.ensure fits (fun _ => (allowed : w.heap.Supplied).now)
      exact .plain ⟨v', step⟩
  | store a b => exact absurd rfl (calls a b)
  | heapAlloc n =>
      cases Option.some.inj next
      exact rep.heapAlloc_effect fits allowed rfl n
  | heapAllocAligned n alignment =>
      cases Option.some.inj next
      exact rep.heapAllocAligned_effect fits allowed rfl n alignment
  | heapDealloc p =>
      cases Option.some.inj next
      exact rep.heapDealloc_effect fits (fun _ => (allowed : w.heap.Supplied).now) rfl
  | shrinkAt p n =>
      cases Option.some.inj next
      exact h.shrinkAt_effect fits allowed rfl rfl rfl n
  | growAt p n =>
      cases Option.some.inj next
      exact h.growAt_effect fits allowed rfl rfl rfl n
  | heapLargestFree =>
      cases Option.some.inj next
      exact .plain (rep.largestFree_step fits (allowed : w.heap.Supplied).now)
  | balloc size =>
      obtain ⟨_, rfl⟩ := World.next_some next
      exact (rep.balloc fits allowed size).effect (a := nativeAlignment) none
  | zalloc size =>
      obtain ⟨_, rfl⟩ := World.next_some next
      exact (rep.zalloc fits allowed size).effect (a := nativeAlignment) none
  | alignedBalloc alignment size =>
      obtain ⟨_, rfl⟩ := World.next_some next
      exact (rep.alignedBalloc fits allowed size alignment).effect none
  | dealloc p =>
      obtain ⟨_, rfl⟩ := World.next_some next
      exact (rep.bbDealloc fits (fun _ => (allowed : w.heap.Supplied).now) p).effect rfl rep rfl
  | querySize p =>
      cases Option.some.inj next
      obtain ⟨v', step, _⟩ := rep.locate_ready fits (fun _ => (allowed : w.heap.Supplied).now) p
      exact .plain ⟨v', step⟩
  | resize old size preserve alignment =>
      obtain ⟨goes, rfl⟩ := World.next_some next
      exact h.resize_effect fits allowed rfl rfl goes
  | largestFree =>
      cases Option.some.inj next
      exact .plain (rep.largestFree_step fits (allowed : w.heap.Supplied).now)
  | which =>
      cases Option.some.inj next
      rw [rep.which_state fits (allowed : w.heap.Supplied).now]
      exact .plain (rep.largestFree_step fits (allowed : w.heap.Supplied).now)
  | create bytes alignment =>
      obtain ⟨goes, rfl⟩ := World.next_some next
      by_cases zero : bytes = 0
      · simp only [HeapState.create, zero, if_true]
        exact .plain ⟨v, rep.refl _⟩
      · simp only [HeapState.create, zero, if_false, HeapState.andThen_advertise]
        exact (rep.allocFor fits allowed bytes alignment).effect (some alignment)
  | destroy p =>
      obtain ⟨_, rfl⟩ := World.next_some next
      rw [w.heap.destroy_eq]
      exact (rep.bbDealloc fits (fun _ => (allowed : w.heap.Supplied).now) p).effect rfl rep rfl
  | containerResize old bytes preserve alignment =>
      obtain ⟨goes, rfl⟩ := World.next_some next
      by_cases zero : bytes = 0
      · have state : (w.heap.containerResize old bytes preserve alignment).1
            = (w.heap.bbDealloc old.ptr).1 := by
          simp only [HeapState.containerResize, zero, if_true, w.heap.destroy_eq, HeapState.andThen]
          cases (w.heap.bbDealloc old.ptr).2 <;> rfl
        rw [if_pos zero]
        exact (rep.bbDealloc fits (fun _ => (allowed : w.heap.Supplied).now) old.ptr).effect state
          rep rfl
      · have call : w.heap.containerResize old bytes preserve alignment
            = HeapState.andThen (w.heap.resize old bytes preserve alignment)
              (HeapState.advertise bytes alignment) := by
          rw [HeapState.containerResize, if_neg zero]
        rw [call] at goes ⊢
        obtain ⟨state, on⟩ := HeapState.andThen_advertise
          (w.heap.resize old bytes preserve alignment) bytes alignment
        rw [if_neg zero, state]
        exact h.resize_effect fits allowed rfl rfl (on goes)

/-- A store of a client leaves the representation alone. -/
theorem WorldInv.store (h : WorldInv w) {a : Nat} (allowed : w.Allowed (.store a 0)) (b : UInt8)
    : WorldInv (⟨{ w.heap with mem := w.heap.mem.store a b }, w.ledger⟩ : World C) := by
  obtain ⟨v, rep⟩ := h.rep
  have away : ¬HeapLoose w.heap w.ledger.blocks a
      ∧ (w.heap.inited = false → ¬C.Static a) := by
    rcases allowed with ⟨p, g, known, lo, hi⟩ | ⟨outside, clean⟩
    · have held := Ledger.blocks_eq_some.mpr ⟨g, known, rfl⟩
      obtain ⟨i, less, _⟩ := rep.held_inside held
      have ready := rep.inited_of_count (show 0 < w.heap.count by omega)
      exact ⟨fun loose => loose.2 ⟨p, g.block, held, lo, hi⟩, fun fresh => by
        rw [ready] at fresh
        cases fresh⟩
    · refine ⟨fun loose => ?_, clean⟩
      obtain ⟨⟨i, less, foot⟩, _⟩ := loose
      exact outside i less foot
  refine ⟨⟨v, rep.congr (fun x loose => ?_) (fun fresh x static => ?_)⟩, h.sane⟩
  · rw [Memory.store_of_ne]
    rintro rfl
    exact away.1 loose
  · rw [Memory.store_of_ne]
    · exact rep.clean fresh x static
    · rintro rfl
      exact away.2 fresh static

/-- Every step keeps the invariant. -/
theorem Effect.inv (effect : Effect w op w') (h : WorldInv w) : WorldInv w' := by
  cases effect with
  | kept same step => exact ⟨⟨_, step.inv⟩, by rw [same]; exact h.sane⟩
  | cleared _ gone step =>
      exact ⟨⟨_, step.inv⟩, fun p g known => by rw [gone] at known; cases known⟩
  | @added v' p g unused sane _ new step =>
      refine ⟨⟨_, step.inv⟩, fun q d known => ?_⟩
      rw [new] at known
      by_cases here : q = p
      · subst here
        rw [Function.update_self] at known
        cases known
        exact sane
      · rw [Function.update_of_ne here] at known
        exact h.sane q d known
  | @dropped v' p target gone step =>
      refine ⟨⟨_, step.inv⟩, fun q d known => ?_⟩
      rw [gone] at known
      by_cases here : q = p
      · subst here
        rw [Ledger.erase_same] at known
        cases known
      · rw [Ledger.erase_other _ here] at known
        exact h.sane q d known
  | @changed v' p g target _ sane _ new step =>
      refine ⟨⟨_, step.inv⟩, fun q d known => ?_⟩
      rw [new] at known
      by_cases here : q = p
      · subst here
        rw [Function.update_self] at known
        cases known
        exact sane
      · rw [Function.update_of_ne here] at known
        exact h.sane q d known
  | @moved v' p q g target _ unused sane _ new step =>
      refine ⟨⟨_, step.inv⟩, fun x d known => ?_⟩
      rw [new] at known
      by_cases here : x = q
      · subst here
        rw [Function.update_self] at known
        cases known
        exact sane
      · rw [Function.update_of_ne here] at known
        by_cases there : x = p
        · subst there
          rw [Ledger.erase_same] at known
          cases known
        · rw [Ledger.erase_other _ there] at known
          exact h.sane x d known

end Steps

end Bbmalloc
