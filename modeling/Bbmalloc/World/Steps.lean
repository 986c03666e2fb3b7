import Bbmalloc.Malloc.Resizing
import Bbmalloc.Model.Diagnostics

/-! The heap and its clients as one system. The ledger records which blocks the clients hold;
a step is one call with arbitrary arguments, or a store of a client. The steps of the public
interface and those of the heap below it may be mixed in any order.
-/

namespace Bbmalloc

open Bbmalloc.Foundations

-----------------------------------------------------------------------------------------
-- The ledger
-----------------------------------------------------------------------------------------

/-- A block that a client holds: the whole block, the bytes it was last asked to have (with
the redzone), and the alignment of the last call of the container adapter that returned the
block, if there was one.
-/
structure Grant where
  block : Block
  asked : Nat
  made : Option Nat
  deriving DecidableEq, Repr

/-- The blocks the clients hold, by address. -/
abbrev Ledger := Nat → Option Grant

/-- The blocks of the ledger. -/
def Ledger.blocks (l : Ledger) (p : Nat) : Option Block := (l p).map Grant.block

/-- The tier of a block is read off its address: small blocks lie in sheets. -/
def HeapState.tierOf {C : Config} (s : HeapState C) (p : Nat) : Tier :=
  if (List.range s.count).any (fun i => (s.regions i).tlsf.sheets.any (fun sh =>
      decide ((s.geo i).base + sh ≤ p ∧ p < (s.geo i).base + sh + C.tlsf.sheet)))
  then .tlsf else .buddy

namespace Ledger

variable {C : Config}

/-- The block at `p` is no longer held. -/
def erase (l : Ledger) (p : Nat) : Ledger := Function.update l p none

/-- A chunk that a call returned is held from now on; `margin` is what its length leaves out. -/
def note (l : Ledger) (s : HeapState C) (c : Chunk) (margin asked : Nat) (made : Option Nat)
    : Ledger :=
  if c.ptr = 0 then l
  else Function.update l c.ptr (some ⟨⟨c.len + margin, s.tierOf c.ptr⟩, asked, made⟩)

/-- After an allocation through the public interface. -/
def noteExit (l : Ledger) (c : HeapState C × Exit Chunk) (asked : Nat) (made : Option Nat)
    : Ledger :=
  match c.2 with
  | .returned d => l.note c.1 d C.rz asked made
  | _ => l

/-- After a resize in place of the block at `p`, which failed if `len` is 0. -/
def recut (l : Ledger) (p len asked : Nat) : Ledger :=
  if len = 0 then l
  else Function.update l p ((l p).map (fun g => ⟨⟨len, g.block.tier⟩, asked, g.made⟩))

/-- After a call of `bb::dealloc`. -/
def release (l : Ledger) (s : HeapState C) (p : Nat) : Ledger :=
  if (s.bbDealloc p).2 = .returned true then l.erase p else l

/-- After a call of `bb::resize`, which the container adapter made if there is an alignment. A
block that stays in place keeps the one it had otherwise.
-/
def reshape (l : Ledger) (s : HeapState C) (old : Chunk) (size preserve a : Nat)
    (made : Option Nat)
    : Ledger :=
  match (s.resize old size preserve a).2 with
  | .returned d =>
      if d.ptr ≠ 0 then
        (l.erase old.ptr).note (s.resize old size preserve a).1 d C.rz (size + C.rz)
          (made.or (if d.ptr = old.ptr then (l old.ptr).bind Grant.made else none))
      else if isPow2 a && size = 0 then l.release s old.ptr
      else l
  | _ => l

end Ledger

-----------------------------------------------------------------------------------------
-- Steps
-----------------------------------------------------------------------------------------

/-- The heap and the ledger of its clients. -/
structure World (C : Config) where
  heap : HeapState C
  ledger : Ledger

/-- The calls of the heap and of the public interface, and the stores of the clients. -/
inductive Op
  | attach (mem len tags tagCap : Nat)
  | init
  | reset
  | used
  | available
  | total
  | store (a : Nat) (w : UInt8)
  | heapAlloc (n : Nat)
  | heapAllocAligned (n alignment : Nat)
  | heapDealloc (p : Nat)
  | shrinkAt (p n : Nat)
  | growAt (p n : Nat)
  | heapLargestFree
  | balloc (size : Nat)
  | zalloc (size : Nat)
  | alignedBalloc (alignment size : Nat)
  | dealloc (p : Nat)
  | querySize (p : Nat)
  | resize (old : Chunk) (size preserve alignment : Nat)
  | largestFree
  | which
  | create (bytes alignment : Nat)
  | destroy (p : Nat)
  | containerResize (old : Chunk) (bytes preserve alignment : Nat)

/-- The steps that a client of the public interface can take. -/
def Op.isPublic : Op → Bool
  | .heapAlloc _ => false
  | .heapAllocAligned _ _ => false
  | .heapDealloc _ => false
  | .shrinkAt _ _ => false
  | .growAt _ _ => false
  | .heapLargestFree => false
  | _ => true

/-- The block that a step is asked to release or to resize. -/
def Op.target : Op → Option Nat
  | .heapDealloc p => some p
  | .shrinkAt p _ => some p
  | .growAt p _ => some p
  | .dealloc p => some p
  | .resize old _ _ _ => some old.ptr
  | .destroy p => some p
  | .containerResize old _ _ _ => some old.ptr
  | _ => none

/-- The steps that may change a block and keep it. -/
def Op.resizes : Op → Bool
  | .shrinkAt _ _ => true
  | .growAt _ _ => true
  | .resize _ _ _ _ => true
  | .containerResize _ _ _ _ => true
  | _ => false

/-- A call that halts the program is the last one. -/
def Exit.goesOn {α : Type} : Exit α → Bool
  | .halted => false
  | _ => true

namespace World

variable {C : Config}

/-- The world after a call, if there is one. -/
def next {α : Type} (c : HeapState C × Exit α) (l : Ledger) : Option (World C) :=
  if c.2.goesOn then some ⟨c.1, l⟩ else none

/-- One step; `none` if it halts the program. -/
def step (w : World C) : Op → Option (World C)
  | .attach mem len tags tagCap => some ⟨(w.heap.attach mem len tags tagCap).1, w.ledger⟩
  | .init => some ⟨w.heap.init.1, w.ledger⟩
  | .reset => some ⟨w.heap.reset, fun _ => none⟩
  | .used => some ⟨w.heap.used.1, w.ledger⟩
  | .available => some ⟨w.heap.available.1, w.ledger⟩
  | .total => some ⟨w.heap.total.1, w.ledger⟩
  | .store a b => some ⟨{ w.heap with mem := w.heap.mem.store a b }, w.ledger⟩
  | .heapAlloc n =>
      let c := w.heap.alloc n
      some ⟨c.1, w.ledger.note c.1 c.2 0 n none⟩
  | .heapAllocAligned n alignment =>
      let c := w.heap.allocAligned n alignment
      some ⟨c.1, w.ledger.note c.1 c.2 0 n none⟩
  | .heapDealloc p =>
      let c := w.heap.dealloc p
      some ⟨c.1, if c.2 then w.ledger.erase p else w.ledger⟩
  | .shrinkAt p n =>
      let l := w.heap.locate p
      let c := l.1.shrinkAt l.2 n
      some ⟨c.1, w.ledger.recut p c.2 n⟩
  | .growAt p n =>
      let l := w.heap.locate p
      let c := l.1.growAt l.2 p n
      some ⟨c.1, w.ledger.recut p c.2 n⟩
  | .heapLargestFree => some ⟨w.heap.largestFree.1, w.ledger⟩
  | .balloc size =>
      let c := w.heap.balloc size
      next c (w.ledger.noteExit c (size + C.rz) none)
  | .zalloc size =>
      let c := w.heap.zalloc size
      next c (w.ledger.noteExit c (size + C.rz) none)
  | .alignedBalloc alignment size =>
      let c := w.heap.alignedBalloc alignment size
      next c (w.ledger.noteExit c (size + C.rz) none)
  | .dealloc p => next (w.heap.bbDealloc p) (w.ledger.release w.heap p)
  | .querySize p => some ⟨(w.heap.querySize p).1, w.ledger⟩
  | .resize old size preserve alignment =>
      next (w.heap.resize old size preserve alignment)
        (w.ledger.reshape w.heap old size preserve alignment none)
  | .largestFree => some ⟨w.heap.bbLargestFree.1, w.ledger⟩
  | .which => some ⟨w.heap.which.1, w.ledger⟩
  | .create bytes alignment =>
      next (w.heap.create bytes alignment)
        (if bytes = 0 then w.ledger
        else w.ledger.noteExit (w.heap.allocFor bytes alignment) (bytes + C.rz) (some alignment))
  | .destroy p => next (w.heap.destroy p) (w.ledger.release w.heap p)
  | .containerResize old bytes preserve alignment =>
      next (w.heap.containerResize old bytes preserve alignment)
        (if bytes = 0 then w.ledger.release w.heap old.ptr
        else w.ledger.reshape w.heap old bytes preserve alignment (some alignment))

/-- What the environment guarantees: attached memory is clear of the heap, clients store into
their own blocks or outside the heap, and the page source hands out memory of its own.
-/
def Allowed (w : World C) : Op → Prop
  | .attach mem len tags tagCap => w.heap.Clear mem len tags tagCap false
  | .store a _ =>
      (∃ p g, w.ledger p = some g ∧ p ≤ a ∧ a < p + g.block.len)
      ∨ ((∀ i < w.heap.count, ¬Footprint (w.heap.geo i) a)
        ∧ (w.heap.inited = false → ¬C.Static a))
  | _ => w.heap.Supplied

/-- The worlds that steps of the given kind lead to from program start. -/
inductive Reached (ok : Op → Prop) : World C → Prop
  | start {m : Memory} (fits : C.PoolFits) (clean : ∀ a, C.Static a → (m a).byte = 0)
      : Reached ok ⟨HeapState.zero C m, fun _ => none⟩
  | step {w w' : World C} {op : Op} (before : Reached ok w) (kind : ok op)
      (allowed : w.Allowed op) (next : w.step op = some w')
      : Reached ok w'

end World

end Bbmalloc
