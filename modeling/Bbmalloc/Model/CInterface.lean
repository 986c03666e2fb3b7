import Bbmalloc.Foundations.ClientBlocks
import Bbmalloc.Model.Malloc

/-! The C side of the public interface: `bb::malloc` and its relatives, and the `extern "C"`
functions of the shim on top of them. All of the latter are `noexcept`.
-/

namespace Bbmalloc

open Bbmalloc.Foundations

namespace HeapState

variable {C : Config}

-----------------------------------------------------------------------------------------
-- bb::malloc and its relatives
-----------------------------------------------------------------------------------------

/-- The pointer of the chunk that a call returns. -/
def ptrOf (c : HeapState C × Exit Chunk) : HeapState C × Exit Nat :=
  andThen c (fun h d => (h, .returned d.ptr))

/-- `check_mul_overflow`: the product, or `none` if it overflows. -/
def checkMulOverflow (C : Config) (a b : Nat) : Option Nat :=
  if a * b < C.buddy.word then some (a * b) else none

/-- `bb::alloc`. -/
def bbAlloc (h : HeapState C) (size : Nat) : HeapState C × Exit Nat := ptrOf (h.balloc size)

def salloc (h : HeapState C) (size : Nat) : HeapState C × Exit Nat := ptrOf (h.zalloc size)

def malloc (h : HeapState C) (size : Nat) : HeapState C × Exit Nat := h.bbAlloc size

def calloc (h : HeapState C) (num size : Nat) : HeapState C × Exit Nat :=
  match checkMulOverflow C num size with
  | none => ptrOf (h.fail size)
  | some total => h.salloc total

def realloc (h : HeapState C) (p size : Nat) : HeapState C × Exit Nat :=
  if p = 0 then h.bbAlloc size
  else ptrOf (h.resize ⟨p, C.usizeMax⟩ size C.usizeMax nativeAlignment)

def free (h : HeapState C) (p : Nat) : HeapState C × Exit Unit :=
  andThen (h.bbDealloc p) (fun h _ => (h, .returned ()))

def alignedAlloc (h : HeapState C) (alignment size : Nat) : HeapState C × Exit Nat :=
  if !isPow2 alignment then ptrOf (h.fail size)
  else if size = 0 || size &&& (alignment - 1) ≠ 0 then ptrOf (h.fail size)
  else ptrOf (h.alignedBalloc alignment size)

end HeapState

-----------------------------------------------------------------------------------------
-- The shim
-----------------------------------------------------------------------------------------

/-- An exception that leaves a `noexcept` function terminates the program. -/
def Exit.noexcept {α : Type} : Exit α → Exit α
  | .threw => .halted
  | e => e

namespace Shim

open HeapState

variable {C : Config}

/-- The body of an `extern "C"` function, `noexcept`. -/
def call {α : Type} (c : HeapState C × Exit α) : HeapState C × Exit α := (c.1, c.2.noexcept)

def malloc (h : HeapState C) (size : Nat) : HeapState C × Exit Nat := call (h.malloc size)

def calloc (h : HeapState C) (num size : Nat) : HeapState C × Exit Nat := call (h.calloc num size)

def realloc (h : HeapState C) (p size : Nat) : HeapState C × Exit Nat := call (h.realloc p size)

def free (h : HeapState C) (p : Nat) : HeapState C × Exit Unit := call (h.free p)

/-- `aligned_alloc`. -/
def alignedAlloc (h : HeapState C) (alignment size : Nat) : HeapState C × Exit Nat :=
  call (h.alignedAlloc alignment size)

def memalign (h : HeapState C) (alignment size : Nat) : HeapState C × Exit Nat :=
  call (ptrOf (h.alignedBalloc alignment size))

/-- `posix_memalign`: the code, and the pointer that it stores through `out`. -/
def posixMemalign (h : HeapState C) (out alignment size : Nat)
    : HeapState C × Exit (Nat × Option Nat) :=
  if out = 0 || alignment < C.buddy.ptrBytes || !isPow2 alignment then (h, .returned (22, none))
  else
    call (andThen (ptrOf (h.alignedBalloc alignment size)) (fun h p =>
      if p = 0 && size ≠ 0 then (h, .returned (12, none))
      else ({ h with mem := h.mem.storeWord out C.buddy.ptrBytes p }, .returned (0, some p))))

/-- `valloc`; `page` is `micron::page_size`. -/
def valloc (h : HeapState C) (page size : Nat) : HeapState C × Exit Nat :=
  call (ptrOf (h.alignedBalloc page size))

def pvalloc (h : HeapState C) (page size : Nat) : HeapState C × Exit Nat :=
  let n := roundUpSat C size page
  if n = C.usizeMax then (h, .returned 0) else call (ptrOf (h.alignedBalloc page n))

/-- A call of a C program, with its answer; a store is one of the program's own. -/
def exec (page : Nat) (h : HeapState C) : ClientCall UInt8 → HeapState C × Exit ClientAnswer
  | .malloc size => answer (malloc h size)
  | .calloc num size => answer (calloc h num size)
  | .realloc p size => answer (realloc h p size)
  | .free p => andThen (free h p) (fun h _ => (h, .returned .done))
  | .alignedAlloc alignment size => answer (alignedAlloc h alignment size)
  | .memalign alignment size => answer (memalign h alignment size)
  | .posixMemalign out alignment size =>
      andThen (posixMemalign h out alignment size) (fun h r => (h, .returned (.code r.1 r.2)))
  | .valloc size => answer (valloc h page size)
  | .pvalloc size => answer (pvalloc h page size)
  | .store a x => ({ h with mem := h.mem.store a x }, .returned .done)
where
  answer (c : HeapState C × Exit Nat) : HeapState C × Exit ClientAnswer :=
    andThen c (fun h q => (h, .returned (.ptr q)))

end Shim

end Bbmalloc
