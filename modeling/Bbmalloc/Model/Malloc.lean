import Bbmalloc.Model.Heap

/-! The public interface: `bb::balloc` and its relatives with their hardening options, and
the container adapter `bb_allocator`.
-/

namespace Bbmalloc

open Bbmalloc.Foundations

/-- How a call ends: with a value, with an exception, or by halting the program. -/
inductive Exit (α : Type)
  | returned (value : α)
  | threw
  | halted
  deriving DecidableEq, Repr

namespace HeapState

variable {C : Config}

/-- A call followed by the rest of its caller, which runs if the call returned. -/
def andThen {α β : Type} (c : HeapState C × Exit α)
    (rest : HeapState C → α → HeapState C × Exit β)
    : HeapState C × Exit β :=
  match c.2 with
  | .returned value => rest c.1 value
  | .threw => (c.1, .threw)
  | .halted => (c.1, .halted)

-----------------------------------------------------------------------------------------
-- Hardening
-----------------------------------------------------------------------------------------

/-- `check_add_overflow`: the sum, or `none` if it overflows. -/
def checkAddOverflow (C : Config) (a b : Nat) : Option Nat :=
  if a + b < C.buddy.word then some (a + b) else none

def poisonByte : UInt8 := 0x7B
def redzoneByte : UInt8 := 0xC1

def fill (h : HeapState C) (p n : Nat) (w : UInt8) : HeapState C :=
  { h with mem := h.mem.fill p n w }

def zeroOnAlloc (h : HeapState C) (p n : Nat) : HeapState C :=
  if C.zeroOnAlloc then h.fill p n 0 else h

def scrubOnFree (h : HeapState C) (p n : Nat) : HeapState C :=
  if C.zeroOnFree then h.fill p n 0
  else if C.poisonOnFree then h.fill p n poisonByte
  else h

def writeRedzone (h : HeapState C) (p user : Nat) : HeapState C :=
  if C.redzone then h.fill (p + user) C.rz redzoneByte else h

def verifyRedzone (h : HeapState C) (p user : Nat) : Bool :=
  if C.redzone then
    (List.range C.rz).all (fun i => (h.mem (p + user + i)).byte == redzoneByte)
  else true

def handleBadFree (h : HeapState C) : HeapState C × Exit Bool :=
  (h, if C.doubleFreeAction = .halt then .halted else .returned false)

def handleRedzoneTrip (h : HeapState C) : HeapState C × Exit Bool :=
  (h, if C.redzoneAction = .halt then .halted else .returned false)

/-- The redzone check in front of a release or a resize. -/
def checkRedzone (h : HeapState C) (p user : Nat) : HeapState C × Exit Bool :=
  if !h.verifyRedzone p user then h.handleRedzoneTrip else (h, .returned true)

-----------------------------------------------------------------------------------------
-- Allocation
-----------------------------------------------------------------------------------------

/-- `__fail`. -/
def fail (h : HeapState C) (n : Nat) : HeapState C × Exit Chunk :=
  let h := h.collect .failure n
  match C.failResult with
  | .null => (h, .returned .null)
  | .halt => (h, .halted)
  | .throw => (h, .threw)

/-- `__finish`. -/
def finish (h : HeapState C) (c : Chunk) (requested : Nat) : HeapState C × Chunk :=
  if c.ptr = 0 then (h, c)
  else
    let user := c.len - C.rz
    let h := h.writeRedzone c.ptr user
    let h := h.zeroOnAlloc c.ptr user
    let h := h.collect .alloc 0
    let h := h.collect .requested requested
    (h.collect .granted c.len, ⟨c.ptr, user⟩)

/-- The end of an allocation: a failure, or the finished block. -/
def conclude (c : HeapState C × Chunk) (size : Nat) : HeapState C × Exit Chunk :=
  if c.2.ptr = 0 then c.1.fail size
  else
    let d := c.1.finish c.2 size
    (d.1, .returned d.2)

def balloc (h : HeapState C) (size : Nat) : HeapState C × Exit Chunk :=
  if size = 0 then (h, .returned .null)
  else
    match checkAddOverflow C size C.rz with
    | none => h.fail size
    | some want => conclude (h.alloc want) size

def alignedBalloc (h : HeapState C) (alignment size : Nat) : HeapState C × Exit Chunk :=
  if size = 0 || !isPow2 alignment then (h, .returned .null)
  else if alignment ≤ nativeAlignment then h.balloc size
  else
    match checkAddOverflow C size C.rz with
    | none => h.fail size
    | some want => conclude (h.allocAligned want alignment) size

def zalloc (h : HeapState C) (size : Nat) : HeapState C × Exit Chunk :=
  andThen (h.balloc size) (fun h c =>
    (if c.ptr ≠ 0 then h.fill c.ptr c.len 0 else h, .returned c))

-----------------------------------------------------------------------------------------
-- Queries and release
-----------------------------------------------------------------------------------------

/-- `query_size`. -/
def querySize (h : HeapState C) (p : Nat) : HeapState C × Nat :=
  let l := h.locate p
  (l.1, if l.2.len = 0 then 0 else l.2.len - C.rz)

/-- `largest_free` of the public interface. -/
def bbLargestFree (h : HeapState C) : HeapState C × Nat :=
  let l := h.largestFree
  (l.1, if l.2 ≤ C.rz then 0 else l.2 - C.rz)

/-- `__release_located`. -/
def releaseLocated (h : HeapState C) (l : Located) (p block : Nat) : HeapState C × Bool :=
  let h := h.scrubOnFree p block
  let h := h.collect .dealloc 0
  let h := h.collect .freed block
  h.release l p

/-- `bb::dealloc`. -/
def bbDealloc (h : HeapState C) (p : Nat) : HeapState C × Exit Bool :=
  if p = 0 then (h, .returned true)
  else
    let l := h.locate p
    if l.2.len = 0 || l.2.len < C.rz then l.1.handleBadFree
    else
      andThen (l.1.checkRedzone p (l.2.len - C.rz)) (fun h _ =>
        let r := h.releaseLocated l.2 p l.2.len
        (r.1, .returned r.2))

-----------------------------------------------------------------------------------------
-- Resizing
-----------------------------------------------------------------------------------------

/-- The allocation that `resize` makes for a block that is new or has to move. -/
def allocFor (h : HeapState C) (size alignment : Nat) : HeapState C × Exit Chunk :=
  if alignment ≤ nativeAlignment then h.balloc size else h.alignedBalloc alignment size

/-- The part of `resize` that keeps a fitting block in place. -/
def resizeDown (h : HeapState C) (l : Located) (p : Nat) (want : Option Nat)
    : HeapState C × Chunk :=
  let block := l.len
  let nb :=
    match want with
    | none => (h, 0)
    | some want => h.shrinkAt l want
  if nb.2 ≠ 0 then
    let now := if nb.2 < C.rz then 0 else nb.2 - C.rz
    let h := nb.1.writeRedzone p now
    (if block > nb.2 then h.collect .freed (block - nb.2) else h, ⟨p, now⟩)
  else (nb.1, ⟨p, block - C.rz⟩)

/-- The part of `resize` that grows a block in place, null if it cannot. -/
def resizeUp (h : HeapState C) (l : Located) (p want : Nat) : HeapState C × Chunk :=
  let nb := h.growAt l p want
  if nb.2 ≠ 0 then
    let now := nb.2 - C.rz
    ((nb.1.writeRedzone p now).collect .granted (nb.2 - l.len), ⟨p, now⟩)
  else (nb.1, .null)

/-- The part of `resize` that moves the contents to a new block. -/
def resizeMove (h : HeapState C) (l : Located) (old : Chunk) (size preserve alignment : Nat)
    : HeapState C × Exit Chunk :=
  andThen (h.allocFor size alignment) (fun h next =>
    if next.ptr = 0 then (h, .returned .null)
    else
      let copy := if preserve > old.len then old.len else preserve
      let copy := if copy > l.len - C.rz then l.len - C.rz else copy
      let copy := if copy > next.len then next.len else copy
      let h : HeapState C :=
        if copy ≠ 0 then { h with mem := h.mem.copy next.ptr old.ptr copy } else h
      ((h.releaseLocated l old.ptr l.len).1, .returned next))

def resize (h : HeapState C) (old : Chunk) (size preserve alignment : Nat)
    : HeapState C × Exit Chunk :=
  if !isPow2 alignment then (h, .returned .null)
  else if old.ptr = 0 then h.allocFor size alignment
  else if size = 0 then andThen (h.bbDealloc old.ptr) (fun h _ => (h, .returned .null))
  else
    let l := h.locate old.ptr
    if l.2.len = 0 || l.2.len < C.rz then
      andThen l.1.handleBadFree (fun h _ => (h, .returned .null))
    else
      let usable := l.2.len - C.rz
      andThen (l.1.checkRedzone old.ptr usable) (fun h _ =>
        let placed : Bool := old.ptr &&& (alignment - 1) = 0
        let want := checkAddOverflow C size C.rz
        if size ≤ usable && placed then
          let c := h.resizeDown l.2 old.ptr want
          (c.1, .returned c.2)
        else
          let c :=
            match placed, want with
            | true, some want => h.resizeUp l.2 old.ptr want
            | _, _ => (h, .null)
          if c.2.ptr ≠ 0 then (c.1, .returned c.2)
          else c.1.resizeMove l.2 old size preserve alignment)

-----------------------------------------------------------------------------------------
-- The container adapter
-----------------------------------------------------------------------------------------

/-- `allocation_extent`. -/
def allocationExtent (C : Config) (bytes alignment : Nat) : Nat :=
  if bytes = 0 then 0
  else if C.usizeMax - C.rz < bytes then C.usizeMax
  else
    let want := bytes + C.rz
    if alignment ≤ nativeAlignment && want ≤ C.classSmall then
      let r := roundUpSat C want 16
      (if r < 16 then 16 else r) - C.rz
    else
      let v := if want < C.buddy.minBlock then C.buddy.minBlock else want
      if v ≤ 1 then (if alignment > 1 then alignment else 1)
      else
        let top := bitLength (v - 1)
        if top ≥ C.buddy.wordBits then C.usizeMax
        else
          let p := 1 <<< top
          (if p < alignment then alignment else p) - C.rz

/-- What the adapter makes of the block it got: an exception for null, else the extent. -/
def advertise (bytes alignment : Nat) (h : HeapState C) (c : Chunk)
    : HeapState C × Exit Chunk :=
  if c.ptr = 0 then (h, .threw)
  else (h, .returned ⟨c.ptr, allocationExtent C bytes alignment⟩)

/-- `bb_allocator::create`. -/
def create (h : HeapState C) (bytes alignment : Nat) : HeapState C × Exit Chunk :=
  if bytes = 0 then (h, .returned .null)
  else andThen (h.allocFor bytes alignment) (advertise bytes alignment)

/-- `bb_allocator::destroy`. -/
def destroy (h : HeapState C) (p : Nat) : HeapState C × Exit Bool :=
  if p ≠ 0 then h.bbDealloc p else (h, .returned true)

/-- `bb_allocator::resize`. -/
def containerResize (h : HeapState C) (old : Chunk) (bytes preserve alignment : Nat)
    : HeapState C × Exit Chunk :=
  if bytes = 0 then andThen (h.destroy old.ptr) (fun h _ => (h, .returned .null))
  else andThen (h.resize old bytes preserve alignment) (advertise bytes alignment)

end HeapState

end Bbmalloc
