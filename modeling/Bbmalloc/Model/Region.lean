import Bbmalloc.Model.CacheList
import Bbmalloc.Model.FreeList

/-! One memory region, `__region`: a buddy list over the whole region and a TLSF list over
the sheets that it takes from the buddy list. Both work on the same memory.
-/

namespace Bbmalloc

open Bbmalloc.Foundations

-----------------------------------------------------------------------------------------
-- Statistics
-----------------------------------------------------------------------------------------

/-- The counters of `bb_stats`, and `clamps`, a history variable that nothing reads: how often
`currentUsage` was too small for what was freed.
-/
structure Stats where
  allocRequests : Nat
  deallocRequests : Nat
  bytesRequested : Nat
  bytesGranted : Nat
  bytesFreed : Nat
  currentUsage : Nat
  sheetsAcquired : Nat
  sheetsReleased : Nat
  fallbacks : Nat
  failures : Nat
  clamps : Nat

/-- The counters at zero. -/
def Stats.zero : Stats := ⟨0, 0, 0, 0, 0, 0, 0, 0, 0, 0, 0⟩

inductive StatType
  | alloc
  | dealloc
  | requested
  | granted
  | freed
  | sheetAcquired
  | sheetReleased
  | fallback
  | failure

/-- A 64-bit counter advanced by `n`. -/
def bump (counter n : Nat) : Nat := (counter + n) % 2 ^ 64

/-- `collect_stats`. -/
def Stats.collect (st : Stats) (enabled : Bool) (t : StatType) (n : Nat) : Stats :=
  if enabled then
    match t with
    | .alloc => { st with allocRequests := bump st.allocRequests 1 }
    | .dealloc => { st with deallocRequests := bump st.deallocRequests 1 }
    | .requested => { st with bytesRequested := bump st.bytesRequested n }
    | .granted =>
        { st with
          bytesGranted := bump st.bytesGranted n
          currentUsage := bump st.currentUsage n }
    | .freed =>
        { st with
          bytesFreed := bump st.bytesFreed n
          currentUsage := if n > st.currentUsage then 0 else st.currentUsage - n
          clamps := if n > st.currentUsage then st.clamps + 1 else st.clamps }
    | .sheetAcquired => { st with sheetsAcquired := bump st.sheetsAcquired 1 }
    | .sheetReleased => { st with sheetsReleased := bump st.sheetsReleased 1 }
    | .fallback => { st with fallbacks := bump st.fallbacks 1 }
    | .failure => { st with failures := bump st.failures 1 }
  else st

-----------------------------------------------------------------------------------------
-- State
-----------------------------------------------------------------------------------------

/-- The members of `__region`, and `rollbacks`, a history variable that nothing reads: how
often a sheet had to be given back or kept because the other tier refused.
-/
structure Region where
  buddy : BuddyList
  tlsf : TlsfList
  spare : Nat
  live : Bool
  rollbacks : Nat

/-- A region together with the memory and the counters it works on. -/
structure RegionState (C : Config) extends Region where
  mem : Memory
  stats : Stats

namespace RegionState

variable {C : Config}

/-- The buddy list on the shared memory. -/
def buddyState (r : RegionState C) : BuddyState C.buddy := ⟨r.buddy, r.mem⟩

/-- The TLSF list on the shared memory. -/
def tlsfState (r : RegionState C) : TlsfState C.tlsf := ⟨r.tlsf, r.mem⟩

def setBuddy (r : RegionState C) (b : BuddyState C.buddy) : RegionState C :=
  { r with buddy := b.toBuddyList, mem := b.mem }

def setTlsf (r : RegionState C) (t : TlsfState C.tlsf) : RegionState C :=
  { r with tlsf := t.toTlsfList, mem := t.mem }

def collect (r : RegionState C) (t : StatType) (n : Nat) : RegionState C :=
  { r with stats := r.stats.collect C.collectStats t n }

-----------------------------------------------------------------------------------------
-- Set-up
-----------------------------------------------------------------------------------------

def attach (r : RegionState C) (mem len tags tagCap : Nat) (zeroed : Bool)
    : RegionState C × Bool :=
  let b := r.buddyState.init mem len tags tagCap C.maxAlignment zeroed
  let r : RegionState C := { r.setBuddy b.1 with live := b.2, spare := nullOff }
  (if r.live then r.setTlsf (r.tlsfState.init r.buddy.base) else r, r.live)

def reset (r : RegionState C) : RegionState C :=
  if !r.live then r
  else
    let r := r.setBuddy r.buddyState.reset.1
    let r := r.setTlsf (r.tlsfState.init r.buddy.base)
    { r with spare := nullOff }

def contains (r : RegionState C) (p : Nat) : Bool := r.buddyState.inRange p

def overlaps (r : RegionState C) (lo len : Nat) : Bool :=
  if !r.live then false
  else
    let a := lo
    let b := (a + len) % C.buddy.word
    let q := r.buddy.rawMem
    let s := (q + r.buddy.rawLen) % C.buddy.word
    a < s && q < b

def offOf (r : RegionState C) (p : Nat) : Nat := wrapSub C.buddy.word p r.buddy.base % u32

-----------------------------------------------------------------------------------------
-- Sheets
-----------------------------------------------------------------------------------------

def releaseSheet (r : RegionState C) (sheet : Nat) : RegionState C :=
  if !r.live || sheet == nullOff then r
  else
    let p := r.buddy.base + sheet
    if !r.buddyState.inRange p || !r.buddyState.isSheetAt sheet then r
    else
      let t := r.tlsfState.removeSheet sheet
      let r := r.setTlsf t.1
      if !t.2 then r
      else
        let r := r.setBuddy (r.buddyState.unmarkSheet p)
        let b := r.buddyState.deallocate p
        let r := r.setBuddy b.1
        if b.2 ≠ .ok then
          let r := r.setBuddy (r.buddyState.markSheet p)
          let r := r.setTlsf (r.tlsfState.addSheet sheet).1
          { r with rollbacks := r.rollbacks + 1 }
        else
          let r : RegionState C :=
            { r with spare := if r.spare = sheet then nullOff else r.spare }
          r.collect .sheetReleased 0

def flushSpare (r : RegionState C) : RegionState C :=
  if r.spare = nullOff then r
  else
    let s := r.spare
    let r : RegionState C := { r with spare := nullOff }
    if r.buddyState.isSheetAt s && r.tlsfState.sheetEmpty s then r.releaseSheet s else r

def smallAllocSlow (r : RegionState C) (n : Nat) : RegionState C × Chunk :=
  if r.tlsf.count ≥ C.tlsf.maxSheets then (r, .null)
  else
    let s := r.buddyState.allocate C.tlsf.sheet
    let r := r.setBuddy s.1
    if s.2.ptr = 0 then (r, .null)
    else
      let fresh := r.offOf s.2.ptr
      let t := r.tlsfState.addSheet fresh
      let r := r.setTlsf t.1
      if !t.2 then
        let r := r.setBuddy (r.buddyState.deallocate s.2.ptr).1
        ({ r with rollbacks := r.rollbacks + 1 }, .null)
      else
        let r := r.setBuddy (r.buddyState.markSheet s.2.ptr)
        let r := r.collect .sheetAcquired 0
        let c := r.tlsfState.allocateNarrow C.sheet_narrow n
        let r := r.setTlsf c.1
        if c.2.ptr = 0 then
          let r := r.releaseSheet fresh
          ({ r with rollbacks := r.rollbacks + 1 }, .null)
        else (r, c.2)

def smallAlloc (r : RegionState C) (n : Nat) : RegionState C × Chunk :=
  let c := r.tlsfState.allocateNarrow C.sheet_narrow n
  let r := r.setTlsf c.1
  if c.2.ptr = 0 then r.smallAllocSlow n else (r, c.2)

def sheetEmptied (r : RegionState C) (sheet : Nat) : RegionState C :=
  if r.spare = nullOff || !r.tlsfState.sheetEmpty r.spare then { r with spare := sheet }
  else r.releaseSheet sheet

def smallFree (r : RegionState C) (hdrOff : Nat) : RegionState C :=
  let t := r.tlsfState.deallocate hdrOff
  let r := r.setTlsf t.1
  if t.2 ≠ nullOff && t.2 ≠ r.spare then r.sheetEmptied t.2 else r

-----------------------------------------------------------------------------------------
-- Large requests
-----------------------------------------------------------------------------------------

/-- `buddy.allocate` of the region. -/
def buddyAlloc (r : RegionState C) (n : Nat) : RegionState C × Chunk :=
  let c := r.buddyState.allocate n
  (r.setBuddy c.1, c.2)

/-- `buddy.allocate_aligned` of the region. -/
def buddyAllocAligned (r : RegionState C) (n alignment : Nat) : RegionState C × Chunk :=
  let c := r.buddyState.allocateAligned n alignment
  (r.setBuddy c.1, c.2)

/-- `tlsf.allocate` of the region. -/
def tlsfAlloc (r : RegionState C) (n : Nat) : RegionState C × Chunk :=
  let c := r.tlsfState.allocateNarrow C.sheet_narrow n
  (r.setTlsf c.1, c.2)

def largeAllocSlow (r : RegionState C) (n : Nat) : RegionState C × Chunk :=
  if r.spare = nullOff || !r.buddyState.servable n then (r, .null)
  else r.flushSpare.buddyAlloc n

def largeAlloc (r : RegionState C) (n : Nat) : RegionState C × Chunk :=
  let c := r.buddyAlloc n
  if c.2.ptr = 0 then c.1.largeAllocSlow n else c

def largeAllocAligned (r : RegionState C) (n alignment : Nat) : RegionState C × Chunk :=
  let c := r.buddyAllocAligned n alignment
  if c.2.ptr = 0 && c.1.spare ≠ nullOff && c.1.buddyState.servableAligned n alignment then
    c.1.flushSpare.buddyAllocAligned n alignment
  else c

-----------------------------------------------------------------------------------------
-- Gauges
-----------------------------------------------------------------------------------------

/-- What `used` subtracts from the buddy counter. -/
def credit (r : RegionState C) : Nat :=
  let credit := r.tlsf.count * C.tlsf.dataBytes
  if r.spare ≠ nullOff && r.buddyState.isSheetAt r.spare && r.tlsfState.sheetEmpty r.spare then
    credit + (C.tlsf.sheet - C.tlsf.dataBytes)
  else credit

def used (r : RegionState C) : Nat :=
  let b := r.buddy.allocatedBytes
  (if b < r.credit then 0 else b - r.credit) + r.tlsf.allocatedBytes

def available (r : RegionState C) : Nat :=
  if !r.live then 0
  else
    let t := r.buddy.total
    let u := r.used
    if u ≥ t then 0 else t - u

def largestFree (r : RegionState C) : RegionState C × Nat :=
  let r := r.flushSpare
  let b := r.buddyState.largestFree
  let r := r.setBuddy b.1
  let t := r.tlsfState.largestFree
  let t := if t > C.classSmall then C.classSmall else t
  (r, if b.2 > t then b.2 else t)

end RegionState

end Bbmalloc
