import Bbmalloc.Model.Region

/-! The heap, `__heap`: up to eight regions, the pool that fills the first one on demand,
and the growth path that attaches more of them.
-/

namespace Bbmalloc

open Bbmalloc.Foundations

-----------------------------------------------------------------------------------------
-- State
-----------------------------------------------------------------------------------------

/-- The members of `__heap`. -/
structure Heap where
  regions : Nat → Region
  count : Nat
  inited : Bool

/-- The heap together with the memory, the counters and the page requests made so far, most
recent first.
-/
structure HeapState (C : Config) extends Heap where
  mem : Memory
  stats : Stats
  requests : List Nat

inductive Tier
  | none
  | tlsf
  | buddy
  deriving DecidableEq, Repr

/-- `__located`: the region of a pointer, and the length, the offset or order, and the tier
of the block that starts there.
-/
structure Located where
  r : Option Nat
  len : Nat
  off : Nat
  t : Tier
  deriving DecidableEq, Repr

/-- `__pool_desc`. -/
structure PoolDesc where
  mem : Nat
  len : Nat
  tags : Nat
  tagCap : Nat
  zeroed : Bool

/-- The descriptor without memory. -/
def PoolDesc.null : PoolDesc := ⟨0, 0, 0, 0, false⟩

/-- Static storage before its first use. -/
def Region.zero : Region where
  buddy :=
    { base := 0, total := 0, blockTags := 0, maxOrder := 0, baseAlign := 0, tagCount := 0
      rawMem := 0, rawLen := 0, extTags := 0, extCap := 0, wantAlign := 0, freeMask := 0
      allocatedBytes := 0, freeLists := fun _ => 0, scratch := ⟨0, 0⟩
      cacheHead := fun _ => 0, cacheCount := fun _ => 0 }
  tlsf :=
    { rbase := 0, flBitmap := 0, slBitmap := fun _ => 0, allocatedBytes := 0, count := 0
      scratch := ⟨0, 0, 0, 0⟩, heads := fun _ => 0, sheets := [] }
  spare := 0
  live := false
  rollbacks := 0

/-- The heap at program start, in a given memory. -/
def HeapState.zero (C : Config) (m : Memory) : HeapState C where
  regions := fun _ => Region.zero
  count := 0
  inited := false
  mem := m
  stats := Stats.zero
  requests := []

namespace HeapState

variable {C : Config}

/-- Region `i` on the shared memory and counters. -/
def region (h : HeapState C) (i : Nat) : RegionState C := ⟨h.regions i, h.mem, h.stats⟩

def setRegion (h : HeapState C) (i : Nat) (r : RegionState C) : HeapState C :=
  { h with regions := Function.update h.regions i r.toRegion, mem := r.mem, stats := r.stats }

/-- A call on region `i`. -/
def onRegion {α : Type} (h : HeapState C) (i : Nat) (f : RegionState C → RegionState C × α)
    : HeapState C × α :=
  let c := f (h.region i)
  (h.setRegion i c.1, c.2)

def collect (h : HeapState C) (t : StatType) (n : Nat) : HeapState C :=
  { h with stats := h.stats.collect C.collectStats t n }

-----------------------------------------------------------------------------------------
-- Attaching regions
-----------------------------------------------------------------------------------------

def clearOfAll (h : HeapState C) (lo len : Nat) : Bool :=
  (List.range h.count).all (fun i => !(h.region i).overlaps lo len)

/-- Whether `__attach` refuses an external tag array. -/
def tagsRefused (h : HeapState C) (mem len tags tagCap : Nat) : Bool :=
  tags ≠ 0
    && (tagCap = 0
      || (tags + tagCap) % C.buddy.word < tags
      || (tags < (mem + len) % C.buddy.word && mem < (tags + tagCap) % C.buddy.word)
      || !h.clearOfAll tags tagCap)

/-- `__attach`. -/
def attachPool (h : HeapState C) (mem len tags tagCap : Nat) (zeroed : Bool)
    : HeapState C × Bool :=
  if h.count ≥ C.maxRegions || mem = 0 || len = 0 then (h, false)
  else if (mem + len) % C.buddy.word < mem then (h, false)
  else if !h.clearOfAll mem len then (h, false)
  else if h.tagsRefused mem len tags tagCap then (h, false)
  else
    let r := h.onRegion h.count (fun r => r.attach mem len tags tagCap zeroed)
    if !r.2 then r else ({ r.1 with count := h.count + 1, inited := true }, true)

/-- `attach`. -/
def attach (h : HeapState C) (mem len tags tagCap : Nat) : HeapState C × Bool :=
  h.attachPool mem len tags tagCap false

/-- `micron::port::page_alloc`. -/
def pageAlloc (h : HeapState C) (n : Nat) : HeapState C × Option Chunk :=
  ({ h with requests := n :: h.requests }, C.pageAlloc h.requests n)

/-- The descriptor of a page allocation. -/
def pageDesc : Option Chunk → PoolDesc
  | none => .null
  | some s => ⟨s.ptr, s.len, 0, 0, false⟩

/-- `__configured_pool`. -/
def configuredPool (h : HeapState C) : HeapState C × PoolDesc :=
  match C.pool with
  | .none => (h, .null)
  | .static mem len tags => (h, ⟨mem, len, tags, len / C.buddy.minBlock, true⟩)
  | .linker lo hi => (h, if hi ≤ lo then .null else ⟨lo, hi - lo, 0, 0, false⟩)
  | .port bytes =>
      let s := h.pageAlloc bytes
      (s.1, pageDesc s.2)

def init (h : HeapState C) : HeapState C × Bool :=
  if h.inited then (h, h.count > 0)
  else
    let h : HeapState C := { h with inited := true }
    let d := h.configuredPool
    let h :=
      if d.2.mem ≠ 0 then
        (d.1.attachPool d.2.mem d.2.len d.2.tags d.2.tagCap d.2.zeroed).1
      else d.1
    (h, h.count > 0)

/-- `__ensure`. -/
def ensure (h : HeapState C) : HeapState C × Bool :=
  if h.inited then (h, h.count > 0) else h.init

/-- `f` applied to each of the regions `i`, `i + 1`, …, as long as there are any. -/
def eachFrom (f : RegionState C → RegionState C) : (fuel i : Nat) → HeapState C → HeapState C
  | 0, _, h => h
  | k + 1, i, h => eachFrom f k (i + 1) (h.setRegion i (f (h.region i)))

def reset (h : HeapState C) : HeapState C :=
  let h := h.ensure.1
  eachFrom RegionState.reset h.count 0 h

-----------------------------------------------------------------------------------------
-- Growth
-----------------------------------------------------------------------------------------

/-- `__next_pow2`. -/
def nextPow2 (C : Config) (v : Nat) : Nat :=
  if v ≤ 1 then 1
  else
    let top := fls (v - 1) + 1
    if top ≥ C.buddy.wordBits then C.usizeMax else 1 <<< top

/-- `__round_up_sat`. -/
def roundUpSat (C : Config) (v a : Nat) : Nat :=
  let r := alignUp C.buddy.word v a
  if r < v then C.usizeMax else r

/-- The bytes `__grow` asks the page source for. -/
def growWant (C : Config) (bytes : Nat) : Nat :=
  let want := nextPow2 C bytes
  let want := if want ≤ C.usizeMax / 2 then want * 2 else want
  roundUpSat C want C.tlsf.sheet

/-- `__grow_pool`, in a growable configuration with the given `__grow_bytes`. -/
def growPool (h : HeapState C) (growBytes bytes : Nat) : HeapState C × PoolDesc :=
  let n := if bytes < growBytes then growBytes else bytes
  let n := if n > C.maxRegionBytes then C.maxRegionBytes else n
  if n < bytes then (h, .null)
  else
    let s := h.pageAlloc n
    (s.1, pageDesc s.2)

/-- `__grow`. -/
def grow (h : HeapState C) (bytes : Nat) : HeapState C × Bool :=
  match C.growBytes with
  | none => (h, false)
  | some growBytes =>
      if h.count ≥ C.maxRegions then (h, false)
      else
        let d := h.growPool growBytes (growWant C bytes)
        if d.2.mem = 0 then (d.1, false)
        else d.1.attachPool d.2.mem d.2.len d.2.tags d.2.tagCap d.2.zeroed

-----------------------------------------------------------------------------------------
-- Allocation
-----------------------------------------------------------------------------------------

/-- `f` tried on the regions `i`, `i + 1`, … until one of them grants a block. -/
def tryFrom (f : RegionState C → RegionState C × Chunk)
    : (fuel i : Nat) → HeapState C × Chunk → HeapState C × Chunk
  | 0, _, c => c
  | k + 1, i, c => if c.2.ptr ≠ 0 then c else tryFrom f k (i + 1) (c.1.onRegion i f)

/-- `__alloc_scan`; with one region at most, its loops make no turn. -/
def allocScan (h : HeapState C) (n : Nat) : HeapState C × Chunk :=
  if n ≤ C.classSmall then
    let c := h.onRegion 0 (fun r => r.smallAllocSlow n)
    let c := tryFrom (fun r => r.smallAlloc n) (h.count - 1) 1 c
    if c.2.ptr ≠ 0 then c
    else
      let c := (c.1.collect .fallback 0).onRegion 0 (fun r => r.largeAlloc n)
      tryFrom (fun r => r.largeAlloc n) (h.count - 1) 1 c
  else
    let c := h.onRegion 0 (fun r => r.largeAllocSlow n)
    tryFrom (fun r => r.largeAlloc n) (h.count - 1) 1 c

/-- `__alloc_slow`. -/
def allocSlow (h : HeapState C) (n : Nat) : HeapState C × Chunk :=
  if n = 0 then (h, .null)
  else
    let ready := if !h.inited then h.init else (h, true)
    if !ready.2 then (ready.1, .null)
    else
      let c := ready.1.allocScan n
      if c.2.ptr = 0 then
        let g := c.1.grow n
        if g.2 then g.1.allocScan n else (g.1, c.2)
      else c

def alloc (h : HeapState C) (n : Nat) : HeapState C × Chunk :=
  if h.count = 0 then h.allocSlow n
  else if n ≤ C.classSmall then
    let c := h.onRegion 0 (fun r => r.tlsfAlloc n)
    if c.2.ptr ≠ 0 then c else c.1.allocSlow n
  else
    let c := h.onRegion 0 (fun r => r.buddyAlloc n)
    if c.2.ptr ≠ 0 then c else c.1.allocSlow n

/-- `__alloc_aligned_scan`. -/
def allocAlignedScan (h : HeapState C) (n alignment : Nat) : HeapState C × Chunk :=
  tryFrom (fun r => r.largeAllocAligned n alignment) h.count 0 (h, .null)

/-- What `__alloc_aligned_slow` asks `__grow` for. -/
def alignedGrowth (C : Config) (n alignment : Nat) : Nat :=
  if n > alignment then (n + alignment) % C.buddy.word else alignment * 2 % C.buddy.word

/-- `__alloc_aligned_slow`. -/
def allocAlignedSlow (h : HeapState C) (n alignment : Nat) : HeapState C × Chunk :=
  let ready := if !h.inited then h.init else (h, true)
  if !ready.2 then (ready.1, .null)
  else
    let c := ready.1.allocAlignedScan n alignment
    if c.2.ptr = 0 then
      let g := c.1.grow (alignedGrowth C n alignment)
      if g.2 then g.1.allocAlignedScan n alignment else (g.1, c.2)
    else c

def allocAligned (h : HeapState C) (n alignment : Nat) : HeapState C × Chunk :=
  if n = 0 || !isPow2 alignment then (h, .null)
  else if alignment ≤ nativeAlignment then h.alloc n
  else if h.count = 0 then h.allocAlignedSlow n alignment
  else
    let c := h.onRegion 0 (fun r => r.buddyAllocAligned n alignment)
    if c.2.ptr ≠ 0 then c else c.1.allocAlignedSlow n alignment

-----------------------------------------------------------------------------------------
-- Finding and releasing blocks
-----------------------------------------------------------------------------------------

/-- `__region_slow`. -/
def regionSlow (h : HeapState C) (p : Nat) : HeapState C × Option Nat :=
  let ready := h.ensure
  (ready.1,
    if !ready.2 then none
    else (List.range ready.1.count).find? (fun i => (ready.1.region i).contains p))

def regionOf (h : HeapState C) (p : Nat) : HeapState C × Option Nat :=
  if (h.region 0).contains p then (h, some 0) else h.regionSlow p

/-- What `locate` reads in region `i`. -/
def locateIn (h : HeapState C) (i p : Nat) : Located :=
  let r := h.region i
  let off := r.offOf p
  if r.buddyState.isSheetAt (TlsfState.sheetOf C.tlsf off) then
    let o := r.tlsfState.ownsLen C.buddy.word p
    if o.hdr = nullOff then ⟨some i, 0, nullOff, .none⟩ else ⟨some i, o.payload, o.hdr, .tlsf⟩
  else
    match r.buddyState.orderAt p with
    | none => ⟨some i, 0, nullOff, .none⟩
    | some o => ⟨some i, C.buddy.orderSize o, o, .buddy⟩

def locate (h : HeapState C) (p : Nat) : HeapState C × Located :=
  let r := h.regionOf p
  (r.1,
    match r.2 with
    | none => ⟨none, 0, nullOff, .none⟩
    | some i => r.1.locateIn i p)

def release (h : HeapState C) (l : Located) (p : Nat) : HeapState C × Bool :=
  match l.r, l.t with
  | some i, .tlsf => (h.setRegion i ((h.region i).smallFree l.off), true)
  | some i, .buddy =>
      (h.setRegion i ((h.region i).setBuddy ((h.region i).buddyState.deallocateOrder p l.off)),
        true)
  | _, _ => (h, false)

/-- `dealloc` of the heap. -/
def dealloc (h : HeapState C) (p : Nat) : HeapState C × Bool :=
  let l := h.locate p
  l.1.release l.2 p

def shrinkAt (h : HeapState C) (l : Located) (n : Nat) : HeapState C × Nat :=
  match l.r, l.t with
  | some i, .tlsf =>
      h.onRegion i (fun r =>
        let t := r.tlsfState.shrink l.off n
        (r.setTlsf t.1, if t.2 then t.1.payload l.off else 0))
  | some _, .buddy => (h, if n ≤ l.len then l.len else 0)
  | _, _ => (h, 0)

def growAt (h : HeapState C) (l : Located) (p n : Nat) : HeapState C × Nat :=
  match l.r, l.t with
  | some i, .tlsf =>
      if n > C.classSmall then (h, 0)
      else
        h.onRegion i (fun r =>
          let t := r.tlsfState.grow l.off n
          (r.setTlsf t.1, if t.2 then t.1.payload l.off else 0))
  | some i, .buddy =>
      h.onRegion i (fun r =>
        let b := r.buddyState.grow p n
        (r.setBuddy b.1, b.2))
  | _, _ => (h, 0)

-----------------------------------------------------------------------------------------
-- Gauges
-----------------------------------------------------------------------------------------

/-- The sum of a gauge over the regions, modulo the word. -/
def sumRegions (h : HeapState C) (f : RegionState C → Nat) : Nat :=
  (List.range h.count).foldl (fun s i => (s + f (h.region i)) % C.buddy.word) 0

def available (h : HeapState C) : HeapState C × Nat :=
  let h := h.ensure.1
  (h, h.sumRegions RegionState.available)

def used (h : HeapState C) : HeapState C × Nat :=
  let h := h.ensure.1
  (h, h.sumRegions RegionState.used)

def total (h : HeapState C) : HeapState C × Nat :=
  let h := h.ensure.1
  (h, h.sumRegions (fun r => r.buddy.total))

/-- The loop of `largest_free` from region `i` on, with the maximum so far. -/
def largestFrom : (fuel i m : Nat) → HeapState C → HeapState C × Nat
  | 0, _, m, h => (h, m)
  | k + 1, i, m, h =>
      let v := h.onRegion i RegionState.largestFree
      largestFrom k (i + 1) (if v.2 > m then v.2 else m) v.1

def largestFree (h : HeapState C) : HeapState C × Nat :=
  let h := h.ensure.1
  largestFrom h.count 0 0 h

end HeapState

end Bbmalloc
