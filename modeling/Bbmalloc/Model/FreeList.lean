import Bbmalloc.Foundations.ByteMemory
import Bbmalloc.Model.Config

/-! The buddy allocator of one region, `__buddy_list`. Block links live in the first words
of free and cached blocks, tags in a byte array; both are read from and written to memory.
-/

namespace Bbmalloc

open Bbmalloc.Foundations

-----------------------------------------------------------------------------------------
-- State
-----------------------------------------------------------------------------------------

/-- A `__buddy_link` that lives in the buddy object. -/
structure BuddyLink where
  next : Nat
  prev : Nat

/-- The members that only set-up assigns. -/
structure BuddyGeometry where
  base : Nat
  total : Nat
  blockTags : Nat
  maxOrder : Nat
  baseAlign : Nat
  tagCount : Nat
  rawMem : Nat
  rawLen : Nat
  extTags : Nat
  extCap : Nat
  wantAlign : Nat

/-- The members of `__buddy_list`; an address 0 is the null pointer. -/
structure BuddyList extends BuddyGeometry where
  freeMask : Nat
  allocatedBytes : Nat
  freeLists : Nat → Nat
  scratch : BuddyLink
  cacheHead : Nat → Nat
  cacheCount : Nat → Nat

/-- A buddy list together with the memory it works on. -/
structure BuddyState (P : BuddyParams) extends BuddyList where
  mem : Memory

/-- `Min << o`. -/
def BuddyParams.orderSize (P : BuddyParams) (o : Nat) : Nat := P.minBlock <<< o

/-- The least order whose blocks hold `n` bytes, for `n ≥ 1`. -/
def BuddyParams.orderForSize (P : BuddyParams) (n : Nat) : Nat :=
  let x := (n - 1) >>> P.log2Min
  fls (x ||| 1) + (if x ≠ 0 then 1 else 0)

namespace BuddyState

variable {P : BuddyParams}

-----------------------------------------------------------------------------------------
-- Words in memory
-----------------------------------------------------------------------------------------

/-- `node->next`. -/
def next (s : BuddyState P) (node : Nat) : Nat := s.mem.load node P.ptrBytes

/-- `node->prev`. -/
def prev (s : BuddyState P) (node : Nat) : Nat := s.mem.load (node + P.ptrBytes) P.ptrBytes

def setNext (s : BuddyState P) (node v : Nat) : BuddyState P :=
  { s with mem := s.mem.storeWord node P.ptrBytes v }

def setPrev (s : BuddyState P) (node v : Nat) : BuddyState P :=
  { s with mem := s.mem.storeWord (node + P.ptrBytes) P.ptrBytes v }

/-- `t->prev = v` where `t` is the node, or `&__scratch` when the node is null. -/
def setPrevOrScratch (s : BuddyState P) (node v : Nat) : BuddyState P :=
  { s with
    mem := if node ≠ 0 then (s.setPrev node v).mem else s.mem
    scratch := if node ≠ 0 then s.scratch else { s.scratch with prev := v } }

/-- `block_tags[i]`. -/
def tag (s : BuddyState P) (i : Nat) : Nat := (s.mem (s.blockTags + i)).byte.toNat

def setTag (s : BuddyState P) (i v : Nat) : BuddyState P :=
  { s with mem := s.mem.store (s.blockTags + i) (UInt8.ofNat v) }

def tagIndex (s : BuddyState P) (addr : Nat) : Nat := (addr - s.base) >>> P.log2Min

def isSheetAt (s : BuddyState P) (off : Nat) : Bool :=
  s.tag (off >>> P.log2Min) &&& tagKind == tagSheet

def markSheet (s : BuddyState P) (p : Nat) : BuddyState P :=
  s.setTag (s.tagIndex p) (s.tag (s.tagIndex p) ||| tagSheet)

def unmarkSheet (s : BuddyState P) (p : Nat) : BuddyState P :=
  s.setTag (s.tagIndex p) (s.tag (s.tagIndex p) &&& (tagAlloc ||| tagOrder))

/-- The pointer difference is unsigned, so addresses below the base are out of range. -/
def inRange (s : BuddyState P) (p : Nat) : Bool := wrapSub P.word p s.base < s.total

def linkValid (s : BuddyState P) (n : Nat) : Bool :=
  n == 0 ||
    (wrapSub P.word n s.base < s.total && wrapSub P.word n s.base &&& (P.minBlock - 1) == 0)

def findFreeOrder (s : BuddyState P) (o : Nat) : Nat :=
  let m := s.freeMask >>> o
  if m = 0 then s.maxOrder else o + ctz P.maskBits m

-----------------------------------------------------------------------------------------
-- Free lists
-----------------------------------------------------------------------------------------

def linkFront (s : BuddyState P) (addr o : Nat) : BuddyState P :=
  let head := s.freeLists o
  let s := (s.setNext addr head).setPrev addr 0
  let s := s.setPrevOrScratch head addr
  let s : BuddyState P := { s with freeLists := Function.update s.freeLists o addr }
  s.setTag (s.tagIndex addr) (tagFree ||| o)

def pushFree (s : BuddyState P) (addr o : Nat) : BuddyState P :=
  let s := s.linkFront addr o
  { s with freeMask := s.freeMask ||| 1 <<< o }

def unlinkCheck (s : BuddyState P) (node o : Nat) : Bool :=
  if P.checkLinks then
    let next := s.next node
    let isHead := s.freeLists o == node
    let prev := if isHead then 0 else s.prev node
    if !(s.linkValid next && s.linkValid prev) then
      false
    else
      let prevNext := if prev ≠ 0 then s.next prev else s.scratch.next
      let nextPrev := if next ≠ 0 then s.prev next else s.scratch.prev
      (isHead || (prev ≠ 0 && prevNext == node)) && (next == 0 || nextPrev == node)
  else
    true

def unlinkDo (s : BuddyState P) (node o : Nat) : BuddyState P :=
  let next := s.next node
  let isHead := s.freeLists o == node
  let prev := if isHead then 0 else s.prev node
  let s : BuddyState P :=
    { s with
      freeLists := if isHead then Function.update s.freeLists o next else s.freeLists
      mem := if !isHead && prev ≠ 0 then (s.setNext prev next).mem else s.mem
      scratch := if !isHead && prev == 0 then { s.scratch with next := next } else s.scratch }
  let s := s.setPrevOrScratch (if next ≠ 0 && !isHead then next else 0) prev
  { s with freeMask := if s.freeLists o = 0 then andNot s.freeMask (1 <<< o) else s.freeMask }

/-- `__unlink`: the node is taken out unless its links look corrupted. -/
def unlink (s : BuddyState P) (addr o : Nat) : BuddyState P × Bool :=
  if s.unlinkCheck addr o then (s.unlinkDo addr o, true) else (s, false)

/-- The loop of `__take_and_split`: `levels` halvings of a block of order `o` at `b`, whose
upper halves go to the free lists.
-/
def splitDown (s : BuddyState P) (b : Nat) : (levels o split : Nat) → BuddyState P
  | 0, _, _ => s
  | levels + 1, o, split =>
      splitDown (s.linkFront (b + split >>> 1) (o - 1)) b levels (o - 1) (split >>> 1)

def takeAndSplit (s : BuddyState P) (from_ target : Nat) : BuddyState P × Nat :=
  let blk := s.freeLists from_
  if blk = 0 then
    ({ s with freeMask := andNot s.freeMask (1 <<< from_) }, 0)
  else
    let next := s.next blk
    let next := if P.checkLinks && !s.linkValid next then 0 else next
    let s : BuddyState P := { s with freeLists := Function.update s.freeLists from_ next }
    let m := if next = 0 then andNot s.freeMask (1 <<< from_) else s.freeMask
    let s := s.splitDown blk (from_ - target) from_ (P.orderSize from_)
    ({ s with freeMask := m ||| andNot (1 <<< from_ - 1) (1 <<< target - 1) }, blk)

/-- The loop of `__merge_and_free`; `fuel` bounds the orders left below the top one. -/
def mergeUp (s : BuddyState P) : (fuel off o : Nat) → BuddyState P × Nat × Nat
  | 0, off, o => (s, off, o)
  | fuel + 1, off, o =>
      if o < s.maxOrder - 1 then
        let sz := P.orderSize o
        let buddyOff := off ^^^ sz
        if buddyOff ≥ s.total then (s, off, o)
        else if s.tag (buddyOff >>> P.log2Min) ≠ tagFree ||| o then (s, off, o)
        else
          let (s', unlinked) := s.unlink (s.base + buddyOff) o
          if !unlinked then (s', off, o)
          else
            mergeUp (s'.setTag ((off ||| sz) >>> P.log2Min) tagNone) fuel (andNot off sz) (o + 1)
      else (s, off, o)

def mergeAndFree (s : BuddyState P) (addr o : Nat) : BuddyState P :=
  let (s, off, o) := s.mergeUp s.maxOrder (addr - s.base) o
  s.pushFree (s.base + off) o

-----------------------------------------------------------------------------------------
-- Set-up
-----------------------------------------------------------------------------------------

def zeroArrays (s : BuddyState P) : BuddyState P :=
  { s with
    freeMask := 0
    scratch := ⟨0, 0⟩
    freeLists := fun _ => 0
    cacheHead := fun _ => 0
    cacheCount := fun _ => 0 }

/-- The loop of `__seed` over the orders below `o`, downwards, from offset `off` on. -/
def seedFrom (s : BuddyState P) : (o off : Nat) → BuddyState P
  | 0, _ => s
  | o + 1, off =>
      if s.tagCount &&& 1 <<< o ≠ 0 then
        seedFrom (s.pushFree (s.base + off) o) o (off + P.orderSize o)
      else
        seedFrom s o off

def seed (s : BuddyState P) : BuddyState P := s.seedFrom s.maxOrder 0

/-- The halving loop of `__setup`; `fuel` bounds the halvings of `align`. -/
def findBase (P : BuddyParams) (data end_ : Nat) : (fuel align : Nat) → Option (Nat × Nat)
  | 0, _ => none
  | fuel + 1, align =>
      let b := alignUp P.word data align
      let twice := 2 * P.minBlock % P.word
      let need := if align > twice then align else twice
      if b ≥ data && b ≤ end_ && end_ - b ≥ need then some (b, align)
      else if align ≤ P.minBlock then none
      else findBase P data end_ fuel (align >>> 1)

/-- The requested alignment as a power of two of at least `Min`. -/
def setupAlign (P : BuddyParams) (want : Nat) : Nat :=
  let align := if want < P.minBlock then P.minBlock else want
  let align := if isPow2 align then align else 1 <<< fls align
  if align < P.minBlock then P.minBlock else align

/-- The data bytes used between the base and the end, before the external tag cap. -/
def setupTotal (P : BuddyParams) (room : Nat) : Nat :=
  let t := room
  let cap := (1 <<< P.Mx - 1) * P.minBlock % P.word
  let t := if P.Mx < P.wordBits && t > cap then cap else t
  let t := if t > BuddyParams.maxTotal then BuddyParams.maxTotal else t
  t / P.minBlock * P.minBlock

/-- `__setup`: lay out tags and data in the raw range and seed the free lists. -/
def setup (s : BuddyState P) (zeroed : Bool) : BuddyState P × Bool :=
  let s : BuddyState P :=
    zeroArrays
      { s with
        base := 0
        total := 0
        maxOrder := 0
        allocatedBytes := 0
        baseAlign := 0
        blockTags := 0
        tagCount := 0 }
  if s.rawMem = 0 || s.rawLen < 4 * P.minBlock % P.word then (s, false)
  else
    let end_ := s.rawMem + s.rawLen
    let tagArea :=
      if s.extTags = 0 then (s.rawLen + P.minBlock) % P.word / (P.minBlock + 1) else 0
    let tagsAt := if s.extTags = 0 then s.rawMem else s.extTags
    let data := s.rawMem + tagArea
    let align := setupAlign P s.wantAlign
    match findBase P data end_ (fls align + 1) align with
    | none => (s, false)
    | some (b, align) =>
        let s : BuddyState P := { s with base := b, baseAlign := align }
        let t := setupTotal P (end_ - b)
        let count := t / P.minBlock
        let capped := s.extTags ≠ 0 && count > s.extCap
        let t := if capped then s.extCap * P.minBlock else t
        let count := if capped then s.extCap else count
        if count = 0 then (s, false)
        else
          let s : BuddyState P :=
            { s with
              total := t
              tagCount := count
              blockTags := tagsAt
              maxOrder := fls count + 1 }
          let s : BuddyState P :=
            { s with
              mem := if zeroed then s.mem
                     else s.mem.fill s.blockTags s.tagCount (UInt8.ofNat tagNone) }
          (s.seed, true)

def init (s : BuddyState P) (mem len tags tagsCap align : Nat) (zeroed : Bool)
    : BuddyState P × Bool :=
  setup
    { s with rawMem := mem, rawLen := len, extTags := tags, extCap := tagsCap, wantAlign := align }
    zeroed

def reset (s : BuddyState P) : BuddyState P × Bool := s.setup false

-----------------------------------------------------------------------------------------
-- Allocation
-----------------------------------------------------------------------------------------

/-- `o <= __cache_max_order`, in a build that has an order cache. -/
def cacheable (P : BuddyParams) (o : Nat) : Bool :=
  0 < P.cacheCap && (o : Int) ≤ P.cacheMaxOrder

/-- The inner loop of `flush_cache` for one order; `fuel` bounds the cached blocks, which an
8-bit counter counts.
-/
def flushOrder (s : BuddyState P) (o : Nat) : (fuel : Nat) → BuddyState P
  | 0 => s
  | fuel + 1 =>
      if s.cacheHead o ≠ 0 then
        let blk := s.cacheHead o
        let rest := if s.linkValid (s.next blk) then s.next blk else 0
        let s : BuddyState P := { s with cacheHead := Function.update s.cacheHead o rest }
        (s.mergeAndFree blk o).flushOrder o fuel
      else s

/-- The outer loop of `flush_cache` over the orders from `o` on. -/
def flushFrom (s : BuddyState P) : (count o : Nat) → BuddyState P
  | 0, _ => s
  | count + 1, o =>
      let s := s.flushOrder o 256
      flushFrom { s with cacheCount := Function.update s.cacheCount o 0 } count (o + 1)

def flushCache (s : BuddyState P) : BuddyState P :=
  if 0 < P.cacheCap then s.flushFrom s.maxOrder 0 else s

def grant (s : BuddyState P) (blk o : Nat) : BuddyState P × Chunk :=
  let s := s.setTag (s.tagIndex blk) (tagAlloc ||| o)
  ({ s with allocatedBytes := s.allocatedBytes + P.orderSize o }, ⟨blk, P.orderSize o⟩)

/-- The part of `__allocate_order` after a free order was found or not. -/
def takeOrder (s : BuddyState P) (i o : Nat) : BuddyState P × Chunk :=
  let (s, blk) := s.takeAndSplit i o
  if blk = 0 then (s, .null) else s.grant blk o

def allocateOrder (s : BuddyState P) (o : Nat) : BuddyState P × Chunk :=
  if o ≥ s.maxOrder then (s, .null)
  else if cacheable P o && s.cacheHead o ≠ 0 then
    let blk := s.cacheHead o
    let nxt := if s.linkValid (s.next blk) then s.next blk else 0
    let s : BuddyState P :=
      { s with
        cacheHead := Function.update s.cacheHead o nxt
        cacheCount :=
          Function.update s.cacheCount o (if nxt = 0 then 0 else s.cacheCount o - 1) }
    s.grant blk o
  else
    let i := s.findFreeOrder o
    if i ≥ s.maxOrder then
      let s := s.flushCache
      let i := s.findFreeOrder o
      if i ≥ s.maxOrder then (s, .null) else s.takeOrder i o
    else s.takeOrder i o

def allocate (s : BuddyState P) (n : Nat) : BuddyState P × Chunk :=
  if n = 0 then (s, .null) else s.allocateOrder (P.orderForSize n)

/-- The order of an over-aligned request. -/
def alignedOrder (P : BuddyParams) (n alignment : Nat) : Nat :=
  if P.orderForSize alignment > P.orderForSize n then P.orderForSize alignment
  else P.orderForSize n

def allocateAligned (s : BuddyState P) (n alignment : Nat) : BuddyState P × Chunk :=
  if n = 0 || !isPow2 alignment then (s, .null)
  else if alignment > s.baseAlign then (s, .null)
  else s.allocateOrder (alignedOrder P n alignment)

-----------------------------------------------------------------------------------------
-- Lookup, release and growth
-----------------------------------------------------------------------------------------

/-- `__order_at`, with `none` for -1. -/
def orderAt (s : BuddyState P) (p : Nat) : Option Nat :=
  let off := wrapSub P.word p s.base
  if off ≥ s.total || off &&& (P.minBlock - 1) ≠ 0 then none
  else
    let t := s.tag (off >>> P.log2Min)
    let o := t &&& tagOrder
    if t &&& tagAlloc ≠ 0 && o < s.maxOrder then some o else none

def servable (s : BuddyState P) (n : Nat) : Bool :=
  s.base ≠ 0 && n ≠ 0 && P.orderForSize n < s.maxOrder

def servableAligned (s : BuddyState P) (n alignment : Nat) : Bool :=
  if s.base = 0 || n = 0 || !isPow2 alignment || alignment > s.baseAlign then false
  else alignedOrder P n alignment < s.maxOrder

def deallocateOrder (s : BuddyState P) (p o : Nat) : BuddyState P :=
  let s : BuddyState P := { s with allocatedBytes := s.allocatedBytes - P.orderSize o }
  if cacheable P o && s.cacheCount o < P.cacheCap then
    let s := (s.setNext p (s.cacheHead o)).setPrev p 0
    let s : BuddyState P :=
      { s with
        cacheHead := Function.update s.cacheHead o p
        cacheCount := Function.update s.cacheCount o (s.cacheCount o + 1) }
    s.setTag (s.tagIndex p) tagNone
  else s.mergeAndFree p o

def deallocate (s : BuddyState P) (p : Nat) : BuddyState P × RetFlag :=
  match s.orderAt p with
  | none => (s, .invalid)
  | some o => (s.deallocateOrder p o, .ok)

/-- The first loop of `grow`: the free buddies at the orders from `j` on can be taken. -/
def growCheck (s : BuddyState P) (off : Nat) : (count j : Nat) → Bool
  | 0, _ => true
  | count + 1, j =>
      let boff := off + P.orderSize j
      if boff ≥ s.total || s.tag (boff >>> P.log2Min) ≠ tagFree ||| j then false
      else if !s.unlinkCheck (s.base + boff) j then false
      else growCheck s off count (j + 1)

/-- The second loop of `grow`: take them. -/
def growTake (s : BuddyState P) (off : Nat) : (count j : Nat) → BuddyState P
  | 0, _ => s
  | count + 1, j =>
      let boff := off + P.orderSize j
      let s := s.unlinkDo (s.base + boff) j
      growTake (s.setTag (boff >>> P.log2Min) tagNone) off count (j + 1)

def grow (s : BuddyState P) (p n : Nat) : BuddyState P × Nat :=
  match s.orderAt p with
  | none => (s, 0)
  | some o =>
      if n = 0 then (s, 0)
      else
        let want := P.orderForSize n
        if want ≤ o then (s, P.orderSize o)
        else if want ≥ s.maxOrder then (s, 0)
        else
          let off := p - s.base
          if off &&& (P.orderSize want - 1) ≠ 0 then (s, 0)
          else if !s.growCheck off (want - o) o then (s, 0)
          else
            let s := s.growTake off (want - o) o
            let s := s.setTag (off >>> P.log2Min) (tagAlloc ||| want)
            ({ s with allocatedBytes := s.allocatedBytes + (P.orderSize want - P.orderSize o) },
              P.orderSize want)

-----------------------------------------------------------------------------------------
-- Gauges
-----------------------------------------------------------------------------------------

def largestFree (s : BuddyState P) : BuddyState P × Nat :=
  let s := s.flushCache
  (s, if s.freeMask = 0 then 0 else P.orderSize (fls s.freeMask))

end BuddyState

end Bbmalloc
