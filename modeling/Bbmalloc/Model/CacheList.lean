import Bbmalloc.Foundations.ByteMemory
import Bbmalloc.Model.Config

/-! The small-block allocator of one region, `__tlsf_list`. Block headers and the bitmaps
of granted blocks live in the sheets; offsets are relative to the base of the region and
differences that never borrow are natural subtractions.
-/

namespace Bbmalloc

open Bbmalloc.Foundations

-----------------------------------------------------------------------------------------
-- State
-----------------------------------------------------------------------------------------

/-- A `tlsf_hdr` that lives in the list object. -/
structure TlsfHdr where
  bsizeFlags : Nat
  prevPhys : Nat
  nextFree : Nat
  prevFree : Nat

/-- The members of `__tlsf_list`, and `sheets`, a history variable that nothing reads: the
sheets added and not removed since.
-/
structure TlsfList where
  rbase : Nat
  flBitmap : Nat
  slBitmap : Nat → Nat
  allocatedBytes : Nat
  count : Nat
  scratch : TlsfHdr
  heads : Nat → Nat
  sheets : List Nat

/-- A TLSF list together with the memory it works on. -/
structure TlsfState (T : TlsfParams) extends TlsfList where
  mem : Memory

/-- `__hit`: a free block and its bin. -/
structure TlsfHit where
  off : Nat
  idx : Nat

/-- `__own`: the header of a granted block and its payload length. -/
structure TlsfOwn where
  hdr : Nat
  payload : Nat
  deriving DecidableEq, Repr

/-- One past the largest 32-bit value. -/
def u32 : Nat := 2 ^ 32

namespace TlsfState

variable {T : TlsfParams}

-----------------------------------------------------------------------------------------
-- Headers in memory
-----------------------------------------------------------------------------------------

def bsizeFlags (s : TlsfState T) (off : Nat) : Nat := s.mem.load (s.rbase + off) 4
def prevPhys (s : TlsfState T) (off : Nat) : Nat := s.mem.load (s.rbase + off + 4) 4
def nextFree (s : TlsfState T) (off : Nat) : Nat := s.mem.load (s.rbase + off + 8) 4
def prevFree (s : TlsfState T) (off : Nat) : Nat := s.mem.load (s.rbase + off + 12) 4

def setBsizeFlags (s : TlsfState T) (off v : Nat) : TlsfState T :=
  { s with mem := s.mem.storeWord (s.rbase + off) 4 v }

def setPrevPhys (s : TlsfState T) (off v : Nat) : TlsfState T :=
  { s with mem := s.mem.storeWord (s.rbase + off + 4) 4 v }

def setNextFree (s : TlsfState T) (off v : Nat) : TlsfState T :=
  { s with mem := s.mem.storeWord (s.rbase + off + 8) 4 v }

def setPrevFree (s : TlsfState T) (off v : Nat) : TlsfState T :=
  { s with mem := s.mem.storeWord (s.rbase + off + 12) 4 v }

/-- `t->prev_free = v` where `t` is the header, or `&__scratch` for the null offset. -/
def setPrevFreeOrScratch (s : TlsfState T) (off v : Nat) : TlsfState T :=
  { s with
    mem := if off ≠ nullOff then (s.setPrevFree off v).mem else s.mem
    scratch := if off ≠ nullOff then s.scratch else { s.scratch with prevFree := v } }

def bsize (s : TlsfState T) (off : Nat) : Nat := andNot (s.bsizeFlags off) tlsfFlags

def isFree (s : TlsfState T) (off : Nat) : Bool :=
  s.bsizeFlags off &&& (tlsfAlloc ||| tlsfSentinel) == 0

def sheetOf (T : TlsfParams) (off : Nat) : Nat := andNot off (T.sheet - 1)

-----------------------------------------------------------------------------------------
-- Set-up
-----------------------------------------------------------------------------------------

def reset (s : TlsfState T) : TlsfState T :=
  { s with
    flBitmap := 0
    slBitmap := fun _ => 0
    heads := fun _ => nullOff
    count := 0
    allocatedBytes := 0
    scratch := ⟨0, nullOff, nullOff, nullOff⟩
    sheets := [] }

def init (s : TlsfState T) (base : Nat) : TlsfState T := reset { s with rbase := base }

-----------------------------------------------------------------------------------------
-- Size classes
-----------------------------------------------------------------------------------------

/-- First and second level of the bin that holds blocks of a size. -/
def mappingInsert (T : TlsfParams) (size : Nat) : Nat × Nat :=
  let fl := fls size - TlsfShape.flShift
  (fl, size >>> (fl + TlsfShape.flShift - T.slLog2) &&& (T.slCount - 1))

/-- `r >> k` for a 32-bit word, which is undefined from 32 places on. -/
def shiftRight32 (r k : Nat) : Option Nat := if k < 32 then some (r >>> k) else none

/-- First and second level of the least bin all of whose blocks hold a size, or `none` where
the search shifts a word by too many places.
-/
def mappingSearch (T : TlsfParams) (size : Nat) : Option (Nat × Nat) :=
  let f := fls size
  let r := (size + 1 <<< (f - T.slLog2) - 1) % u32
  (shiftRight32 r (f + 1)).map fun carry =>
    let f2 := f + carry
    (f2 - TlsfShape.flShift, r >>> (f2 - T.slLog2) &&& (T.slCount - 1))

/-- Entry `i` of `__search`, the table of the classes of small sizes. -/
def searchEntry (T : TlsfParams) (i : Nat) : Nat × Nat :=
  let size := i <<< 4
  if size < TlsfShape.minBlock then (0, 0)
  else
    let f := fls size
    let r := size + 1 <<< (f - T.slLog2) - 1
    let f2 := fls r
    (f2 - TlsfShape.flShift, r >>> (f2 - T.slLog2) &&& (T.slCount - 1))

def findExact (s : TlsfState T) (size : Nat) : TlsfHit :=
  let (fl, sl) := mappingInsert T size
  if fl ≥ T.flCount then ⟨nullOff, 0⟩
  else
    let idx := fl * T.slCount + sl
    let off := s.heads idx
    if off ≠ nullOff && s.bsize off ≥ size then ⟨off, idx⟩ else ⟨nullOff, 0⟩

/-- The part of `find_free` after the bin to start from is known. -/
def findFrom (s : TlsfState T) (size : Nat) (bin : Nat × Nat) : TlsfHit :=
  let (fl, sl) := bin
  let m := andNot (s.slBitmap fl) (1 <<< sl - 1)
  if m ≠ 0 then
    let idx := fl * T.slCount + ctz 32 m
    ⟨s.heads idx, idx⟩
  else
    let fm := andNot s.flBitmap (1 <<< (fl + 1) - 1)
    if fm ≠ 0 then
      let hf := ctz 32 fm
      let idx := hf * T.slCount + ctz 32 (s.slBitmap hf)
      ⟨s.heads idx, idx⟩
    else s.findExact size

def findFree (s : TlsfState T) (size : Nat) : Option TlsfHit :=
  if size ≤ T.tableMax then some (s.findFrom size (searchEntry T (size >>> 4)))
  else
    (mappingSearch T size).map fun bin =>
      if bin.1 ≥ T.flCount then s.findExact size else s.findFrom size bin

-----------------------------------------------------------------------------------------
-- Free lists
-----------------------------------------------------------------------------------------

def clearIfEmpty (s : TlsfState T) (idx headNow : Nat) : TlsfState T :=
  let fl := idx >>> T.slLog2
  let sl := idx &&& (T.slCount - 1)
  let drop := if headNow = nullOff then 1 <<< sl else 0
  let m := andNot (s.slBitmap fl) drop
  let fdrop := if m = 0 then 1 <<< fl else 0
  { s with
    slBitmap := Function.update s.slBitmap fl m
    flBitmap := andNot s.flBitmap fdrop }

def insertFree (s : TlsfState T) (off bs : Nat) : TlsfState T :=
  let (fl, sl) := mappingInsert T bs
  let idx := fl * T.slCount + sl
  let head := s.heads idx
  let s := s.setNextFree off head
  let s := s.setPrevFreeOrScratch head off
  { s with
    heads := Function.update s.heads idx off
    slBitmap := Function.update s.slBitmap fl (s.slBitmap fl ||| 1 <<< sl)
    flBitmap := s.flBitmap ||| 1 <<< fl }

def removeFree (s : TlsfState T) (off bs : Nat) : TlsfState T :=
  let (fl, sl) := mappingInsert T bs
  let idx := fl * T.slCount + sl
  let nx := s.nextFree off
  let pv := s.prevFree off
  let head := s.heads idx
  let isHead := head == off
  let s : TlsfState T :=
    { s with
      heads := if isHead then Function.update s.heads idx nx else s.heads
      mem := if isHead then s.mem else (s.setNextFree pv nx).mem }
  let s := s.setPrevFreeOrScratch (if nx ≠ nullOff && !isHead then nx else nullOff) pv
  s.clearIfEmpty idx (if isHead then nx else head)

-----------------------------------------------------------------------------------------
-- Granted blocks
-----------------------------------------------------------------------------------------

/-- Block size for a request of `n` bytes, or 0 when it cannot fit in a sheet. -/
def adjusted (T : TlsfParams) (n : Nat) : Nat :=
  if n = 0 || n - 1 ≥ T.dataBytes then 0
  else andNot (n + (headerSize + TlsfShape.blockAlign - 1)) (TlsfShape.blockAlign - 1)

/-- Address and mask of the bitmap bit of a block. -/
def markByte (s : TlsfState T) (off : Nat) : Nat × Nat :=
  let rel := off &&& (T.sheet - 1)
  let bi := rel >>> 4 + 1
  (s.rbase + (off - rel) + headerSize + bi >>> 3, 1 <<< (bi &&& 7))

def mark (s : TlsfState T) (off : Nat) : TlsfState T :=
  let (b, bit) := s.markByte off
  { s with mem := s.mem.store b (UInt8.ofNat ((s.mem b).byte.toNat ||| bit)) }

def unmark (s : TlsfState T) (off : Nat) : TlsfState T :=
  let (b, bit) := s.markByte off
  { s with mem := s.mem.store b (UInt8.ofNat (andNot (s.mem b).byte.toNat bit)) }

def marked (s : TlsfState T) (sheet rel : Nat) : Bool :=
  let bi := rel >>> 4
  ((s.mem (s.rbase + sheet + headerSize + bi >>> 3)).byte.toNat >>> (bi &&& 7)) &&& 1 == 1

/-- The part of `allocate` after the search has found a block or not. -/
def allocateAt (s : TlsfState T) (adj : Nat) (f : TlsfHit) : TlsfState T × Chunk :=
  if f.off = nullOff then (s, .null)
  else
    let bs := s.bsize f.off
    let nx := s.nextFree f.off
    let s : TlsfState T := { s with heads := Function.update s.heads f.idx nx }
    let s := s.clearIfEmpty f.idx nx
    let split := bs - adj ≥ TlsfShape.minBlock
    let take := if split then adj else bs
    let s :=
      if split then
        let rem := f.off + adj
        let s := (s.setBsizeFlags rem (bs - adj)).setPrevPhys rem f.off
        let s := s.setPrevPhys (f.off + bs) rem
        s.insertFree rem (bs - adj)
      else s
    let s := (s.setBsizeFlags f.off (take ||| tlsfAlloc)).mark f.off
    ({ s with allocatedBytes := s.allocatedBytes + take },
      ⟨s.rbase + f.off + headerSize, take - headerSize⟩)

/-- `allocate`, or `none` where its search is undefined. -/
def allocate (s : TlsfState T) (n : Nat) : Option (TlsfState T × Chunk) :=
  let adj := adjusted T n
  if adj = 0 then some (s, .null) else (s.findFree adj).map (s.allocateAt adj)

/-- An adjusted size is less than a sheet. -/
theorem adjusted_lt_sheet (T : TlsfParams) (n : Nat) : adjusted T n < T.sheet := by
  have large : 2 ^ 10 ≤ T.sheet := Nat.pow_le_pow_right (by decide) T.sheet_large
  have span : T.dataBytes + 32 ≤ T.sheet := by
    have parts : T.dataBytes = T.sheet - (16 + T.bitmapBytes) - 16 := rfl
    omega
  rw [adjusted]
  split
  · omega
  · next fits =>
      simp only [Bool.or_eq_true, decide_eq_true_eq, not_or] at fits
      have down := (andNot_low_bounds (n + 31) 4).1
      exact lt_of_le_of_lt down (by omega)

/-- The search for a size below half of the word range is defined. -/
theorem findFree_isSome (s : TlsfState T) {size : Nat} (small : size < 2 ^ 31)
    : (s.findFree size).isSome = true := by
  have places : fls size + 1 < 32 := by
    by_cases zero : size = 0
    · subst zero
      decide
    · have := (fls_lt zero).mpr small
      omega
  rw [findFree]
  split
  · rfl
  · simp [mappingSearch, shiftRight32, places]

/-- Where sheets take at most half of the word range, all searches are defined. -/
theorem allocate_isSome (s : TlsfState T) (narrow : T.log2Sheet < 32) (n : Nat)
    : (s.allocate n).isSome = true := by
  rw [allocate]
  split
  · rfl
  · have half : T.sheet ≤ 2 ^ 31 := Nat.pow_le_pow_right (by decide) (by omega)
    have found := s.findFree_isSome (lt_of_lt_of_le (adjusted_lt_sheet T n) half)
    simp [found]

/-- `allocate` where sheets take at most half of the word range. -/
def allocateNarrow (s : TlsfState T) (narrow : T.log2Sheet < 32) (n : Nat)
    : TlsfState T × Chunk :=
  (s.allocate n).get (s.allocate_isSome narrow n)

theorem allocate_narrow (s : TlsfState T) (narrow : T.log2Sheet < 32) (n : Nat)
    : s.allocate n = some (s.allocateNarrow narrow n) :=
  (Option.some_get _).symm

/-- `owns_len`: header and payload of the granted block that a pointer is the start of. -/
def ownsLen (s : TlsfState T) (word p : Nat) : TlsfOwn :=
  let up := wrapSub word p s.rbase % u32
  let sheet := sheetOf T up
  let rel := up - sheet
  let lo := T.dataOff + headerSize
  let span := T.sheet - headerSize - lo
  if wrapSub u32 rel lo ≥ span || rel &&& (TlsfShape.blockAlign - 1) ≠ 0 then ⟨nullOff, 0⟩
  else
    let f := s.bsizeFlags (up - headerSize)
    let bs := andNot f tlsfFlags
    let ok := s.marked sheet rel && f &&& (tlsfAlloc ||| tlsfSentinel) == tlsfAlloc
      && bs ≥ TlsfShape.minBlock && (rel - headerSize + bs) % u32 ≤ T.sheet - headerSize
    if !ok then ⟨nullOff, 0⟩ else ⟨up - headerSize, bs - headerSize⟩

def payload (s : TlsfState T) (off : Nat) : Nat := s.bsize off - headerSize

/-- Free a block, merging it with free neighbours; the result is its sheet if that is empty
now, else the null offset.
-/
def deallocate (s : TlsfState T) (off : Nat) : TlsfState T × Nat :=
  let bs := s.bsize off
  let s := s.unmark off
  let s : TlsfState T := { s with allocatedBytes := s.allocatedBytes - bs }
  let next := off + bs
  let nextIsFree := s.isFree next
  let nb := s.bsize next
  let s := if nextIsFree then s.removeFree next nb else s
  let bs := if nextIsFree then bs + nb else bs
  let prev := s.prevPhys off
  let prevIsFree := s.isFree prev
  let pb := s.bsize prev
  let s := if prevIsFree then s.removeFree prev pb else s
  let bs := if prevIsFree then bs + pb else bs
  let off := if prevIsFree then prev else off
  let s := (s.setBsizeFlags off bs).setPrevPhys (off + bs) off
  (s.insertFree off bs, if bs = T.dataBytes then sheetOf T off else nullOff)

def shrink (s : TlsfState T) (off n : Nat) : TlsfState T × Bool :=
  let adj := adjusted T n
  if adj = 0 then (s, false)
  else
    let bs := s.bsize off
    if adj > bs then (s, false)
    else if bs - adj < TlsfShape.minBlock then (s, true)
    else
      let rem := off + adj
      let rest := bs - adj
      let s := (s.setPrevPhys rem off).setBsizeFlags off (adj ||| tlsfAlloc)
      let s : TlsfState T := { s with allocatedBytes := s.allocatedBytes - rest }
      let next := off + bs
      let nextIsFree := s.isFree next
      let nb := s.bsize next
      let s := if nextIsFree then s.removeFree next nb else s
      let rest := if nextIsFree then rest + nb else rest
      let s := (s.setBsizeFlags rem rest).setPrevPhys (rem + rest) rem
      (s.insertFree rem rest, true)

def grow (s : TlsfState T) (off n : Nat) : TlsfState T × Bool :=
  let adj := adjusted T n
  if adj = 0 then (s, false)
  else
    let bs := s.bsize off
    if adj ≤ bs then (s, true)
    else
      let next := off + bs
      if !s.isFree next then (s, false)
      else
        let nb := s.bsize next
        let span := bs + nb
        if span < adj then (s, false)
        else
          let s := s.removeFree next nb
          let rest := span - adj
          if rest ≥ TlsfShape.minBlock then
            let rem := off + adj
            let s := (s.setBsizeFlags rem rest).setPrevPhys rem off
            let s := (s.setPrevPhys (off + span) rem).setBsizeFlags off (adj ||| tlsfAlloc)
            let s : TlsfState T := { s with allocatedBytes := s.allocatedBytes + (adj - bs) }
            (s.insertFree rem rest, true)
          else
            let s := (s.setPrevPhys (off + span) off).setBsizeFlags off (span ||| tlsfAlloc)
            ({ s with allocatedBytes := s.allocatedBytes + (span - bs) }, true)

-----------------------------------------------------------------------------------------
-- Sheets
-----------------------------------------------------------------------------------------

def sheetEmpty (s : TlsfState T) (sheet : Nat) : Bool :=
  s.isFree (sheet + T.dataOff) && s.bsize (sheet + T.dataOff) == T.dataBytes

def addSheet (s : TlsfState T) (sheet : Nat) : TlsfState T × Bool :=
  if s.count ≥ T.maxSheets || s.rbase = 0 then (s, false)
  else
    let s := (s.setBsizeFlags sheet (T.dataOff ||| tlsfAlloc ||| tlsfSentinel)).setPrevPhys
      sheet nullOff
    let s := (s.setNextFree sheet 0).setPrevFree sheet 0
    let s : TlsfState T :=
      { s with mem := s.mem.fill (s.rbase + sheet + headerSize) T.bitmapBytes 0 }
    let end_ := sheet + (T.sheet - headerSize)
    let s := (s.setBsizeFlags end_ (headerSize ||| tlsfAlloc ||| tlsfSentinel)).setPrevPhys
      end_ (sheet + T.dataOff)
    let s := (s.setNextFree end_ nullOff).setPrevFree end_ nullOff
    let data := sheet + T.dataOff
    let s := (s.setBsizeFlags data T.dataBytes).setPrevPhys data sheet
    let s : TlsfState T := { s with count := s.count + 1, sheets := sheet :: s.sheets }
    (s.insertFree data T.dataBytes, true)

def removeSheet (s : TlsfState T) (sheet : Nat) : TlsfState T × Bool :=
  if s.count = 0 || !s.sheetEmpty sheet then (s, false)
  else
    let s := s.removeFree (sheet + T.dataOff) T.dataBytes
    ({ s with count := s.count - 1, sheets := s.sheets.erase sheet }, true)

-----------------------------------------------------------------------------------------
-- Gauges
-----------------------------------------------------------------------------------------

def largestFree (s : TlsfState T) : Nat :=
  if s.flBitmap = 0 then 0
  else
    let fl := fls s.flBitmap
    if fl ≥ T.flCount || s.slBitmap fl = 0 then 0
    else
      let sl := fls (s.slBitmap fl)
      let off := s.heads (fl * T.slCount + sl)
      if off = nullOff then 0
      else
        let bs := s.bsize off
        if bs ≤ headerSize then 0 else bs - headerSize

end TlsfState

end Bbmalloc
