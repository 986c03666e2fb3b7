import Bbmalloc.Foundations.BitScan

/-! Compile-time settings with the static asserts that guard them, and the constants of
the metadata layout. A settings value carries its asserts, so no later proof repeats them.
-/

namespace Bbmalloc

open Bbmalloc.Foundations

-----------------------------------------------------------------------------------------
-- Metadata constants
-----------------------------------------------------------------------------------------

def tagNone : Nat := 0x00
def tagAlloc : Nat := 0x40
def tagFree : Nat := 0x80
def tagSheet : Nat := 0xC0
def tagKind : Nat := 0xC0
def tagOrder : Nat := 0x3F

def nativeAlignment : Nat := 16
def headerSize : Nat := 16

def nullOff : Nat := 0xFFFFFFFF
def tlsfAlloc : Nat := 1
def tlsfSentinel : Nat := 2
def tlsfFlags : Nat := 0xF

/-- A pointer with a length; the null pointer is address 0. -/
structure Chunk where
  ptr : Nat
  len : Nat
  deriving DecidableEq, Repr

/-- The chunk `{ nullptr, 0 }`. -/
def Chunk.null : Chunk := ⟨0, 0⟩

inductive RetFlag
  | invalid
  | ok
  | failure
  | outOfSpace
  deriving DecidableEq, Repr

-----------------------------------------------------------------------------------------
-- Template arguments of the two tiers
-----------------------------------------------------------------------------------------

/-- Arguments of a buddy list: the word size of the target, `Min = 2 ^ log2Min`, the order
count `Mx`, the order cache and the link checks.
-/
structure BuddyParams where
  wordBits : Nat
  log2Min : Nat
  Mx : Nat
  cacheCap : Nat
  cacheMaxOrder : Int
  checkLinks : Bool
  wordBits_ok : wordBits = 32 ∨ wordBits = 64
  min_word : log2Min < wordBits
  min_holds_links : 2 * (wordBits / 8) ≤ 2 ^ log2Min
  mx_range : 1 ≤ Mx ∧ Mx ≤ 63
  cap_range : cacheCap ≤ 4

namespace BuddyParams

/-- The number of words, one more than `__usize_max`. -/
def word (P : BuddyParams) : Nat := 2 ^ P.wordBits

/-- `sizeof(void *)`. -/
def ptrBytes (P : BuddyParams) : Nat := P.wordBits / 8

/-- `Min`. -/
def minBlock (P : BuddyParams) : Nat := 2 ^ P.log2Min

/-- Width of `mask_t`. -/
def maskBits (P : BuddyParams) : Nat := if P.Mx ≤ 32 then 32 else 64

/-- `__max_total`. -/
def maxTotal : Nat := 0xFFFFFFF0

end BuddyParams

/-- Arguments of a TLSF list before its asserts: `Sheet = 2 ^ log2Sheet`. -/
structure TlsfShape where
  log2Sheet : Nat
  slLog2 : Nat
  maxSheets : Nat
  smallMax : Nat

namespace TlsfShape

def blockAlign : Nat := 16
def minBlock : Nat := 32
def flShift : Nat := 5

def sheet (T : TlsfShape) : Nat := 2 ^ T.log2Sheet
def slCount (T : TlsfShape) : Nat := 2 ^ T.slLog2
def bitmapBytes (T : TlsfShape) : Nat := andNot (T.sheet / 128 + 15) 15
def dataOff (T : TlsfShape) : Nat := headerSize + T.bitmapBytes
def dataBytes (T : TlsfShape) : Nat := T.sheet - T.dataOff - headerSize
def flCount (T : TlsfShape) : Nat := Nat.log2 T.dataBytes - flShift + 1
def listCount (T : TlsfShape) : Nat := T.flCount * T.slCount
def tableMax (T : TlsfShape) : Nat := andNot (T.smallMax + 31) 15 + 16

end TlsfShape

/-- Arguments of a TLSF list with the asserts of its template. -/
structure TlsfParams extends TlsfShape where
  sheet_large : 10 ≤ log2Sheet
  slLog2_range : 1 ≤ slLog2 ∧ slLog2 ≤ 5
  maxSheets_range : 1 ≤ maxSheets ∧ maxSheets ≤ 64
  flCount_le : toTlsfShape.flCount ≤ 27
  data_span : headerSize < toTlsfShape.dataBytes ∧ toTlsfShape.dataBytes % 16 = 0
  small_fits : smallMax % 16 = 0 ∧ toTlsfShape.tableMax * 2 ≤ toTlsfShape.dataBytes

-----------------------------------------------------------------------------------------
-- A whole profile
-----------------------------------------------------------------------------------------

/-- What `MICRON_BB_FAIL_RESULT` selects. -/
inductive FailResult
  | null
  | halt
  | throw
  deriving DecidableEq, Repr

/-- What the double-free and redzone actions select. -/
inductive FaultAction
  | ignore
  | report
  | halt
  deriving DecidableEq, Repr

/-- Where `__configured_pool` takes its memory from. -/
inductive Pool
  | none
  | static (mem len tags : Nat)
  | linker (heapStart heapEnd : Nat)
  | port (bytes : Nat)

/-- `__max_orders`: the bit length of the largest block count. -/
def bitLength (v : Nat) : Nat := if v = 0 then 0 else Nat.log2 v + 1

/-- One build of the allocator. The page source answers a request from the list of the
requests made before it, most recent first: `none` is a failure.
-/
structure Config where
  buddy : BuddyParams
  tlsf : TlsfParams
  maxRegionBytes : Nat
  maxRegions : Nat
  log2MaxAlign : Nat
  failResult : FailResult
  doubleFreeAction : FaultAction
  redzoneAction : FaultAction
  zeroOnAlloc : Bool
  zeroOnFree : Bool
  poisonOnFree : Bool
  redzone : Bool
  redzoneSize : Nat
  collectStats : Bool
  pool : Pool
  growBytes : Option Nat
  pageAlloc : List Nat → Nat → Option Chunk
  min_block_large : 4 ≤ buddy.log2Min
  sheet_word : tlsf.log2Sheet < buddy.wordBits
  sheet_of_blocks : buddy.log2Min ≤ tlsf.log2Sheet
  small_in_sheet : tlsf.smallMax ≤ tlsf.sheet / 16
  max_alignment : buddy.log2Min ≤ log2MaxAlign ∧ log2MaxAlign < buddy.wordBits
  region_bytes : maxRegionBytes ≤ 0xFFFFFFFF ∧ 4 * tlsf.sheet % buddy.word ≤ maxRegionBytes
  region_count : 1 ≤ maxRegions ∧ maxRegions ≤ 8
  orders : buddy.Mx = bitLength (maxRegionBytes / buddy.minBlock)
  orders_range : 4 ≤ buddy.Mx
  redzone_size : redzoneSize % 16 = 0 ∧ redzoneSize < buddy.word
  redzone_fits : redzone = true → redzoneSize < tlsf.smallMax
  small_with_redzone
    : tlsf.smallMax + headerSize + (if redzone then redzoneSize else 0) ≤ tlsf.dataBytes
  static_pool : ∀ mem len tags, pool = .static mem len tags → 4 * tlsf.sheet % buddy.word ≤ len
  grow_bytes
    : ∀ n, growBytes = some n → 4 * tlsf.sheet % buddy.word ≤ n ∧ n ≤ maxRegionBytes

namespace Config

/-- `__class_small`. -/
def classSmall (C : Config) : Nat := C.tlsf.smallMax

/-- `__default_max_alignment`. -/
def maxAlignment (C : Config) : Nat := 2 ^ C.log2MaxAlign

/-- `__rz`. -/
def rz (C : Config) : Nat := if C.redzone then C.redzoneSize else 0

/-- `__usize_max`. -/
def usizeMax (C : Config) : Nat := C.buddy.word - 1

/-- Sheets take at most half of the range of 32-bit offsets. -/
theorem sheet_narrow (C : Config) : C.tlsf.log2Sheet < 32 := by
  rcases C.buddy.wordBits_ok with narrow | wide
  · have := C.sheet_word
    omega
  by_contra large
  -- the first-level count excludes sizes whose fourfold wraps around in 64 bits
  have levels := C.tlsf.flCount_le
  have sheet : 2 ^ 32 ≤ C.tlsf.sheet := Nat.pow_le_pow_right (by decide) (Nat.not_lt.mp large)
  have bitmap : C.tlsf.bitmapBytes ≤ C.tlsf.sheet / 128 + 15 := (andNot_low_bounds _ 4).1
  have data : C.tlsf.dataBytes = C.tlsf.sheet - (16 + C.tlsf.bitmapBytes) - 16 := rfl
  have most : C.tlsf.dataBytes < 2 ^ 32 := by
    refine (Nat.log2_lt (by omega)).mp ?_
    simp only [TlsfShape.flCount, TlsfShape.flShift] at levels
    omega
  have fits := C.region_bytes
  rw [BuddyParams.word, wide, Nat.mod_eq_of_lt (by omega)] at fits
  omega

end Config

-----------------------------------------------------------------------------------------
-- A small build
-----------------------------------------------------------------------------------------

/-- A small buddy list for concrete runs: blocks of 16 bytes, at most 31 of them, and a cache of
one block for each order.
-/
def smallBuddy : BuddyParams where
  wordBits := 64
  log2Min := 4
  Mx := 5
  cacheCap := 1
  cacheMaxOrder := 2
  checkLinks := true
  wordBits_ok := Or.inr rfl
  min_word := by decide
  min_holds_links := by decide
  mx_range := by decide
  cap_range := by decide

/-- A small TLSF list for concrete runs: sheets of 1024 bytes, two of them. -/
def smallTlsf : TlsfParams where
  log2Sheet := 10
  slLog2 := 1
  maxSheets := 2
  smallMax := 64
  sheet_large := by decide
  slLog2_range := by decide
  maxSheets_range := by decide
  flCount_le := by decide
  data_span := by decide
  small_fits := by decide

/-- A 64-bit build with blocks of 32 bytes, sheets of 1024 and regions of up to 8192. -/
def smallBuild (pool : Pool) (growBytes : Option Nat) (pageAlloc : List Nat → Nat → Option Chunk)
    (static_pool : ∀ mem len tags, pool = .static mem len tags → 4 * 1024 ≤ len)
    (grow_bytes : ∀ n, growBytes = some n → 4 * 1024 ≤ n ∧ n ≤ 8192)
    : Config where
  buddy :=
    { smallBuddy with
      log2Min := 5, Mx := 9, checkLinks := false
      min_word := by decide, min_holds_links := by decide, mx_range := by decide }
  tlsf := smallTlsf
  maxRegionBytes := 8192
  maxRegions := 2
  log2MaxAlign := 6
  failResult := .null
  doubleFreeAction := .report
  redzoneAction := .report
  zeroOnAlloc := false
  zeroOnFree := false
  poisonOnFree := false
  redzone := false
  redzoneSize := 16
  collectStats := false
  pool := pool
  growBytes := growBytes
  pageAlloc := pageAlloc
  min_block_large := by decide
  sheet_word := by decide
  sheet_of_blocks := by decide
  small_in_sheet := by decide
  max_alignment := by decide
  region_bytes := by decide
  region_count := by decide
  orders := by decide +kernel
  orders_range := by decide
  redzone_size := by decide
  redzone_fits := by decide
  small_with_redzone := by decide +kernel
  static_pool := static_pool
  grow_bytes := grow_bytes

/-- The build without a pool and without growth. -/
def bareBuild : Config :=
  smallBuild .none none (fun _ _ => none) (fun _ _ _ same => by cases same)
    (fun _ same => by cases same)

end Bbmalloc
