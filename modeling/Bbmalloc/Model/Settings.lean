import Bbmalloc.Model.Config

/-! The macros of a build and the static asserts over them, in the word arithmetic of the
target: those of the profile, of the two tiers and of the pool.
-/

namespace Bbmalloc

open Bbmalloc.Foundations

-----------------------------------------------------------------------------------------
-- Macros
-----------------------------------------------------------------------------------------

/-- The constants of a build as its macros give them. Sizes are `usize`, counts `u32`,
and `exceptions` says that `__cpp_exceptions` is defined.
-/
structure Settings where
  wordBits : Nat
  minBlock : Nat
  maxRegionBytes : Nat
  maxRegions : Nat
  classSmall : Nat
  tlsfSheet : Nat
  maxTlsfSheets : Nat
  slLog2 : Int
  maxAlignment : Nat
  orderCacheCap : Nat
  orderCacheMaxOrder : Int
  failResult : Int
  doubleFreeAction : Int
  redzoneAction : Int
  zeroOnAlloc : Bool
  zeroOnFree : Bool
  poisonOnFree : Bool
  redzone : Bool
  redzoneSize : Nat
  linkChecks : Bool
  collectStats : Bool
  exceptions : Bool
  staticPool : Option Nat
  portGrow : Option Nat

namespace Settings

variable (S : Settings)

def word : Nat := 2 ^ S.wordBits

/-- The target has words of 32 or 64 bits, and every size is one. -/
structure Typed : Prop where
  target : S.wordBits = 32 ∨ S.wordBits = 64
  minBlock : S.minBlock < S.word
  maxRegionBytes : S.maxRegionBytes < S.word
  classSmall : S.classSmall < S.word
  tlsfSheet : S.tlsfSheet < S.word
  maxAlignment : S.maxAlignment < S.word
  redzoneSize : S.redzoneSize < S.word

-----------------------------------------------------------------------------------------
-- The profile
-----------------------------------------------------------------------------------------

/-- `__max_orders`. -/
def maxOrders : Nat := bitLength (S.maxRegionBytes / S.minBlock)

/-- `4 * __default_tlsf_sheet`, a word. -/
def fourSheets : Nat := 4 * S.tlsfSheet % S.word

/-- The asserts over the sizes of blocks, sheets and regions. -/
def sizeAsserts : Bool :=
  S.minBlock &&& (S.minBlock - 1) == 0
  && (S.minBlock ≥ 2 * (S.wordBits / 8) && S.minBlock ≥ 16)
  && S.classSmall % 16 == 0
  && S.tlsfSheet &&& (S.tlsfSheet - 1) == 0
  && (S.tlsfSheet ≥ 1024 && S.tlsfSheet % S.minBlock == 0)
  && S.classSmall ≤ S.tlsfSheet / 16
  && (S.maxAlignment &&& (S.maxAlignment - 1) == 0 && S.maxAlignment ≥ S.minBlock)
  && (S.maxRegionBytes ≤ 0xFFFFFFFF && S.maxRegionBytes ≥ S.fourSheets)

/-- The asserts over counts and policies. -/
def rangeAsserts : Bool :=
  (S.slLog2 ≥ 1 && S.slLog2 ≤ 5)
  && (S.maxRegions ≥ 1 && S.maxRegions ≤ 8)
  && (S.maxTlsfSheets ≥ 1 && S.maxTlsfSheets ≤ 64)
  && S.orderCacheCap ≤ 4
  && (S.failResult ≥ 0 && S.failResult ≤ 2)
  && (S.doubleFreeAction ≥ 0 && S.doubleFreeAction ≤ 2)
  && (S.redzoneAction ≥ 0 && S.redzoneAction ≤ 2)
  && S.redzoneSize % 16 == 0
  && (!S.redzone || S.redzoneSize < S.classSmall)
  && (S.maxOrders ≥ 4 && S.maxOrders ≤ 63)
  && (S.exceptions || S.failResult != 2)

/-- The static asserts of the profile, in two groups. -/
def profileAsserts : Bool := S.sizeAsserts && S.rangeAsserts

-----------------------------------------------------------------------------------------
-- The tiers and the pool
-----------------------------------------------------------------------------------------

/-- `__bitmap_bytes`. -/
def bitmapBytes : Nat := andNot (S.tlsfSheet / 128 + 15) 15

/-- `__data_bytes`. -/
def dataBytes : Nat :=
  wrapSub S.word (wrapSub S.word S.tlsfSheet (headerSize + S.bitmapBytes)) headerSize

/-- `__fl_count`. -/
def flCount : Int := Nat.log2 S.dataBytes - 5 + 1

/-- `__table_max`. -/
def tableMax : Nat := (andNot ((S.classSmall + 31) % S.word) 15 + 16) % S.word

/-- The static asserts of the buddy list, of the TLSF list and of the region. -/
def tierAsserts : Bool :=
  (S.minBlock &&& (S.minBlock - 1) == 0
    && S.minBlock ≥ 2 * (S.wordBits / 8)
    && (S.maxOrders ≥ 1 && S.maxOrders ≤ 63))
  && (S.tlsfSheet &&& (S.tlsfSheet - 1) == 0 && S.tlsfSheet ≥ 1024
    && (S.slLog2 ≥ 1 && S.slLog2 ≤ 5)
    && (S.maxTlsfSheets ≥ 1 && S.maxTlsfSheets ≤ 64)
    && (S.flCount ≥ 1 && S.flCount ≤ 27)
    && (Nat.log2 S.dataBytes - 5 : Int) < S.flCount
    && (S.dataBytes > headerSize && S.dataBytes % 16 == 0)
    && (S.classSmall % 16 == 0 && S.tableMax * 2 % S.word ≤ S.dataBytes))
  && (S.classSmall + headerSize + (if S.redzone then S.redzoneSize else 0)) % S.word
    ≤ S.dataBytes

/-- The static asserts of the pool, for the macros that are defined. -/
def poolAsserts : Bool :=
  (match S.staticPool with
    | none => true
    | some n => n ≥ S.fourSheets)
  && match S.portGrow with
    | none => true
    | some n => n ≥ S.fourSheets && n ≤ S.maxRegionBytes

end Settings

-----------------------------------------------------------------------------------------
-- The build that the macros describe
-----------------------------------------------------------------------------------------

/-- The value of `MICRON_BB_FAIL_RESULT`. -/
def FailResult.code : FailResult → Int
  | .null => 0
  | .halt => 1
  | .throw => 2

/-- The value of an action macro. -/
def FaultAction.code : FaultAction → Int
  | .ignore => 0
  | .report => 1
  | .halt => 2

/-- The size of a static pool. -/
def Pool.staticLen : Pool → Option Nat
  | .static _ len _ => some len
  | _ => Option.none

/-- The macros describe the build: every constant of it has the value given. -/
structure Settings.Builds (S : Settings) (C : Config) : Prop where
  wordBits : C.buddy.wordBits = S.wordBits
  minBlock : C.buddy.minBlock = S.minBlock
  maxOrders : C.buddy.Mx = S.maxOrders
  cacheCap : C.buddy.cacheCap = S.orderCacheCap
  cacheMaxOrder : C.buddy.cacheMaxOrder = S.orderCacheMaxOrder
  linkChecks : C.buddy.checkLinks = S.linkChecks
  sheet : C.tlsf.sheet = S.tlsfSheet
  slLog2 : C.tlsf.slLog2 = S.slLog2
  maxSheets : C.tlsf.maxSheets = S.maxTlsfSheets
  classSmall : C.classSmall = S.classSmall
  maxRegionBytes : C.maxRegionBytes = S.maxRegionBytes
  maxRegions : C.maxRegions = S.maxRegions
  maxAlignment : C.maxAlignment = S.maxAlignment
  failResult : C.failResult.code = S.failResult
  doubleFreeAction : C.doubleFreeAction.code = S.doubleFreeAction
  redzoneAction : C.redzoneAction.code = S.redzoneAction
  scrubbing : (C.zeroOnAlloc, C.zeroOnFree, C.poisonOnFree)
    = (S.zeroOnAlloc, S.zeroOnFree, S.poisonOnFree)
  redzone : (C.redzone, C.redzoneSize) = (S.redzone, S.redzoneSize)
  collectStats : C.collectStats = S.collectStats
  staticPool : C.pool.staticLen = S.staticPool
  portGrow : C.growBytes = S.portGrow

-----------------------------------------------------------------------------------------
-- The shipped profiles
-----------------------------------------------------------------------------------------

/-- What a profile header leaves to the defaults, on a target of `wordBits` bits. -/
def Settings.defaults (wordBits : Nat) : Settings where
  wordBits := wordBits
  minBlock := 32
  maxRegionBytes := 16 <<< 20
  maxRegions := 2
  classSmall := 1024
  tlsfSheet := 16 <<< 10
  maxTlsfSheets := 8
  slLog2 := 4
  maxAlignment := 4096
  orderCacheCap := 0
  orderCacheMaxOrder := 0
  failResult := 0
  doubleFreeAction := 1
  redzoneAction := 1
  zeroOnAlloc := false
  zeroOnFree := false
  poisonOnFree := false
  redzone := false
  redzoneSize := 16
  linkChecks := true
  collectStats := false
  exceptions := false
  staticPool := none
  portGrow := none

/-- `config_small.hpp`. -/
def Settings.small (wordBits : Nat) : Settings := Settings.defaults wordBits

/-- `config_tiny.hpp`. -/
def Settings.tiny (wordBits : Nat) : Settings :=
  { Settings.defaults wordBits with
    minBlock := 16
    maxRegionBytes := 256 <<< 10
    maxRegions := 1
    classSmall := 256
    tlsfSheet := 4 <<< 10
    maxTlsfSheets := 4
    slLog2 := 2
    maxAlignment := 64 }

/-- `config_kernel.hpp`. -/
def Settings.kernel (wordBits : Nat) : Settings :=
  { Settings.defaults wordBits with
    minBlock := 64
    maxRegionBytes := 1024 <<< 20
    maxRegions := 8
    classSmall := 4096
    tlsfSheet := 64 <<< 10
    maxTlsfSheets := 64
    slLog2 := 4 }

end Bbmalloc
