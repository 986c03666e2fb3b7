import Bbmalloc.Model.Settings

/-! What the static asserts guarantee. Those of the profile and of both tiers make the build
that all results are about. Those of the profile imply those of the tiers as long as the size
of four sheets is a word; where it wraps around, a 64-bit target is stopped by the TLSF list
and a 32-bit target is not.
-/

namespace Bbmalloc

open Bbmalloc.Foundations

namespace Settings

-----------------------------------------------------------------------------------------
-- Powers of two
-----------------------------------------------------------------------------------------

/-- What an accepted power-of-two assert says of a positive size. -/
theorem pow2_of_assert {n : Nat} (positive : 0 < n) (accepted : n &&& (n - 1) = 0)
    : ∃ k, n = 2 ^ k := by
  refine (isPow2_iff n).mp ?_
  simp [isPow2, accepted]
  omega

/-- A power of two passes the assert. -/
theorem assert_of_pow2 (k : Nat) : (2 ^ k) &&& (2 ^ k - 1) = 0 := by
  have passes := (isPow2_iff (2 ^ k)).mpr ⟨k, rfl⟩
  simp only [isPow2, Bool.and_eq_true, beq_iff_eq] at passes
  exact passes.2

variable {S : Settings} {k : Nat}

/-- The bitmap of a sheet is small, and a multiple of 16. -/
theorem bitmapBytes_spec (sheet : S.tlsfSheet = 2 ^ k) (large : 10 ≤ k)
    : 16 ∣ S.bitmapBytes ∧ S.bitmapBytes + headerSize + headerSize ≤ 2 ^ (k - 1)
      ∧ 2 ^ k = 2 * 2 ^ (k - 1) ∧ 512 ≤ 2 ^ (k - 1) ∧ 16 ∣ 2 ^ k := by
  obtain ⟨below, _, whole⟩ := andNot_low_bounds (S.tlsfSheet / 128 + 15) 4
  have half : 2 ^ k = 2 * 2 ^ (k - 1) := by
    rw [← pow_succ', Nat.sub_add_cancel (by omega)]
  have least : 2 ^ 9 ≤ 2 ^ (k - 1) := Nat.pow_le_pow_right (by omega) (by omega)
  refine ⟨whole, ?_, half, least, Nat.pow_dvd_pow 2 (show 4 ≤ k by omega)⟩
  simp only [bitmapBytes, headerSize]
  simp only [Nat.reducePow, Nat.reduceSub] at below least
  omega

/-- The data bytes of a sheet fill more than half of it. -/
theorem dataBytes_spec (sheet : S.tlsfSheet = 2 ^ k) (large : 10 ≤ k)
    : S.dataBytes = 2 ^ k - (headerSize + S.bitmapBytes) - headerSize
      ∧ 2 ^ (k - 1) ≤ S.dataBytes ∧ S.dataBytes < 2 ^ k ∧ 16 ∣ S.dataBytes := by
  obtain ⟨whole, small, half, least, unit⟩ := bitmapBytes_spec sheet large
  have plain : S.dataBytes = 2 ^ k - (headerSize + S.bitmapBytes) - headerSize := by
    have inner : wrapSub S.word (2 ^ k) (headerSize + S.bitmapBytes)
        = 2 ^ k - (headerSize + S.bitmapBytes) := wrapSub_of_le (by omega)
    rw [dataBytes, sheet, inner, wrapSub_of_le (by omega)]
  have header : headerSize = 16 := rfl
  refine ⟨plain, by omega, by omega, ?_⟩
  rw [plain]
  exact Nat.dvd_sub (Nat.dvd_sub unit (Nat.dvd_add (by decide) whole)) (by decide)

/-- The first-level count is the exponent of the sheet less 5. -/
theorem flCount_eq (sheet : S.tlsfSheet = 2 ^ k) (large : 10 ≤ k)
    : S.flCount = (k : Int) - 5 ∧ Nat.log2 S.dataBytes = k - 1 := by
  obtain ⟨_, above, below, _⟩ := dataBytes_spec sheet large
  have log : Nat.log2 S.dataBytes = k - 1 := by
    have positive : S.dataBytes ≠ 0 := by
      have := Nat.two_pow_pos (k - 1)
      omega
    refine (Nat.log2_eq_iff positive).mpr ⟨above, ?_⟩
    rwa [Nat.sub_add_cancel (by omega)]
  refine ⟨?_, log⟩
  rw [flCount, log]
  omega

-----------------------------------------------------------------------------------------
-- What an accepted profile says
-----------------------------------------------------------------------------------------

/-- The sizes of an accepted profile, as exponents. -/
structure Sized (S : Settings) (a k m : Nat) : Prop where
  minBlock : S.minBlock = 2 ^ a
  tlsfSheet : S.tlsfSheet = 2 ^ k
  maxAlignment : S.maxAlignment = 2 ^ m
  links : 2 * (S.wordBits / 8) ≤ 2 ^ a
  block : 4 ≤ a
  sheet : 10 ≤ k
  blocks : a ≤ k
  alignment : a ≤ m
  classWhole : S.classSmall % 16 = 0
  classFits : S.classSmall ≤ 2 ^ k / 16
  regionWord : S.maxRegionBytes ≤ 0xFFFFFFFF
  regionSheets : S.fourSheets ≤ S.maxRegionBytes

/-- The exponents are read off the sizes. -/
theorem Sized.logs {a m : Nat} (h : S.Sized a k m)
    : Nat.log2 S.minBlock = a ∧ Nat.log2 S.tlsfSheet = k ∧ Nat.log2 S.maxAlignment = m := by
  rw [h.minBlock, h.tlsfSheet, h.maxAlignment]
  exact ⟨Nat.log2_two_pow, Nat.log2_two_pow, Nat.log2_two_pow⟩

/-- The exponents exist. -/
theorem sized_of_asserts (accepted : S.sizeAsserts = true) : ∃ a k m, S.Sized a k m := by
  simp only [sizeAsserts, Bool.and_eq_true, beq_iff_eq, decide_eq_true_eq, ge_iff_le]
    at accepted
  obtain ⟨⟨⟨⟨⟨⟨⟨minPow, links, minLarge⟩, whole⟩, sheetPow⟩, sheetLarge, blocks⟩, fits⟩, alignPow,
    alignLarge⟩, regionWord, regionSheets⟩ := accepted
  obtain ⟨a, minBlock⟩ := pow2_of_assert (by omega) minPow
  obtain ⟨k, tlsfSheet⟩ := pow2_of_assert (by omega) sheetPow
  obtain ⟨m, maxAlignment⟩ := pow2_of_assert (by omega) alignPow
  rw [minBlock] at links minLarge blocks alignLarge
  rw [tlsfSheet] at sheetLarge blocks fits
  rw [maxAlignment] at alignLarge
  have exponent : ∀ i j, 2 ^ i ≤ 2 ^ j → i ≤ j :=
    fun i j le => (Nat.pow_le_pow_iff_right (by omega)).mp le
  refine ⟨a, k, m, minBlock, tlsfSheet, maxAlignment, links, exponent 4 a minLarge,
    exponent 10 k sheetLarge, ?_, exponent a m alignLarge, whole, fits, regionWord, regionSheets⟩
  exact exponent a k (Nat.le_of_dvd (Nat.two_pow_pos k) (Nat.dvd_of_mod_eq_zero blocks))

/-- The search table of the small class takes less than half of a sheet. -/
theorem Sized.tableMax_le {a m : Nat} (h : S.Sized a k m) (typed : S.Typed)
    : S.tableMax = andNot (S.classSmall + 31) 15 + 16
      ∧ S.tableMax * 2 ≤ 2 ^ (k - 1) := by
  obtain ⟨_, _, half, least, _⟩ := bitmapBytes_spec h.tlsfSheet h.sheet
  obtain ⟨below, _⟩ := andNot_low_bounds (S.classSmall + 31) 4
  have fits := h.classFits
  have word := typed.tlsfSheet
  rw [h.tlsfSheet] at word
  simp only [Nat.reducePow, Nat.reduceSub] at below
  have plain : S.tableMax = andNot (S.classSmall + 31) 15 + 16 := by
    rw [tableMax, Nat.mod_eq_of_lt (show S.classSmall + 31 < S.word by omega),
      Nat.mod_eq_of_lt (by omega)]
  exact ⟨plain, by omega⟩

/-- The tiers' asserts come down to the first-level count, which the sheet's exponent bounds. -/
theorem Sized.tierAsserts_iff {a m : Nat} (h : S.Sized a k m) (typed : S.Typed)
    (accepted : S.rangeAsserts = true)
    : S.tierAsserts = true ↔ k ≤ 32 := by
  obtain ⟨_, above, below, whole⟩ := dataBytes_spec h.tlsfSheet h.sheet
  obtain ⟨count, log⟩ := flCount_eq h.tlsfSheet h.sheet
  obtain ⟨_, _, half, least, _⟩ := bitmapBytes_spec h.tlsfSheet h.sheet
  obtain ⟨_, table⟩ := h.tableMax_le typed
  have word := typed.tlsfSheet
  have sheet := h.sheet
  have fits := h.classFits
  have minPow := assert_of_pow2 a
  have sheetPow := assert_of_pow2 k
  have links := h.links
  rw [h.tlsfSheet] at word
  have header : headerSize = 16 := rfl
  simp only [rangeAsserts, Bool.and_eq_true, Bool.or_eq_true, Bool.not_eq_true', beq_iff_eq,
    decide_eq_true_eq, ge_iff_le] at accepted
  obtain ⟨⟨⟨⟨⟨⟨⟨⟨⟨⟨levels, _⟩, sheets⟩, _⟩, _⟩, _⟩, _⟩, _⟩, redzone⟩, orders⟩, _⟩ := accepted
  have tabled : S.tableMax * 2 % S.word ≤ S.dataBytes := by
    rw [Nat.mod_eq_of_lt (by omega)]
    omega
  have zone : (S.classSmall + headerSize + (if S.redzone then S.redzoneSize else 0)) % S.word
      ≤ S.dataBytes := by
    have small : (if S.redzone then S.redzoneSize else 0) ≤ S.classSmall := by
      split
      · rcases redzone with off | on
        · simp_all
        · omega
      · omega
    rw [Nat.mod_eq_of_lt (by omega)]
    omega
  simp only [tierAsserts, h.minBlock, h.tlsfSheet, count, log, Bool.and_eq_true, beq_iff_eq,
    decide_eq_true_eq, ge_iff_le, minPow, sheetPow, links, levels, sheets, h.classWhole, tabled,
    zone, Nat.mod_eq_zero_of_dvd whole, true_and, and_true]
  omega

-----------------------------------------------------------------------------------------
-- The build
-----------------------------------------------------------------------------------------

/-- Macros that every static assert accepts. -/
structure Accepted (S : Settings) : Prop where
  typed : S.Typed
  profile : S.profileAsserts = true
  pool : S.poolAsserts = true
  tiers : S.tierAsserts = true

/-- The ranges of an accepted profile. -/
structure Ranged (S : Settings) : Prop where
  slLog2 : 1 ≤ S.slLog2 ∧ S.slLog2 ≤ 5
  maxRegions : 1 ≤ S.maxRegions ∧ S.maxRegions ≤ 8
  maxTlsfSheets : 1 ≤ S.maxTlsfSheets ∧ S.maxTlsfSheets ≤ 64
  orderCacheCap : S.orderCacheCap ≤ 4
  failResult : 0 ≤ S.failResult ∧ S.failResult ≤ 2
  doubleFreeAction : 0 ≤ S.doubleFreeAction ∧ S.doubleFreeAction ≤ 2
  redzoneAction : 0 ≤ S.redzoneAction ∧ S.redzoneAction ≤ 2
  redzoneWhole : S.redzoneSize % 16 = 0
  redzoneFits : S.redzone = true → S.redzoneSize < S.classSmall
  maxOrders : 4 ≤ S.maxOrders ∧ S.maxOrders ≤ 63

theorem ranged_of_asserts (accepted : S.rangeAsserts = true) : S.Ranged := by
  simp only [rangeAsserts, Bool.and_eq_true, Bool.or_eq_true, Bool.not_eq_true', beq_iff_eq,
    decide_eq_true_eq, ge_iff_le] at accepted
  obtain ⟨⟨⟨⟨⟨⟨⟨⟨⟨⟨levels, regions⟩, sheets⟩, cap⟩, fail⟩, double⟩, trip⟩, whole⟩, redzone⟩,
    orders⟩, _⟩ := accepted
  refine ⟨levels, regions, sheets, cap, fail, double, trip, whole, fun on => ?_, orders⟩
  rcases redzone with off | fits
  · rw [on] at off
    cases off
  · exact fits

/-- What the parts of an accepted build rest on. -/
theorem Accepted.spec (h : S.Accepted)
    : (∃ a k m, S.Sized a k m ∧ k ≤ 32 ∧ a < S.wordBits ∧ k < S.wordBits) ∧ S.Ranged := by
  have both := h.profile
  rw [profileAsserts, Bool.and_eq_true] at both
  obtain ⟨a, k, m, sized⟩ := sized_of_asserts both.1
  have block := h.typed.minBlock
  have sheet := h.typed.tlsfSheet
  rw [sized.minBlock, Settings.word] at block
  rw [sized.tlsfSheet, Settings.word] at sheet
  exact ⟨⟨a, k, m, sized, (sized.tierAsserts_iff h.typed both.2).mp h.tiers,
    (Nat.pow_lt_pow_iff_right (by omega)).mp block,
    (Nat.pow_lt_pow_iff_right (by omega)).mp sheet⟩, ranged_of_asserts both.2⟩

end Settings

/-- The meaning of a failure code. -/
def FailResult.ofCode (c : Int) : FailResult :=
  if c = 0 then .null else if c = 1 then .halt else .throw

/-- The meaning of an action code. -/
def FaultAction.ofCode (c : Int) : FaultAction :=
  if c = 0 then .ignore else if c = 1 then .report else .halt

theorem FailResult.code_ofCode {c : Int} (range : 0 ≤ c ∧ c ≤ 2) : (ofCode c).code = c := by
  unfold ofCode
  split_ifs <;> simp only [code] <;> omega

theorem FaultAction.code_ofCode {c : Int} (range : 0 ≤ c ∧ c ≤ 2) : (ofCode c).code = c := by
  unfold ofCode
  split_ifs <;> simp only [code] <;> omega

namespace Settings

variable {S : Settings}

/-- `__buddy_list<__default_min_block, __max_orders>`. -/
def buddyParams (h : S.Accepted) : BuddyParams where
  wordBits := S.wordBits
  log2Min := Nat.log2 S.minBlock
  Mx := S.maxOrders
  cacheCap := S.orderCacheCap
  cacheMaxOrder := S.orderCacheMaxOrder
  checkLinks := S.linkChecks
  wordBits_ok := h.typed.target
  min_word := by
    obtain ⟨⟨a, k, m, sized, _, small, _⟩, _⟩ := h.spec
    rw [sized.minBlock, Nat.log2_two_pow]
    exact small
  min_holds_links := by
    obtain ⟨⟨a, k, m, sized, _⟩, _⟩ := h.spec
    rw [sized.minBlock, Nat.log2_two_pow]
    exact sized.links
  mx_range := by
    have := h.spec.2.maxOrders
    omega
  cap_range := h.spec.2.orderCacheCap

/-- The arguments of the TLSF list. -/
def tlsfShape (S : Settings) : TlsfShape where
  log2Sheet := Nat.log2 S.tlsfSheet
  slLog2 := S.slLog2.toNat
  maxSheets := S.maxTlsfSheets
  smallMax := S.classSmall

theorem Accepted.shape_spec (h : S.Accepted)
    : S.tlsfShape.sheet = S.tlsfSheet ∧ S.tlsfShape.dataBytes = S.dataBytes := by
  obtain ⟨⟨a, k, m, sized, _⟩, _⟩ := h.spec
  have sheet : S.tlsfShape.sheet = S.tlsfSheet := by
    rw [TlsfShape.sheet, tlsfShape, sized.tlsfSheet, Nat.log2_two_pow]
  obtain ⟨plain, _⟩ := dataBytes_spec sized.tlsfSheet sized.sheet
  refine ⟨sheet, ?_⟩
  rw [plain, TlsfShape.dataBytes, TlsfShape.dataOff, TlsfShape.bitmapBytes, sheet,
    sized.tlsfSheet, bitmapBytes, sized.tlsfSheet]

/-- The asserts of the TLSF list. -/
theorem Accepted.tlsf_sheet (h : S.Accepted)
    : 10 ≤ S.tlsfShape.log2Sheet ∧ 1 ≤ S.tlsfShape.slLog2 ∧ S.tlsfShape.slLog2 ≤ 5 := by
  obtain ⟨⟨a, k, m, sized, _⟩, ranged⟩ := h.spec
  have log := sized.logs.2.1
  have levels := ranged.slLog2
  have sheet := sized.sheet
  simp only [tlsfShape, log]
  omega

theorem Accepted.tlsf_data (h : S.Accepted)
    : S.tlsfShape.flCount ≤ 27 ∧ headerSize < S.tlsfShape.dataBytes
      ∧ S.tlsfShape.dataBytes % 16 = 0 := by
  obtain ⟨⟨a, k, m, sized, small, _⟩, _⟩ := h.spec
  obtain ⟨_, log⟩ := flCount_eq sized.tlsfSheet sized.sheet
  obtain ⟨_, above, _, whole⟩ := dataBytes_spec sized.tlsfSheet sized.sheet
  obtain ⟨_, _, _, least, _⟩ := bitmapBytes_spec sized.tlsfSheet sized.sheet
  rw [TlsfShape.flCount, h.shape_spec.2, log, TlsfShape.flShift]
  simp only [headerSize]
  omega

theorem Accepted.tlsf_small (h : S.Accepted)
    : S.tlsfShape.smallMax % 16 = 0 ∧ S.tlsfShape.tableMax * 2 ≤ S.tlsfShape.dataBytes := by
  obtain ⟨⟨a, k, m, sized, _⟩, _⟩ := h.spec
  obtain ⟨_, above, _, _⟩ := dataBytes_spec sized.tlsfSheet sized.sheet
  obtain ⟨plain, table⟩ := sized.tableMax_le h.typed
  rw [h.shape_spec.2]
  refine ⟨sized.classWhole, ?_⟩
  rw [plain] at table
  exact le_trans table above

/-- `__tlsf_list<__default_tlsf_sheet, __sl_log2, __max_tlsf_sheets, __class_small>`. -/
def tlsfParams (h : S.Accepted) : TlsfParams where
  toTlsfShape := S.tlsfShape
  sheet_large := h.tlsf_sheet.1
  slLog2_range := h.tlsf_sheet.2
  maxSheets_range := h.spec.2.maxTlsfSheets
  flCount_le := h.tlsf_data.1
  data_span := h.tlsf_data.2
  small_fits := h.tlsf_small

/-- The build that accepted macros describe, for a pool of the given size and a page source. -/
def config (h : S.Accepted) (pool : Pool) (placed : pool.staticLen = S.staticPool)
    (pageAlloc : List Nat → Nat → Option Chunk) : Config where
  buddy := S.buddyParams h
  tlsf := S.tlsfParams h
  maxRegionBytes := S.maxRegionBytes
  maxRegions := S.maxRegions
  log2MaxAlign := Nat.log2 S.maxAlignment
  failResult := .ofCode S.failResult
  doubleFreeAction := .ofCode S.doubleFreeAction
  redzoneAction := .ofCode S.redzoneAction
  zeroOnAlloc := S.zeroOnAlloc
  zeroOnFree := S.zeroOnFree
  poisonOnFree := S.poisonOnFree
  redzone := S.redzone
  redzoneSize := S.redzoneSize
  collectStats := S.collectStats
  pool := pool
  growBytes := S.portGrow
  pageAlloc := pageAlloc
  min_block_large := by
    obtain ⟨⟨a, k, m, sized, _⟩, _⟩ := h.spec
    rw [show (S.buddyParams h).log2Min = a from sized.logs.1]
    exact sized.block
  sheet_word := by
    obtain ⟨⟨a, k, m, sized, _, _, small⟩, _⟩ := h.spec
    rw [show (S.tlsfParams h).log2Sheet = k from sized.logs.2.1]
    exact small
  sheet_of_blocks := by
    obtain ⟨⟨a, k, m, sized, _⟩, _⟩ := h.spec
    rw [show (S.buddyParams h).log2Min = a from sized.logs.1,
      show (S.tlsfParams h).log2Sheet = k from sized.logs.2.1]
    exact sized.blocks
  small_in_sheet := by
    obtain ⟨⟨a, k, m, sized, _⟩, _⟩ := h.spec
    rw [show (S.tlsfParams h).sheet = S.tlsfSheet from h.shape_spec.1, sized.tlsfSheet]
    exact sized.classFits
  max_alignment := by
    obtain ⟨⟨a, k, m, sized, _⟩, _⟩ := h.spec
    have word := h.typed.maxAlignment
    rw [sized.maxAlignment, Settings.word] at word
    rw [show (S.buddyParams h).log2Min = a from sized.logs.1, sized.logs.2.2]
    exact ⟨sized.alignment, (Nat.pow_lt_pow_iff_right (by omega)).mp word⟩
  region_bytes := by
    obtain ⟨⟨a, k, m, sized, _⟩, _⟩ := h.spec
    rw [show (S.tlsfParams h).sheet = S.tlsfSheet from h.shape_spec.1]
    exact ⟨sized.regionWord, sized.regionSheets⟩
  region_count := h.spec.2.maxRegions
  orders := by
    obtain ⟨⟨a, k, m, sized, _⟩, _⟩ := h.spec
    simp only [buddyParams, BuddyParams.minBlock, maxOrders, sized.minBlock, Nat.log2_two_pow]
  orders_range := h.spec.2.maxOrders.1
  redzone_size := ⟨h.spec.2.redzoneWhole, h.typed.redzoneSize⟩
  redzone_fits := h.spec.2.redzoneFits
  small_with_redzone := by
    obtain ⟨⟨a, k, m, sized, _⟩, ranged⟩ := h.spec
    obtain ⟨_, above, _, _⟩ := dataBytes_spec sized.tlsfSheet sized.sheet
    obtain ⟨_, _, half, least, _⟩ := bitmapBytes_spec sized.tlsfSheet sized.sheet
    have fits := sized.classFits
    have zone : (if S.redzone then S.redzoneSize else 0) ≤ S.classSmall := by
      split
      · exact le_of_lt (ranged.redzoneFits (by assumption))
      · omega
    rw [show (S.tlsfParams h).dataBytes = S.dataBytes from h.shape_spec.2]
    simp only [tlsfParams, tlsfShape, headerSize]
    omega
  static_pool := by
    intro mem len tags same
    have pools := h.pool
    rw [show (S.tlsfParams h).sheet = S.tlsfSheet from h.shape_spec.1]
    rw [same, Pool.staticLen] at placed
    simp only [poolAsserts, ← placed, Bool.and_eq_true, decide_eq_true_eq] at pools
    exact pools.1
  grow_bytes := by
    intro n same
    have pools := h.pool
    rw [show (S.tlsfParams h).sheet = S.tlsfSheet from h.shape_spec.1]
    simp only [poolAsserts, same, Bool.and_eq_true, decide_eq_true_eq] at pools
    exact pools.2

/-- Every constant of that build has the value its macro gives. -/
theorem config_builds (h : S.Accepted) (pool : Pool) (placed : pool.staticLen = S.staticPool)
    (pageAlloc : List Nat → Nat → Option Chunk)
    : S.Builds (S.config h pool placed pageAlloc) := by
  obtain ⟨⟨a, k, m, sized, _⟩, ranged⟩ := h.spec
  refine ⟨rfl, ?_, rfl, rfl, rfl, rfl, h.shape_spec.1, ?_, rfl, rfl, rfl, rfl, ?_,
    FailResult.code_ofCode ranged.failResult, FaultAction.code_ofCode ranged.doubleFreeAction,
    FaultAction.code_ofCode ranged.redzoneAction, rfl, rfl, rfl, placed, rfl⟩
  · simp only [config, buddyParams, BuddyParams.minBlock, sized.minBlock, Nat.log2_two_pow]
  · have := ranged.slLog2
    simp only [config, tlsfParams, tlsfShape]
    omega
  · simp only [config, Config.maxAlignment, sized.maxAlignment, Nat.log2_two_pow]

/-- The static asserts of the profile and of the pool are enough up to one wrap-around. Those
of the tiers then follow unless the size of four sheets wraps around on a 64-bit target. All
asserts together describe a build, whatever the pool and the page source are, and one whose
regions have room for four sheets exactly if that size does not wrap around.
-/
theorem asserts_enough (typed : S.Typed) (profile : S.profileAsserts = true)
    (pools : S.poolAsserts = true) (pool : Pool) (placed : pool.staticLen = S.staticPool)
    (pageAlloc : List Nat → Nat → Option Chunk)
    : (S.tierAsserts = true ↔ 4 * S.tlsfSheet < S.word ∨ S.wordBits = 32)
      ∧ ((∃ C, S.Builds C ∧ C.pool = pool ∧ C.pageAlloc = pageAlloc) ↔ S.tierAsserts = true)
      ∧ ((∃ C, S.Builds C ∧ C.pool = pool ∧ C.pageAlloc = pageAlloc
          ∧ 4 * C.tlsf.sheet ≤ C.maxRegionBytes)
        ↔ 4 * S.tlsfSheet < S.word) := by
  have both := profile
  rw [profileAsserts, Bool.and_eq_true] at both
  obtain ⟨a, k, m, sized⟩ := sized_of_asserts both.1
  have word := typed.tlsfSheet
  have tiers : S.tierAsserts = true ↔ 4 * S.tlsfSheet < S.word ∨ S.wordBits = 32 := by
    rw [sized.tierAsserts_iff typed both.2]
    rw [sized.tlsfSheet] at word ⊢
    rcases typed.target with narrow | wide
    · refine iff_of_true ?_ (Or.inr narrow)
      rw [Settings.word, narrow] at word
      exact le_of_lt ((Nat.pow_lt_pow_iff_right (by omega)).mp word)
    · have room := sized.regionSheets
      have region := sized.regionWord
      rw [fourSheets, sized.tlsfSheet, Settings.word, wide] at room
      rw [Settings.word, wide]
      constructor
      · intro small
        have := Nat.pow_le_pow_right (show 0 < 2 by omega) small
        omega
      · rintro (fits | narrow)
        · have : 2 ^ k < 2 ^ 32 := by omega
          exact le_of_lt ((Nat.pow_lt_pow_iff_right (by omega)).mp this)
        · omega
  refine ⟨tiers, ⟨?_, ?_⟩, ⟨?_, fun fits => ?_⟩⟩
  · rintro ⟨C, builds, _, _⟩
    have same : 2 ^ C.tlsf.log2Sheet = 2 ^ k := builds.sheet.trans sized.tlsfSheet
    have narrow := C.sheet_narrow
    rw [Nat.pow_right_injective (Nat.le_refl 2) same] at narrow
    exact (sized.tierAsserts_iff typed both.2).mpr (le_of_lt narrow)
  · exact fun accepted => ⟨_, S.config_builds ⟨typed, profile, pools, accepted⟩ pool placed
      pageAlloc, rfl, rfl⟩
  · rintro ⟨C, builds, _, _, room⟩
    have cap := C.region_bytes.1
    rw [builds.sheet] at room
    rcases typed.target with narrow | wide
    · rw [Settings.word, narrow]
      omega
    · rw [Settings.word, wide]
      omega
  · have accepted : S.Accepted := ⟨typed, profile, pools, tiers.mpr (Or.inl fits)⟩
    refine ⟨_, S.config_builds accepted pool placed pageAlloc, rfl, rfl, ?_⟩
    have room := sized.regionSheets
    rw [fourSheets, Nat.mod_eq_of_lt fits] at room
    rw [show (S.config accepted pool placed pageAlloc).tlsf.sheet = S.tlsfSheet
      from accepted.shape_spec.1]
    exact room

/-- A 32-bit profile with sheets of 1 GiB in regions of 4096 bytes. -/
def wrapping : Settings :=
  { Settings.tiny 32 with maxRegionBytes := 4 <<< 10, tlsfSheet := 1 <<< 30 }

theorem asserts_enough_wrapping
    : (wrapping.tierAsserts = true
        ↔ 4 * wrapping.tlsfSheet < wrapping.word ∨ wrapping.wordBits = 32)
      ∧ ((∃ C, wrapping.Builds C ∧ C.pool = .none ∧ C.pageAlloc = fun _ _ => none)
        ↔ wrapping.tierAsserts = true)
      ∧ ((∃ C, wrapping.Builds C ∧ C.pool = .none ∧ (C.pageAlloc = fun _ _ => none)
          ∧ 4 * C.tlsf.sheet ≤ C.maxRegionBytes)
        ↔ 4 * wrapping.tlsfSheet < wrapping.word) :=
  asserts_enough ⟨by decide, by decide, by decide, by decide, by decide, by decide, by decide⟩
    (by decide +kernel) (by decide +kernel) .none rfl (fun _ _ => none)

/-- The shipped profiles pass every assert on both targets. -/
example : ∀ S ∈ [Settings.small, .tiny, .kernel], ∀ bits ∈ [32, 64],
    ((S bits).profileAsserts && (S bits).tierAsserts && (S bits).poolAsserts) = true
      ∧ 4 * (S bits).tlsfSheet < (S bits).word := by
  decide +kernel

end Settings

end Bbmalloc
