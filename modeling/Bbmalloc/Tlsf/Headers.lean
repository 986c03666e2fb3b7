import Bbmalloc.Tlsf.Classes

/-! What the header and bitmap stores of the small-block allocator change. Headers sit at
multiples of 16, so header words never overlap; the bitmap of a sheet lies between its
start header and its first block.
-/

namespace Bbmalloc

open Bbmalloc.Foundations

-----------------------------------------------------------------------------------------
-- Layout of a sheet
-----------------------------------------------------------------------------------------

section Layout

variable (T : TlsfParams)

theorem TlsfParams.sheet_pos : 0 < T.sheet := Nat.two_pow_pos _

theorem TlsfParams.dvd_sheet {k : Nat} (le : k ≤ 10) : 2 ^ k ∣ T.sheet :=
  Nat.pow_dvd_pow 2 (le_trans le T.sheet_large)

/-- A sheet is its start header, its bitmap, the data span and its end header; all parts are
whole multiples of 16 bytes.
-/
theorem TlsfParams.sheet_parts
    : T.dataOff + T.dataBytes + 16 = T.sheet ∧ T.dataOff = 16 + T.bitmapBytes
      ∧ 16 ∣ T.bitmapBytes ∧ T.sheet ≤ 128 * T.bitmapBytes ∧ 32 ≤ T.dataBytes
      ∧ 16 ∣ T.dataBytes ∧ 16 ∣ T.sheet := by
  have bitmap : T.bitmapBytes = (T.sheet / 128 + 15) / 16 * 16 := andNot_low _ 4
  have data : T.dataBytes = T.sheet - T.dataOff - 16 := rfl
  have off : T.dataOff = 16 + T.bitmapBytes := rfl
  have span := T.data_span
  have whole : 128 ∣ T.sheet := T.dvd_sheet (k := 7) (by omega)
  simp only [headerSize] at span
  omega

end Layout

-----------------------------------------------------------------------------------------
-- Header words
-----------------------------------------------------------------------------------------

/-- Reading a header word after a store to another or the same header word. -/
theorem load_header_word (m : Memory) {r a b v : Nat} (i j : Nat) (ha : 16 ∣ a) (hb : 16 ∣ b)
    (hi : 4 ∣ i ∧ i < 16) (hj : 4 ∣ j ∧ j < 16) (fits : v < u32)
    : (m.storeWord (r + a + i) 4 v).load (r + b + j) 4
      = if b = a ∧ j = i then v else m.load (r + b + j) 4 := by
  split
  · rename_i same
    obtain ⟨rfl, rfl⟩ := same
    exact Memory.load_storeWord _ (by simpa [u32] using fits)
  · rename_i differ
    exact Memory.load_storeWord_of_disjoint _ (by omega)

namespace TlsfState

variable {T : TlsfParams} {s : TlsfState T} {a b v : Nat}

theorem setBsizeFlags_words (ha : 16 ∣ a) (hb : 16 ∣ b) (fits : v < u32)
    : (s.setBsizeFlags a v).bsizeFlags b = (if b = a then v else s.bsizeFlags b)
      ∧ (s.setBsizeFlags a v).prevPhys b = s.prevPhys b
      ∧ (s.setBsizeFlags a v).nextFree b = s.nextFree b
      ∧ (s.setBsizeFlags a v).prevFree b = s.prevFree b := by
  refine ⟨?_, ?_, ?_, ?_⟩
  · simpa [setBsizeFlags, bsizeFlags] using
      load_header_word s.mem (r := s.rbase) 0 0 ha hb (by omega) (by omega) fits
  · simpa [setBsizeFlags, prevPhys] using
      load_header_word s.mem (r := s.rbase) 0 4 ha hb (by omega) (by omega) fits
  · simpa [setBsizeFlags, nextFree] using
      load_header_word s.mem (r := s.rbase) 0 8 ha hb (by omega) (by omega) fits
  · simpa [setBsizeFlags, prevFree] using
      load_header_word s.mem (r := s.rbase) 0 12 ha hb (by omega) (by omega) fits

theorem setPrevPhys_words (ha : 16 ∣ a) (hb : 16 ∣ b) (fits : v < u32)
    : (s.setPrevPhys a v).bsizeFlags b = s.bsizeFlags b
      ∧ (s.setPrevPhys a v).prevPhys b = (if b = a then v else s.prevPhys b)
      ∧ (s.setPrevPhys a v).nextFree b = s.nextFree b
      ∧ (s.setPrevPhys a v).prevFree b = s.prevFree b := by
  refine ⟨?_, ?_, ?_, ?_⟩
  · simpa [setPrevPhys, bsizeFlags] using
      load_header_word s.mem (r := s.rbase) 4 0 ha hb (by omega) (by omega) fits
  · simpa [setPrevPhys, prevPhys] using
      load_header_word s.mem (r := s.rbase) 4 4 ha hb (by omega) (by omega) fits
  · simpa [setPrevPhys, nextFree] using
      load_header_word s.mem (r := s.rbase) 4 8 ha hb (by omega) (by omega) fits
  · simpa [setPrevPhys, prevFree] using
      load_header_word s.mem (r := s.rbase) 4 12 ha hb (by omega) (by omega) fits

theorem setNextFree_words (ha : 16 ∣ a) (hb : 16 ∣ b) (fits : v < u32)
    : (s.setNextFree a v).bsizeFlags b = s.bsizeFlags b
      ∧ (s.setNextFree a v).prevPhys b = s.prevPhys b
      ∧ (s.setNextFree a v).nextFree b = (if b = a then v else s.nextFree b)
      ∧ (s.setNextFree a v).prevFree b = s.prevFree b := by
  refine ⟨?_, ?_, ?_, ?_⟩
  · simpa [setNextFree, bsizeFlags] using
      load_header_word s.mem (r := s.rbase) 8 0 ha hb (by omega) (by omega) fits
  · simpa [setNextFree, prevPhys] using
      load_header_word s.mem (r := s.rbase) 8 4 ha hb (by omega) (by omega) fits
  · simpa [setNextFree, nextFree] using
      load_header_word s.mem (r := s.rbase) 8 8 ha hb (by omega) (by omega) fits
  · simpa [setNextFree, prevFree] using
      load_header_word s.mem (r := s.rbase) 8 12 ha hb (by omega) (by omega) fits

theorem setPrevFree_words (ha : 16 ∣ a) (hb : 16 ∣ b) (fits : v < u32)
    : (s.setPrevFree a v).bsizeFlags b = s.bsizeFlags b
      ∧ (s.setPrevFree a v).prevPhys b = s.prevPhys b
      ∧ (s.setPrevFree a v).nextFree b = s.nextFree b
      ∧ (s.setPrevFree a v).prevFree b = (if b = a then v else s.prevFree b) := by
  refine ⟨?_, ?_, ?_, ?_⟩
  · simpa [setPrevFree, bsizeFlags] using
      load_header_word s.mem (r := s.rbase) 12 0 ha hb (by omega) (by omega) fits
  · simpa [setPrevFree, prevPhys] using
      load_header_word s.mem (r := s.rbase) 12 4 ha hb (by omega) (by omega) fits
  · simpa [setPrevFree, nextFree] using
      load_header_word s.mem (r := s.rbase) 12 8 ha hb (by omega) (by omega) fits
  · simpa [setPrevFree, prevFree] using
      load_header_word s.mem (r := s.rbase) 12 12 ha hb (by omega) (by omega) fits

theorem setPrevFreeOrScratch_words (ha : a = nullOff ∨ 16 ∣ a) (hb : 16 ∣ b) (fits : v < u32)
    : (s.setPrevFreeOrScratch a v).bsizeFlags b = s.bsizeFlags b
      ∧ (s.setPrevFreeOrScratch a v).prevPhys b = s.prevPhys b
      ∧ (s.setPrevFreeOrScratch a v).nextFree b = s.nextFree b
      ∧ (s.setPrevFreeOrScratch a v).prevFree b
        = (if a ≠ nullOff ∧ b = a then v else s.prevFree b) := by
  by_cases null : a = nullOff
  · simp [setPrevFreeOrScratch, null, bsizeFlags, prevPhys, nextFree, prevFree]
  · have words := setPrevFree_words (s := s) (v := v) (ha.resolve_left null) hb fits
    simpa [setPrevFreeOrScratch, setPrevFree, null, bsizeFlags, prevPhys, nextFree, prevFree]
      using words

/-- Header words are read from memory. -/
theorem words_of_mem {t : TlsfState T} (mem : t.mem = s.mem) (base : t.rbase = s.rbase)
    : t.bsizeFlags = s.bsizeFlags ∧ t.prevPhys = s.prevPhys ∧ t.nextFree = s.nextFree
      ∧ t.prevFree = s.prevFree := by
  refine ⟨?_, ?_, ?_, ?_⟩ <;> funext x <;>
    simp only [bsizeFlags, prevPhys, nextFree, prevFree, mem, base]

-----------------------------------------------------------------------------------------
-- Flag bits
-----------------------------------------------------------------------------------------

/-- The size word of a free block, or with the flag of a granted one. -/
theorem size_word {n : Nat} (whole : 16 ∣ n)
    : andNot n tlsfFlags = n ∧ n &&& (tlsfAlloc ||| tlsfSentinel) = 0
      ∧ andNot (n ||| tlsfAlloc) tlsfFlags = n
      ∧ (n ||| tlsfAlloc) &&& (tlsfAlloc ||| tlsfSentinel) = tlsfAlloc
      ∧ (n ||| tlsfAlloc) = n + 1 := by
  obtain ⟨q, rfl⟩ := whole
  have one : 16 * q ||| tlsfAlloc = 16 * q + 1 :=
    (Nat.two_pow_add_eq_or_of_lt (i := 4) (b := 1) (by omega) q).symm
  have flags : tlsfFlags = 2 ^ 4 - 1 := rfl
  have low : tlsfAlloc ||| tlsfSentinel = 2 ^ 2 - 1 := rfl
  rw [one, flags, low, andNot_low, andNot_low, and_low, and_low]
  refine ⟨by omega, by omega, by omega, ?_, rfl⟩
  show (16 * q + 1) % 4 = 1
  omega

/-- A sentinel's size word. -/
theorem sentinel_word {n : Nat} (whole : 16 ∣ n)
    : (n ||| tlsfAlloc ||| tlsfSentinel) &&& (tlsfAlloc ||| tlsfSentinel) ≠ 0
      ∧ (n ||| tlsfAlloc ||| tlsfSentinel) = n + 3 := by
  obtain ⟨q, rfl⟩ := whole
  have three : 16 * q ||| tlsfAlloc ||| tlsfSentinel = 16 * q + 3 := by
    rw [Nat.or_assoc]
    exact (Nat.two_pow_add_eq_or_of_lt (i := 4) (b := 3) (by omega) q).symm
  have low : tlsfAlloc ||| tlsfSentinel = 2 ^ 2 - 1 := rfl
  rw [three, low, and_low]
  refine ⟨?_, rfl⟩
  show (16 * q + 3) % 4 ≠ 0
  omega

end TlsfState

end Bbmalloc
