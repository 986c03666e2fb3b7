import Bbmalloc.Tlsf.Gauges

/-! Adding and removing sheets. A fresh sheet gets its headers and an empty bitmap and is
one free block; a sheet can be removed when it is one free block again.
-/

namespace Bbmalloc

open Bbmalloc.Foundations

-----------------------------------------------------------------------------------------
-- Set-up
-----------------------------------------------------------------------------------------

/-- No blocks and empty bins. -/
def TlsfView.empty : TlsfView where
  block := fun _ => none
  bins := fun _ => []

/-- A list that was just set up has no sheets. -/
theorem TlsfState.init_spec {T : TlsfParams} (s : TlsfState T) (base limit : Nat)
    (fits : limit ≤ u32)
    : TlsfInv limit (s.init base) TlsfView.empty := by
  refine ⟨⟨⟨fits, by simp [init, reset], by simp [init, reset], by simp [init, reset]⟩,
    ⟨?_, ?_, ?_, ?_⟩, ?_, ?_, ?_, ?_, ?_, ?_, ?_, ?_, ?_⟩, ?_, ?_, ?_, rfl, ?_⟩
  · simp [TlsfView.empty]
  · simp [TlsfView.empty]
  · simp [TlsfView.empty]
  · rintro x ⟨sh, member, _⟩
    simp [init, reset] at member
  · simp [TlsfView.empty]
  · simp [TlsfView.empty]
  · simp [TlsfView.empty]
  · simp [init, reset]
  · simp [init, reset]
  · rintro x _ ⟨sh, member, _⟩
    simp [init, reset] at member
  · exact fun i => Linked.nil nullOff _ _
  · simp [TlsfView.empty]
  · simp [BinBits, init, reset, TlsfView.empty]
  · simp [TlsfView.Settled, TlsfView.empty]
  · simp [TlsfView.Merged, TlsfView.empty]
  · refine (blockSum_eq_zero ?_).symm
    simp [TlsfView.granted, TlsfView.empty, grantedSize]
  · simp [init, reset]

-----------------------------------------------------------------------------------------
-- Adding a sheet
-----------------------------------------------------------------------------------------

section Adding

variable {T : TlsfParams} {limit sh : Nat} {s s' : TlsfState T} {v : TlsfView}

/-- The addresses of one sheet. -/
def SheetCells (T : TlsfParams) (rbase sh a : Nat) : Prop :=
  rbase + sh ≤ a ∧ a < rbase + sh + T.sheet

/-- The step from `s` to `s'` stores into one sheet only. -/
def SheetOnly (sh : Nat) (s s' : TlsfState T) : Prop :=
  s'.rbase = s.rbase ∧ Memory.Within (SheetCells T s.rbase sh) s.mem s'.mem

theorem SheetOnly.trans {s'' : TlsfState T} (first : SheetOnly sh s s')
    (second : SheetOnly sh s' s'')
    : SheetOnly sh s s'' :=
  ⟨second.1.trans first.1, first.2.trans (first.1 ▸ second.2)⟩

/-- Stores into one sheet leave the headers and bitmaps of the others alone. -/
theorem words_of_sheetCells {t : TlsfState T} (fit : SheetsFit T limit (sh :: s.sheets))
    (only : SheetOnly sh s t)
    : (∀ y, HeaderAt T s.sheets y →
        t.bsizeFlags y = s.bsizeFlags y ∧ t.prevPhys y = s.prevPhys y
        ∧ t.nextFree y = s.nextFree y ∧ t.prevFree y = s.prevFree y)
      ∧ ∀ y, InSheets T s.sheets y → t.markBit y = s.markBit y := by
  obtain ⟨base, within⟩ := only
  have fresh : sh ∉ s.sheets := (List.nodup_cons.mp fit.nodup).1
  have parts := T.sheet_parts
  have far : ∀ b ∈ s.sheets, sh + T.sheet ≤ b ∨ b + T.sheet ≤ sh := by
    intro b hb
    have ne : sh ≠ b := fun eq => fresh (eq ▸ hb)
    rcases Nat.lt_or_gt_of_ne ne with before | after
    · exact Or.inl (fit.gap (by simp) (by simp [hb]) before)
    · exact Or.inr (fit.gap (by simp [hb]) (by simp) after)
  constructor
  · rintro y ⟨_, b, hb, place⟩
    have apart := far b hb
    have cell : ∀ a, s.rbase + y ≤ a → a < s.rbase + y + 16 → t.mem a = s.mem a := by
      intro a lo hi
      refine within a ?_
      rintro ⟨lo', hi'⟩
      omega
    simp only [TlsfState.bsizeFlags, TlsfState.prevPhys, TlsfState.nextFree, TlsfState.prevFree,
      base]
    refine ⟨?_, ?_, ?_, ?_⟩ <;>
      exact Memory.load_congr (fun a lo hi => by rw [cell a (by omega) (by omega)])
  · rintro y ⟨b, hb, lo, hi⟩
    have apart := far b hb
    have small : SheetsFit T limit s.sheets :=
      ⟨fit.limit_le, fun c hc => fit.dvd c (by simp [hc]), fun c hc => fit.end_le c (by simp [hc]),
        (List.nodup_cons.mp fit.nodup).2⟩
    have bounds := s.markByte_bounds small hb lo hi
    apply TlsfState.markBit_congr base
    rw [within]
    rintro ⟨lo', hi'⟩
    omega

/-- Storing all four words of a header. -/
def TlsfState.putHeader (s : TlsfState T) (off size prev next back : Nat) : TlsfState T :=
  (((s.setBsizeFlags off size).setPrevPhys off prev).setNextFree off next).setPrevFree off back

/-- Emptying the bitmap of a sheet. -/
def TlsfState.clearBitmap (s : TlsfState T) (sheet : Nat) : TlsfState T :=
  { s with mem := s.mem.fill (s.rbase + sheet + headerSize) T.bitmapBytes 0 }

/-- The stores of `add_sheet` before the data block is put into its bin. -/
def TlsfState.layOut (s : TlsfState T) (sheet : Nat) : TlsfState T :=
  let s := s.putHeader sheet (T.dataOff ||| tlsfAlloc ||| tlsfSentinel) nullOff 0 0
  let s := s.clearBitmap sheet
  let s := s.putHeader (sheet + (T.sheet - 16)) (headerSize ||| tlsfAlloc ||| tlsfSentinel)
    (sheet + T.dataOff) nullOff nullOff
  (s.setBsizeFlags (sheet + T.dataOff) T.dataBytes).setPrevPhys (sheet + T.dataOff) sheet

theorem TlsfState.addSheet_eq (room : s.count < T.maxSheets) (live : s.rbase ≠ 0)
    : s.addSheet sh
      = (({ s.layOut sh with count := s.count + 1, sheets := sh :: s.sheets }
          : TlsfState T).insertFree (sh + T.dataOff) T.dataBytes, true) := by
  have notFull : ¬s.count ≥ T.maxSheets := by omega
  simp only [addSheet, notFull, live, decide_false, Bool.or_self, Bool.false_eq_true, if_false]
  rfl

namespace TlsfState

variable {y z a b c d : Nat} {sheets : List Nat}

theorem putHeader_words (hy : 16 ∣ y) (hz : 16 ∣ z) (fits : a < u32 ∧ b < u32 ∧ c < u32 ∧ d < u32)
    : (s.putHeader y a b c d).bsizeFlags z = (if z = y then a else s.bsizeFlags z)
      ∧ (s.putHeader y a b c d).prevPhys z = (if z = y then b else s.prevPhys z) := by
  unfold putHeader
  rw [(setPrevFree_words hy hz fits.2.2.2).1, (setNextFree_words hy hz fits.2.2.1).1,
    (setPrevPhys_words hy hz fits.2.1).1, (setBsizeFlags_words hy hz fits.1).1,
    (setPrevFree_words hy hz fits.2.2.2).2.1, (setNextFree_words hy hz fits.2.2.1).2.1,
    (setPrevPhys_words hy hz fits.2.1).2.1, (setBsizeFlags_words hy hz fits.1).2.1]
  exact ⟨rfl, rfl⟩

/-- Stores to a header keep the bitmaps. -/
theorem markBit_setBsizeFlags (fit : SheetsFit T limit sheets) (header : HeaderAt T sheets y)
    (inside : InSheets T sheets z)
    : (s.setBsizeFlags y a).markBit z = s.markBit z :=
  markBit_storeWord (i := 0) (w := a) fit header (by omega) inside rfl rfl

theorem markBit_setPrevPhys (fit : SheetsFit T limit sheets) (header : HeaderAt T sheets y)
    (inside : InSheets T sheets z)
    : (s.setPrevPhys y a).markBit z = s.markBit z :=
  markBit_storeWord (i := 4) (w := a) fit header (by omega) inside rfl rfl

theorem putHeader_markBit (fit : SheetsFit T limit sheets) (header : HeaderAt T sheets y)
    (inside : InSheets T sheets z)
    : (s.putHeader y a b c d).markBit z = s.markBit z := by
  have third := markBit_storeWord (s := (s.setBsizeFlags y a).setPrevPhys y b)
    (t := ((s.setBsizeFlags y a).setPrevPhys y b).setNextFree y c) (i := 8) (w := c) fit header
    (by omega) inside rfl rfl
  have fourth := markBit_storeWord (s := ((s.setBsizeFlags y a).setPrevPhys y b).setNextFree y c)
    (t := s.putHeader y a b c d) (i := 12) (w := d) fit header (by omega) inside rfl rfl
  rw [fourth, third, markBit_setPrevPhys fit header inside, markBit_setBsizeFlags fit header inside]

/-- The bitmap lies behind the start header. -/
theorem clearBitmap_bsizeFlags (s : TlsfState T) (sh : Nat)
    : (s.clearBitmap sh).bsizeFlags sh = s.bsizeFlags sh := by
  refine Memory.load_congr (fun x lo hi => ?_)
  have base : (s.clearBitmap sh).rbase = s.rbase := rfl
  rw [base] at lo hi
  have same : (s.clearBitmap sh).mem x = s.mem x :=
    Memory.fill_outside _ _ (by simp only [headerSize]; omega)
  rw [same]

/-- A header word in a sheet is stored within the sheet. -/
theorem within_sheetCells (rbase : Nat) {m : Memory} {i w : Nat} (lo : sh ≤ y)
    (hi : y + 16 ≤ sh + T.sheet)
    (word : i + 4 ≤ 16)
    : Memory.Within (SheetCells T rbase sh) m (m.storeWord (rbase + y + i) 4 w) :=
  (Memory.within_storeWord _ _ _ _).mono (fun x range => ⟨by omega, by omega⟩)

theorem setBsizeFlags_only (lo : sh ≤ y) (hi : y + 16 ≤ sh + T.sheet)
    : SheetOnly sh s (s.setBsizeFlags y a) :=
  ⟨rfl, within_sheetCells s.rbase (i := 0) lo hi (by omega)⟩

theorem setPrevPhys_only (lo : sh ≤ y) (hi : y + 16 ≤ sh + T.sheet)
    : SheetOnly sh s (s.setPrevPhys y a) :=
  ⟨rfl, within_sheetCells s.rbase lo hi (by omega)⟩

theorem putHeader_only (lo : sh ≤ y) (hi : y + 16 ≤ sh + T.sheet)
    : SheetOnly sh s (s.putHeader y a b c d) := by
  have third : SheetOnly sh ((s.setBsizeFlags y a).setPrevPhys y b)
      (((s.setBsizeFlags y a).setPrevPhys y b).setNextFree y c) :=
    ⟨rfl, within_sheetCells s.rbase (i := 8) lo hi (by omega)⟩
  have fourth : SheetOnly sh (((s.setBsizeFlags y a).setPrevPhys y b).setNextFree y c)
      (s.putHeader y a b c d) :=
    ⟨rfl, within_sheetCells s.rbase (i := 12) lo hi (by omega)⟩
  exact (((setBsizeFlags_only lo hi).trans (setPrevPhys_only lo hi)).trans third).trans fourth

theorem clearBitmap_only (s : TlsfState T) (sh : Nat) : SheetOnly sh s (s.clearBitmap sh) := by
  refine ⟨rfl, fun x outside => ?_⟩
  have parts := T.sheet_parts
  refine Memory.fill_outside _ _ ?_
  by_contra inside
  simp only [headerSize] at inside
  exact outside ⟨by omega, by omega⟩

/-- A cleared bitmap has no bit set. -/
theorem clearBitmap_markBit (s : TlsfState T) (fit : SheetsFit T limit (sh :: sheets))
    (lo : sh + T.dataOff ≤ z) (hi : z < sh + T.dataOff + T.dataBytes)
    : (s.clearBitmap sh).markBit z = false := by
  have parts := T.sheet_parts
  have bounds := s.markByte_bounds fit (by simp : sh ∈ sh :: sheets) lo hi
  have byte : ((s.clearBitmap sh).mem (s.markByte z).1).byte = 0 :=
    Memory.fill_inside _ _ bounds.1 (by simp only [headerSize]; omega)
  have base : (s.clearBitmap sh).rbase = s.rbase := rfl
  have place : (s.clearBitmap sh).markByte z = s.markByte z := by
    simp only [markByte, base]
  have zero : ((s.clearBitmap sh).mem (s.markByte z).1).byte.toNat = 0 := by
    rw [byte]
    rfl
  rw [markBit, place, zero, Nat.zero_testBit]

/-- What the headers of a sheet say after it was laid out. -/
theorem layOut_words (s : TlsfState T) (fit : SheetsFit T limit (sh :: sheets))
    : (s.layOut sh).bsizeFlags sh = (T.dataOff ||| tlsfAlloc ||| tlsfSentinel)
      ∧ (s.layOut sh).bsizeFlags (sh + (T.sheet - 16))
        = (headerSize ||| tlsfAlloc ||| tlsfSentinel)
      ∧ (s.layOut sh).prevPhys (sh + (T.sheet - 16)) = sh + T.dataOff
      ∧ (s.layOut sh).bsizeFlags (sh + T.dataOff) = T.dataBytes
      ∧ (s.layOut sh).prevPhys (sh + T.dataOff) = sh := by
  have parts := T.sheet_parts
  have ends := fit.end_le sh (by simp)
  have limit_le := fit.limit_le
  have word : u32 = 4294967296 := rfl
  have null : nullOff < u32 := by decide
  have unit : 16 ∣ sh :=
    dvd_trans (T.dvd_sheet (k := 4) (by omega)) (fit.dvd sh (by simp))
  have dataUnit : 16 ∣ sh + T.dataOff := by omega
  have endUnit : 16 ∣ sh + (T.sheet - 16) := by omega
  have startFits : T.dataOff ||| tlsfAlloc ||| tlsfSentinel < u32 := by
    rw [(sentinel_word (n := T.dataOff) (by omega)).2]
    omega
  have endFits : headerSize ||| tlsfAlloc ||| tlsfSentinel < u32 := by decide
  set first := s.putHeader sh (T.dataOff ||| tlsfAlloc ||| tlsfSentinel) nullOff 0 0 with firstEq
  set second := first.clearBitmap sh with secondEq
  set third := second.putHeader (sh + (T.sheet - 16))
    (headerSize ||| tlsfAlloc ||| tlsfSentinel) (sh + T.dataOff) nullOff nullOff with thirdEq
  have kept : second.bsizeFlags sh = first.bsizeFlags sh := clearBitmap_bsizeFlags first sh
  have words₁ := putHeader_words (s := s) (y := sh) (z := sh) (c := 0) (d := 0) unit unit
    ⟨startFits, null, by omega, by omega⟩
  have words₃ := fun {z : Nat} (hz : 16 ∣ z) => putHeader_words (s := second)
    (y := sh + (T.sheet - 16)) (z := z) endUnit hz
    ⟨endFits, show sh + T.dataOff < u32 by omega, null, null⟩
  have value : s.layOut sh
      = (third.setBsizeFlags (sh + T.dataOff) T.dataBytes).setPrevPhys (sh + T.dataOff) sh := rfl
  have words₄ : ∀ {z}, 16 ∣ z →
      (s.layOut sh).bsizeFlags z = (if z = sh + T.dataOff then T.dataBytes else third.bsizeFlags z)
      ∧ (s.layOut sh).prevPhys z = (if z = sh + T.dataOff then sh else third.prevPhys z) := by
    intro z hz
    rw [value, (setPrevPhys_words dataUnit hz (by omega)).1,
      (setBsizeFlags_words dataUnit hz (by omega)).1,
      (setPrevPhys_words dataUnit hz (by omega)).2.1,
      (setBsizeFlags_words dataUnit hz (by omega)).2.1]
    exact ⟨rfl, rfl⟩
  have startNe : sh ≠ sh + T.dataOff ∧ sh ≠ sh + (T.sheet - 16) := by omega
  have endNe : sh + (T.sheet - 16) ≠ sh + T.dataOff := by omega
  refine ⟨?_, ?_, ?_, ?_, ?_⟩
  · rw [(words₄ unit).1, if_neg startNe.1, (words₃ unit).1, if_neg startNe.2, kept, words₁.1,
      if_pos rfl]
  · rw [(words₄ endUnit).1, if_neg endNe, (words₃ endUnit).1, if_pos rfl]
  · rw [(words₄ endUnit).2, if_neg endNe, (words₃ endUnit).2, if_pos rfl]
  · rw [(words₄ dataUnit).1, if_pos rfl]
  · rw [(words₄ dataUnit).2, if_pos rfl]

/-- The bitmap of a sheet is empty after it was laid out. -/
theorem layOut_markBit (s : TlsfState T) (fit : SheetsFit T limit (sh :: sheets))
    (lo : sh + T.dataOff ≤ z) (hi : z < sh + T.dataOff + T.dataBytes)
    : (s.layOut sh).markBit z = false := by
  have parts := T.sheet_parts
  have unit : 16 ∣ sh := dvd_trans (T.dvd_sheet (k := 4) (by omega)) (fit.dvd sh (by simp))
  have inside : InSheets T (sh :: sheets) z := ⟨sh, by simp, lo, hi⟩
  have endHeader : HeaderAt T (sh :: sheets) (sh + (T.sheet - 16)) :=
    ⟨by omega, sh, by simp, Or.inr (by omega)⟩
  have dataHeader : HeaderAt T (sh :: sheets) (sh + T.dataOff) :=
    ⟨by omega, sh, by simp, Or.inr (by omega)⟩
  have value : s.layOut sh
      = ((((s.putHeader sh (T.dataOff ||| tlsfAlloc ||| tlsfSentinel) nullOff 0 0).clearBitmap
          sh).putHeader (sh + (T.sheet - 16)) (headerSize ||| tlsfAlloc ||| tlsfSentinel)
          (sh + T.dataOff) nullOff nullOff).setBsizeFlags (sh + T.dataOff)
          T.dataBytes).setPrevPhys (sh + T.dataOff) sh := rfl
  rw [value, markBit_setPrevPhys fit dataHeader inside, markBit_setBsizeFlags fit dataHeader inside,
    putHeader_markBit fit endHeader inside]
  exact clearBitmap_markBit _ fit lo hi

/-- Laying out a sheet stores within the sheet. -/
theorem layOut_only (s : TlsfState T) (sh : Nat) : SheetOnly sh s (s.layOut sh) := by
  have parts := T.sheet_parts
  have endLo : sh ≤ sh + (T.sheet - 16) := Nat.le_add_right _ _
  have endHi : sh + (T.sheet - 16) + 16 ≤ sh + T.sheet := by omega
  have dataLo : sh ≤ sh + T.dataOff := Nat.le_add_right _ _
  have dataHi : sh + T.dataOff + 16 ≤ sh + T.sheet := by omega
  have headers : SheetOnly sh s
      (((s.putHeader sh (T.dataOff ||| tlsfAlloc ||| tlsfSentinel) nullOff 0 0).clearBitmap
        sh).putHeader (sh + (T.sheet - 16)) (headerSize ||| tlsfAlloc ||| tlsfSentinel)
        (sh + T.dataOff) nullOff nullOff) :=
    ((putHeader_only (Nat.le_refl sh) (by omega)).trans (clearBitmap_only _ sh)).trans
      (putHeader_only endLo endHi)
  exact (headers.trans (setBsizeFlags_only dataLo dataHi)).trans (setPrevPhys_only dataLo dataHi)

end TlsfState

/-- Nothing is in a sheet that is not one of the list's own. -/
theorem TlsfRep.fresh_none (h : TlsfRep limit s v) (fit : SheetsFit T limit (sh :: s.sheets))
    {y : Nat} (lo : sh ≤ y) (hi : y < sh + T.sheet)
    : v.block y = none ∧ ∀ z k n, v.block z = some (k, n) → z + n ≠ sh + T.dataOff := by
  have fresh : sh ∉ s.sheets := (List.nodup_cons.mp fit.nodup).1
  have parts := T.sheet_parts
  constructor
  · cases found : v.block y with
    | none => rfl
    | some b =>
        obtain ⟨k, n⟩ := b
        obtain ⟨b, hb, lo', hi'⟩ := h.sheet found
        have large := (h.shape found).2.2
        have := fit.apart (a := sh) (b := b) (by simp) (by simp [hb]) lo hi (by omega) (by omega)
        exact (fresh (this ▸ hb)).elim
  · intro z k n found eq
    obtain ⟨b, hb, lo', hi'⟩ := h.sheet found
    have large := (h.shape found).2.2
    have := fit.apart (a := sh) (b := b) (x := z + n - 1) (by simp) (by simp [hb]) (by omega)
      (by omega) (by omega) (by omega)
    exact fresh (this ▸ hb)

/-- A laid out sheet holds one block at hand. -/
theorem TlsfRep.layOut (h : TlsfRep limit s v) (fit : SheetsFit T limit (sh :: s.sheets))
    : TlsfRep limit
        ({ s.layOut sh with count := s.count + 1, sheets := sh :: s.sheets } : TlsfState T)
        (v.put (sh + T.dataOff) (some (.held, T.dataBytes))) := by
  have parts := T.sheet_parts
  have unit : 16 ∣ sh := dvd_trans (T.dvd_sheet (k := 4) (by omega)) (fit.dvd sh (by simp))
  have only := s.layOut_only sh
  obtain ⟨words, marks⟩ := words_of_sheetCells (t := s.layOut sh) fit only
  obtain ⟨start, last, _, _, first⟩ := s.layOut_words fit
  have gap := (h.fresh_none fit (y := sh + T.dataOff) (by omega) (by omega)).1
  have cases : ∀ {y k n},
      (v.put (sh + T.dataOff) (some (.held, T.dataBytes))).block y = some (k, n) →
      (y = sh + T.dataOff ∧ k = .held ∧ n = T.dataBytes) ∨ v.block y = some (k, n) := by
    intro y k n found
    by_cases same : y = sh + T.dataOff
    · subst same
      simp only [TlsfView.put_block, Function.update_self, Option.some.injEq,
        Prod.mk.injEq] at found
      exact Or.inl ⟨rfl, found.1.symm, found.2.symm⟩
    · exact Or.inr (by simpa [same] using found)
  refine ⟨fit, ?_, ?_, ?_, ?_, ?_, ?_, ?_, ?_, ?_, h.bits.congr rfl rfl⟩
  · refine h.tiling.extend (by simp only; omega) ?_ ?_
    · rintro x lo hi ⟨b, hb, lo', hi'⟩
      simp only at hi
      have := fit.apart (a := sh) (b := b) (x := x) (by simp) (by simp [hb]) (by omega) (by omega)
        (by omega) (by omega)
      exact (List.nodup_cons.mp fit.nodup).1 (this ▸ hb)
    · intro x
      simp only [InSheets, List.mem_cons, exists_eq_or_imp]
      rw [or_comm]
  · intro y k n found
    rcases cases found with ⟨rfl, _, rfl⟩ | old
    · omega
    · exact h.shape old
  · intro y k n found settled
    rcases cases found with ⟨_, rfl, _⟩ | old
    · exact absurd settled (by decide)
    · exact (words y (h.headerAt old).1).1.trans (h.header old settled)
  · intro y k n found settled
    rcases cases found with ⟨_, rfl, _⟩ | old
    · exact absurd settled (by decide)
    · exact (words _ (h.headerAt old).2.1).2.1.trans (h.behind old settled)
  · intro b hb
    rcases List.mem_cons.mp hb with rfl | hb
    · exact first
    · have := dvd_trans (T.dvd_sheet (k := 4) (by omega)) (h.fit.dvd b hb)
      exact (words _ ⟨by omega, b, hb, Or.inr (by omega)⟩).2.1.trans (h.first b hb)
  · intro b hb
    rcases List.mem_cons.mp hb with rfl | hb
    · refine ⟨?_, ?_⟩
      · exact start.symm ▸ (TlsfState.sentinel_word (n := T.dataOff) (by omega)).1
      · exact last.symm ▸ (TlsfState.sentinel_word (n := headerSize) (by decide)).1
    · have := dvd_trans (T.dvd_sheet (k := 4) (by omega)) (h.fit.dvd b hb)
      have front := (words b ⟨by omega, b, hb, Or.inl rfl⟩).1
      have back := (words (b + (T.sheet - 16)) ⟨by omega, b, hb, Or.inr (by omega)⟩).1
      exact ⟨front.symm ▸ (h.fences b hb).1, back.symm ▸ (h.fences b hb).2⟩
  · intro y hy inside
    obtain ⟨b, hb, lo, hi⟩ := inside
    rcases List.mem_cons.mp hb with rfl | hb
    · have clear := s.layOut_markBit fit (z := y) lo hi
      refine iff_of_false (fun set => ?_) ?_
      · exact absurd (clear.symm.trans set) (by decide)
      rintro ⟨k, n, found, marked⟩
      rcases cases found with ⟨_, rfl, _⟩ | old
      · exact absurd marked (by decide)
      · rw [(h.fresh_none fit (by omega) (by omega)).1] at old
        exact absurd old (by simp)
    · have old := h.marks y hy ⟨b, hb, lo, hi⟩
      rw [← marks y ⟨b, hb, lo, hi⟩] at old
      refine old.trans ?_
      have ne : y ≠ sh + T.dataOff := by
        rintro rfl
        have := fit.apart (a := sh) (b := b) (x := sh + T.dataOff) (by simp) (by simp [hb])
          (by omega) (by omega) (by omega) (by omega)
        exact (List.nodup_cons.mp fit.nodup).1 (this ▸ hb)
      simp [ne]
  · intro i
    refine (h.lists i).congr ?_ ?_
    · exact fun y member => (words y (h.listed_headerAt member)).2.2.1
    · exact fun y member => (words y (h.listed_headerAt (List.mem_of_mem_tail member))).2.2.2
  · intro i y
    refine (h.binned i y).trans ?_
    by_cases same : y = sh + T.dataOff
    · subst same
      simp [gap]
    · simp [same]

/-- `add_sheet` adds a sheet that is one free block. -/
theorem TlsfInv.addSheet (h : TlsfInv limit s v) (fit : SheetsFit T limit (sh :: s.sheets))
    (room : s.count < T.maxSheets) (live : s.rbase ≠ 0)
    : ∃ v', (s.addSheet sh).2 = true ∧ TlsfInv limit (s.addSheet sh).1 v'
      ∧ (s.addSheet sh).1.rbase = s.rbase ∧ (s.addSheet sh).1.sheets = sh :: s.sheets
      ∧ v'.granted = v.granted ∧ v'.block (sh + T.dataOff) = some (.free, T.dataBytes)
      ∧ (∀ y b, v'.block y = some b → y = sh + T.dataOff ∨ v.block y = some b)
      ∧ Memory.Within (TlsfLoose T s.rbase (sh :: s.sheets) v.granted) s.mem
          (s.addSheet sh).1.mem := by
  have parts := T.sheet_parts
  have gap := (h.fresh_none fit (y := sh + T.dataOff) (by omega) (by omega)).1
  have rep := h.layOut fit
  have only := s.layOut_only sh
  obtain ⟨_, _, back, size, _⟩ := s.layOut_words fit
  rw [TlsfState.addSheet_eq room live]
  set s₁ : TlsfState T := { s.layOut sh with count := s.count + 1, sheets := sh :: s.sheets }
    with s₁Eq
  have hand : (v.put (sh + T.dataOff) (some (.held, T.dataBytes))).block (sh + T.dataOff)
      = some (.held, T.dataBytes) := by simp
  have edge : sh + T.dataOff + T.dataBytes = sh + (T.sheet - 16) := by omega
  obtain ⟨rep', move, _⟩ := rep.insertFree hand size (by rw [edge]; exact back)
  have granted : (v.put (sh + T.dataOff) (some (.held, T.dataBytes))).granted = v.granted :=
    TlsfView.put_granted_loose (by rw [gap]; rfl) rfl
  have cases : ∀ {y k n},
      ((v.put (sh + T.dataOff) (some (.held, T.dataBytes))).give T (sh + T.dataOff)
        T.dataBytes).block y = some (k, n) →
      (y = sh + T.dataOff ∧ k = .free ∧ n = T.dataBytes) ∨ v.block y = some (k, n) := by
    intro y k n found
    by_cases same : y = sh + T.dataOff
    · subst same
      simp only [TlsfView.give, Function.update_self, Option.some.injEq, Prod.mk.injEq] at found
      exact Or.inl ⟨rfl, found.1.symm, found.2.symm⟩
    · exact Or.inr (by simpa [TlsfView.give, same] using found)
  refine ⟨_, rfl, ⟨rep', ?_, ?_, ?_, ?_, ?_⟩, move.base.trans only.1, move.sheets,
    move.granted.trans granted, by simp [TlsfView.give],
    fun y b found => (cases found).imp_left (fun new => new.1), ?_⟩
  · intro y k n found
    rcases cases found with ⟨_, rfl, _⟩ | old
    · rfl
    · exact h.settled y k n old
  · intro y n m first second
    rcases cases first with ⟨rfl, _, rfl⟩ | old
    · rcases cases second with ⟨eq, _, _⟩ | old'
      · omega
      · rw [(h.fresh_none fit (by omega) (by omega)).1] at old'
        exact absurd old' (by simp)
    · rcases cases second with ⟨eq, _, _⟩ | old'
      · exact (h.fresh_none fit (y := sh) (Nat.le_refl sh) (by omega)).2 y _ _ old eq
      · exact h.merged y n m old old'
  · rw [move.granted, granted]
    exact move.bytes.trans h.counter
  · rw [move.count, move.sheets, s₁Eq]
    simp [h.counted]
  · rw [move.count, s₁Eq]
    exact room
  · have later := move.within
    rw [granted] at later
    refine Memory.Within.trans (only.2.mono ?_) (only.1 ▸ later)
    rintro a ⟨lo, hi⟩
    refine ⟨⟨sh, by simp, lo, hi⟩, ?_⟩
    rintro y n found ⟨lo', hi'⟩
    -- no granted block lies in the fresh sheet
    have block := TlsfView.granted_eq_some.mp found
    obtain ⟨b, hb, below, above⟩ := h.sheet block
    have := fit.apart (a := sh) (b := b) (x := a - s.rbase) (by simp) (by simp [hb]) (by omega)
      (by omega) (by omega) (by omega)
    exact (List.nodup_cons.mp fit.nodup).1 (this ▸ hb)

end Adding

-----------------------------------------------------------------------------------------
-- Removing a sheet
-----------------------------------------------------------------------------------------

section Removing

variable {T : TlsfParams} {limit sh x n : Nat} {s : TlsfState T} {v : TlsfView}

/-- `remove_sheet` drops a sheet that is one free block. -/
theorem TlsfInv.removeSheet (h : TlsfInv limit s v) (member : sh ∈ s.sheets)
    (empty : s.sheetEmpty sh = true)
    : ∃ v', (s.removeSheet sh).2 = true ∧ TlsfInv limit (s.removeSheet sh).1 v'
      ∧ (s.removeSheet sh).1.rbase = s.rbase
      ∧ (s.removeSheet sh).1.sheets = s.sheets.erase sh ∧ v'.granted = v.granted
      ∧ Memory.Within (TlsfLoose T s.rbase s.sheets v.granted) s.mem (s.removeSheet sh).1.mem := by
  have parts := T.sheet_parts
  have whole := (h.sheetEmpty_iff member).1.mp empty
  have counted : s.count ≠ 0 := by
    rw [h.counted]
    exact (List.length_pos_of_mem member).ne'
  obtain ⟨rep, move, _⟩ := h.removeFree whole
  have value : s.removeSheet sh
      = ({ s.removeFree (sh + T.dataOff) T.dataBytes with
          count := s.count - 1, sheets := s.sheets.erase sh }, true) := by
    simp only [TlsfState.removeSheet, counted, empty, decide_false, Bool.not_true, Bool.or_self,
      Bool.false_eq_true, if_false]
    rfl
  generalize s.removeFree (sh + T.dataOff) T.dataBytes = s₁ at rep move value
  set v₁ := v.take T (sh + T.dataOff) T.dataBytes with v₁Eq
  have hand : v₁.block (sh + T.dataOff) = some (.held, T.dataBytes) := by
    simp [v₁Eq, TlsfView.take]
  have others : ∀ y, y ≠ sh + T.dataOff → v₁.block y = v.block y := fun y ne => by
    simp [v₁Eq, TlsfView.take, ne]
  have nodup := h.fit.nodup
  have rest : ∀ b, b ∈ s.sheets.erase sh ↔ b ≠ sh ∧ b ∈ s.sheets := fun b =>
    nodup.mem_erase_iff
  have sheets₁ : s₁.sheets = s.sheets := move.sheets
  have cases : ∀ {y k m}, (v₁.put (sh + T.dataOff) none).block y = some (k, m) →
      y ≠ sh + T.dataOff ∧ v₁.block y = some (k, m) := by
    intro y k m found
    by_cases same : y = sh + T.dataOff
    · subst same
      simp at found
    · exact ⟨same, by simpa [same] using found⟩
  have rep' : TlsfRep limit ({ s₁ with count := s.count - 1, sheets := s.sheets.erase sh }
      : TlsfState T) (v₁.put (sh + T.dataOff) none) := by
    refine ⟨⟨h.fit.limit_le, fun b hb => h.fit.dvd b ((rest b).mp hb).2,
      fun b hb => h.fit.end_le b ((rest b).mp hb).2, nodup.erase sh⟩, ?_, ?_, ?_, ?_, ?_, ?_, ?_,
      ?_, ?_, rep.bits⟩
    · refine rep.tiling.drop hand (fun x => ?_)
      rw [sheets₁]
      simp only [InSheets, rest]
      constructor
      · rintro ⟨b, ⟨ne, hb⟩, lo, hi⟩
        refine ⟨⟨b, hb, lo, hi⟩, ?_⟩
        rintro ⟨lo', hi'⟩
        exact ne (h.fit.apart hb member (x := x) (by omega) (by omega) (by omega) (by omega))
      · rintro ⟨⟨b, hb, lo, hi⟩, outside⟩
        refine ⟨b, ⟨?_, hb⟩, lo, hi⟩
        rintro rfl
        exact outside ⟨lo, hi⟩
    · exact fun found => rep.shape (cases found).2
    · exact fun found settled => rep.header (cases found).2 settled
    · exact fun found settled => rep.behind (cases found).2 settled
    · exact fun b hb => rep.first b (sheets₁.symm ▸ ((rest b).mp hb).2)
    · exact fun b hb => rep.fences b (sheets₁.symm ▸ ((rest b).mp hb).2)
    · rintro y unit ⟨b, hb, lo, hi⟩
      obtain ⟨ne, hb⟩ := (rest b).mp hb
      refine (rep.marks y unit ⟨b, sheets₁.symm ▸ hb, lo, hi⟩).trans ?_
      have far : y ≠ sh + T.dataOff := by
        rintro rfl
        exact ne (h.fit.apart hb member (x := sh + T.dataOff) (by omega) (by omega) (by omega)
          (by omega))
      simp [far]
    · exact rep.lists
    · exact fun i y => rep.binned_other hand (by decide) (by simp) i y
  have granted : (v₁.put (sh + T.dataOff) none).granted = v.granted :=
    (TlsfView.put_granted_loose (by rw [hand]; rfl) rfl).trans move.granted
  have old : ∀ {y k m}, (v₁.put (sh + T.dataOff) none).block y = some (k, m) →
      v.block y = some (k, m) := fun found =>
    (others _ (cases found).1).symm.trans (cases found).2
  rw [value]
  refine ⟨_, rfl, ⟨rep', ?_, ?_, ?_, ?_, ?_⟩, move.base, rfl, granted, move.within⟩
  · exact fun y k m found => h.settled y k m (old found)
  · exact fun y a b first second => h.merged y a b (old first) (old second)
  · rw [granted]
    exact move.bytes.trans h.counter
  · rw [List.length_erase_of_mem member, ← h.counted]
  · have := h.budget
    simp only
    omega

/-- A block that fills a data span serves every small request: the search rounds a request
up to less than its double.
-/
theorem TlsfInv.offers_whole (h : TlsfInv limit s v)
    (whole : v.block x = some (.free, T.dataBytes)) (positive : 0 < n) (small : n ≤ T.smallMax)
    : v.Offers T (TlsfState.adjusted T n) := by
  obtain ⟨fits, table⟩ := TlsfState.adjusted_small (T := T) positive small
  obtain ⟨_, _, _, large⟩ := TlsfState.adjusted_spec (T := T) positive fits
  have rounded := TlsfState.roundUp_bounds (T := T) large
  have double := T.small_fits.2
  refine Or.inl ⟨_, ?_, List.ne_nil_of_mem (h.mem_bins whole)⟩
  exact TlsfState.binOf_mono (by omega) (by omega)

end Removing

end Bbmalloc
