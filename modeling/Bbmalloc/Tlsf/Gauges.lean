import Bbmalloc.Tlsf.Resizing

/-! Pointer recognition and the gauge of the small-block allocator: `owns_len` knows exactly
the starts of granted blocks, and `largest_free` is the largest request that the search can
serve, although it looks at the front of the top bin only.
-/

namespace Bbmalloc

open Bbmalloc.Foundations

section Recognition

variable {T : TlsfParams} {limit x n p word sh rel : Nat} {s : TlsfState T} {v : TlsfView}

/-- The bit that `__marked` reads is that of the block whose payload starts there. -/
theorem TlsfState.marked_eq (s : TlsfState T) (dvd : T.sheet ∣ sh) (lo : 16 ≤ rel)
    (hi : rel < T.sheet)
    : s.marked sh rel = s.markBit (sh + (rel - 16)) := by
  obtain ⟨place, bit⟩ := s.markByte_eq dvd (x := sh + (rel - 16)) (by omega) (by omega)
  have back : (sh + (rel - 16) - sh) / 16 + 1 = rel / 16 := by omega
  rw [back] at place bit
  have low : rel / 16 &&& 7 = rel / 16 % 8 := and_low (rel / 16) 3
  rw [markBit, place, bit]
  simp only [marked, headerSize, Nat.shiftRight_eq_div_pow, Nat.testBit_eq_decide_div_mod_eq,
    Nat.and_one_is_mod]
  norm_num [low]
  rfl

/-- What `owns_len` computes for a pointer into the address range of 32-bit offsets. -/
theorem TlsfState.ownsLen_eq {w : Nat} (s : TlsfState T) (le : s.rbase ≤ p)
    (fits : p - s.rbase < u32)
    : let up := p - s.rbase
      let sh := sheetOf T up
      s.ownsLen w p
        = if wrapSub u32 (up - sh) (T.dataOff + 16) ≥ T.dataBytes - 16 || (up - sh) % 16 ≠ 0 then
            ⟨nullOff, 0⟩
          else
            let f := s.bsizeFlags (up - 16)
            if !(s.marked sh (up - sh) && f &&& (tlsfAlloc ||| tlsfSentinel) == tlsfAlloc
              && andNot f tlsfFlags ≥ 32
              && (up - sh - 16 + andNot f tlsfFlags) % u32 ≤ T.sheet - 16) then ⟨nullOff, 0⟩
            else ⟨up - 16, andNot f tlsfFlags - 16⟩ := by
  intro up sh
  have parts := T.sheet_parts
  have offset : wrapSub w p s.rbase % u32 = up := by
    rw [wrapSub_of_le le]
    exact Nat.mod_eq_of_lt fits
  have low : up - sheetOf T up &&& (TlsfShape.blockAlign - 1) = (up - sheetOf T up) % 16 :=
    and_low _ 4
  have spanEq : T.sheet - headerSize - (T.dataOff + headerSize) = T.dataBytes - 16 := by
    simp only [headerSize]
    omega
  simp only [ownsLen, offset, low, spanEq]
  rfl

/-- At a possible payload start the record of granted blocks decides. -/
theorem TlsfInv.ownsLen_payload {w : Nat} (h : TlsfInv limit s v) (le : s.rbase ≤ p)
    (inside : p - s.rbase < limit) (member : TlsfState.sheetOf T (p - s.rbase) ∈ s.sheets)
    (lo : TlsfState.sheetOf T (p - s.rbase) + (T.dataOff + 16) ≤ p - s.rbase)
    (hi : p - s.rbase < TlsfState.sheetOf T (p - s.rbase) + (T.dataOff + T.dataBytes))
    (whole : (p - s.rbase - TlsfState.sheetOf T (p - s.rbase)) % 16 = 0)
    : s.ownsLen w p = (v.granted (p - s.rbase - 16)).elim ⟨nullOff, 0⟩
        (fun n => ⟨p - s.rbase - 16, n - 16⟩) := by
  have limit_le := h.fit.limit_le
  have wordEq : u32 = 4294967296 := rfl
  have unfolded := s.ownsLen_eq (w := w) le (by omega)
  set up := p - s.rbase with upEq
  set sh := TlsfState.sheetOf T up with shEq
  have parts := T.sheet_parts
  have ends := h.fit.end_le sh member
  have dvd := h.fit.dvd sh member
  have dvd16 : 16 ∣ sh := dvd_trans (T.dvd_sheet (k := 4) (by omega)) dvd
  obtain ⟨rel, relEq⟩ : ∃ rel, rel = up - sh := ⟨_, rfl⟩
  have entered : (decide (wrapSub u32 rel (T.dataOff + 16) ≥ T.dataBytes - 16)
      || decide (rel % 16 ≠ 0)) = false := by
    have range : wrapSub u32 rel (T.dataOff + 16) < T.dataBytes - 16
        ↔ T.dataOff + 16 ≤ rel ∧ rel < T.dataOff + 16 + (T.dataBytes - 16) :=
      wrapSub_lt (by omega)
    have := range.mpr (by omega)
    simp only [Bool.or_eq_false_iff, decide_eq_false_iff_not]
    exact ⟨by omega, by omega⟩
  simp only [← shEq, ← relEq, entered, Bool.false_eq_true, if_false] at unfolded
  have header : sh + (rel - 16) = up - 16 := by omega
  have inSheets : InSheets T s.sheets (up - 16) := ⟨sh, member, by omega, by omega⟩
  have bit := h.marks (up - 16) (by omega) inSheets
  have marked := s.marked_eq dvd (by omega : 16 ≤ rel) (by omega)
  rw [header] at marked
  cases granted : v.granted (up - 16) with
  | none =>
      have set : s.markBit (up - 16) = false := by
        by_contra on
        obtain ⟨k, n, found, kind⟩ := bit.mp (by simpa using on)
        have settled := h.settled _ _ _ found
        cases k with
        | granted =>
            rw [TlsfView.granted_eq_some.mpr found] at granted
            cases granted
        | free => exact absurd kind (by decide)
        | held => exact absurd kind (by decide)
        | resized => exact absurd settled (by decide)
      rw [unfolded]
      simp [marked, set]
  | some n =>
      have found := TlsfView.granted_eq_some.mp granted
      obtain ⟨_, unit, large⟩ := h.shape found
      obtain ⟨sh', member', lo', hi'⟩ := h.sheet found
      have same := h.fit.apart member member' (x := up - 16) (by omega) (by omega) (by omega)
        (by omega)
      have set : s.markBit (up - 16) = true := bit.mpr ⟨_, n, found, rfl⟩
      have value : s.bsizeFlags (up - 16) = n ||| tlsfAlloc := h.header found rfl
      have words := TlsfState.size_word unit
      have fits : (rel - 16 + n) % u32 ≤ T.sheet - 16 := by
        rw [Nat.mod_eq_of_lt (by omega)]
        omega
      rw [unfolded]
      simp [value, words.2.2.1, words.2.2.2.1, marked, set, large, fits]

/-- What `owns_len` answers for a pointer into a sheet. -/
theorem TlsfInv.ownsLen {w : Nat} (h : TlsfInv limit s v) (le : s.rbase ≤ p)
    (inside : p - s.rbase < limit) (member : TlsfState.sheetOf T (p - s.rbase) ∈ s.sheets)
    : (∀ x n, v.granted x = some n → p = s.rbase + x + 16 →
          s.ownsLen w p = ⟨x, n - 16⟩ ∧ x ≠ nullOff)
      ∧ ((∀ x n, v.granted x = some n → p ≠ s.rbase + x + 16) →
          s.ownsLen w p = ⟨nullOff, 0⟩) := by
  have limit_le := h.fit.limit_le
  have wordEq : u32 = 4294967296 := rfl
  have parts := T.sheet_parts
  have bounds := andNot_low_bounds (p - s.rbase) T.log2Sheet
  have shLe : TlsfState.sheetOf T (p - s.rbase) ≤ p - s.rbase := bounds.1
  have upLt : p - s.rbase < TlsfState.sheetOf T (p - s.rbase) + T.sheet := bounds.2.1
  have ends := h.fit.end_le _ member
  have dvd16 := dvd_trans (T.dvd_sheet (k := 4) (by omega)) (h.fit.dvd _ member)
  by_cases payload : TlsfState.sheetOf T (p - s.rbase) + (T.dataOff + 16) ≤ p - s.rbase
      ∧ p - s.rbase < TlsfState.sheetOf T (p - s.rbase) + (T.dataOff + T.dataBytes)
      ∧ (p - s.rbase - TlsfState.sheetOf T (p - s.rbase)) % 16 = 0
  · have answer := h.ownsLen_payload (w := w) le inside member payload.1 payload.2.1 payload.2.2
    constructor
    · rintro x n granted eq
      obtain rfl : x = p - s.rbase - 16 := by omega
      rw [granted] at answer
      exact ⟨answer, ((h.headerAt (TlsfView.granted_eq_some.mp granted)).1.lt h.fit).2⟩
    · intro foreign
      cases granted : v.granted (p - s.rbase - 16) with
      | none => rwa [granted] at answer
      | some n => exact absurd (by omega) (foreign _ n granted)
  · have rejected : (decide (wrapSub u32 (p - s.rbase - TlsfState.sheetOf T (p - s.rbase))
          (T.dataOff + 16) ≥ T.dataBytes - 16)
        || decide ((p - s.rbase - TlsfState.sheetOf T (p - s.rbase)) % 16 ≠ 0)) = true := by
      simp only [Bool.or_eq_true, decide_eq_true_eq]
      by_contra accepted
      rw [not_or, Nat.not_le, not_not] at accepted
      have range : wrapSub u32 (p - s.rbase - TlsfState.sheetOf T (p - s.rbase)) (T.dataOff + 16)
          < T.dataBytes - 16 ↔ _ :=
        wrapSub_lt (by omega)
      have := range.mp accepted.1
      exact payload ⟨by omega, by omega, accepted.2⟩
    constructor
    · intro x n granted eq
      obtain ⟨unit, whole, large, _, sh', member', lo', hi'⟩ := h.granted_block granted
      have same := h.fit.apart member member' (x := p - s.rbase) (by omega) (by omega) (by omega)
        (by omega)
      exact (payload ⟨by omega, by omega, by omega⟩).elim
    · intro _
      rw [s.ownsLen_eq le (by omega), if_pos rejected]

end Recognition

-----------------------------------------------------------------------------------------
-- The gauge
-----------------------------------------------------------------------------------------

section Gauge

variable {T : TlsfParams} {limit n i : Nat} {s : TlsfState T} {v : TlsfView}

/-- `largest_free` reads the front block of the last non-empty bin. -/
theorem TlsfInv.largestFree_spec (h : TlsfInv limit s v)
    : ((∀ i, v.bins i = []) ∧ s.largestFree = 0)
      ∨ ∃ m, v.block (s.heads (TlsfState.binOf T m)) = some (.free, m)
        ∧ (v.bins (TlsfState.binOf T m)).head? = some (s.heads (TlsfState.binOf T m))
        ∧ (∀ i, v.bins i ≠ [] → i ≤ TlsfState.binOf T m) ∧ s.largestFree = m - 16 := by
  by_cases empty : s.flBitmap = 0
  · refine Or.inl ⟨?_, by simp [TlsfState.largestFree, empty]⟩
    intro i
    by_contra live
    obtain ⟨fl, sl, rfl, small, _⟩ := h.levels_of_ne_nil live
    have bit := (h.bits.1 fl sl).mpr ⟨small, live⟩
    have nonzero : s.slBitmap fl ≠ 0 := by
      intro zero
      rw [zero] at bit
      simp at bit
    have := (h.bits.2 fl).mpr nonzero
    rw [empty] at this
    simp at this
  · right
    have top := testBit_fls empty
    have second := (h.bits.2 _).mp top
    have topStep := testBit_fls second
    obtain ⟨small, live⟩ := (h.bits.1 _ _).mp topStep
    obtain ⟨head, nonnull, m, found, bin⟩ := h.head_of_ne_nil live
    obtain ⟨fl', sl', eq, small', range⟩ := h.levels_of_ne_nil live
    have level : ¬fls s.flBitmap ≥ T.flCount := by
      rw [(level_inj small small' eq).1]
      omega
    have size := (h.read found rfl).1
    have large := (h.shape found).2.2
    rw [← bin] at head nonnull
    refine ⟨m, by rw [bin]; exact found, head, ?_, ?_⟩
    · intro i live'
      rw [bin]
      obtain ⟨fl, sl, rfl, small'', _⟩ := h.levels_of_ne_nil live'
      have bit := (h.bits.1 fl sl).mpr ⟨small'', live'⟩
      have nonzero : s.slBitmap fl ≠ 0 := by
        intro zero
        rw [zero] at bit
        simp at bit
      rcases Nat.lt_trichotomy fl (fls s.flBitmap) with before | same | after
      · have := Nat.mul_le_mul_right T.slCount (show fl + 1 ≤ fls s.flBitmap by omega)
        rw [Nat.succ_mul] at this
        omega
      · subst same
        by_contra behind
        have := testBit_above_fls second (i := sl) (by omega)
        rw [this] at bit
        exact absurd bit (by decide)
      · have := testBit_above_fls empty after
        rw [(h.bits.2 fl).mpr nonzero] at this
        exact absurd this (by decide)
    · rw [bin] at nonnull
      have notSmall : ¬m ≤ 16 := by omega
      simp only [TlsfState.largestFree, empty, level, second, nonnull, size, headerSize, notSmall,
        if_false, decide_false, Bool.or_self, Bool.false_eq_true]

/-- The gauge is the largest request that the search can serve. When the front block of the
top bin is too small, no other bin helps: the search bin is at most one above the own bin.
-/
theorem TlsfInv.largestFree_iff (h : TlsfInv limit s v) (positive : 0 < n)
    (fits : n ≤ T.dataBytes)
    : n ≤ s.largestFree ↔ v.Offers T (TlsfState.adjusted T n) := by
  obtain ⟨whole, le, lt, large⟩ := TlsfState.adjusted_spec (T := T) positive fits
  set adj := TlsfState.adjusted T n
  rcases h.largestFree_spec with ⟨none, zero⟩ | ⟨m, found, head, last, value⟩
  · rw [zero]
    constructor
    · omega
    · rintro (⟨i, _, live⟩ | ⟨x, m, head, _⟩)
      · exact (live (none i)).elim
      · simp [none] at head
  · obtain ⟨_, wholeM, largeM⟩ := h.shape found
    have search := TlsfState.searchBin_bounds (T := T) large
    have live : v.bins (TlsfState.binOf T m) ≠ [] := List.ne_nil_of_mem (h.mem_bins found)
    rw [value]
    constructor
    · intro enough
      have adjLe : adj ≤ m := by omega
      have mono := TlsfState.binOf_mono (T := T) large adjLe
      by_cases accepted : TlsfState.searchBin T adj ≤ TlsfState.binOf T m
      · exact Or.inl ⟨_, accepted, live⟩
      · have same : TlsfState.binOf T adj = TlsfState.binOf T m := by omega
        exact Or.inr ⟨_, m, same ▸ head, found, adjLe⟩
    · rintro (⟨i, accepted, liveI⟩ | ⟨x, m', head', found', enough⟩)
      · have := TlsfState.le_of_searchBin (T := T) large largeM
          (Nat.le_trans accepted (last i liveI))
        omega
      · have top := last _ (by
          intro nil
          rw [nil] at head'
          simp at head')
        by_cases accepted : TlsfState.searchBin T adj ≤ TlsfState.binOf T m
        · have := TlsfState.le_of_searchBin (T := T) large largeM accepted
          omega
        · have same : TlsfState.binOf T adj = TlsfState.binOf T m := by omega
          rw [same, head] at head'
          obtain rfl := Option.some.inj head'
          have eq := (Prod.mk.inj (Option.some.inj (found.symm.trans found'))).2
          omega

end Gauge

end Bbmalloc
