import Bbmalloc.Tlsf.Transitions

/-! Moves on the block at hand: splitting and joining it, storing to its header, opening a
granted block for resizing, and setting and clearing its bitmap bit.
-/

namespace Bbmalloc

open Bbmalloc.Foundations

-----------------------------------------------------------------------------------------
-- Splitting and joining
-----------------------------------------------------------------------------------------

/-- The block at `x` is cut after `a` bytes. -/
def TlsfView.cut (v : TlsfView) (x : Nat) (k : TlsfKind) (a b : Nat) : TlsfView :=
  (v.put x (some (k, a))).put (x + a) (some (.held, b))

/-- The blocks of `a` and `b` bytes at `x` become one. -/
def TlsfView.join (v : TlsfView) (x : Nat) (k : TlsfKind) (a b : Nat) : TlsfView :=
  (v.put (x + a) none).put x (some (k, a + b))

section Splitting

variable {T : TlsfParams} {s : TlsfState T} {v : TlsfView} {limit x a b : Nat} {k : TlsfKind}
  {block' : Nat → Option TlsfBlock}

theorem TlsfKind.unsettled_cases {k : TlsfKind} (unsettled : k.settled = false)
    : k ≠ .free ∧ k ≠ .granted := by
  cases k <;> simp_all [settled]

/-- The partition may be redrawn among unsettled blocks with the same marks. -/
theorem TlsfRep.redraw (h : TlsfRep limit s v) (block' : Nat → Option TlsfBlock)
    (tiling : Tiled Prod.snd (InSheets T s.sheets) block')
    (shape : ∀ y k n, block' y = some (k, n) → 16 ∣ y ∧ 16 ∣ n ∧ 32 ≤ n)
    (settled : ∀ y k n, k.settled = true → (block' y = some (k, n) ↔ v.block y = some (k, n)))
    (marks : ∀ y, (∃ k n, block' y = some (k, n) ∧ k.isMarked = true)
      ↔ ∃ k n, v.block y = some (k, n) ∧ k.isMarked = true)
    : TlsfRep limit s { v with block := block' }
      ∧ ({ v with block := block' } : TlsfView).granted = v.granted := by
  refine ⟨⟨h.fit, tiling, fun found => shape _ _ _ found, ?_, ?_, h.first, h.fences, ?_, h.lists,
    ?_, h.bits⟩, ?_⟩
  · intro y j m found certain
    exact h.header ((settled y j m certain).mp found) certain
  · intro y j m found certain
    exact h.behind ((settled y j m certain).mp found) certain
  · intro y unit inside
    exact (h.marks y unit inside).trans (marks y).symm
  · intro i y
    simp only [h.binned i y, settled y .free _ rfl]
  · funext y
    apply Option.ext
    intro m
    exact TlsfView.granted_eq_some.trans
      ((settled y .granted m rfl).trans TlsfView.granted_eq_some.symm)

/-- The blocks after a cut. -/
theorem TlsfView.cut_block (v : TlsfView) (x : Nat) (k : TlsfKind) (b : Nat) (positive : 0 < a)
    : (v.cut x k a b).block x = some (k, a) ∧ (v.cut x k a b).block (x + a) = some (.held, b)
      ∧ ∀ y, y ≠ x → y ≠ x + a → (v.cut x k a b).block y = v.block y := by
  have ne : x ≠ x + a := by omega
  refine ⟨?_, ?_, ?_⟩
  · simp [cut, Function.update_of_ne ne]
  · simp [cut]
  · intro y same upper
    simp [cut, same, upper]

/-- The blocks after joining two. -/
theorem TlsfView.join_block (v : TlsfView) (x : Nat) (k : TlsfKind) (b : Nat) (positive : 0 < a)
    : (v.join x k a b).block x = some (k, a + b) ∧ (v.join x k a b).block (x + a) = none
      ∧ ∀ y, y ≠ x → y ≠ x + a → (v.join x k a b).block y = v.block y := by
  have ne : x + a ≠ x := by omega
  refine ⟨?_, ?_, ?_⟩
  · simp [join]
  · simp [join, Function.update_of_ne ne]
  · intro y same upper
    simp [join, same, upper]

/-- Cutting an unsettled block. -/
theorem TlsfRep.split (h : TlsfRep limit s v) (known : v.block x = some (k, a + b))
    (unsettled : k.settled = false) (whole : 16 ∣ a) (low : 32 ≤ a) (high : 32 ≤ b)
    : TlsfRep limit s (v.cut x k a b) ∧ (v.cut x k a b).granted = v.granted := by
  have gap : v.block (x + a) = none := h.tiling.none_inside known (by omega) (by simp only; omega)
  have here := h.shape known
  obtain ⟨lower, upper, others⟩ := v.cut_block x k b (a := a) (by omega)
  refine h.redraw (v.cut x k a b).block (h.tiling.split (k, a) (.held, b) known rfl
    (by simp only; omega) (by simp only; omega)) ?_ ?_ ?_
  · intro y j m found
    by_cases same : y = x
    · subst same
      obtain ⟨_, rfl⟩ := by simpa [lower] using found
      omega
    · by_cases last : y = x + a
      · subst last
        obtain ⟨_, rfl⟩ := by simpa [upper] using found
        omega
      · exact h.shape ((others y same last).symm.trans found)
  · intro y j m certain
    by_cases same : y = x
    · subst same
      have : k ≠ j := by
        rintro rfl
        rw [certain] at unsettled
        exact absurd unsettled (by decide)
      simp [known, lower, this]
    · by_cases last : y = x + a
      · subst last
        have : TlsfKind.held ≠ j := by
          rintro rfl
          exact absurd certain (by decide)
        simp [gap, upper, this]
      · rw [others y same last]
  · intro y
    by_cases same : y = x
    · subst same
      simp [known, lower]
    · by_cases last : y = x + a
      · subst last
        simp [gap, upper, TlsfKind.isMarked]
      · rw [others y same last]

/-- Joining an unsettled block with the held one behind it. -/
theorem TlsfRep.join (h : TlsfRep limit s v) (known : v.block x = some (k, a))
    (unsettled : k.settled = false) (next : v.block (x + a) = some (.held, b))
    : TlsfRep limit s (v.join x k a b) ∧ (v.join x k a b).granted = v.granted := by
  have low := h.shape known
  have high := h.shape next
  obtain ⟨whole, gap, others⟩ := v.join_block x k b (a := a) (by omega)
  refine h.redraw (v.join x k a b).block (h.tiling.merge (k, a + b) known next rfl) ?_ ?_ ?_
  · intro y j m found
    by_cases same : y = x
    · subst same
      obtain ⟨_, rfl⟩ := by simpa [whole] using found
      omega
    · by_cases last : y = x + a
      · subst last
        simp [gap] at found
      · exact h.shape ((others y same last).symm.trans found)
  · intro y j m certain
    by_cases same : y = x
    · subst same
      have : k ≠ j := by
        rintro rfl
        rw [certain] at unsettled
        exact absurd unsettled (by decide)
      simp [known, whole, this]
    · by_cases last : y = x + a
      · subst last
        have : TlsfKind.held ≠ j := by
          rintro rfl
          exact absurd certain (by decide)
        simp [gap, next, this]
      · rw [others y same last]
  · intro y
    by_cases same : y = x
    · subst same
      simp [known, whole]
    · by_cases last : y = x + a
      · subst last
        simp [gap, next, TlsfKind.isMarked]
      · rw [others y same last]

end Splitting

-----------------------------------------------------------------------------------------
-- Stores to the header of the block at hand
-----------------------------------------------------------------------------------------

section Stores

variable {T : TlsfParams} {s s' : TlsfState T} {v : TlsfView} {limit x y n w : Nat} {k : TlsfKind}

/-- The representation reads the headers of settled blocks and the fences only. -/
theorem TlsfRep.of_words (h : TlsfRep limit s v) (sheets : s'.sheets = s.sheets)
    (heads : s'.heads = s.heads) (second : s'.slBitmap = s.slBitmap)
    (first : s'.flBitmap = s.flBitmap)
    (sizes : ∀ z j m, v.block z = some (j, m) → j.settled = true →
      s'.bsizeFlags z = s.bsizeFlags z)
    (backs : ∀ z j m, v.block z = some (j, m) → j.settled = true →
      s'.prevPhys (z + m) = s.prevPhys (z + m))
    (firsts : ∀ sh ∈ s.sheets, s'.prevPhys (sh + T.dataOff) = s.prevPhys (sh + T.dataOff))
    (fences : ∀ sh ∈ s.sheets, s'.bsizeFlags sh = s.bsizeFlags sh
      ∧ s'.bsizeFlags (sh + (T.sheet - 16)) = s.bsizeFlags (sh + (T.sheet - 16)))
    (marks : ∀ z, InSheets T s.sheets z → s'.markBit z = s.markBit z)
    (links : ∀ z m, v.block z = some (.free, m) →
      s'.nextFree z = s.nextFree z ∧ s'.prevFree z = s.prevFree z)
    : TlsfRep limit s' v := by
  refine ⟨sheets ▸ h.fit, sheets ▸ h.tiling, h.shape, ?_, ?_, ?_, ?_, ?_, ?_, h.binned,
    h.bits.congr second first⟩
  · intro z j m found settled
    rw [sizes z j m found settled]
    exact h.header found settled
  · intro z j m found settled
    rw [backs z j m found settled]
    exact h.behind found settled
  · intro sh member
    rw [sheets] at member
    rw [firsts sh member]
    exact h.first sh member
  · intro sh member
    rw [sheets] at member
    rw [(fences sh member).1, (fences sh member).2]
    exact h.fences sh member
  · intro z unit inside
    rw [sheets] at inside
    rw [marks z inside]
    exact h.marks z unit inside
  · intro i
    rw [heads]
    refine (h.lists i).congr ?_ ?_
    · intro z member
      obtain ⟨m, free, _⟩ := (h.binned i z).mp member
      exact (links z m free).1
    · intro z member
      obtain ⟨m, free, _⟩ := (h.binned i z).mp (List.mem_of_mem_tail member)
      exact (links z m free).2

/-- The representation is one of the memory, the heads and the bitmaps. -/
theorem TlsfRep.congr {t : TlsfState T} (h : TlsfRep limit s v) (mem : t.mem = s.mem)
    (base : t.rbase = s.rbase)
    (sheets : t.sheets = s.sheets) (heads : t.heads = s.heads)
    (second : t.slBitmap = s.slBitmap) (first : t.flBitmap = s.flBitmap)
    : TlsfRep limit t v := by
  have words := TlsfState.words_of_mem mem base
  refine h.of_words sheets heads second first ?_ ?_ ?_ ?_ ?_ ?_
  · exact fun z _ _ _ _ => congrFun words.1 z
  · exact fun z _ m _ _ => congrFun words.2.1 _
  · exact fun sh _ => congrFun words.2.1 _
  · exact fun sh _ => ⟨congrFun words.1 _, congrFun words.1 _⟩
  · exact fun z _ => TlsfState.markBit_congr base (by rw [mem])
  · exact fun z _ _ => ⟨congrFun words.2.2.1 z, congrFun words.2.2.2 z⟩

/-- An offset in the data span of a sheet is no fence and not in front of a data span. -/
theorem TlsfRep.not_fence (h : TlsfRep limit s v) (known : v.block x = some (k, n))
    (lo : x ≤ y) (hi : y < x + n) {sh : Nat} (member : sh ∈ s.sheets)
    : y ≠ sh ∧ y ≠ sh + (T.sheet - 16) ∧ y + 1 ≠ sh + T.dataOff := by
  have parts := T.sheet_parts
  obtain ⟨sh', member', lo', hi'⟩ := h.tiling.inside known (x := y) lo (by simp only; omega)
  by_cases same : sh = sh'
  · omega
  · rcases Nat.lt_or_gt_of_ne same with before | after
    · have := h.fit.gap member member' before
      omega
    · have := h.fit.gap member' member after
      omega

/-- A size word may be stored anywhere in an unsettled block. -/
theorem TlsfRep.setBsizeFlags (h : TlsfRep limit s v) (known : v.block x = some (k, n))
    (unsettled : k.settled = false) (unit : 16 ∣ y) (lo : x ≤ y) (hi : y + 16 ≤ x + n)
    (fits : w < u32)
    : TlsfRep limit (s.setBsizeFlags y w) v ∧ TlsfMove s v (s.setBsizeFlags y w) v := by
  have words := fun {z : Nat} (hz : 16 ∣ z) =>
    TlsfState.setBsizeFlags_words (s := s) unit hz fits
  have inside : InSheets T s.sheets y := h.tiling.inside known lo (by simp only; omega)
  have header := inside.headerAt unit h.fit
  have dvd16 : ∀ sh ∈ s.sheets, 16 ∣ sh := fun sh member =>
    dvd_trans (T.dvd_sheet (k := 4) (by omega)) (h.fit.dvd sh member)
  have parts := T.sheet_parts
  constructor
  · refine h.of_words rfl rfl rfl rfl ?_ ?_ ?_ ?_ ?_ ?_
    · intro z j m found settled
      rw [(words (h.headerAt found).1.1).1, if_neg]
      rintro rfl
      have large := (h.shape found).2.2
      have same := h.tiling.unique known found (x := z) lo (by simp only; omega) (Nat.le_refl z)
        (by simp only; omega)
      have kind : k = j := congrArg Prod.fst same.2
      rw [← kind, unsettled] at settled
      exact absurd settled (by decide)
    · exact fun z j m found _ => (words (h.headerAt found).2.1.1).2.1
    · intro sh member
      have := dvd16 sh member
      exact (words (by omega)).2.1
    · intro sh member
      have := dvd16 sh member
      have apart := h.not_fence known lo (y := y) (by omega) member
      rw [(words (by omega)).1, (words (by omega)).1, if_neg (Ne.symm apart.1),
        if_neg (Ne.symm apart.2.1)]
      exact ⟨rfl, rfl⟩
    · exact fun z inside' =>
        TlsfState.markBit_storeWord (i := 0) (w := w) h.fit header (by omega) inside' rfl rfl
    · exact fun z m free => ⟨(words (h.shape free).1).2.2.1, (words (h.shape free).1).2.2.2⟩
  · refine ⟨rfl, rfl, rfl, rfl, rfl, within_headerWord (i := 0) (by omega) ?_⟩
    have outside := h.outside known lo (z := y) (by omega)
      (Or.inr (Or.inr (TlsfKind.unsettled_cases unsettled).2))
    exact fun b lo hi => header.loose outside lo hi

/-- A back offset may be stored anywhere in an unsettled block and right behind it. -/
theorem TlsfRep.setPrevPhys (h : TlsfRep limit s v) (known : v.block x = some (k, n))
    (unsettled : k.settled = false) (unit : 16 ∣ y) (lo : x < y) (hi : y ≤ x + n)
    (fits : w < u32)
    : TlsfRep limit (s.setPrevPhys y w) v ∧ TlsfMove s v (s.setPrevPhys y w) v := by
  have words := fun {z : Nat} (hz : 16 ∣ z) =>
    TlsfState.setPrevPhys_words (s := s) unit hz fits
  have dvd16 : ∀ sh ∈ s.sheets, 16 ∣ sh := fun sh member =>
    dvd_trans (T.dvd_sheet (k := 4) (by omega)) (h.fit.dvd sh member)
  have parts := T.sheet_parts
  have header : HeaderAt T s.sheets y := by
    obtain ⟨sh, member, lo', hi'⟩ := h.sheet known
    exact ⟨unit, sh, member, Or.inr (by omega)⟩
  constructor
  · refine h.of_words rfl rfl rfl rfl ?_ ?_ ?_ ?_ ?_ ?_
    · exact fun z j m found _ => (words (h.headerAt found).1.1).1
    · intro z j m found settled
      rw [(words (h.headerAt found).2.1.1).2.1, if_neg]
      intro eq
      have large := (h.shape found).2.2
      have same := h.tiling.unique known found (x := y - 1) (by omega) (by simp only; omega)
        (by omega) (by simp only; omega)
      have kind : k = j := congrArg Prod.fst same.2
      rw [← kind, unsettled] at settled
      exact absurd settled (by decide)
    · intro sh member
      have := dvd16 sh member
      have apart := h.not_fence known (y := y - 1) (by omega) (by omega) member
      rw [(words (by omega)).2.1, if_neg (by omega)]
    · intro sh member
      have := dvd16 sh member
      exact ⟨(words (by omega)).1, (words (by omega)).1⟩
    · exact fun z inside' =>
        TlsfState.markBit_storeWord (i := 4) (w := w) h.fit header (by omega) inside' rfl rfl
    · exact fun z m free => ⟨(words (h.shape free).1).2.2.1, (words (h.shape free).1).2.2.2⟩
  · refine ⟨rfl, rfl, rfl, rfl, rfl, within_headerWord (by omega) ?_⟩
    have outside := h.outside known (z := y) (by omega) hi
      (Or.inr (Or.inr (TlsfKind.unsettled_cases unsettled).2))
    exact fun b lo hi => header.loose outside lo hi

end Stores

-----------------------------------------------------------------------------------------
-- Granting and taking back
-----------------------------------------------------------------------------------------

section Marks

variable {T : TlsfParams} {s s' : TlsfState T} {v : TlsfView} {limit x y n m : Nat}
  {sheets : List Nat}

/-- A bit of a stored byte. -/
theorem testBit_stored {m j : Nat} (low : j < 8) :
    (UInt8.ofNat m).toNat.testBit j = m.testBit j := by
  rw [UInt8.toNat_ofNat', show 2 ^ 8 = 2 ^ 8 from rfl, Nat.testBit_mod_two_pow]
  simp [low]

/-- Two blocks share a bitmap bit only if they are the same. -/
theorem TlsfState.markByte_inj (s : TlsfState T) (fit : SheetsFit T limit sheets)
    (hx : InSheets T sheets x) (hy : InSheets T sheets y) (unit : 16 ∣ x) (unit' : 16 ∣ y)
    (eq : s.markByte x = s.markByte y)
    : x = y := by
  obtain ⟨a, ha, lo, hi⟩ := hx
  obtain ⟨b, hb, lo', hi'⟩ := hy
  have parts := T.sheet_parts
  have first := s.markByte_bounds fit ha lo hi
  have second := s.markByte_bounds fit hb lo' hi'
  rw [eq] at first
  have same := fit.apart ha hb (x := (s.markByte y).1 - s.rbase) (by omega) (by omega) (by omega)
    (by omega)
  subst same
  have dvd16 : 16 ∣ a := dvd_trans (T.dvd_sheet (k := 4) (by omega)) (fit.dvd a ha)
  rw [(s.markByte_eq (fit.dvd a ha) (x := x) (by omega) (by omega)).1,
    (s.markByte_eq (fit.dvd a ha) (x := y) (by omega) (by omega)).1] at eq
  have bytes := (Prod.mk.inj eq).1
  have bits := Nat.pow_right_injective (le_refl 2) (Prod.mk.inj eq).2
  omega

/-- The bitmap bits after a byte was stored that differs in the bit of one block only. -/
theorem TlsfState.markBit_store {t : TlsfState T} (fit : SheetsFit T limit sheets)
    (hx : InSheets T sheets x)
    (hy : InSheets T sheets y) (unit : 16 ∣ x) (unit' : 16 ∣ y)
    (mem : t.mem = s.mem.store (s.markByte x).1 (UInt8.ofNat m)) (base : t.rbase = s.rbase)
    (others : ∀ j, (s.markByte x).2.testBit j = false →
      m.testBit j = (s.mem (s.markByte x).1).byte.toNat.testBit j)
    : t.markBit y = if y = x then m.testBit (((x &&& (T.sheet - 1)) >>> 4 + 1) &&& 7)
        else s.markBit y := by
  obtain ⟨a, ha, lo, hi⟩ := hx
  obtain ⟨b, hb, lo', hi'⟩ := hy
  have parts := T.sheet_parts
  have placeX := s.markByte_eq (fit.dvd a ha) (x := x) (by omega) (by omega)
  have placeY := s.markByte_eq (fit.dvd b hb) (x := y) (by omega) (by omega)
  have low : ((y &&& (T.sheet - 1)) >>> 4 + 1) &&& 7 < 8 := by
    rw [placeY.2]
    omega
  have address : t.markByte y = s.markByte y := by simp only [markByte, base]
  by_cases byte : (s.markByte y).1 = (s.markByte x).1
  · have value : t.markBit y = m.testBit (((y &&& (T.sheet - 1)) >>> 4 + 1) &&& 7) := by
      rw [markBit, address, mem, byte, Memory.store_self, testBit_stored low]
    by_cases same : y = x
    · subst same
      rw [value, if_pos rfl]
    · rw [value, if_neg same, others, ← byte]
      · rfl
      · rw [placeX.1, placeY.2, Nat.testBit_two_pow]
        simp only [decide_eq_false_iff_not]
        intro equal
        refine same (markByte_inj s fit ⟨b, hb, lo', hi'⟩ ⟨a, ha, lo, hi⟩ unit' unit
          (Prod.ext byte ?_))
        rw [placeX.1, placeY.1, equal]
  · have ne : y ≠ x := by
      rintro rfl
      exact byte rfl
    rw [if_neg ne]
    apply markBit_congr base
    rw [mem, Memory.store_of_ne _ _ byte]

/-- The mask of a block has its bit set. -/
theorem TlsfState.markByte_bit (s : TlsfState T) (fit : SheetsFit T limit sheets)
    (hx : InSheets T sheets x)
    : (s.markByte x).2.testBit (((x &&& (T.sheet - 1)) >>> 4 + 1) &&& 7) = true := by
  obtain ⟨a, ha, lo, hi⟩ := hx
  have parts := T.sheet_parts
  have place := s.markByte_eq (fit.dvd a ha) (x := x) (by omega) (by omega)
  rw [place.1, place.2]
  exact Nat.testBit_two_pow_self

/-- Setting the bit of a block. -/
theorem TlsfState.markBit_mark (fit : SheetsFit T limit sheets) (hx : InSheets T sheets x)
    (hy : InSheets T sheets y) (unit : 16 ∣ x) (unit' : 16 ∣ y)
    : (s.mark x).markBit y = if y = x then true else s.markBit y := by
  refine (markBit_store (s := s) (t := s.mark x)
    (m := (s.mem (s.markByte x).1).byte.toNat ||| (s.markByte x).2) fit hx hy unit unit' rfl rfl
    (fun j clear => by rw [Nat.testBit_or, clear, Bool.or_false])).trans ?_
  rw [Nat.testBit_or, s.markByte_bit fit hx, Bool.or_true]

/-- Clearing the bit of a block. -/
theorem TlsfState.markBit_unmark (fit : SheetsFit T limit sheets) (hx : InSheets T sheets x)
    (hy : InSheets T sheets y) (unit : 16 ∣ x) (unit' : 16 ∣ y)
    : (s.unmark x).markBit y = if y = x then false else s.markBit y := by
  refine (markBit_store (s := s) (t := s.unmark x)
    (m := andNot (s.mem (s.markByte x).1).byte.toNat (s.markByte x).2) fit hx hy unit unit' rfl rfl
    (fun j clear => by rw [testBit_andNot, clear, Bool.not_false, Bool.and_true])).trans ?_
  rw [testBit_andNot, s.markByte_bit fit hx, Bool.not_true, Bool.and_false]

/-- A store to a bitmap byte leaves all headers alone and stays off the payloads. -/
theorem TlsfRep.bitmapByte {t : TlsfState T} (h : TlsfRep limit s v) (hx : InSheets T s.sheets x)
    (value : UInt8)
    (mem : t.mem = s.mem.store (s.markByte x).1 value) (base : t.rbase = s.rbase)
    : (∀ y, HeaderAt T s.sheets y →
          t.bsizeFlags y = s.bsizeFlags y ∧ t.prevPhys y = s.prevPhys y
          ∧ t.nextFree y = s.nextFree y ∧ t.prevFree y = s.prevFree y)
      ∧ ∀ kept : Nat → Option Nat, (∀ y n, kept y = some n → ∃ k, v.block y = some (k, n)) →
          Memory.Within (TlsfLoose T s.rbase s.sheets kept) s.mem t.mem := by
  obtain ⟨a, ha, lo, hi⟩ := hx
  have bounds := s.markByte_bounds h.fit ha lo hi
  have parts := T.sheet_parts
  constructor
  · rintro y ⟨_, b, hb, place⟩
    have apart : (s.markByte x).1 < s.rbase + y ∨ s.rbase + y + 16 ≤ (s.markByte x).1 := by
      rcases Nat.lt_trichotomy a b with before | same | after
      · have := h.fit.gap ha hb before
        omega
      · omega
      · have := h.fit.gap hb ha after
        omega
    simp only [TlsfState.bsizeFlags, TlsfState.prevPhys, TlsfState.nextFree, TlsfState.prevFree,
      mem, base]
    refine ⟨?_, ?_, ?_, ?_⟩ <;>
      exact Memory.load_store_of_disjoint _ (by omega)
  · intro kept blocks b outside
    rw [mem, Memory.store_of_ne]
    rintro rfl
    refine outside ⟨⟨a, ha, by omega, by omega⟩, ?_⟩
    rintro y n found ⟨lo', hi'⟩
    obtain ⟨k, found⟩ := blocks y n found
    -- no block covers a bitmap byte
    obtain ⟨c, hc, below, above⟩ := h.sheet found
    have := h.fit.apart ha hc (x := (s.markByte x).1 - s.rbase) (by omega) (by omega) (by omega)
      (by omega)
    omega

/-- `__mark` grants a held block with a valid header. -/
theorem TlsfRep.mark (h : TlsfRep limit s v) (known : v.block x = some (.held, n))
    (size : s.bsizeFlags x = n ||| tlsfAlloc) (back : s.prevPhys (x + n) = x)
    : TlsfRep limit (s.mark x) (v.put x (some (.granted, n)))
      ∧ Memory.Within (TlsfLoose T s.rbase s.sheets v.granted) s.mem (s.mark x).mem := by
  obtain ⟨unit, _, _⟩ := h.shape known
  have inside := (h.headerAt known).2.2
  obtain ⟨words, within⟩ := h.bitmapByte (t := s.mark x) inside _ rfl rfl
  constructor
  · refine h.relabel known rfl (fun y header => ⟨(words y header).1, (words y header).2.1⟩) ?_
      (fun _ => size) (fun _ => back) ?_ ?_ (h.bits.congr rfl rfl)
    · exact fun y unit' inside' => TlsfState.markBit_mark h.fit inside inside' unit unit'
    · intro i
      refine (h.lists i).congr ?_ ?_
      · exact fun y member => (words y (h.listed_headerAt member)).2.2.1
      · exact fun y member => (words y (h.listed_headerAt (List.mem_of_mem_tail member))).2.2.2
    · exact h.binned_other known (by decide) (by simp)
  · exact within _ (fun y m found => ⟨_, TlsfView.granted_eq_some.mp found⟩)

/-- `__unmark` takes a granted block back. -/
theorem TlsfRep.unmark (h : TlsfRep limit s v) (known : v.block x = some (.granted, n))
    : TlsfRep limit (s.unmark x) (v.put x (some (.held, n))) ∧ SameBlocks s (s.unmark x)
      ∧ Memory.Within (TlsfLoose T s.rbase s.sheets (Function.update v.granted x none)) s.mem
        (s.unmark x).mem := by
  obtain ⟨unit, _, _⟩ := h.shape known
  have inside := (h.headerAt known).2.2
  obtain ⟨words, within⟩ := h.bitmapByte (t := s.unmark x) inside _ rfl rfl
  have blocks : SameBlocks s (s.unmark x) :=
    fun y header => ⟨(words y header).1, (words y header).2.1⟩
  refine ⟨?_, blocks, within _ ?_⟩
  · refine h.relabel known rfl blocks ?_ (fun settled => absurd settled (by decide))
      (fun settled => absurd settled (by decide)) ?_ ?_ (h.bits.congr rfl rfl)
    · exact fun y unit' inside' => TlsfState.markBit_unmark h.fit inside inside' unit unit'
    · intro i
      refine (h.lists i).congr ?_ ?_
      · exact fun y member => (words y (h.listed_headerAt member)).2.2.1
      · exact fun y member => (words y (h.listed_headerAt (List.mem_of_mem_tail member))).2.2.2
    · exact h.binned_other known (by decide) (by simp)
  · intro y m found
    rw [Function.update_apply] at found
    split at found
    · simp at found
    · exact ⟨_, TlsfView.granted_eq_some.mp found⟩

/-- A granted block is opened for resizing. -/
theorem TlsfRep.unsettle (h : TlsfRep limit s v) (known : v.block x = some (.granted, n))
    : TlsfRep limit s (v.put x (some (.resized, n))) := by
  refine h.relabel known rfl (fun _ _ => ⟨rfl, rfl⟩) ?_ (fun settled => absurd settled (by decide))
    (fun settled => absurd settled (by decide)) h.lists
    (h.binned_other known (by decide) (by simp)) h.bits
  intro y _ _
  split
  · rename_i same
    rw [same, h.markBit_known known]
    rfl
  · rfl

/-- Resizing ends with a valid header. -/
theorem TlsfRep.settle (h : TlsfRep limit s v) (known : v.block x = some (.resized, n))
    (size : s.bsizeFlags x = n ||| tlsfAlloc) (back : s.prevPhys (x + n) = x)
    : TlsfRep limit s (v.put x (some (.granted, n))) := by
  refine h.relabel known rfl (fun _ _ => ⟨rfl, rfl⟩) ?_ (fun _ => size) (fun _ => back) h.lists
    (h.binned_other known (by decide) (by simp)) h.bits
  intro y _ _
  split
  · rename_i same
    rw [same, h.markBit_known known]
    rfl
  · rfl

end Marks

end Bbmalloc
