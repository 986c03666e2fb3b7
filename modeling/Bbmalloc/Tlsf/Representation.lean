import Bbmalloc.Foundations.BlockTiling
import Bbmalloc.Foundations.IntrusiveList
import Bbmalloc.Tlsf.Headers

/-! The abstract small-block allocator: a partition of the data spans of the sheets into
blocks of four kinds, and the order of the bins. `TlsfRep` says that a concrete state, with
its headers, bitmaps and links, represents such a view.
-/

namespace Bbmalloc

open Bbmalloc.Foundations

/-- What a block is used for. Blocks of the last two kinds belong to the operation that is
running, so their header may be stale: a held block is unmarked, a resized one is marked.
-/
inductive TlsfKind
  | free
  | granted
  | held
  | resized
  deriving DecidableEq, Repr

/-- The headers of these blocks can be relied upon. -/
def TlsfKind.settled : TlsfKind → Bool
  | .free => true
  | .granted => true
  | _ => false

/-- The bitmap bits of these blocks are set. -/
def TlsfKind.isMarked : TlsfKind → Bool
  | .granted => true
  | .resized => true
  | _ => false

/-- A block of the partition: its kind and its size, header included. -/
abbrev TlsfBlock := TlsfKind × Nat

/-- The abstract state: the block that starts at each offset, and the offsets of each bin,
front first.
-/
structure TlsfView where
  block : Nat → Option TlsfBlock
  bins : Nat → List Nat

/-- The size of a granted block. -/
def grantedSize : Option TlsfBlock → Option Nat
  | some (.granted, n) => some n
  | _ => none

/-- The sizes of the granted blocks. -/
def TlsfView.granted (v : TlsfView) : Nat → Option Nat := grantedSize ∘ v.block

/-- The size word of a settled block. -/
def sizeWord : TlsfBlock → Nat
  | (.free, n) => n
  | (_, n) => n ||| tlsfAlloc

/-- The data spans of the sheets. -/
def InSheets (T : TlsfParams) (sheets : List Nat) (x : Nat) : Prop :=
  ∃ sh ∈ sheets, sh + T.dataOff ≤ x ∧ x < sh + T.dataOff + T.dataBytes

/-- The offsets where a header may lie: the start of a sheet, or behind its bitmap. -/
def HeaderAt (T : TlsfParams) (sheets : List Nat) (x : Nat) : Prop :=
  16 ∣ x ∧ ∃ sh ∈ sheets, x = sh ∨ (sh + T.dataOff ≤ x ∧ x + 16 ≤ sh + T.sheet)

namespace TlsfState

variable {T : TlsfParams}

/-- The bitmap bit of the block at an offset. -/
def markBit (s : TlsfState T) (x : Nat) : Bool :=
  (s.mem (s.markByte x).1).byte.toNat.testBit (((x &&& (T.sheet - 1)) >>> 4 + 1) &&& 7)

end TlsfState

/-- The sheets are whole, aligned, apart, and end within the region. -/
structure SheetsFit (T : TlsfParams) (limit : Nat) (sheets : List Nat) : Prop where
  limit_le : limit ≤ u32
  dvd : ∀ sh ∈ sheets, T.sheet ∣ sh
  end_le : ∀ sh ∈ sheets, sh + T.sheet ≤ limit
  nodup : sheets.Nodup

/-- The bitmaps show which bins have members. -/
def BinBits {T : TlsfParams} (s : TlsfState T) (bins : Nat → List Nat) : Prop :=
  (∀ fl sl, (s.slBitmap fl).testBit sl = true
    ↔ sl < T.slCount ∧ bins (fl * T.slCount + sl) ≠ [])
  ∧ ∀ fl, s.flBitmap.testBit fl = true ↔ s.slBitmap fl ≠ 0

/-- The concrete state `s` represents the view `v`; the byte counter and the sheet count,
which lag behind inside an operation, are not part of it.
-/
structure TlsfRep {T : TlsfParams} (limit : Nat) (s : TlsfState T) (v : TlsfView) : Prop where
  fit : SheetsFit T limit s.sheets
  tiling : Tiled Prod.snd (InSheets T s.sheets) v.block
  shape : ∀ {x k n}, v.block x = some (k, n) → 16 ∣ x ∧ 16 ∣ n ∧ 32 ≤ n
  header : ∀ {x k n}, v.block x = some (k, n) → k.settled = true →
    s.bsizeFlags x = sizeWord (k, n)
  behind : ∀ {x k n}, v.block x = some (k, n) → k.settled = true → s.prevPhys (x + n) = x
  first : ∀ sh ∈ s.sheets, s.prevPhys (sh + T.dataOff) = sh
  fences : ∀ sh ∈ s.sheets, s.bsizeFlags sh &&& (tlsfAlloc ||| tlsfSentinel) ≠ 0
    ∧ s.bsizeFlags (sh + (T.sheet - 16)) &&& (tlsfAlloc ||| tlsfSentinel) ≠ 0
  marks : ∀ x, 16 ∣ x → InSheets T s.sheets x →
    (s.markBit x = true ↔ ∃ k n, v.block x = some (k, n) ∧ k.isMarked = true)
  lists : ∀ i, Linked nullOff s.nextFree s.prevFree (s.heads i) (v.bins i)
  binned : ∀ i x, x ∈ v.bins i ↔ ∃ n, v.block x = some (.free, n) ∧ TlsfState.binOf T n = i
  bits : BinBits s v.bins

/-- No two free blocks touch. -/
def TlsfView.Merged (v : TlsfView) : Prop :=
  ∀ x n m, v.block x = some (.free, n) → v.block (x + n) ≠ some (.free, m)

/-- Every block is settled. -/
def TlsfView.Settled (v : TlsfView) : Prop :=
  ∀ x k n, v.block x = some (k, n) → k.settled = true

-----------------------------------------------------------------------------------------
-- Offsets
-----------------------------------------------------------------------------------------

section Offsets

variable {T : TlsfParams} {limit x y sh : Nat} {sheets : List Nat}

/-- A sheet ends before the next one starts. -/
theorem SheetsFit.gap (h : SheetsFit T limit sheets) {a b : Nat} (ha : a ∈ sheets)
    (hb : b ∈ sheets) (less : a < b)
    : a + T.sheet ≤ b := by
  obtain ⟨q, rfl⟩ := h.dvd a ha
  obtain ⟨r, rfl⟩ := h.dvd b hb
  have less : q < r := Nat.lt_of_mul_lt_mul_left less
  rw [← Nat.mul_succ]
  exact Nat.mul_le_mul_left _ less

/-- Two sheets are the same or disjoint. -/
theorem SheetsFit.apart (h : SheetsFit T limit sheets) {a b : Nat} (ha : a ∈ sheets)
    (hb : b ∈ sheets) (lo : a ≤ x) (hi : x < a + T.sheet) (lo' : b ≤ x) (hi' : x < b + T.sheet)
    : a = b := by
  rcases Nat.lt_trichotomy a b with before | same | after
  · have := h.gap ha hb before
    omega
  · exact same
  · have := h.gap hb ha after
    omega

/-- The sheet of an offset is found by rounding down. -/
theorem sheetOf_eq (dvd : T.sheet ∣ sh) (lo : sh ≤ x) (hi : x < sh + T.sheet)
    : TlsfState.sheetOf T x = sh ∧ x &&& (T.sheet - 1) = x - sh := by
  obtain ⟨q, rfl⟩ := dvd
  have whole : x / T.sheet = q := Nat.div_eq_of_lt_le (by rw [Nat.mul_comm]; exact lo)
    (by rw [Nat.succ_mul, Nat.mul_comm]; exact hi)
  have split := Nat.div_add_mod x T.sheet
  rw [whole] at split
  constructor
  · rw [TlsfState.sheetOf, TlsfShape.sheet, andNot_low, ← TlsfShape.sheet, whole, Nat.mul_comm]
  · rw [TlsfShape.sheet, and_low, ← TlsfShape.sheet]
    omega

/-- A header offset in a data span. -/
theorem InSheets.headerAt (h : InSheets T sheets x) (unit : 16 ∣ x)
    (fit : SheetsFit T limit sheets)
    : HeaderAt T sheets x := by
  obtain ⟨sh, member, lo, hi⟩ := h
  have parts := T.sheet_parts
  have dvd : 16 ∣ sh := dvd_trans (T.dvd_sheet (k := 4) (by omega)) (fit.dvd sh member)
  exact ⟨unit, sh, member, Or.inr ⟨lo, by omega⟩⟩

theorem HeaderAt.lt (h : HeaderAt T sheets x) (fit : SheetsFit T limit sheets)
    : x + 16 ≤ limit ∧ x ≠ nullOff := by
  obtain ⟨_, sh, member, place⟩ := h
  have last := fit.end_le sh member
  have limit_le := fit.limit_le
  have parts := T.sheet_parts
  have null : nullOff = 4294967295 := rfl
  have word : u32 = 4294967296 := rfl
  omega

end Offsets

-----------------------------------------------------------------------------------------
-- Bitmap bits
-----------------------------------------------------------------------------------------

namespace TlsfState

variable {T : TlsfParams} {s s' : TlsfState T} {limit x y sh : Nat} {sheets : List Nat}

/-- Where the bit of a block lies. -/
theorem markByte_eq (s : TlsfState T) (dvd : T.sheet ∣ sh) (lo : sh ≤ x) (hi : x < sh + T.sheet)
    : s.markByte x
        = (s.rbase + sh + 16 + ((x - sh) / 16 + 1) / 8, 2 ^ (((x - sh) / 16 + 1) % 8))
      ∧ ((x &&& (T.sheet - 1)) >>> 4 + 1) &&& 7 = ((x - sh) / 16 + 1) % 8 := by
  have rel := (sheetOf_eq dvd lo hi).2
  have low : ∀ i, i &&& 7 = i % 8 := fun i => and_low i 3
  constructor
  · simp only [markByte, rel, low, headerSize, Nat.shiftRight_eq_div_pow, Nat.one_shiftLeft]
    have base : x - (x - sh) = sh := by omega
    rw [base]
  · rw [rel, low, Nat.shiftRight_eq_div_pow]

/-- The bits of a sheet lie between its start header and its first block. -/
theorem markByte_bounds (s : TlsfState T) (fit : SheetsFit T limit sheets)
    (member : sh ∈ sheets) (lo : sh + T.dataOff ≤ x) (hi : x < sh + T.dataOff + T.dataBytes)
    : s.rbase + sh + 16 ≤ (s.markByte x).1 ∧ (s.markByte x).1 < s.rbase + sh + T.dataOff := by
  have parts := T.sheet_parts
  rw [(s.markByte_eq (fit.dvd sh member) (by omega) (by omega)).1]
  constructor <;> simp only <;> omega

/-- A bit is read from its byte. -/
theorem markBit_congr (base : s'.rbase = s.rbase)
    (same : (s'.mem (s.markByte x).1).byte = (s.mem (s.markByte x).1).byte)
    : s'.markBit x = s.markBit x := by
  have address : s'.markByte x = s.markByte x := by simp only [markByte, base]
  unfold markBit
  rw [address, same]

/-- A store to a header leaves the bitmaps alone. -/
theorem markBit_storeWord {t : TlsfState T} {a i w : Nat} (fit : SheetsFit T limit sheets)
    (header : HeaderAt T sheets a) (word : i + 4 ≤ 16) (inside : InSheets T sheets x)
    (base : t.rbase = s.rbase) (mem : t.mem = s.mem.storeWord (s.rbase + a + i) 4 w)
    : t.markBit x = s.markBit x := by
  obtain ⟨sh, member, lo, hi⟩ := inside
  have bounds := s.markByte_bounds fit member lo hi
  obtain ⟨_, sh', member', place⟩ := header
  have parts := T.sheet_parts
  apply markBit_congr base
  rw [mem, Memory.storeWord_outside]
  -- headers lie outside the bitmap of their own sheet and of every other one
  rcases Nat.lt_trichotomy sh sh' with before | same | after
  · have := fit.gap member member' before
    omega
  · omega
  · have := fit.gap member' member after
    omega

end TlsfState

-----------------------------------------------------------------------------------------
-- Facts about one block of a represented state
-----------------------------------------------------------------------------------------

theorem TlsfView.granted_eq_some {v : TlsfView} {x n : Nat}
    : v.granted x = some n ↔ v.block x = some (.granted, n) := by
  unfold granted Function.comp
  cases found : v.block x with
  | none => simp [grantedSize]
  | some b =>
      obtain ⟨k, m⟩ := b
      cases k <;> simp [grantedSize]

section Blocks

variable {T : TlsfParams} {s : TlsfState T} {v : TlsfView} {limit x y n m i : Nat} {k : TlsfKind}

/-- A block lies in the data span of one sheet: a block that ran past the span would cover
the end header, which no span covers.
-/
theorem TlsfRep.sheet (h : TlsfRep limit s v) (known : v.block x = some (k, n))
    : ∃ sh ∈ s.sheets, sh + T.dataOff ≤ x ∧ x + n ≤ sh + T.dataOff + T.dataBytes := by
  have parts := T.sheet_parts
  have positive := (h.shape known).2.2
  obtain ⟨sh, member, lo, hi⟩ := h.tiling.inside known (x := x) (Nat.le_refl x)
    (by simp only; omega)
  refine ⟨sh, member, lo, ?_⟩
  by_contra past
  obtain ⟨sh', member', lo', hi'⟩ := h.tiling.inside known (x := sh + T.dataOff + T.dataBytes)
    (by omega) (by simp only; omega)
  have := h.fit.apart member member' (x := sh + T.dataOff + T.dataBytes) (by omega) (by omega)
    (by omega) (by omega)
  omega

/-- Where a block starts, and where it ends, a header may lie. -/
theorem TlsfRep.headerAt (h : TlsfRep limit s v) (known : v.block x = some (k, n))
    : HeaderAt T s.sheets x ∧ HeaderAt T s.sheets (x + n) ∧ InSheets T s.sheets x := by
  obtain ⟨unit, whole, large⟩ := h.shape known
  obtain ⟨sh, member, lo, hi⟩ := h.sheet known
  have parts := T.sheet_parts
  exact ⟨⟨unit, sh, member, Or.inr (by omega)⟩, ⟨by omega, sh, member, Or.inr (by omega)⟩,
    sh, member, lo, by omega⟩

/-- Behind a block comes another one or the end header of the sheet. -/
theorem TlsfRep.after (h : TlsfRep limit s v) (known : v.block x = some (k, n))
    : (∃ b, v.block (x + n) = some b)
      ∨ ∃ sh ∈ s.sheets, x + n = sh + (T.sheet - 16) := by
  obtain ⟨sh, member, lo, hi⟩ := h.sheet known
  have parts := T.sheet_parts
  by_cases last : x + n = sh + T.dataOff + T.dataBytes
  · exact Or.inr ⟨sh, member, by omega⟩
  · exact Or.inl (h.tiling.next known ⟨sh, member, by simp only; omega, by simp only; omega⟩)

/-- Before a block comes another one or the bitmap of the sheet. -/
theorem TlsfRep.before (h : TlsfRep limit s v) (known : v.block x = some (k, n))
    : (∃ y k' m, v.block y = some (k', m) ∧ y + m = x)
      ∨ ∃ sh ∈ s.sheets, x = sh + T.dataOff := by
  obtain ⟨sh, member, lo, hi⟩ := h.sheet known
  have large := (h.shape known).2.2
  have parts := T.sheet_parts
  by_cases front : x = sh + T.dataOff
  · exact Or.inr ⟨sh, member, front⟩
  · obtain ⟨y, ⟨k', m⟩, found, eq⟩ := h.tiling.prev known (x := x - 1) (by omega)
      ⟨sh, member, by omega, by omega⟩
    exact Or.inl ⟨y, k', m, found, eq⟩

/-- What the header of a settled block says. -/
theorem TlsfRep.read (h : TlsfRep limit s v) (known : v.block x = some (k, n))
    (settled : k.settled = true)
    : s.bsize x = n ∧ (s.isFree x = true ↔ k = .free) := by
  have word := h.header known settled
  have bits := TlsfState.size_word (h.shape known).2.1
  have alloc : tlsfAlloc ≠ 0 := by decide
  unfold TlsfState.bsize TlsfState.isFree
  rw [word]
  cases k with
  | free => simp [sizeWord, bits.1, bits.2.1]
  | granted => simp [sizeWord, bits.2.2.1, bits.2.2.2.1, alloc]
  | held => simp [TlsfKind.settled] at settled
  | resized => simp [TlsfKind.settled] at settled

/-- The test of the block behind another one. -/
theorem TlsfRep.isFree_after (h : TlsfRep limit s v) (known : v.block x = some (k, n))
    (next : ∀ k' m, v.block (x + n) = some (k', m) → k'.settled = true)
    : s.isFree (x + n) = true ↔ ∃ m, v.block (x + n) = some (.free, m) := by
  rcases h.after known with ⟨⟨k', m⟩, found⟩ | ⟨sh, member, eq⟩
  · rw [(h.read found (next k' m found)).2]
    constructor
    · rintro rfl
      exact ⟨m, found⟩
    · rintro ⟨m', found'⟩
      exact (Prod.mk.inj (Option.some.inj (found.symm.trans found'))).1
  · have fence := (h.fences sh member).2
    rw [← eq] at fence
    constructor
    · intro free
      exact (fence (by simpa [TlsfState.isFree] using free)).elim
    · rintro ⟨m, found⟩
      have parts := T.sheet_parts
      obtain ⟨sh', member', lo, hi⟩ := h.sheet found
      have large := (h.shape found).2.2
      have := h.fit.apart member member' (x := x + n) (by omega) (by omega) (by omega) (by omega)
      omega

/-- The block before another one is found through `prev_phys`. -/
theorem TlsfRep.isFree_before (h : TlsfRep limit s v) (known : v.block x = some (k, n))
    (previous : ∀ y k' m, v.block y = some (k', m) → y + m = x → k'.settled = true)
    : (s.isFree (s.prevPhys x) = true
        ∧ ∃ m, v.block (s.prevPhys x) = some (.free, m) ∧ s.prevPhys x + m = x)
      ∨ (s.isFree (s.prevPhys x) = false
        ∧ ∀ y m, v.block y = some (.free, m) → y + m ≠ x) := by
  rcases h.before known with ⟨y, k', m, found, eq⟩ | ⟨sh, member, eq⟩
  · have settled := previous y k' m found eq
    have back : s.prevPhys x = y := by
      rw [← eq]
      exact h.behind found settled
    rw [back]
    have test := (h.read found settled).2
    by_cases free : k' = .free
    · subst free
      exact Or.inl ⟨test.mpr rfl, m, found, eq⟩
    · refine Or.inr ⟨by simpa [free] using test, ?_⟩
      intro z m' found' eq'
      have large := (h.shape found).2.2
      have large' := (h.shape found').2.2
      have same := h.tiling.unique found found' (x := x - 1) (by omega) (by simp only; omega)
        (by omega) (by simp only; omega)
      exact free (congrArg Prod.fst same.2)
  · have back : s.prevPhys x = sh := by
      rw [eq]
      exact h.first sh member
    rw [back]
    refine Or.inr ⟨by simpa [TlsfState.isFree] using (h.fences sh member).1, ?_⟩
    intro z m found' eq'
    have parts := T.sheet_parts
    have large := (h.shape found').2.2
    obtain ⟨sh', member', lo, hi⟩ := h.sheet found'
    have := h.fit.apart member member' (x := x - 1) (by omega) (by omega) (by omega) (by omega)
    omega

/-- The kind of a block determines its bitmap bit. -/
theorem TlsfRep.markBit_known (h : TlsfRep limit s v) (known : v.block x = some (k, n))
    : s.markBit x = k.isMarked := by
  have bit := h.marks x (h.shape known).1 (h.headerAt known).2.2
  cases marked : k.isMarked with
  | true => exact bit.mpr ⟨k, n, known, marked⟩
  | false =>
      by_contra set
      obtain ⟨k', n', found, marked'⟩ := bit.mp (by simpa using set)
      have kind := (Prod.mk.inj (Option.some.inj (known.symm.trans found))).1
      rw [kind, marked'] at marked
      exact absurd marked (by decide)

-----------------------------------------------------------------------------------------
-- Bins
-----------------------------------------------------------------------------------------

/-- Members of a bin are free blocks. -/
theorem TlsfRep.listed_headerAt (h : TlsfRep limit s v) (member : x ∈ v.bins i)
    : HeaderAt T s.sheets x := by
  obtain ⟨n, found, _⟩ := (h.binned i x).mp member
  exact (h.headerAt found).1

/-- The front of a bin is null or a member of it. -/
theorem TlsfRep.front (h : TlsfRep limit s v) (i : Nat)
    : s.heads i = nullOff ∨ s.heads i ∈ v.bins i := by
  by_cases null : s.heads i = nullOff
  · exact Or.inl null
  · obtain ⟨rest, eq, _⟩ := (h.lists i).chain.eq_cons null
    exact Or.inr (by simp [eq])

/-- A block is in one bin only. -/
theorem TlsfRep.listed_unique (h : TlsfRep limit s v) {j : Nat} (hi : x ∈ v.bins i)
    (hj : x ∈ v.bins j)
    : i = j := by
  obtain ⟨n, found, rfl⟩ := (h.binned i x).mp hi
  obtain ⟨m, found', rfl⟩ := (h.binned j x).mp hj
  rw [(Prod.mk.inj (Option.some.inj (found.symm.trans found'))).2]

/-- A block of another kind is in no bin. -/
theorem TlsfRep.not_listed (h : TlsfRep limit s v) (known : v.block x = some (k, n))
    (kind : k ≠ .free) (i : Nat)
    : x ∉ v.bins i := by
  intro member
  obtain ⟨m, found, _⟩ := (h.binned i x).mp member
  exact kind (Prod.mk.inj (Option.some.inj (known.symm.trans found))).1

/-- The successor of a member is null or a member. -/
theorem TlsfRep.next_listed (h : TlsfRep limit s v) (member : x ∈ v.bins i)
    : s.nextFree x = nullOff ∨ s.nextFree x ∈ v.bins i :=
  ((h.lists i).chain.next_mem_tail member).imp_right List.mem_of_mem_tail

end Blocks

end Bbmalloc
