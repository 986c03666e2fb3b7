import Bbmalloc.Tlsf.Gauges
import Bbmalloc.Tlsf.Sheets

/-! Whole runs of one TLSF list: any sequence of operations on live headers and owned
sheets, with the owners of blocks writing to them in between. A run keeps the invariant,
and the single operations are described by the headers that are found in memory.
-/

namespace Bbmalloc

open Bbmalloc.Foundations

-----------------------------------------------------------------------------------------
-- Writes by others
-----------------------------------------------------------------------------------------

section Frame

variable {T : TlsfParams} {s : TlsfState T} {v : TlsfView} {limit x z n sh : Nat}

/-- The fences of a sheet and the start of its data span are not inside a granted block. -/
theorem TlsfRep.outside_span (h : TlsfRep limit s v) (member : sh ∈ s.sheets) (lo : sh ≤ z)
    (hi : z < sh + T.sheet) (place : z ≤ sh + T.dataOff ∨ sh + (T.sheet - 16) ≤ z)
    : ∀ y m, v.granted y = some m → z ≤ y ∨ y + m ≤ z := by
  intro y m found
  have parts := T.sheet_parts
  obtain ⟨sh', member', lo', hi'⟩ := h.sheet (TlsfView.granted_eq_some.mp found)
  rcases Nat.lt_trichotomy sh sh' with before | same | after
  · have := h.fit.gap member member' before
    omega
  · omega
  · have := h.fit.gap member' member after
    omega

/-- The invariant reads the sheets outside granted payloads only. -/
theorem TlsfInv.congr (h : TlsfInv limit s v) {m : Memory}
    (same : ∀ a, TlsfLoose T s.rbase s.sheets v.granted a → (m a).byte = (s.mem a).byte)
    : TlsfInv limit ({ s with mem := m } : TlsfState T) v := by
  have parts := T.sheet_parts
  have words : ∀ y, HeaderAt T s.sheets y →
      (∀ z k, v.granted z = some k → y ≤ z ∨ z + k ≤ y) →
      ({ s with mem := m } : TlsfState T).bsizeFlags y = s.bsizeFlags y
      ∧ ({ s with mem := m } : TlsfState T).prevPhys y = s.prevPhys y
      ∧ ({ s with mem := m } : TlsfState T).nextFree y = s.nextFree y
      ∧ ({ s with mem := m } : TlsfState T).prevFree y = s.prevFree y := by
    intro y header outside
    have base : ({ s with mem := m } : TlsfState T).rbase = s.rbase := rfl
    refine ⟨?_, ?_, ?_, ?_⟩ <;>
      exact Memory.load_congr
        (fun a lo hi => same a (header.loose outside (by omega) (by omega)))
  have span : ∀ y, HeaderAt T s.sheets y → ∀ sh ∈ s.sheets, sh ≤ y → y < sh + T.sheet →
      (y ≤ sh + T.dataOff ∨ sh + (T.sheet - 16) ≤ y) →
      ({ s with mem := m } : TlsfState T).bsizeFlags y = s.bsizeFlags y
      ∧ ({ s with mem := m } : TlsfState T).prevPhys y = s.prevPhys y := by
    intro y header sh member lo hi place
    have := words y header (h.outside_span member lo hi place)
    exact ⟨this.1, this.2.1⟩
  have dvd16 : ∀ sh ∈ s.sheets, 16 ∣ sh := fun sh member =>
    dvd_trans (T.dvd_sheet (k := 4) (by omega)) (h.fit.dvd sh member)
  refine ⟨h.of_words rfl rfl rfl rfl ?_ ?_ ?_ ?_ ?_ ?_, h.settled, h.merged, h.counter, h.counted,
    h.budget⟩
  · intro z k j found _
    exact (words z (h.headerAt found).1
      (h.outside found (Nat.le_refl z) (by omega) (Or.inl rfl))).1
  · intro z k j found _
    exact (words _ (h.headerAt found).2.1
      (h.outside found (by omega) (Nat.le_refl _) (Or.inr (Or.inl rfl)))).2.1
  · intro sh member
    have unit := dvd16 sh member
    exact (span _ ⟨by omega, sh, member, Or.inr ⟨Nat.le_refl _, by omega⟩⟩ sh member (by omega)
      (by omega) (Or.inl (Nat.le_refl _))).2
  · intro sh member
    have unit := dvd16 sh member
    refine ⟨(span sh ⟨unit, sh, member, Or.inl rfl⟩ sh member (Nat.le_refl _) (by omega)
      (Or.inl (by omega))).1, ?_⟩
    exact (span _ ⟨by omega, sh, member, Or.inr ⟨by omega, by omega⟩⟩ sh member (by omega)
      (by omega) (Or.inr (Nat.le_refl _))).1
  · rintro z ⟨sh, member, lo, hi⟩
    have bounds := s.markByte_bounds h.fit member lo hi
    refine TlsfState.markBit_congr rfl (same _ ⟨⟨sh, member, by omega, by omega⟩, ?_⟩)
    intro y j found
    have := h.outside_span member (z := (s.markByte z).1 - s.rbase) (by omega) (by omega)
      (Or.inl (by omega)) y j found
    omega
  · intro z j found
    have := words z (h.headerAt found).1
      (h.outside found (Nat.le_refl z) (by omega) (Or.inl rfl))
    exact ⟨this.2.2.1, this.2.2.2⟩

/-- Writing to a payload or outside the sheets keeps the invariant. -/
theorem TlsfInv.write (h : TlsfInv limit s v) {a : Nat}
    (outside : ¬TlsfLoose T s.rbase s.sheets v.granted a) (w : UInt8)
    : TlsfInv limit ({ s with mem := s.mem.store a w } : TlsfState T) v := by
  refine h.congr (fun c loose => ?_)
  rw [Memory.store_of_ne]
  rintro rfl
  exact outside loose

end Frame

-----------------------------------------------------------------------------------------
-- Blocks as the headers show them
-----------------------------------------------------------------------------------------

/-- The offsets met on the way from the start fence of a sheet to its end fence. -/
inductive TlsfState.Walk {T : TlsfParams} (s : TlsfState T) (sheet : Nat) : Nat → Prop
  | first : Walk s sheet (sheet + T.dataOff)
  | next {x : Nat} (before : Walk s sheet x)
      (more : x + s.bsize x < sheet + (T.sheet - headerSize)) : Walk s sheet (x + s.bsize x)

/-- The header at `x` is one of a block of `n` bytes that is free or not. -/
def TlsfState.BlockAt {T : TlsfParams} (s : TlsfState T) (free : Bool) (x n : Nat) : Prop :=
  (∃ sh ∈ s.sheets, s.Walk sh x) ∧ s.isFree x = free ∧ s.bsize x = n

section Walking

variable {T : TlsfParams} {s : TlsfState T} {v : TlsfView} {limit x n sh : Nat}

/-- The walk through a sheet meets exactly its blocks. -/
theorem TlsfInv.walk_iff (h : TlsfInv limit s v) (member : sh ∈ s.sheets)
    : s.Walk sh x ↔ sh + T.dataOff ≤ x ∧ x < sh + T.dataOff + T.dataBytes
      ∧ ∃ b, v.block x = some b := by
  have parts := T.sheet_parts
  have inside : ∀ y, sh + T.dataOff ≤ y → y < sh + T.dataOff + T.dataBytes →
      InSheets T s.sheets y := fun y lo hi => ⟨sh, member, lo, hi⟩
  constructor
  · intro walk
    induction walk with
    | first =>
        refine ⟨Nat.le_refl _, by omega, ?_⟩
        obtain ⟨a, b, found, lo, hi⟩ := h.tiling.cover (inside (sh + T.dataOff) (by omega)
          (by omega))
        obtain ⟨sh', member', lo', hi'⟩ := h.sheet found
        rcases Nat.lt_trichotomy sh sh' with before | same | after
        · have := h.fit.gap member member' before
          omega
        · subst same
          obtain rfl : a = sh + T.dataOff := by omega
          exact ⟨b, found⟩
        · have := h.fit.gap member' member after
          omega
    | @next y _ more ih =>
        obtain ⟨lo, hi, ⟨k, n⟩, found⟩ := ih
        obtain ⟨size, _⟩ := h.read found (h.settled _ _ _ found)
        have large := (h.shape found).2.2
        rw [size] at more ⊢
        simp only [headerSize] at more
        refine ⟨by omega, by omega, ?_⟩
        obtain ⟨d, after⟩ := h.tiling.next found (inside (y + n) (by omega) (by omega))
        exact ⟨d, after⟩
  · -- by the blocks before `x`, which the walk meets first
    induction x using Nat.strong_induction_on with
    | _ x ih =>
        rintro ⟨lo, hi, ⟨k, n⟩, found⟩
        by_cases start : x = sh + T.dataOff
        · rw [start]
          exact .first
        · obtain ⟨y, ⟨k', m⟩, before, touch⟩ :=
            h.tiling.prev found (x := x - 1) (by omega) (inside _ (by omega) (by omega))
          simp only at touch
          have large := (h.shape before).2.2
          obtain ⟨size, _⟩ := h.read before (h.settled _ _ _ before)
          obtain ⟨sh', member', lo', hi'⟩ := h.sheet before
          have same : sh' = sh :=
            h.fit.apart member' member (x := x - 1) (by omega) (by omega) (by omega) (by omega)
          subst same
          have earlier := ih y (by omega) ⟨lo', by omega, _, before⟩
          rw [← touch, ← size]
          refine earlier.next ?_
          rw [size, touch]
          simp only [headerSize]
          omega

/-- The headers show exactly the blocks of the view. -/
theorem TlsfInv.blockAt_iff (h : TlsfInv limit s v) {free : Bool}
    : s.BlockAt free x n ↔ v.block x = some (if free then .free else .granted, n) := by
  have kinds : ∀ {k m}, v.block x = some (k, m) → k = .free ∨ k = .granted := by
    intro k m found
    have settled := h.settled _ _ _ found
    cases k with
    | free => exact Or.inl rfl
    | granted => exact Or.inr rfl
    | held => exact absurd settled (by decide)
    | resized => exact absurd settled (by decide)
  constructor
  · rintro ⟨⟨sh, member, walk⟩, state, size⟩
    obtain ⟨_, _, ⟨k, m⟩, found⟩ := (h.walk_iff member).mp walk
    obtain ⟨size', free'⟩ := h.read found (h.settled _ _ _ found)
    obtain rfl : m = n := size'.symm.trans size
    rw [state] at free'
    rcases kinds found with rfl | rfl
    · simp [found, free'.mpr rfl]
    · have : free ≠ true := fun eq => absurd (free'.mp eq) (by decide)
      simp [found, this]
  · intro found
    obtain ⟨size, state⟩ := h.read found (h.settled _ _ _ found)
    obtain ⟨sh, member, lo, hi⟩ := h.sheet found
    have large := (h.shape found).2.2
    refine ⟨⟨sh, member, (h.walk_iff member).mpr ⟨lo, by omega, _, found⟩⟩, ?_, size⟩
    cases free with
    | true => exact state.mpr rfl
    | false =>
        rw [Bool.eq_false_iff]
        exact fun eq => absurd (state.mp eq) (by simp)

theorem TlsfInv.live_iff (h : TlsfInv limit s v)
    : s.BlockAt false x n ↔ v.granted x = some n := by
  rw [h.blockAt_iff, TlsfView.granted_eq_some]
  rfl

theorem TlsfInv.free_iff (h : TlsfInv limit s v)
    : s.BlockAt true x n ↔ v.block x = some (.free, n) := by
  rw [h.blockAt_iff]
  rfl

end Walking

-----------------------------------------------------------------------------------------
-- Runs
-----------------------------------------------------------------------------------------

/-- What becomes of a TLSF list after `init` on a region of `limit` bytes: a state, or `none`
once a search was undefined. A sheet that is added is an aligned range of the region apart
from the active ones, the header that is freed or resized is one of a live block, owners
write to their blocks or elsewhere, and `admits` holds of the requests.
-/
inductive TlsfRun (T : TlsfParams) (limit : Nat) (admits : Nat → Prop)
    : Option (TlsfState T) → Prop
  | init (s : TlsfState T) (base : Nat) (fits : limit ≤ u32)
      : TlsfRun T limit admits (some (s.init base))
  | addSheet {s : TlsfState T} (before : TlsfRun T limit admits (some s)) {sheet : Nat}
      (fit : SheetsFit T limit (sheet :: s.sheets))
      : TlsfRun T limit admits (some (s.addSheet sheet).1)
  | removeSheet {s : TlsfState T} (before : TlsfRun T limit admits (some s)) {sheet : Nat}
      (active : sheet ∈ s.sheets) : TlsfRun T limit admits (some (s.removeSheet sheet).1)
  | allocate {s : TlsfState T} (before : TlsfRun T limit admits (some s)) (n : Nat)
      (admitted : admits n) : TlsfRun T limit admits ((s.allocate n).map Prod.fst)
  | deallocate {s : TlsfState T} (before : TlsfRun T limit admits (some s)) {off bs : Nat}
      (live : s.BlockAt false off bs) : TlsfRun T limit admits (some (s.deallocate off).1)
  | shrink {s : TlsfState T} (before : TlsfRun T limit admits (some s)) {off bs : Nat}
      (live : s.BlockAt false off bs) (n : Nat)
      : TlsfRun T limit admits (some (s.shrink off n).1)
  | grow {s : TlsfState T} (before : TlsfRun T limit admits (some s)) {off bs : Nat}
      (live : s.BlockAt false off bs) (n : Nat) : TlsfRun T limit admits (some (s.grow off n).1)
  | writeBlock {s : TlsfState T} (before : TlsfRun T limit admits (some s)) {off bs a : Nat}
      (live : s.BlockAt false off bs) (lo : s.rbase + off + headerSize ≤ a)
      (hi : a < s.rbase + off + bs) (w : UInt8)
      : TlsfRun T limit admits (some { s with mem := s.mem.store a w })
  | writeElsewhere {s : TlsfState T} (before : TlsfRun T limit admits (some s)) {a : Nat}
      (outside : ∀ sh ∈ s.sheets, a < s.rbase + sh ∨ s.rbase + sh + T.sheet ≤ a) (w : UInt8)
      : TlsfRun T limit admits (some { s with mem := s.mem.store a w })

/-- The states that a TLSF list takes, whatever is requested. -/
def TlsfReached (T : TlsfParams) (limit : Nat) (s : TlsfState T) : Prop :=
  TlsfRun T limit (fun _ => True) (some s)

section Runs

variable {T : TlsfParams} {s : TlsfState T} {o : Option (TlsfState T)} {v : TlsfView}
  {limit : Nat} {admits : Nat → Prop}

/-- `add_sheet` keeps the invariant, also when it refuses the sheet. -/
theorem TlsfInv.addSheet_any (h : TlsfInv limit s v) {sh : Nat}
    (fit : SheetsFit T limit (sh :: s.sheets))
    : ∃ v', TlsfInv limit (s.addSheet sh).1 v' := by
  by_cases refused : s.count ≥ T.maxSheets ∨ s.rbase = 0
  · have same : s.addSheet sh = (s, false) := by
      rcases refused with full | null
      · simp [TlsfState.addSheet, full]
      · simp [TlsfState.addSheet, null]
    rw [same]
    exact ⟨v, h⟩
  · obtain ⟨v', _, inv, _⟩ := h.addSheet fit (by omega) (by omega)
    exact ⟨v', inv⟩

/-- `remove_sheet` keeps the invariant, also when the sheet is not empty. -/
theorem TlsfInv.removeSheet_any (h : TlsfInv limit s v) {sh : Nat} (member : sh ∈ s.sheets)
    : ∃ v', TlsfInv limit (s.removeSheet sh).1 v' := by
  cases empty : s.sheetEmpty sh with
  | true =>
      obtain ⟨v', _, inv, _⟩ := h.removeSheet member empty
      exact ⟨v', inv⟩
  | false =>
      have same : s.removeSheet sh = (s, false) := by simp [TlsfState.removeSheet, empty]
      rw [same]
      exact ⟨v, h⟩

/-- Every state of a run satisfies the invariant, by induction on the run. -/
theorem TlsfRun.inv (run : TlsfRun T limit admits o) (is : o = some s)
    : ∃ v, TlsfInv limit s v := by
  induction run generalizing s with
  | init s₀ base fits =>
      obtain rfl := Option.some.inj is
      exact ⟨_, s₀.init_spec base limit fits⟩
  | addSheet _ fit ih =>
      obtain rfl := Option.some.inj is
      obtain ⟨v, inv⟩ := ih rfl
      exact inv.addSheet_any fit
  | removeSheet _ active ih =>
      obtain rfl := Option.some.inj is
      obtain ⟨v, inv⟩ := ih rfl
      exact inv.removeSheet_any active
  | allocate _ n _ ih =>
      obtain ⟨c, done, rfl⟩ := Option.map_eq_some_iff.mp is
      obtain ⟨v, inv⟩ := ih rfl
      rcases inv.allocate done with ⟨v', _, _, _, _, _, _, _, _, _, step⟩ | ⟨same, _⟩
      · exact ⟨v', step.inv⟩
      · rw [same]
        exact ⟨v, inv⟩
  | deallocate _ live ih =>
      obtain rfl := Option.some.inj is
      obtain ⟨v, inv⟩ := ih rfl
      obtain ⟨v', step, _⟩ := inv.deallocate (inv.live_iff.mp live)
      exact ⟨v', step.inv⟩
  | shrink _ live n ih =>
      obtain rfl := Option.some.inj is
      obtain ⟨v, inv⟩ := ih rfl
      obtain ⟨v', step, _⟩ := inv.shrink (inv.live_iff.mp live) n
      exact ⟨v', step.inv⟩
  | grow _ live n ih =>
      obtain rfl := Option.some.inj is
      obtain ⟨v, inv⟩ := ih rfl
      obtain ⟨v', _, step, _⟩ := inv.grow (inv.live_iff.mp live) n
      exact ⟨v', step.inv⟩
  | writeBlock _ live lo hi w ih =>
      obtain rfl := Option.some.inj is
      obtain ⟨v, inv⟩ := ih rfl
      refine ⟨v, inv.write (fun loose => ?_) w⟩
      exact loose.2 _ _ (inv.live_iff.mp live) ⟨lo, hi⟩
  | writeElsewhere _ outside w ih =>
      obtain rfl := Option.some.inj is
      obtain ⟨v, inv⟩ := ih rfl
      refine ⟨v, inv.write (fun loose => ?_) w⟩
      obtain ⟨⟨sh, member, lo, hi⟩, _⟩ := loose
      have := outside sh member
      omega

/-- A run whose searches are for less than half of the word range is defined throughout. -/
theorem TlsfRun.defined (run : TlsfRun T limit (fun n => TlsfState.adjusted T n < 2 ^ 31) o)
    : ∃ s, o = some s := by
  cases run with
  | @allocate s _ n small =>
      obtain ⟨c, done⟩ := (s.allocate_defined_iff n).mpr small
      exact ⟨c.1, by rw [done, Option.map_some]⟩
  | _ => exact ⟨_, rfl⟩

/-- An object that no constructor has run on, in zeroed memory. -/
def TlsfState.blankStart (T : TlsfParams) : TlsfState T where
  rbase := 0
  flBitmap := 0
  slBitmap := fun _ => 0
  allocatedBytes := 0
  count := 0
  scratch := ⟨0, 0, 0, 0⟩
  heads := fun _ => 0
  sheets := []
  mem := fun _ => ⟨0, 0⟩

/-- The small list at address 4096 with one sheet and one block of 40 bytes. -/
def TlsfState.smallStart : TlsfState smallTlsf :=
  (((blankStart smallTlsf).init 4096).addSheet 0).1.allocateNarrow (by decide) 40 |>.1

theorem smallTlsf_run (admitted : admits 40)
    : TlsfRun smallTlsf 4096 admits (some TlsfState.smallStart) := by
  have first : TlsfRun smallTlsf 4096 admits
      (some ((TlsfState.blankStart smallTlsf).init 4096)) := .init _ 4096 (by decide)
  have fit : SheetsFit smallTlsf 4096 [0] :=
    ⟨by decide, by simp, fun sh member => by simp_all; decide, by simp⟩
  have run := (first.addSheet fit).allocate 40 admitted
  rwa [TlsfState.allocate_narrow _ (by decide), Option.map_some] at run

theorem smallTlsf_start : TlsfReached smallTlsf 4096 TlsfState.smallStart :=
  smallTlsf_run trivial

/-- The widest list at address 4096 with its one sheet. -/
def TlsfState.widestStart : TlsfState TlsfState.widestTlsf :=
  (((blankStart TlsfState.widestTlsf).init 4096).addSheet 0).1

theorem widestTlsf_start : TlsfReached TlsfState.widestTlsf u32 TlsfState.widestStart := by
  have first : TlsfRun TlsfState.widestTlsf u32 (fun _ => True)
      (some ((TlsfState.blankStart TlsfState.widestTlsf).init 4096)) := .init _ 4096 (Nat.le_refl _)
  have fit : SheetsFit TlsfState.widestTlsf u32 [0] :=
    ⟨Nat.le_refl _, by simp, fun sh member => by simp_all; decide, by simp⟩
  exact first.addSheet fit

/-- Its search for the largest part of a sheet below 2 GiB is undefined. -/
theorem TlsfState.widestStart_undefined : widestStart.allocate 2147483632 = none := by
  have large : adjusted TlsfState.widestTlsf 2147483632 = 2 ^ 31 := by decide +kernel
  rw [allocate, large, widestStart.findFree_undefined (Nat.le_refl _)]
  rfl

/-- The header of its block. -/
theorem smallTlsf_block : TlsfState.smallStart.BlockAt false 32 64 :=
  ⟨⟨0, by decide +kernel, .first⟩, by decide +kernel, by decide +kernel⟩

/-- In a run whose requests are all for less than half of the word range every state is defined:
the blocks tile the active sheets and all records agree with them, sizes and back offsets,
bins and their bitmaps, the marks of granted blocks and the counter; and no two neighbours
are both free. The blocks are the ones that the headers show, and the requests from there on
that are defined are those of the same kind.
-/
theorem TlsfRun.sheet_representation
    (run : TlsfRun T limit (fun n => TlsfState.adjusted T n < 2 ^ 31) o)
    : ∃ s v, o = some s ∧ TlsfInv limit s v
        ∧ (∀ x n, s.BlockAt false x n ↔ v.block x = some (.granted, n))
        ∧ (∀ x n, s.BlockAt true x n ↔ v.block x = some (.free, n))
        ∧ ∀ n, (∃ c, s.allocate n = some c) ↔ TlsfState.adjusted T n < 2 ^ 31 := by
  obtain ⟨s, is⟩ := run.defined
  obtain ⟨v, inv⟩ := run.inv is
  exact ⟨s, v, is, inv, fun x n => inv.live_iff.trans TlsfView.granted_eq_some,
    fun x n => inv.free_iff, s.allocate_defined_iff⟩

theorem TlsfRun.sheet_representation_small
    : ∃ s v, some TlsfState.smallStart = some s ∧ TlsfInv 4096 s v
        ∧ (∀ x n, s.BlockAt false x n ↔ v.block x = some (.granted, n))
        ∧ (∀ x n, s.BlockAt true x n ↔ v.block x = some (.free, n))
        ∧ ∀ n, (∃ c, s.allocate n = some c) ↔ TlsfState.adjusted smallTlsf n < 2 ^ 31 :=
  (smallTlsf_run (by decide)).sheet_representation

/-- On the widest list a run ends in no state at all. -/
theorem TlsfRun.sheet_representation_widest
    : ¬∀ o, TlsfRun TlsfState.widestTlsf u32 (fun _ => True) o →
        ∃ s v, o = some s ∧ TlsfInv u32 s v
          ∧ (∀ x n, s.BlockAt false x n ↔ v.block x = some (.granted, n))
          ∧ ∀ x n, s.BlockAt true x n ↔ v.block x = some (.free, n) := by
  intro claim
  have run := widestTlsf_start.allocate 2147483632 trivial
  rw [TlsfState.widestStart_undefined, Option.map_none] at run
  obtain ⟨s, v, is, _⟩ := claim none run
  cases is

end Runs

-----------------------------------------------------------------------------------------
-- Good fit
-----------------------------------------------------------------------------------------

section GoodFit

variable {T : TlsfParams} {s : TlsfState T} {v : TlsfView} {limit x n a b : Nat}

/-- What the search has to offer, in terms of the free blocks and the list heads. -/
theorem TlsfInv.offers_iff (h : TlsfInv limit s v) (large : 32 ≤ a) (small : a < 2 ^ 31)
    : v.Offers T a
      ↔ ¬∃ c, TlsfState.mappingSearch T a = some c
        ∧ (∀ x m, s.BlockAt true x m → ¬TlsfState.classLe c (TlsfState.mappingInsert T m))
        ∧ (s.heads (TlsfState.listIndex T (TlsfState.mappingInsert T a)) = nullOff
          ∨ s.bsize (s.heads (TlsfState.listIndex T (TlsfState.mappingInsert T a))) < a) := by
  have rounded := TlsfState.roundUp_bounds (T := T) large
  have classes : (∃ i, TlsfState.searchBin T a ≤ i ∧ v.bins i ≠ [])
      ↔ ∃ x m, s.BlockAt true x m ∧ TlsfState.classLe
        (TlsfState.mappingInsert T (TlsfState.roundUp T a)) (TlsfState.mappingInsert T m) := by
    constructor
    · rintro ⟨i, le, live⟩
      obtain ⟨_, _, m, found, rfl⟩ := h.head_of_ne_nil live
      refine ⟨_, m, h.free_iff.mpr found, ?_⟩
      exact (TlsfState.classLe_iff (by omega) (h.shape found).2.2).mpr le
    · rintro ⟨x, m, free, le⟩
      have found := h.free_iff.mp free
      refine ⟨TlsfState.binOf T m, ?_, List.ne_nil_of_mem (h.mem_bins found)⟩
      exact (TlsfState.classLe_iff (by omega) (h.shape found).2.2).mp le
  have front : (∃ x m, (v.bins (TlsfState.binOf T a)).head? = some x
        ∧ v.block x = some (.free, m) ∧ a ≤ m)
      ↔ s.heads (TlsfState.binOf T a) ≠ nullOff ∧ a ≤ s.bsize (s.heads (TlsfState.binOf T a)) := by
    constructor
    · rintro ⟨x, m, head, found, enough⟩
      obtain ⟨rest, eq⟩ := List.head?_eq_some_iff.mp head
      obtain ⟨head', live, _⟩ := h.head_of_ne_nil (i := TlsfState.binOf T a) (by simp [eq])
      obtain rfl := Option.some.inj (head.symm.trans head')
      refine ⟨live, ?_⟩
      rwa [(h.read found rfl).1]
    · rintro ⟨live, enough⟩
      obtain member := (h.front (TlsfState.binOf T a)).resolve_left live
      obtain ⟨m, found, _⟩ := (h.binned _ _).mp member
      obtain ⟨head, _⟩ := h.head_of_ne_nil (List.ne_nil_of_mem member)
      refine ⟨_, m, head, found, ?_⟩
      rwa [← (h.read found rfl).1]
  have index : TlsfState.listIndex T (TlsfState.mappingInsert T a) = TlsfState.binOf T a := rfl
  simp only [TlsfState.mappingSearch_eq large small, Option.some.injEq, exists_eq_left', index]
  rw [TlsfView.Offers, classes, front, not_and_or]
  refine or_congr ?_ ?_
  · simp only [not_forall, not_not, exists_prop]
  · rw [not_or, Nat.not_lt]

/-- The answer `c` to a request of `n` bytes is a good fit. A granted block holds the request,
rounded up to 16 bytes, with at most one unit to spare; it is refused only if neither the
classes from the search class on nor the head of the own class has a block for it, so never
while a block is a class step larger.
-/
structure TlsfState.GoodFit (s : TlsfState T) (n : Nat) (c : TlsfState T × Chunk) : Prop where
  granted : c.2.ptr ≠ 0 → ∃ x m len, s.BlockAt true x m
    ∧ c.2 = ⟨s.rbase + x + headerSize, len⟩
    ∧ (len = (n + 15) / 16 * 16 ∨ len = (n + 15) / 16 * 16 + 16)
    ∧ len + headerSize ≤ m ∧ c.1.BlockAt false x (len + headerSize)
  refused : c.2.ptr = 0 ↔ adjusted T n = 0 ∨ ∃ b, mappingSearch T (adjusted T n) = some b
    ∧ (∀ x m, s.BlockAt true x m → ¬classLe b (mappingInsert T m))
    ∧ (s.heads (listIndex T (mappingInsert T (adjusted T n))) = nullOff
      ∨ s.bsize (s.heads (listIndex T (mappingInsert T (adjusted T n)))) < adjusted T n)
  served : adjusted T n ≠ 0 →
    (∃ x m, s.BlockAt true x m
      ∧ adjusted T n + 2 ^ (Nat.log2 (adjusted T n) - T.slLog2) - 1 ≤ m) →
    c.2.ptr ≠ 0

/-- A granted request names a block that held it. -/
theorem TlsfInv.granted_fit (h : TlsfInv limit s v) {c : TlsfState T × Chunk}
    (done : s.allocate n = some c) (live : c.2.ptr ≠ 0)
    : ∃ x m len, s.BlockAt true x m ∧ c.2 = ⟨s.rbase + x + headerSize, len⟩
      ∧ (len = (n + 15) / 16 * 16 ∨ len = (n + 15) / 16 * 16 + 16)
      ∧ len + headerSize ≤ m ∧ c.1.BlockAt false x (len + headerSize) := by
  rcases h.allocate done with
    ⟨v', x, take, result, nonzero, _, lo, hi, ⟨m, free, fits, _⟩, _, step⟩ | ⟨rfl, _⟩
  · obtain ⟨_, _, wholeA, above, below, _⟩ := TlsfState.adjusted_pos nonzero
    have granted : v'.granted x = some take := by rw [step.granted_eq]; simp
    obtain ⟨_, whole, large, _⟩ := step.inv.granted_block granted
    have sum : take - 16 + headerSize = take := by
      simp only [headerSize]
      omega
    refine ⟨x, m, take - 16, h.free_iff.mpr free, result, by omega, by omega, ?_⟩
    rw [sum]
    exact step.inv.live_iff.mpr granted
  · exact absurd rfl live

/-- A request is refused exactly if it is none or nothing is offered for it. -/
theorem TlsfInv.refused_iff (h : TlsfInv limit s v) {c : TlsfState T × Chunk}
    (done : s.allocate n = some c)
    : c.2.ptr = 0 ↔ TlsfState.adjusted T n = 0 ∨ ¬v.Offers T (TlsfState.adjusted T n) := by
  rcases h.allocate done with ⟨_, _, _, result, nonzero, offers, _⟩ | ⟨rfl, none⟩
  · rw [result]
    refine iff_of_false (fun null => by simp at null) ?_
    exact not_or.mpr ⟨nonzero, not_not.mpr offers⟩
  · exact iff_of_true rfl none

/-- `allocate` is a good fit for every request below half of the word range, and for no other
is it defined.
-/
theorem TlsfReached.good_fit (run : TlsfReached T limit s) (n : Nat)
    : (∃ c, s.allocate n = some c ∧ s.GoodFit n c) ↔ TlsfState.adjusted T n < 2 ^ 31 := by
  obtain ⟨v, inv⟩ := TlsfRun.inv run rfl
  refine ⟨fun fit => (s.allocate_defined_iff n).mp (fit.imp fun _ both => both.1), fun small => ?_⟩
  obtain ⟨c, done⟩ := (s.allocate_defined_iff n).mpr small
  refine ⟨c, done, inv.granted_fit done, ?_, ?_⟩
  · rw [inv.refused_iff done]
    refine or_congr_right' (fun nonzero => ?_)
    rw [inv.offers_iff (TlsfState.adjusted_pos nonzero).2.2.2.2.2 small, not_not]
  · rintro nonzero ⟨x, m, free, enough⟩ null
    have large := (TlsfState.adjusted_pos nonzero).2.2.2.2.2
    have found := inv.free_iff.mp free
    have rounded := TlsfState.roundUp_bounds (T := T) large
    refine ((inv.refused_iff done).mp null).resolve_left nonzero (Or.inl ⟨_, ?_,
      List.ne_nil_of_mem (inv.mem_bins found)⟩)
    exact TlsfState.binOf_mono (by omega) enough

theorem TlsfReached.good_fit_small
    : (∃ c, TlsfState.smallStart.allocate 24 = some c ∧ TlsfState.smallStart.GoodFit 24 c)
        ↔ TlsfState.adjusted smallTlsf 24 < 2 ^ 31 :=
  smallTlsf_start.good_fit 24

/-- On the widest list a request below the size of its free block is undefined. -/
theorem TlsfReached.good_fit_widest
    : ¬∀ s, TlsfReached TlsfState.widestTlsf u32 s →
      ∀ n, ∃ c, s.allocate n = some c ∧ s.GoodFit n c := by
  intro claim
  obtain ⟨c, done, _⟩ := claim _ widestTlsf_start 2147483632
  rw [TlsfState.widestStart_undefined] at done
  cases done

end GoodFit

-----------------------------------------------------------------------------------------
-- Resizing in place
-----------------------------------------------------------------------------------------

section InPlace

variable {T : TlsfParams} {s s' : TlsfState T} {v v' : TlsfView} {limit off bs size : Nat}

/-- Only the block at `off` changes among the live ones, and the counter by as much as it. -/
structure TlsfState.OnlyResized (s s' : TlsfState T) (off bs size : Nat) : Prop where
  here : s'.BlockAt false off size
  others : ∀ x n, x ≠ off → (s'.BlockAt false x n ↔ s.BlockAt false x n)
  counter : s'.allocatedBytes + bs = s.allocatedBytes + size

/-- A step that changes what is granted at one offset. -/
theorem TlsfStep.onlyResized (h : TlsfInv limit s v) (known : v.granted off = some bs)
    {kept : Nat → Option Nat}
    (step : TlsfStep limit s s' v' kept (Function.update v.granted off (some size)))
    : s.OnlyResized s' off bs size := by
  refine ⟨step.inv.live_iff.mpr (by rw [step.granted_eq]; simp), fun x n ne => ?_, ?_⟩
  · rw [step.inv.live_iff, h.live_iff, step.granted_eq, Function.update_of_ne ne]
  · have block := TlsfView.granted_eq_some.mp known
    have sum := h.granted_sum ⟨_, block⟩ (some size)
    rw [known] at sum
    rw [step.inv.counter, h.counter, step.granted_eq]
    exact sum

theorem TlsfState.shrink_refused (s : TlsfState T) (off n : Nat)
    (refused : (s.shrink off n).2 = false)
    : (s.shrink off n).1 = s := by
  unfold shrink at refused ⊢
  by_cases zero : adjusted T n = 0
  · simp [zero]
  · by_cases large : adjusted T n > s.bsize off
    · simp [zero, large]
    · by_cases small : s.bsize off - adjusted T n < TlsfShape.minBlock
      · simp [zero, large, small] at refused
      · simp [zero, large, small] at refused

/-- `shrink` succeeds on all sizes up to the present one and gives the rest back, joined with
a free successor; `grow` succeeds when the block and a free successor together suffice.
Both leave a block of the adjusted size or one unit more, or nothing changes at all.
-/
theorem TlsfReached.resize_in_place (run : TlsfReached T limit s) (live : s.BlockAt false off bs)
    (n : Nat)
    (request : TlsfState.adjusted T n ≠ 0)
    : ((s.shrink off n).2 = true ↔ TlsfState.adjusted T n ≤ bs)
      ∧ ((s.shrink off n).2 = true → ∃ size, s.OnlyResized (s.shrink off n).1 off bs size
        ∧ (size = TlsfState.adjusted T n ∨ size = TlsfState.adjusted T n + 16)
        ∧ (size < bs → (s.shrink off n).1.BlockAt true (off + size)
          (bs - size + if s.isFree (off + bs) then s.bsize (off + bs) else 0)))
      ∧ ((s.shrink off n).2 = false → (s.shrink off n).1 = s)
      ∧ ((s.grow off n).2 = true ↔ TlsfState.adjusted T n ≤ bs
        ∨ (s.isFree (off + bs) = true ∧ TlsfState.adjusted T n ≤ bs + s.bsize (off + bs)))
      ∧ ((s.grow off n).2 = true → ∃ size, s.OnlyResized (s.grow off n).1 off bs size
        ∧ (TlsfState.adjusted T n ≤ bs → size = bs)
        ∧ (bs < TlsfState.adjusted T n →
          size = TlsfState.adjusted T n ∨ size = TlsfState.adjusted T n + 16))
      ∧ ((s.grow off n).2 = false → (s.grow off n).1 = s) := by
  obtain ⟨v, inv⟩ := TlsfRun.inv run rfl
  have known := inv.live_iff.mp live
  obtain ⟨_, whole, large, _⟩ := inv.granted_block known
  obtain ⟨_, _, wholeA, _, _, largeA⟩ := TlsfState.adjusted_pos request
  obtain ⟨v₁, step₁, result₁, rest⟩ := inv.shrink known n
  obtain ⟨v₂, n₂, step₂, grown, fits₂, refused₂, exact₂, _⟩ := inv.grow known n
  refine ⟨?_, ?_, s.shrink_refused off n, ?_, ?_, fun eq => (refused₂ eq).1⟩
  · rw [result₁]
    simp [request]
  · intro accepted
    have le : TlsfState.adjusted T n ≤ bs := by
      rw [result₁] at accepted
      exact (of_decide_eq_true accepted).2
    refine ⟨_, step₁.onlyResized inv known, ?_⟩
    by_cases cut : TlsfState.adjusted T n + 32 ≤ bs
    · have chosen : shrunkSize T bs n = TlsfState.adjusted T n := by
        simp only [shrunkSize]
        rw [if_pos ⟨request, cut⟩]
      rw [chosen]
      exact ⟨Or.inl rfl, fun _ => step₁.inv.free_iff.mpr (rest request cut)⟩
    · have chosen : shrunkSize T bs n = bs := by
        simp only [shrunkSize]
        rw [if_neg (fun both => cut both.2)]
      rw [chosen]
      exact ⟨by omega, fun less => absurd less (by omega)⟩
  · rw [exact₂]
    simp [request]
  · intro accepted
    obtain ⟨_, enough, tight⟩ := fits₂ accepted
    refine ⟨n₂, step₂.onlyResized inv known, fun le => ?_, fun less => ?_⟩
    · have same : s.grow off n = (s, true) := by
        simp [TlsfState.grow, request, live.2.2, le]
      have granted := (step₂.onlyResized inv known).here
      rw [same] at granted
      rw [← granted.2.2, ← live.2.2]
    · have after := step₂.inv.granted_block
        (by rw [step₂.granted_eq]; simp : v₂.granted off = some n₂)
      omega

theorem TlsfReached.resize_in_place_small
    : let s := TlsfState.smallStart
      ((s.shrink 32 8).2 = true ↔ TlsfState.adjusted smallTlsf 8 ≤ 64)
        ∧ ((s.shrink 32 8).2 = true → ∃ size, s.OnlyResized (s.shrink 32 8).1 32 64 size
          ∧ (size = TlsfState.adjusted smallTlsf 8 ∨ size = TlsfState.adjusted smallTlsf 8 + 16)
          ∧ (size < 64 → (s.shrink 32 8).1.BlockAt true (32 + size)
            (64 - size + if s.isFree (32 + 64) then s.bsize (32 + 64) else 0)))
        ∧ ((s.shrink 32 8).2 = false → (s.shrink 32 8).1 = s)
        ∧ ((s.grow 32 8).2 = true ↔ TlsfState.adjusted smallTlsf 8 ≤ 64
          ∨ (s.isFree (32 + 64) = true
            ∧ TlsfState.adjusted smallTlsf 8 ≤ 64 + s.bsize (32 + 64)))
        ∧ ((s.grow 32 8).2 = true → ∃ size, s.OnlyResized (s.grow 32 8).1 32 64 size
          ∧ (TlsfState.adjusted smallTlsf 8 ≤ 64 → size = 64)
          ∧ (64 < TlsfState.adjusted smallTlsf 8 →
            size = TlsfState.adjusted smallTlsf 8 ∨ size = TlsfState.adjusted smallTlsf 8 + 16))
        ∧ ((s.grow 32 8).2 = false → (s.grow 32 8).1 = s) :=
  smallTlsf_start.resize_in_place smallTlsf_block 8 (by decide)

end InPlace

end Bbmalloc
