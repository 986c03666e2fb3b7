import Bbmalloc.Region.Representation

/-! Sheets on their way between the tiers: `release_sheet`, `flush_spare`,
`small_alloc_slow` and `small_free`. The rollback branches are never taken, and an empty
sheet is always the spare.
-/

namespace Bbmalloc

open Bbmalloc.Foundations

-----------------------------------------------------------------------------------------
-- Giving a sheet back
-----------------------------------------------------------------------------------------

section Release

variable {C : Config} {P : BuddyParams} {b : BuddyState P} {w : BuddyView} {r : RegionState C}
  {v : RegionView} {x o sh : Nat}

/-- Deallocating a client's block by its address. -/
theorem BuddyInv.deallocate (h : BuddyInv b w) (known : w.owned x = some (.alloc, o))
    : (b.deallocate (b.base + x)).2 = .ok
      ∧ ∃ w', BuddyStep b (b.deallocate (b.base + x)).1 w' (Function.update w.owned x none)
          (Function.update w.owned x none) := by
  have order : b.orderAt (b.base + x) = some o := h.orderAt_iff.mpr ⟨x, _, rfl, known⟩
  obtain ⟨w', step⟩ := h.deallocateOrder (ownedOf_eq_some.mp known).1
  simp only [BuddyState.deallocate, order]
  exact ⟨trivial, w', step⟩

/-- A sheet that is unmarked and deallocated becomes free. -/
theorem BuddyInv.giveBack (h : BuddyInv b w) (known : w.owned x = some (.sheet, o))
    : ((b.unmarkSheet (b.base + x)).deallocate (b.base + x)).2 = .ok
      ∧ ∃ w', BuddyStep b ((b.unmarkSheet (b.base + x)).deallocate (b.base + x)).1 w'
          (Function.update w.owned x none) (Function.update w.owned x none) := by
  have unmark := h.unmarkSheet (ownedOf_eq_some.mp known).1
  have base : (b.unmarkSheet (b.base + x)).base = b.base :=
    congrArg BuddyGeometry.base unmark.geometry
  have owned := unmark.owned_eq
  have free := unmark.inv.deallocate (x := x) (o := o) (by rw [owned]; simp)
  rw [base] at free
  obtain ⟨ok, w', step⟩ := free
  refine ⟨ok, w', step.inv, step.geometry.trans unmark.geometry, ?_, ?_⟩
  · rw [step.owned_eq, owned, Function.update_idem]
  · have later := step.within
    rw [unmark.geometry, owned, Function.update_idem] at later
    refine (unmark.within.mono (fun a loose => ?_)).trans later
    refine loose.imp id (fun data => ⟨data.1, data.2.1, fun y c found => ?_⟩)
    by_cases same : y = x
    · subst same
      simp at found
    · exact data.2.2 y c (by simpa [same] using found)

/-- The outcome of `release_sheet` when no tier refuses. -/
def RegionState.dropSheet (r : RegionState C) (sheet : Nat) : RegionState C :=
  let p := r.buddy.base + sheet
  let r := r.setTlsf (r.tlsfState.removeSheet sheet).1
  let r := r.setBuddy ((r.buddyState.unmarkSheet p).deallocate p).1
  let r : RegionState C := { r with spare := if r.spare = sheet then nullOff else r.spare }
  r.collect .sheetReleased 0

theorem RegionCore.sheet_lt (h : RegionCore r v) (member : sh ∈ r.tlsf.sheets)
    : C.tlsf.sheet ∣ sh ∧ sh + C.tlsf.sheet ≤ r.buddy.total ∧ sh < r.buddy.total
      ∧ sh ≠ nullOff := by
  have last := h.tlsf.fit.end_le sh member
  have most : r.buddy.total ≤ BuddyParams.maxTotal := h.buddy.rep.geometry.total_le
  have parts := C.tlsf.sheet_parts
  have null : nullOff = 4294967295 := rfl
  have cap : BuddyParams.maxTotal = 4294967280 := rfl
  exact ⟨h.tlsf.fit.dvd sh member, last, by omega, by omega⟩

/-- The tags show which offsets are sheets. -/
theorem RegionCore.isSheetAt_iff (h : RegionCore r v) (unit : C.buddy.minBlock ∣ x)
    (inside : x < r.buddy.total)
    : r.buddyState.isSheetAt x = true ↔ x ∈ r.tlsf.sheets := by
  rw [h.buddy.isSheetAt_iff unit inside]
  constructor
  · rintro ⟨o, found⟩
    exact ((h.sheets x o).mp (ownedOf_eq_some.mpr ⟨found, rfl⟩)).1
  · intro member
    exact ⟨_, (ownedOf_eq_some.mp (h.sheet_owned member)).1⟩

theorem Config.minBlock_dvd_sheet (C : Config) : C.buddy.minBlock ∣ C.tlsf.sheet := by
  rw [← C.orderSize_sheet]
  exact C.buddy.minBlock_dvd_orderSize _

theorem RegionCore.isSheetAt (h : RegionCore r v) (member : sh ∈ r.tlsf.sheets)
    : r.buddyState.isSheetAt sh = true :=
  (h.isSheetAt_iff (dvd_trans C.minBlock_dvd_sheet (h.sheet_lt member).1)
    (h.sheet_lt member).2.2.1).mpr member

/-- A sheet is empty to the small-block allocator if no client holds a block in it. -/
theorem RegionCore.sheetEmpty_iff (h : RegionCore r v) (member : sh ∈ r.tlsf.sheets)
    : r.tlsfState.sheetEmpty sh = true ↔ v.tlsf.EmptySheet C.tlsf sh :=
  (h.tlsf.sheetEmpty_iff member).1.trans (h.tlsf.sheetEmpty_iff member).2

/-- Both tiers agree to release an empty sheet. -/
theorem RegionCore.releaseSheet_eq (h : RegionCore r v) (member : sh ∈ r.tlsf.sheets)
    (empty : v.tlsf.EmptySheet C.tlsf sh)
    : r.releaseSheet sh = r.dropSheet sh := by
  obtain ⟨_, _, inside, notNull⟩ := h.sheet_lt member
  have inRange : r.buddyState.inRange (r.buddy.base + sh) = true :=
    (BuddyState.inRange_iff h.buddy.rep.geometry).mpr
      ⟨Nat.le_add_right _ _, Nat.add_lt_add_left inside _⟩
  obtain ⟨_, removed, _, _, _, _, within⟩ :=
    h.tlsf.removeSheet member ((h.sheetEmpty_iff member).mpr empty)
  have buddy := h.buddy.tlsf_write h.base (fun sh member => ⟨_, h.sheet_owned member⟩) within
  have freed := (buddy.giveBack (h.sheet_owned member)).1
  have freed : (((r.setTlsf (r.tlsfState.removeSheet sh).1).buddyState.unmarkSheet
      (r.buddy.base + sh)).deallocate (r.buddy.base + sh)).2 = .ok := freed
  simp only [RegionState.releaseSheet, RegionState.dropSheet, h.live, inRange,
    h.isSheetAt member, removed, notNull, beq_iff_eq, Bool.not_true, Bool.false_or, if_false,
    Bool.false_eq_true, RegionState.setBuddy_buddyState, RegionState.setBuddy_setBuddy, freed,
    ne_eq, not_true_eq_false]
  rfl

/-- Releasing an empty sheet keeps every live block. -/
theorem RegionCore.releaseSheet (h : RegionCore r v) (member : sh ∈ r.tlsf.sheets)
    (empty : v.tlsf.EmptySheet C.tlsf sh)
    : ∃ v', CoreStep r (r.releaseSheet sh) v' v.live v.live
        ∧ (r.releaseSheet sh).tlsf.sheets = r.tlsf.sheets.erase sh
        ∧ v'.buddy.owned = Function.update v.buddy.owned sh none
        ∧ (r.releaseSheet sh).spare = (if r.spare = sh then nullOff else r.spare) := by
  rw [h.releaseSheet_eq member empty]
  obtain ⟨w, _, tlsf, base, sheets, granted, within⟩ :=
    h.tlsf.removeSheet member ((h.sheetEmpty_iff member).mpr empty)
  have buddy := h.buddy.tlsf_write h.base (fun sh member => ⟨_, h.sheet_owned member⟩) within
  obtain ⟨_, u, step⟩ := buddy.giveBack (h.sheet_owned member)
  generalize removal : r.tlsfState.removeSheet sh = t at *
  have others : ∀ y ∈ t.1.sheets, y ∈ r.tlsf.sheets ∧ y ≠ sh := by
    intro y found
    rw [sheets] at found
    exact ⟨List.mem_of_mem_erase found, fun same =>
      (h.tlsf.fit.nodup.mem_erase_iff.mp found).1 same⟩
  have keeps : ∀ y ∈ t.1.sheets,
      Function.update v.buddy.owned sh none y = some (.sheet, C.sheetOrder) := by
    intro y found
    rw [Function.update_of_ne (others y found).2]
    exact h.sheet_owned (others y found).1
  have geometry : (r.dropSheet sh).buddy.toBuddyGeometry = r.buddy.toBuddyGeometry := by
    simp only [RegionState.dropSheet, removal]
    exact step.geometry
  have tlsf' := tlsf.buddy_write h.buddy.rep.geometry (base.trans h.base) rfl
    (fun y found => ⟨_, keeps y found⟩) step.within
  have live : Live.of (Function.update v.buddy.owned sh none) v.tlsf.granted = v.live :=
    Live.of_other _ _ _ (by rw [h.sheet_owned member]; rfl) rfl
  refine ⟨⟨u, w⟩, ⟨⟨h.live, ?_, ?_, ?_, ?_, ?_⟩, geometry, ?_, ?_⟩, ?_, step.owned_eq, ?_⟩
  · simp only [RegionState.dropSheet, removal]
    exact step.inv
  · rw [geometry]
    simp only [RegionState.dropSheet, removal]
    exact tlsf'
  · rw [geometry]
    simp only [RegionState.dropSheet, removal]
    exact base.trans h.base
  · intro x o
    have same : (r.dropSheet sh).tlsf.sheets = t.1.sheets := by
      simp only [RegionState.dropSheet, removal]
      rfl
    rw [same, show (RegionView.mk u w).buddy.owned = _ from step.owned_eq]
    constructor
    · intro found
      by_cases here : x = sh
      · subst here
        simp at found
      · rw [Function.update_of_ne here] at found
        refine ⟨?_, ((h.sheets x o).mp found).2⟩
        rw [sheets]
        exact (h.tlsf.fit.nodup.mem_erase_iff).mpr ⟨here, ((h.sheets x o).mp found).1⟩
    · rintro ⟨found, rfl⟩
      exact keeps x found
  · exact h.noRollback
  · rw [← live, RegionView.live, step.owned_eq, granted]
  · have first : Memory.Within (RegionLoose C.buddy r.buddy.toBuddyGeometry v.live) r.mem
        t.1.mem := by
      refine within.mono (fun a loose => loose.region h.base h.tlsf.fit.end_le ?_
        (fun x n known => known))
      intro x o known y found
      have known := Live.of_large.mp known
      have apart := h.buddy.owned_apart known (h.sheet_owned found) (fun same => by
        rw [same, h.sheet_owned found] at known
        simp at known)
      simpa only [C.orderSize_sheet] using apart
    have second : Memory.Within (RegionLoose C.buddy r.buddy.toBuddyGeometry v.live) t.1.mem
        ((((r.setTlsf t.1).buddyState.unmarkSheet (r.buddy.base + sh)).deallocate
          (r.buddy.base + sh)).1).mem := by
      refine step.within.mono (fun a loose => ?_)
      refine loose.region h.buddy.rep.geometry (fun x c known => ?_) (fun x o known => ?_)
        (fun x n known => ?_)
      · by_cases here : x = sh
        · subst here
          simp at known
        · exact (h.buddy.owned_le (by simpa [here] using known)).2
      · rw [← live] at known
        exact Live.of_large.mp known
      · obtain ⟨y, found, lo, hi⟩ := h.small_inside known
        have here : y ≠ sh := by
          rintro rfl
          exact empty x n known ⟨by omega, by omega⟩
        exact ⟨y, _, by rw [Function.update_of_ne here]; exact h.sheet_owned found, by omega,
          by omega⟩
    have total := first.trans second
    simp only [RegionState.dropSheet, removal]
    exact total
  · simp only [RegionState.dropSheet, removal]
    exact sheets
  · rfl

end Release

-----------------------------------------------------------------------------------------
-- Flushing the spare
-----------------------------------------------------------------------------------------

section Flush

variable {C : Config} {r r' : RegionState C} {v v' : RegionView} {x o sh : Nat} {c : Tile}

open Classical in
/-- The owned blocks without the empty sheets. -/
noncomputable def RegionView.busy (T : TlsfParams) (v : RegionView) (x : Nat) : Option Tile :=
  (v.buddy.owned x).filter (fun c => ¬(c.1 = .sheet ∧ v.tlsf.EmptySheet T x))

theorem RegionView.busy_eq_some {T : TlsfParams}
    : v.busy T x = some c
      ↔ v.buddy.owned x = some c ∧ ¬(c.1 = .sheet ∧ v.tlsf.EmptySheet T x) := by
  classical
  simp only [busy, Option.filter_eq_some_iff, decide_eq_true_eq]

/-- Without an empty sheet nothing is left out. -/
theorem RegionCore.busy_of_none (h : RegionCore r v)
    (none : ∀ sh ∈ r.tlsf.sheets, ¬v.tlsf.EmptySheet C.tlsf sh)
    : v.busy C.tlsf = v.buddy.owned := by
  funext x
  refine Option.ext (fun c => ?_)
  rw [RegionView.busy_eq_some]
  constructor
  · exact And.left
  · intro known
    refine ⟨known, ?_⟩
    rintro ⟨kind, empty⟩
    obtain ⟨k, o⟩ := c
    subst kind
    exact none x ((h.sheets x o).mp known).1 empty

/-- With one empty sheet, just that one is left out. -/
theorem RegionCore.busy_of_one (h : RegionCore r v) (member : sh ∈ r.tlsf.sheets)
    (empty : v.tlsf.EmptySheet C.tlsf sh)
    (only : ∀ y ∈ r.tlsf.sheets, v.tlsf.EmptySheet C.tlsf y → y = sh)
    : v.busy C.tlsf = Function.update v.buddy.owned sh none := by
  funext x
  refine Option.ext (fun c => ?_)
  rw [RegionView.busy_eq_some]
  by_cases here : x = sh
  · subst here
    rw [Function.update_self, h.sheet_owned member]
    simp only [Option.some.injEq, reduceCtorEq, iff_false, not_and]
    rintro rfl kept
    exact kept rfl empty
  · rw [Function.update_of_ne here]
    constructor
    · exact And.left
    · intro known
      refine ⟨known, ?_⟩
      rintro ⟨kind, empty'⟩
      obtain ⟨k, o⟩ := c
      subst kind
      exact here (only x ((h.sheets x o).mp known).1 empty')

/-- The spare is not looked at by either tier. -/
theorem RegionCore.setSpare (h : RegionCore r v) (spare : Nat)
    : RegionCore ({ r with spare := spare } : RegionState C) v :=
  ⟨h.live, h.buddy, h.tlsf, h.base, h.sheets, h.noRollback⟩

/-- With a null spare no sheet is empty. -/
theorem RegionInv.none_empty (h : RegionInv r v) (null : r.spare = nullOff)
    : ∀ sh ∈ r.tlsf.sheets, ¬v.tlsf.EmptySheet C.tlsf sh :=
  fun sh member empty =>
    (h.sheet_lt member).2.2.2 ((h.onlySpare sh member empty).symm.trans null)

/-- After a flush the spare is null and the empty sheet, if there was one, is free. -/
theorem RegionInv.flushSpare (h : RegionInv r v)
    : ∃ v', RegionStep r r.flushSpare v' v.live v.live ∧ r.flushSpare.spare = nullOff
        ∧ v'.buddy.owned = v.busy C.tlsf
        ∧ (v'.tlsf = v.tlsf ∨ ∃ sh ∈ r.tlsf.sheets, v.tlsf.EmptySheet C.tlsf sh) := by
  by_cases null : r.spare = nullOff
  · have same : r.flushSpare = r := by simp [RegionState.flushSpare, null]
    rw [same]
    exact ⟨v, h.refl _, null, (h.busy_of_none (h.none_empty null)).symm, Or.inl rfl⟩
  · have member : r.spare ∈ r.tlsf.sheets := h.spareSheet.resolve_left null
    have dropped := h.setSpare nullOff
    have shown :
        ({ r with spare := nullOff } : RegionState C).buddyState.isSheetAt r.spare = true :=
      h.isSheetAt member
    by_cases empty : v.tlsf.EmptySheet C.tlsf r.spare
    · have isEmpty : ({ r with spare := nullOff } : RegionState C).tlsfState.sheetEmpty r.spare
          = true :=
        (h.sheetEmpty_iff member).mpr empty
      have flush : r.flushSpare
          = ({ r with spare := nullOff } : RegionState C).releaseSheet r.spare := by
        simp [RegionState.flushSpare, null, shown, isEmpty]
      obtain ⟨v', step, sheets, owned, spare⟩ := dropped.releaseSheet member empty
      rw [flush]
      have spare : (({ r with spare := nullOff } : RegionState C).releaseSheet r.spare).spare
          = nullOff := by
        rw [spare]
        exact ite_self _
      have granted : v'.tlsf.granted = v.tlsf.granted := congrArg Live.small step.live_eq
      have others : ∀ sh ∈ (({ r with spare := nullOff } : RegionState C).releaseSheet
          r.spare).tlsf.sheets, ¬v'.tlsf.EmptySheet C.tlsf sh := by
        intro sh found empty'
        rw [sheets] at found
        obtain ⟨ne, found⟩ := (h.tlsf.fit.nodup.mem_erase_iff).mp found
        refine ne (h.onlySpare sh found ?_).symm
        simpa only [TlsfView.EmptySheet, granted] using empty'
      refine ⟨v', ⟨⟨step.core, Or.inl spare, fun sh found empty' =>
        absurd empty' (others sh found)⟩, step.geometry, step.live_eq, step.within⟩, spare, ?_,
        Or.inr ⟨_, member, empty⟩⟩
      rw [owned, h.busy_of_one member empty (fun y found empty' =>
        (h.onlySpare y found empty').symm)]
    · have isFull : ({ r with spare := nullOff } : RegionState C).tlsfState.sheetEmpty r.spare
          = false := by
        rw [Bool.eq_false_iff]
        exact fun found => empty ((h.sheetEmpty_iff member).mp found)
      have flush : r.flushSpare = ({ r with spare := nullOff } : RegionState C) := by
        simp [RegionState.flushSpare, null, isFull]
      have others : ∀ sh ∈ r.tlsf.sheets, ¬v.tlsf.EmptySheet C.tlsf sh := by
        intro sh found empty'
        exact empty (h.onlySpare sh found empty' ▸ empty')
      rw [flush]
      exact ⟨v, ⟨⟨dropped, Or.inl rfl, fun sh found empty' => absurd empty' (others sh found)⟩,
        rfl, rfl, Memory.Within.refl _ _⟩, rfl, (h.busy_of_none others).symm, Or.inl rfl⟩

end Flush

-----------------------------------------------------------------------------------------
-- Acquiring a sheet
-----------------------------------------------------------------------------------------

section Acquire

variable {C : Config} {r r' : RegionState C} {v v' : RegionView} {k l : Live} {x y n : Nat}
  {s : BuddyState C.buddy} {w : BuddyView}

/-- A request that found no block before takes the fresh sheet: the search prefers the bins
that hold only large enough blocks, and the fresh sheet is in one of them.
-/
theorem TlsfView.takes_fresh {T : TlsfParams} {limit limit' m : Nat} {t t' : TlsfState T}
    {v v' : TlsfView} (before : TlsfInv limit t v) (after : TlsfInv limit' t' v')
    (whole : v'.block y = some (.free, T.dataBytes))
    (only : ∀ z b, v'.block z = some b → z = y ∨ v.block z = some b) (positive : 0 < n)
    (small : n ≤ T.smallMax) (none : ¬v.Offers T (TlsfState.adjusted T n))
    (found : v'.block x = some (.free, m))
    (preferred : v'.Preferred T (TlsfState.adjusted T n) m)
    : x = y := by
  obtain ⟨fits, table⟩ := TlsfState.adjusted_small (T := T) positive small
  obtain ⟨_, _, _, large⟩ := TlsfState.adjusted_spec (T := T) positive fits
  have rounded := TlsfState.roundUp_bounds (T := T) large
  have double := T.small_fits.2
  have search : TlsfState.searchBin T (TlsfState.adjusted T n)
      ≤ TlsfState.binOf T T.dataBytes :=
    TlsfState.binOf_mono (by omega) (by omega)
  have high := preferred _ search (List.ne_nil_of_mem (after.mem_bins whole))
  refine (only x _ found).resolve_right (fun old => none ?_)
  exact Or.inl ⟨_, high, List.ne_nil_of_mem (before.mem_bins old)⟩

/-- The region after `small_alloc_slow` has made the buddy block at `x` a sheet. -/
def RegionState.wireSheet (r : RegionState C) (s : BuddyState C.buddy) (x : Nat)
    : RegionState C :=
  let r := (r.setBuddy s).setTlsf ((r.setBuddy s).tlsfState.addSheet x).1
  (r.setBuddy (r.buddyState.markSheet (r.buddy.base + x))).collect .sheetAcquired 0

/-- A new sheet next to the others. -/
theorem RegionCore.fit_cons (h : RegionCore r v)
    (room : Room C.buddy r.buddy.total v.buddy.owned C.sheetOrder x)
    : SheetsFit C.tlsf r.buddy.total (x :: r.tlsf.sheets) := by
  obtain ⟨aligned, fits, apart⟩ := room
  rw [C.orderSize_sheet] at aligned fits
  have positive := C.tlsf.sheet_parts
  refine ⟨h.tlsf.fit.limit_le, ?_, ?_, ?_⟩
  · simpa using ⟨aligned, h.tlsf.fit.dvd⟩
  · simpa using ⟨fits, h.tlsf.fit.end_le⟩
  · refine List.nodup_cons.mpr ⟨fun member => ?_, h.tlsf.fit.nodup⟩
    have := apart x _ (h.sheet_owned member)
    simp only [C.orderSize_sheet] at this
    omega

/-- Where a buddy block has room nothing is owned. -/
theorem Room.not_owned {P : BuddyParams} {total o : Nat} {owned : Nat → Option Tile}
    (room : Room P total owned o x)
    : owned x = none := by
  cases known : owned x with
  | none => rfl
  | some c =>
      have apart := room.2.2 x c known
      have := P.orderSize_pos o
      have := P.orderSize_pos c.2
      omega

/-- Making a granted buddy block a sheet keeps every live block. -/
theorem RegionCore.wireSheet (h : RegionCore r v) (budget : r.tlsf.count < C.tlsf.maxSheets)
    (room : Room C.buddy r.buddy.total v.buddy.owned C.sheetOrder x)
    (step : BuddyStep r.buddyState s w v.buddy.owned
      (Function.update v.buddy.owned x (some (.alloc, C.sheetOrder))))
    : ((r.setBuddy s).tlsfState.addSheet x).2 = true
      ∧ ∃ v', CoreStep r (r.wireSheet s x) v' v.live v.live
        ∧ (r.wireSheet s x).tlsf.sheets = x :: r.tlsf.sheets
        ∧ v'.tlsf.block (x + C.tlsf.dataOff) = some (.free, C.tlsf.dataBytes)
        ∧ ∀ y b, v'.tlsf.block y = some b → y = x + C.tlsf.dataOff ∨ v.tlsf.block y = some b := by
  have sound := h.buddy.rep.geometry
  have geometry : s.toBuddyGeometry = r.buddy.toBuddyGeometry := step.geometry
  have base : s.base = r.buddy.base := congrArg BuddyGeometry.base geometry
  have total : s.total = r.buddy.total := congrArg BuddyGeometry.total geometry
  have fresh : ∀ sh ∈ r.tlsf.sheets, sh ≠ x := by
    rintro sh member rfl
    exact absurd room.not_owned (by rw [h.sheet_owned member]; simp)
  have live : r.tlsf.rbase ≠ 0 := by
    have := sound.base_pos
    have same := h.base
    change 0 < r.buddy.base at this
    omega
  -- the buddy list writes while it grants the block
  have tlsf := h.tlsf.buddy_write sound h.base rfl
    (fun sh member => ⟨_, h.sheet_owned member⟩) step.within
  obtain ⟨u, added, tlsf', rbase, sheets, granted, whole, only, within⟩ :=
    tlsf.addSheet (h.fit_cons room) budget live
  have owned : ∀ sh ∈ x :: r.tlsf.sheets, ∃ k, w.owned sh = some (k, C.sheetOrder) := by
    intro sh member
    rw [step.owned_eq]
    rcases List.mem_cons.mp member with rfl | old
    · exact ⟨_, Function.update_self ..⟩
    · rw [Function.update_of_ne (fresh sh old)]
      exact ⟨_, h.sheet_owned old⟩
  -- the small-block allocator lays the sheet out
  have buddy := step.inv.tlsf_write (h.base.trans base.symm) owned within
  have known : w.owned x = some (.alloc, C.sheetOrder) := by
    rw [step.owned_eq]
    exact Function.update_self ..
  have mark := buddy.markSheet (ownedOf_eq_some.mp known).1
  have tlsf'' := tlsf'.buddy_write (g := s.toBuddyGeometry) step.inv.rep.geometry
    (rbase.trans (h.base.trans base.symm)) total.symm
    (fun sh member => owned sh (by rwa [sheets] at member)) mark.within
  have final : (w.setKind x .sheet C.sheetOrder).owned
      = Function.update v.buddy.owned x (some (.sheet, C.sheetOrder)) := by
    rw [mark.owned_eq, step.owned_eq, Function.update_idem]
  have liveEq : Live.of (Function.update v.buddy.owned x (some (.sheet, C.sheetOrder)))
      v.tlsf.granted = v.live :=
    Live.of_other _ _ _ (by rw [room.not_owned]; rfl) rfl
  have inside : ∀ sh ∈ x :: r.tlsf.sheets, sh + C.tlsf.sheet ≤ r.buddy.total :=
    (h.fit_cons room).end_le
  have apart : ∀ y o, v.live.large y = some o → ∀ sh ∈ x :: r.tlsf.sheets,
      y + C.buddy.orderSize o ≤ sh ∨ sh + C.tlsf.sheet ≤ y := by
    intro y o held sh member
    have held := Live.of_large.mp held
    rcases List.mem_cons.mp member with rfl | old
    · have := room.2.2 y _ held
      rwa [C.orderSize_sheet] at this
    · have := h.buddy.owned_apart held (h.sheet_owned old) (fun same => by
        rw [same, h.sheet_owned old] at held
        simp at held)
      simpa only [C.orderSize_sheet] using this
  refine ⟨added, ⟨w.setKind x .sheet C.sheetOrder, u⟩, ⟨⟨h.live, ?_, ?_, ?_, ?_, h.noRollback⟩,
    mark.geometry.trans geometry, ?_, ?_⟩, sheets, whole, only⟩
  · exact mark.inv
  · have : (r.wireSheet s x).buddy.total = r.buddy.total :=
      congrArg BuddyGeometry.total (mark.geometry.trans geometry)
    rw [this]
    exact tlsf''
  · exact rbase.trans (h.base.trans (base.symm.trans (congrArg BuddyGeometry.base
      mark.geometry).symm))
  · intro y o
    rw [show (RegionView.mk (w.setKind x .sheet C.sheetOrder) u).buddy.owned = _ from final,
      show (r.wireSheet s x).tlsf.sheets = x :: r.tlsf.sheets from sheets, List.mem_cons]
    by_cases here : y = x
    · subst here
      simp [eq_comm]
    · rw [Function.update_of_ne here, h.sheets y o]
      simp [here]
  · rw [← liveEq, RegionView.live, final, granted]
  · refine (step.within.mono (fun a loose => ?_)).trans
      ((within.mono (fun a loose => ?_)).trans (mark.within.mono (fun a loose => ?_)))
    · exact loose.region sound (fun y c held => (h.buddy.owned_le held).2)
        (fun y o held => Live.of_large.mp held) (fun y m held => by
          obtain ⟨sh, member, lo, hi⟩ := h.small_inside held
          exact ⟨sh, _, h.sheet_owned member, by omega, by omega⟩)
    · exact loose.region h.base inside apart (fun y m held => held)
    · rw [show (r.buddy.toBuddyGeometry) = s.toBuddyGeometry from geometry.symm]
      refine loose.region step.inv.rep.geometry (fun y c held => (step.inv.owned_le held).2)
        (fun y o held => ?_) (fun y m held => ?_)
      · have held := Live.of_large.mp held
        have ne : y ≠ x := by
          rintro rfl
          rw [room.not_owned] at held
          simp at held
        rw [step.owned_eq, Function.update_of_ne ne]
        exact held
      · obtain ⟨sh, member, lo, hi⟩ := h.small_inside held
        obtain ⟨k, known⟩ := owned sh (List.mem_cons_of_mem _ member)
        exact ⟨sh, k, known, by omega, by omega⟩

end Acquire

-----------------------------------------------------------------------------------------
-- Small requests that need a sheet, and small releases
-----------------------------------------------------------------------------------------

section Small

variable {C : Config} {r : RegionState C} {v : RegionView} {w : TlsfView} {x n m sh : Nat}

/-- A sheet in which a block was granted or kept is not empty, so fewer sheets are empty. -/
theorem TlsfView.EmptySheet.of_grant {T : TlsfParams} {v w : TlsfView}
    (granted : w.granted = Function.update v.granted x (some m)) (none : v.granted x = none)
    (empty : w.EmptySheet T sh)
    : v.EmptySheet T sh := by
  intro y i known
  refine empty y i ?_
  rw [granted, Function.update_of_ne]
  · exact known
  · rintro rfl
    simp [none] at known

/-- Granting from the sheets keeps the rule for the spare. -/
theorem RegionCore.tlsfGrant (h : RegionCore r v) {t : TlsfState C.tlsf}
    (onlySpare : ∀ sh ∈ r.tlsf.sheets, v.tlsf.EmptySheet C.tlsf sh → r.spare = sh
      ∨ (sh ≤ x ∧ x < sh + C.tlsf.sheet))
    (spareSheet : r.spare = nullOff ∨ r.spare ∈ r.tlsf.sheets)
    (none : v.tlsf.granted x = none)
    (step : TlsfStep r.buddy.total r.tlsfState t w v.tlsf.granted
      (Function.update v.tlsf.granted x (some m)))
    : RegionStep r (r.setTlsf t) ⟨v.buddy, w⟩ v.live (v.live.setSmall x (some m)) := by
  have sheets : (r.setTlsf t).tlsf.sheets = r.tlsf.sheets := step.sheets
  refine (h.tlsfStep step).settle ?_ ?_
  · rw [sheets]
    exact spareSheet
  · intro sh member empty
    rw [sheets] at member
    refine (onlySpare sh member (empty.of_grant step.granted_eq none)).resolve_right
      (fun here => ?_)
    exact empty x m (by rw [step.granted_eq, Function.update_self]) here

/-- The end of `small_alloc_slow`, once the sheet at `fresh` is active. -/
def RegionState.serveFresh (r : RegionState C) (fresh n : Nat) : RegionState C × Chunk :=
  let c := r.tlsfState.allocateNarrow C.sheet_narrow n
  let r := r.setTlsf c.1
  if c.2.ptr = 0 then
    let r := r.releaseSheet fresh
    ({ r with rollbacks := r.rollbacks + 1 }, .null)
  else (r, c.2)

theorem RegionState.smallAllocSlow_eq {s : BuddyState C.buddy × Chunk}
    (budget : r.tlsf.count < C.tlsf.maxSheets) (granted : r.buddyState.allocate C.tlsf.sheet = s)
    (ptr : s.2.ptr = s.1.base + x) (live : s.1.base + x ≠ 0)
    (offset : (r.setBuddy s.1).offOf (s.1.base + x) = x)
    (added : ((r.setBuddy s.1).tlsfState.addSheet x).2 = true)
    : r.smallAllocSlow n = (r.wireSheet s.1 x).serveFresh x n := by
  have within : ¬r.tlsf.count ≥ C.tlsf.maxSheets := by omega
  simp only [smallAllocSlow, granted, ptr, offset, added, within, live, if_false,
    Bool.not_true, Bool.false_eq_true]
  rfl

theorem RegionState.offOf_base (r : RegionState C) (inside : x < u32)
    : r.offOf (r.buddy.base + x) = x := by
  rw [offOf, wrapSub_of_le (Nat.le_add_right _ _), Nat.add_sub_cancel_left,
    Nat.mod_eq_of_lt inside]

/-- `small_alloc_slow` for a request that no block of the sheets can serve: a block of a
fresh sheet, or nothing if the sheet budget or the buddy list is exhausted.
-/
theorem RegionInv.smallAllocSlow (h : RegionInv r v) (positive : 0 < n) (small : n ≤ C.classSmall)
    (none : ¬v.tlsf.Offers C.tlsf (TlsfState.adjusted C.tlsf n))
    : (∃ x take v', (r.smallAllocSlow n).2 = ⟨r.buddy.base + x + headerSize, take - headerSize⟩
        ∧ TlsfState.adjusted C.tlsf n ≤ take ∧ take ≤ TlsfState.adjusted C.tlsf n + 16
        ∧ v.tlsf.granted x = Option.none
        ∧ (∃ y, Room C.buddy r.buddy.total v.buddy.owned C.sheetOrder y)
        ∧ RegionStep r (r.smallAllocSlow n).1 v' v.live (v.live.setSmall x (some take)))
      ∨ ((r.smallAllocSlow n).2 = .null
        ∧ (C.tlsf.maxSheets ≤ r.tlsf.count
          ∨ ∀ y, ¬Room C.buddy r.buddy.total v.buddy.owned C.sheetOrder y)
        ∧ ∃ v', RegionStep r (r.smallAllocSlow n).1 v' v.live v.live ∧ v'.tlsf = v.tlsf) := by
  by_cases budget : C.tlsf.maxSheets ≤ r.tlsf.count
  · have same : r.smallAllocSlow n = (r, .null) := by
      simp [RegionState.smallAllocSlow, budget]
    rw [same]
    exact Or.inr ⟨rfl, Or.inl budget, v, h.refl _, rfl⟩
  have sheetPos : 0 < C.tlsf.sheet := by
    have := C.tlsf.sheet_parts
    omega
  have sound := h.buddy.rep.geometry
  have basePos : 0 < r.buddy.base := sound.base_pos
  have keeps : ∀ sh ∈ r.tlsf.sheets, v.buddy.owned sh = some (.sheet, C.sheetOrder) :=
    fun sh member => h.sheet_owned member
  rcases h.buddy.allocate sheetPos with ⟨x, w, block, room, step⟩ | ⟨null, full, w, step⟩
  · rw [C.orderForSize_sheet] at room step
    have base : (r.buddyState.allocate C.tlsf.sheet).1.base = r.buddy.base :=
      congrArg BuddyGeometry.base step.geometry
    have small32 : x < u32 := by
      have inside := room.2.1
      have most := sound.total_le
      have cap : BuddyParams.maxTotal = 4294967280 := rfl
      have : u32 = 4294967296 := rfl
      have := C.buddy.orderSize_pos C.sheetOrder
      omega
    have budget' : r.tlsf.count < C.tlsf.maxSheets := by omega
    obtain ⟨added, u, wired, sheets, whole, only⟩ := h.toRegionCore.wireSheet budget' room step
    have slow := RegionState.smallAllocSlow_eq (n := n) budget' rfl
      (by rw [block, base]; rfl) (by omega) (RegionState.offOf_base _ small32) added
    obtain ⟨fits, _⟩ := TlsfState.adjusted_small (T := C.tlsf) positive small
    rcases wired.core.tlsf.allocate (TlsfState.allocate_narrow _ C.sheet_narrow n) with
        ⟨z, y, take, chunk, _, _, least, most, ⟨i, found, _, preferred⟩, unused, granted⟩
        | ⟨refused, reason⟩
    · have here : y = x + C.tlsf.dataOff :=
        TlsfView.takes_fresh h.tlsf wired.core.tlsf whole only positive small none found preferred
      have parts := C.tlsf.sheet_parts
      have spare : (r.wireSheet (r.buddyState.allocate C.tlsf.sheet).1 x).spare = r.spare := rfl
      generalize r.wireSheet (r.buddyState.allocate C.tlsf.sheet).1 x = r' at *
      have base : r'.tlsf.rbase = r.buddy.base :=
        wired.core.base.trans (congrArg BuddyGeometry.base wired.geometry)
      have live : ¬(r'.tlsfState.allocateNarrow C.sheet_narrow n).2.ptr = 0 := by
        rw [chunk]
        change r'.tlsf.rbase + y + 16 ≠ 0
        omega
      rw [slow, RegionState.serveFresh]
      simp only [live, if_false]
      have granted_eq : u.tlsf.granted = v.tlsf.granted := congrArg Live.small wired.live_eq
      have settled := wired.core.tlsfGrant (t := (r'.tlsfState.allocateNarrow C.sheet_narrow n).1)
        (m := take) (x := y)
        (w := z) ?_ ?_ unused granted
      · refine Or.inl ⟨y, take, ⟨u.buddy, z⟩, ?_, least, most, ?_, ⟨x, room⟩, ?_⟩
        · rw [chunk]
          change Chunk.mk (r'.tlsf.rbase + y + 16) _ = _
          rw [base]
          rfl
        · rw [← granted_eq]
          exact unused
        · have total := wired.trans settled.coreStep
            (by rw [wired.live_eq]; exact Live.Sub.refl _)
          have total := total.settle settled.inv.spareSheet settled.inv.onlySpare
          rwa [wired.live_eq] at total
      · intro sh member empty
        rw [sheets] at member
        rcases List.mem_cons.mp member with rfl | old
        · exact Or.inr ⟨by omega, by omega⟩
        · refine Or.inl (spare.trans (h.onlySpare sh old ?_))
          simpa only [TlsfView.EmptySheet, granted_eq] using empty
      · rw [spare, sheets]
        exact h.spareSheet.imp id (List.mem_cons_of_mem _)
    · exfalso
      rcases reason with zero | unoffered
      · have := (TlsfState.adjusted_spec (T := C.tlsf) positive fits).2.2.2
        omega
      · exact unoffered (wired.core.tlsf.offers_whole whole positive small)
  · rw [C.orderForSize_sheet] at full
    have same :
        r.smallAllocSlow n = (r.setBuddy (r.buddyState.allocate C.tlsf.sheet).1, .null) := by
      have ptr : (r.buddyState.allocate C.tlsf.sheet).2.ptr = 0 := by rw [null]; rfl
      simp only [RegionState.smallAllocSlow, ptr, ge_iff_le, budget, if_false, if_true]
    rw [same]
    refine Or.inr ⟨rfl, Or.inr full, ⟨w, v.tlsf⟩, ?_, rfl⟩
    exact (h.toRegionCore.buddyStep step (fun _ _ known => known) keeps h.sheets).settle
      h.spareSheet h.onlySpare

/-- Which sheets are empty after a release: the ones from before, or the block's own. -/
theorem TlsfView.EmptySheet.of_release {T : TlsfParams} {v w : TlsfView} {y : Nat}
    (granted : w.granted = Function.update v.granted x none) (empty : w.EmptySheet T y)
    : (y ≤ x ∧ x < y + T.sheet) ∨ v.EmptySheet T y := by
  refine or_iff_not_imp_left.mpr (fun outside z i known => ?_)
  by_cases here : z = x
  · exact here ▸ outside
  · exact empty z i (by rw [granted, Function.update_of_ne here]; exact known)

/-- `__sheet_emptied` restores the rule for the spare after the sheet at `sh` got empty. -/
theorem RegionCore.sheetEmptied (h : RegionCore r v) (member : sh ∈ r.tlsf.sheets)
    (empty : v.tlsf.EmptySheet C.tlsf sh) (ne : sh ≠ r.spare)
    (spareSheet : r.spare = nullOff ∨ r.spare ∈ r.tlsf.sheets)
    (onlySpare : ∀ y ∈ r.tlsf.sheets, v.tlsf.EmptySheet C.tlsf y → y = sh ∨ r.spare = y)
    : ∃ v', RegionStep r (r.sheetEmptied sh) v' v.live v.live := by
  by_cases keep : r.spare = nullOff ∨ r.tlsfState.sheetEmpty r.spare = false
  · have same : r.sheetEmptied sh = ({ r with spare := sh } : RegionState C) := by
      have chosen : (decide (r.spare = nullOff) || !r.tlsfState.sheetEmpty r.spare) = true := by
        rcases keep with null | full
        · simp [null]
        · simp [full]
      simp only [RegionState.sheetEmptied, chosen, if_true]
    rw [same]
    refine ⟨v, ⟨⟨h.setSpare sh, Or.inr member, fun y found empty' => ?_⟩, rfl, rfl,
      Memory.Within.refl _ _⟩⟩
    refine ((onlySpare y found empty').resolve_right (fun spare => ?_)).symm
    rcases keep with null | full
    · exact (h.sheet_lt found).2.2.2 (spare.symm.trans null)
    · rw [spare, (h.sheetEmpty_iff found).mpr empty'] at full
      cases full
  · obtain ⟨notNull, notFull⟩ := not_or.mp keep
    have isEmpty : r.tlsfState.sheetEmpty r.spare = true := by simpa using notFull
    have same : r.sheetEmptied sh = r.releaseSheet sh := by
      simp [RegionState.sheetEmptied, notNull, isEmpty]
    rw [same]
    obtain ⟨v', step, sheets, _, spare⟩ := h.releaseSheet member empty
    rw [if_neg (Ne.symm ne)] at spare
    have granted : v'.tlsf.granted = v.tlsf.granted := congrArg Live.small step.live_eq
    refine ⟨v', step.settle ?_ ?_⟩
    · rw [spare, sheets]
      exact Or.inr (h.tlsf.fit.nodup.mem_erase_iff.mpr
        ⟨Ne.symm ne, spareSheet.resolve_left notNull⟩)
    · intro y found empty'
      rw [sheets] at found
      obtain ⟨other, found⟩ := h.tlsf.fit.nodup.mem_erase_iff.mp found
      rw [spare]
      refine (onlySpare y found ?_).resolve_left other
      simpa only [TlsfView.EmptySheet, granted] using empty'

/-- Releasing a small block: an emptied sheet becomes the spare or goes back. -/
theorem RegionInv.smallFree (h : RegionInv r v) (known : v.tlsf.granted x = some n)
    : ∃ v', RegionStep r (r.smallFree x) v' (v.live.setSmall x none)
        (v.live.setSmall x none) := by
  obtain ⟨w, step, result⟩ := h.tlsf.deallocate known
  obtain ⟨sh, member, lo, hi⟩ := h.small_inside known
  have parts := C.tlsf.sheet_parts
  have size := (h.tlsf.granted_block known).2.2.1
  have rounded := (sheetOf_eq (h.sheet_lt member).1 (show sh ≤ x by omega) (by omega)).1
  rw [rounded] at result
  have core := h.tlsfStep step
  have sheets : (r.setTlsf (r.tlsfState.deallocate x).1).tlsf.sheets = r.tlsf.sheets := step.sheets
  have emptied : ∀ y ∈ r.tlsf.sheets, w.EmptySheet C.tlsf y → y = sh ∨ r.spare = y := by
    intro y found empty
    rcases empty.of_release step.granted_eq with here | before
    · exact Or.inl (h.tlsf.fit.apart found member here.1 here.2 (by omega) (by omega))
    · exact Or.inr (h.onlySpare y found before)
  have spareSheet : r.spare = nullOff ∨ r.spare
      ∈ (r.setTlsf (r.tlsfState.deallocate x).1).tlsf.sheets := by
    rw [sheets]
    exact h.spareSheet
  have shown := core.core.sheetEmpty_iff (sheets ▸ member)
  by_cases empty : w.EmptySheet C.tlsf sh
  · rw [show (r.tlsfState.deallocate x).1.sheetEmpty sh = true from shown.mpr empty,
      if_pos rfl] at result
    have notNull := (h.sheet_lt member).2.2.2
    by_cases spare : sh = r.spare
    · have same : r.smallFree x = r.setTlsf (r.tlsfState.deallocate x).1 := by
        simp only [RegionState.smallFree, result]
        exact if_neg (by simp [← spare, RegionState.setTlsf])
      rw [same]
      refine ⟨_, core.settle spareSheet (fun y found empty' => ?_)⟩
      rcases emptied y (sheets ▸ found) empty' with rfl | old
      · exact spare.symm
      · exact old
    · have same : r.smallFree x = (r.setTlsf (r.tlsfState.deallocate x).1).sheetEmptied sh := by
        simp only [RegionState.smallFree, result]
        exact if_pos (by simp [notNull, RegionState.setTlsf, spare])
      rw [same]
      obtain ⟨v', later⟩ := core.core.sheetEmptied (sheets ▸ member) empty spare spareSheet
        (fun y found empty' => emptied y (sheets ▸ found) empty')
      rw [core.live_eq] at later
      exact ⟨v', (core.trans later.coreStep (Live.Sub.refl _)).settle later.inv.spareSheet
        later.inv.onlySpare⟩
  · have full : (r.tlsfState.deallocate x).1.sheetEmpty sh = false := by
      rw [Bool.eq_false_iff]
      exact fun found => empty (shown.mp found)
    rw [full, if_neg (by simp)] at result
    have same : r.smallFree x = r.setTlsf (r.tlsfState.deallocate x).1 := by
      simp only [RegionState.smallFree, result]
      exact if_neg (by simp)
    rw [same]
    refine ⟨_, core.settle spareSheet (fun y found empty' => ?_)⟩
    exact (emptied y (sheets ▸ found) empty').resolve_left (fun here => empty (here ▸ empty'))

end Small

end Bbmalloc
