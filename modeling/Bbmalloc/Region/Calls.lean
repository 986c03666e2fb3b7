import Bbmalloc.Region.Sheets

/-! The calls that the heap makes on a region. An allocation grants a block that was in no
use or declines, and a region that declines serves the same requests as before.
-/

namespace Bbmalloc

open Bbmalloc.Foundations

-----------------------------------------------------------------------------------------
-- Outcomes of an allocation
-----------------------------------------------------------------------------------------

/-- A request of `n` bytes can be served: by the buddy list once the order cache and the
spare sheet are flushed, or by a block of the sheets.
-/
def RegionView.Serves (C : Config) (total : Nat) (v : RegionView) (n : Nat) : Prop :=
  (∃ x, Room C.buddy total (v.busy C.tlsf) (C.buddy.orderForSize n) x)
  ∨ (n ≤ C.classSmall ∧ v.tlsf.Offers C.tlsf (TlsfState.adjusted C.tlsf n))

/-- The call granted a block: a small one for `n` bytes, or a buddy block of order `o`. -/
inductive Granted {C : Config} (r : RegionState C) (v : RegionView) (n o : Nat)
    (c : RegionState C × Chunk)
    : Prop where
  | small {x take : Nat} {v' : RegionView}
      (chunk : c.2 = ⟨r.buddy.base + x + headerSize, take - headerSize⟩)
      (request : 0 < n ∧ n ≤ C.classSmall) (serves : v.Serves C r.buddy.total n)
      (least : TlsfState.adjusted C.tlsf n ≤ take)
      (most : take ≤ TlsfState.adjusted C.tlsf n + 16) (unused : v.live.small x = none)
      (step : RegionStep r c.1 v' v.live (v.live.setSmall x (some take)))
  | large {x : Nat} {v' : RegionView}
      (chunk : c.2 = ⟨r.buddy.base + x, C.buddy.orderSize o⟩)
      (room : Room C.buddy r.buddy.total (v.busy C.tlsf) o x)
      (step : RegionStep r c.1 v' v.live (v.live.setLarge x (some o)))

/-- Room among the owned blocks is room when empty sheets are not counted. -/
theorem Room.busy {P : BuddyParams} {total o x : Nat} {v : RegionView} {T : TlsfParams}
    (room : Room P total v.buddy.owned o x)
    : Room P total (v.busy T) o x :=
  ⟨room.1, room.2.1, fun y b known => room.2.2 y b (RegionView.busy_eq_some.mp known).1⟩

/-- The region keeps its live blocks and serves the same requests as before. -/
structure Unchanged {C : Config} (r : RegionState C) (v : RegionView) (r' : RegionState C)
    (v' : RegionView)
    : Prop where
  step : RegionStep r r' v' v.live v.live
  serves : ∀ n, 0 < n → (v'.Serves C r.buddy.total n ↔ v.Serves C r.buddy.total n)

section Outcomes

variable {C : Config} {r r' r'' : RegionState C} {v v' v'' : RegionView} {n o x : Nat}
  {c : RegionState C × Chunk}

theorem RegionStep.total_eq {kept live : Live} (step : RegionStep r r' v' kept live)
    : r'.buddy.total = r.buddy.total :=
  congrArg BuddyGeometry.total step.geometry

theorem RegionStep.base_eq {kept live : Live} (step : RegionStep r r' v' kept live)
    : r'.buddy.base = r.buddy.base :=
  congrArg BuddyGeometry.base step.geometry

theorem Unchanged.refl (h : RegionInv r v) : Unchanged r v r v :=
  ⟨h.refl _, fun _ _ => Iff.rfl⟩

theorem Unchanged.trans (first : Unchanged r v r' v') (second : Unchanged r' v' r'' v'')
    : Unchanged r v r'' v'' := by
  have later := second.step
  rw [first.step.live_eq] at later
  refine ⟨first.step.trans later (Live.Sub.refl _), fun n positive => ?_⟩
  have same := second.serves n positive
  rw [first.step.total_eq] at same
  exact same.trans (first.serves n positive)

/-- A sheet with a live block is found from the block, so the owned blocks that are no empty
sheet depend on the live blocks only.
-/
theorem RegionCore.busy_iff (h : RegionCore r v) {c : Tile}
    : v.busy C.tlsf x = some c
      ↔ (∃ o, c = (.alloc, o) ∧ v.live.large x = some o)
        ∨ (c = (.sheet, C.sheetOrder) ∧ C.tlsf.sheet ∣ x
          ∧ ∃ y n, v.live.small y = some n ∧ x ≤ y ∧ y < x + C.tlsf.sheet) := by
  have busy : ¬v.tlsf.EmptySheet C.tlsf x
      ↔ ∃ y n, v.live.small y = some n ∧ x ≤ y ∧ y < x + C.tlsf.sheet := by
    simp only [TlsfView.EmptySheet, not_forall, not_not, exists_prop]
    rfl
  rw [RegionView.busy_eq_some]
  constructor
  · rintro ⟨known, full⟩
    obtain ⟨k, o⟩ := c
    have kind := (ownedOf_eq_some.mp known).2
    cases k with
    | alloc => exact Or.inl ⟨o, rfl, Live.of_large.mpr known⟩
    | sheet =>
        obtain ⟨member, rfl⟩ := (h.sheets x o).mp known
        exact Or.inr ⟨rfl, (h.sheet_lt member).1, busy.mp (fun empty => full ⟨rfl, empty⟩)⟩
    | free => cases kind
    | cached => cases kind
    | held => cases kind
  · rintro (⟨o, rfl, held⟩ | ⟨rfl, aligned, y, n, held, lo, hi⟩)
    · exact ⟨Live.of_large.mp held, by simp⟩
    · obtain ⟨sh, member, start, stop⟩ := h.small_inside held
      have positive := (h.tlsf.granted_block held).2.2.1
      have here : sh = x := by
        have first := (sheetOf_eq (h.sheet_lt member).1 (show sh ≤ y by omega) (by omega)).1
        have second := (sheetOf_eq aligned lo hi).1
        exact first.symm.trans second
      subst here
      exact ⟨h.sheet_owned member, fun empty => busy.mpr ⟨y, n, held, lo, hi⟩ empty.2⟩

/-- Equal live blocks leave equal room. -/
theorem RegionCore.busy_congr (h : RegionCore r v) (h' : RegionCore r' v')
    (live : v'.live = v.live)
    : v'.busy C.tlsf = v.busy C.tlsf := by
  funext x
  refine Option.ext (fun c => ?_)
  rw [h'.busy_iff, h.busy_iff, live]

/-- A step that keeps the live blocks and the sheets changes no answer. -/
theorem RegionStep.unchanged (h : RegionInv r v) (step : RegionStep r r' v' v.live v.live)
    (tlsf : v'.tlsf = v.tlsf)
    : Unchanged r v r' v' := by
  refine ⟨step, fun n _ => ?_⟩
  rw [RegionView.Serves, RegionView.Serves, tlsf,
    h.toRegionCore.busy_congr step.inv.toRegionCore step.live_eq]

/-- Empty sheets are room for every small request. -/
theorem RegionInv.room_of_empty (h : RegionInv r v) {sh : Nat} (member : sh ∈ r.tlsf.sheets)
    (empty : v.tlsf.EmptySheet C.tlsf sh) (positive : 0 < n) (small : n ≤ C.classSmall)
    : Room C.buddy r.buddy.total (v.busy C.tlsf) (C.buddy.orderForSize n) sh := by
  have fits := h.sheet_lt member
  have whole : Room C.buddy r.buddy.total (v.busy C.tlsf) C.sheetOrder sh := by
    refine ⟨?_, ?_, fun y c known => ?_⟩
    · rw [C.orderSize_sheet]
      exact fits.1
    · rw [C.orderSize_sheet]
      exact fits.2.1
    · obtain ⟨known, busy⟩ := RegionView.busy_eq_some.mp known
      have apart := h.buddy.owned_apart known (h.sheet_owned member) (fun same => by
        subst same
        rw [h.sheet_owned member] at known
        obtain rfl := Option.some.inj known
        exact busy ⟨rfl, empty⟩)
      exact apart
  refine whole.mono ((C.buddy.orderForSize_le positive).mpr ?_)
  have := C.small_in_sheet
  have : C.classSmall = C.tlsf.smallMax := rfl
  rw [C.orderSize_sheet]
  omega

/-- Flushing the spare changes no answer: an empty sheet served the small requests, and its
buddy block serves them afterwards.
-/
theorem RegionInv.flushSpare_unchanged (h : RegionInv r v)
    : ∃ v', Unchanged r v r.flushSpare v' ∧ r.flushSpare.spare = nullOff
        ∧ v'.buddy.owned = v.busy C.tlsf := by
  obtain ⟨v', step, null, owned, sheets⟩ := h.flushSpare
  refine ⟨v', ⟨step, fun n positive => ?_⟩, null, owned⟩
  have busy := h.toRegionCore.busy_congr step.inv.toRegionCore step.live_eq
  rcases sheets with same | ⟨sh, member, empty⟩
  · rw [RegionView.Serves, RegionView.Serves, busy, same]
  · rw [RegionView.Serves, RegionView.Serves, busy]
    by_cases small : n ≤ C.classSmall
    · have room := h.room_of_empty member empty positive small
      exact iff_of_true (Or.inl ⟨sh, room⟩) (Or.inl ⟨sh, room⟩)
    · simp [small]

end Outcomes

-----------------------------------------------------------------------------------------
-- Allocation calls
-----------------------------------------------------------------------------------------

section Allocation

variable {C : Config} {r r' : RegionState C} {v v' : RegionView} {n o a : Nat}
  {c : RegionState C × Chunk}

/-- The call returned null and the region is unchanged. -/
def Declined (r : RegionState C) (v : RegionView) (c : RegionState C × Chunk) : Prop :=
  c.2 = .null ∧ ∃ v', Unchanged r v c.1 v'

/-- A grant after a change that no client sees is a grant. -/
theorem Unchanged.granted (h : RegionInv r v) (quiet : Unchanged r v r' v')
    (granted : Granted r' v' n o c)
    : Granted r v n o c := by
  have busy := h.toRegionCore.busy_congr quiet.step.inv.toRegionCore quiet.step.live_eq
  cases granted with
  | small chunk request serves least most unused step =>
      rw [quiet.step.live_eq] at unused step
      rw [quiet.step.base_eq] at chunk
      exact .small chunk request (by
        rw [quiet.step.total_eq] at serves
        exact (quiet.serves n request.1).mp serves) least most unused
        (quiet.step.trans step (Live.Sub.refl _))
  | large chunk room step =>
      rw [quiet.step.live_eq] at step
      rw [quiet.step.base_eq] at chunk
      rw [quiet.step.total_eq, busy] at room
      exact .large chunk room (quiet.step.trans step (Live.Sub.refl _))

theorem Unchanged.declined (quiet : Unchanged r v r' v') (declined : Declined r' v' c)
    : Declined r v c := by
  obtain ⟨null, v'', later⟩ := declined
  exact ⟨null, v'', quiet.trans later⟩

/-- A granted block is not null. -/
theorem Granted.live (h : RegionInv r v) (granted : Granted r v n o c) : ¬c.2.ptr = 0 := by
  have positive := h.buddy.rep.geometry.base_pos
  change 0 < r.buddy.base at positive
  cases granted with
  | small chunk => rw [chunk]; change ¬r.buddy.base + _ + _ = 0; omega
  | large chunk => rw [chunk]; change ¬r.buddy.base + _ = 0; omega

/-- Every block is aligned to 16 bytes. -/
theorem Granted.native (h : RegionInv r v) (granted : Granted r v n o c)
    : nativeAlignment ∣ c.2.ptr := by
  have sound := h.buddy.rep.geometry
  obtain ⟨k, align, kLarge⟩ := sound.align_eq
  have large := C.min_block_large
  have unit : nativeAlignment = 2 ^ 4 := rfl
  have base : nativeAlignment ∣ r.buddy.base := by
    refine dvd_trans ?_ sound.aligned
    rw [align, unit]
    exact pow_dvd_pow 2 (by omega)
  cases granted with
  | @small x take w chunk request serves least most unused step =>
      have block : w.live.small x = some take := by
        rw [step.live_eq]
        simp [Live.setSmall]
      have shape := (step.inv.tlsf.granted_block block).1
      rw [chunk]
      exact Nat.dvd_add (Nat.dvd_add base shape) (dvd_refl 16)
  | @large x w chunk room step =>
      rw [chunk]
      refine Nat.dvd_add base (dvd_trans ?_ room.1)
      rw [C.buddy.orderSize_eq, unit]
      exact pow_dvd_pow 2 (by omega)

/-- Every base is aligned to 16 bytes. -/
theorem RegionInv.native_le (h : RegionInv r v) : nativeAlignment ≤ r.buddy.baseAlign := by
  obtain ⟨k, align, kLarge⟩ := h.buddy.rep.geometry.align_eq
  have large := C.min_block_large
  change r.buddy.baseAlign = 2 ^ k at align
  rw [align, show nativeAlignment = 2 ^ 4 from rfl]
  exact Nat.pow_le_pow_right (by omega) (by omega)

theorem Declined.null (declined : Declined r v c) : c.2.ptr = 0 := by
  rw [declined.1]
  rfl

/-- `tlsf.allocate` of no bytes does nothing. -/
theorem RegionState.tlsfAlloc_zero (r : RegionState C) : r.tlsfAlloc 0 = (r, .null) := by
  have zero : TlsfState.adjusted C.tlsf 0 = 0 := TlsfState.adjusted_eq_zero.mpr (Or.inl rfl)
  have done := r.tlsfState.allocate_narrow C.sheet_narrow 0
  rw [TlsfState.allocate, if_pos zero] at done
  rw [RegionState.tlsfAlloc, ← Option.some.inj done]
  rfl

/-- `tlsf.allocate` grants a block if the sheets offer one, and else does nothing. -/
theorem RegionInv.tlsfAlloc (h : RegionInv r v) (positive : 0 < n) (small : n ≤ C.classSmall)
    (o : Nat)
    : Granted r v n o (r.tlsfAlloc n)
      ∨ (r.tlsfAlloc n = (r, .null) ∧ ¬v.tlsf.Offers C.tlsf (TlsfState.adjusted C.tlsf n)) := by
  rcases h.tlsf.allocate (r.tlsfState.allocate_narrow C.sheet_narrow n) with
      ⟨w, x, take, chunk, _, offers, least, most, _, unused, step⟩ | ⟨refused, reason⟩
  · have grant := h.toRegionCore.tlsfGrant
      (fun sh member empty => Or.inl (h.onlySpare sh member empty)) h.spareSheet unused step
    refine Or.inl (.small ?_ ⟨positive, small⟩ (Or.inr ⟨small, offers⟩) least most unused grant)
    change (r.tlsfState.allocateNarrow C.sheet_narrow n).2 = _
    rw [chunk, show r.tlsfState.rbase = r.buddy.base from h.base]
    rfl
  · refine Or.inr ⟨?_, reason.resolve_left ?_⟩
    · simp only [RegionState.tlsfAlloc, refused]
      rfl
    · have fits := (TlsfState.adjusted_small (T := C.tlsf) positive small).1
      have := (TlsfState.adjusted_spec (T := C.tlsf) positive fits).2.2.2
      omega

/-- `__allocate_order` of the region's buddy list. -/
def RegionState.orderAlloc (r : RegionState C) (o : Nat) : RegionState C × Chunk :=
  let c := r.buddyState.allocateOrder o
  (r.setBuddy c.1, c.2)

theorem RegionState.buddyAlloc_eq (r : RegionState C) (positive : 0 < n)
    : r.buddyAlloc n = r.orderAlloc (C.buddy.orderForSize n) := by
  have : n ≠ 0 := by omega
  simp only [buddyAlloc, BuddyState.allocate, this, if_false, orderAlloc]

theorem RegionInv.orderAlloc (h : RegionInv r v) (n o : Nat)
    : Granted r v n o (r.orderAlloc o)
      ∨ ((r.orderAlloc o).2 = .null
        ∧ (∀ x, ¬Room C.buddy r.buddy.total v.buddy.owned o x)
        ∧ (r.orderAlloc o).1.spare = r.spare
        ∧ ∃ v', Unchanged r v (r.orderAlloc o).1 v' ∧ v'.buddy.owned = v.buddy.owned) := by
  have keeps : ∀ sh ∈ r.tlsf.sheets, v.buddy.owned sh = some (.sheet, C.sheetOrder) :=
    fun sh member => h.sheet_owned member
  obtain ⟨w, ⟨x, chunk, room, step⟩ | ⟨null, full, step⟩⟩ := h.buddy.allocateOrder o
  · have sheets := (h.toRegionCore.sheets_update (x := x) (c := some (.alloc, o))
      (fun i => by rw [room.not_owned]; simp) (by simp)).1
    have core := h.toRegionCore.buddyStep step (fun _ _ known => known) keeps sheets
    rw [Live.of_alloc] at core
    refine Or.inl (.large chunk ?_ (core.settle h.spareSheet h.onlySpare))
    refine ⟨room.1, room.2.1, fun y b known => room.2.2 y b ?_⟩
    exact (RegionView.busy_eq_some.mp known).1
  · have core := h.toRegionCore.buddyStep step (fun _ _ known => known) keeps h.sheets
    have settled := core.settle h.spareSheet h.onlySpare
    refine Or.inr ⟨null, full, rfl, _, settled.unchanged h rfl, step.owned_eq⟩

/-- Flushing the spare and trying again finds room in the empty sheet, too. -/
theorem RegionInv.flushAlloc (h : RegionInv r v) (n o : Nat)
    : Granted r v n o (r.flushSpare.orderAlloc o)
      ∨ (Declined r v (r.flushSpare.orderAlloc o)
        ∧ ∀ x, ¬Room C.buddy r.buddy.total (v.busy C.tlsf) o x) := by
  obtain ⟨v', quiet, _, owned⟩ := h.flushSpare_unchanged
  rcases quiet.step.inv.orderAlloc n o with granted | ⟨null, full, _, v'', later, _⟩
  · exact Or.inl (quiet.granted h granted)
  · rw [owned, quiet.step.total_eq] at full
    exact Or.inr ⟨quiet.declined ⟨null, v'', later⟩, full⟩

/-- An order that the region cannot have leaves no room. -/
theorem RegionInv.no_room (h : RegionInv r v) {owned : Nat → Option Tile}
    (high : r.buddy.maxOrder ≤ o) (x : Nat)
    : ¬Room C.buddy r.buddy.total owned o x := by
  intro room
  have := Room.order_lt (s := r.buddyState) h.buddy.rep.geometry room
  change o < r.buddy.maxOrder at this
  omega

/-- With a null spare the whole room is known. -/
theorem RegionInv.busy_of_null (h : RegionInv r v) (null : r.spare = nullOff)
    : v.busy C.tlsf = v.buddy.owned :=
  h.toRegionCore.busy_of_none (h.none_empty null)

theorem RegionInv.largeAllocSlow (h : RegionInv r v) (positive : 0 < n)
    : Granted r v n (C.buddy.orderForSize n) (r.largeAllocSlow n)
      ∨ (Declined r v (r.largeAllocSlow n)
        ∧ ((∀ x, ¬Room C.buddy r.buddy.total v.buddy.owned (C.buddy.orderForSize n) x) →
          ∀ x, ¬Room C.buddy r.buddy.total (v.busy C.tlsf) (C.buddy.orderForSize n) x)) := by
  have quiet : Declined r v (r, .null) := ⟨rfl, v, .refl h⟩
  by_cases null : r.spare = nullOff
  · have same : r.largeAllocSlow n = (r, .null) := by
      simp [RegionState.largeAllocSlow, null]
    rw [same, h.busy_of_null null]
    exact Or.inr ⟨quiet, fun full => full⟩
  by_cases servable : r.buddyState.servable n = true
  · have same : r.largeAllocSlow n = r.flushSpare.orderAlloc (C.buddy.orderForSize n) := by
      simp only [RegionState.largeAllocSlow, null, servable, decide_false, Bool.not_true,
        Bool.or_false, Bool.false_eq_true, if_false, RegionState.buddyAlloc_eq _ positive]
    rw [same]
    exact (h.flushAlloc n _).imp id (fun declined => ⟨declined.1, fun _ => declined.2⟩)
  · have same : r.largeAllocSlow n = (r, .null) := by
      simp [RegionState.largeAllocSlow, servable]
    rw [same]
    have base : r.buddyState.base ≠ 0 := by
      have := h.buddy.rep.geometry.base_pos
      omega
    have nonzero : n ≠ 0 := by omega
    have high : r.buddyState.maxOrder ≤ C.buddy.orderForSize n := by
      simpa [BuddyState.servable, base, nonzero] using servable
    exact Or.inr ⟨quiet, fun _ x => h.no_room high x⟩

/-- `large_alloc` grants a buddy block exactly if there is room for one, empty sheets and the
order cache counted in.
-/
theorem RegionInv.largeAlloc (h : RegionInv r v) (positive : 0 < n)
    : Granted r v n (C.buddy.orderForSize n) (r.largeAlloc n)
      ∨ (Declined r v (r.largeAlloc n)
        ∧ ∀ x, ¬Room C.buddy r.buddy.total (v.busy C.tlsf) (C.buddy.orderForSize n) x) := by
  have call : r.largeAlloc n
      = if (r.buddyAlloc n).2.ptr = 0 then (r.buddyAlloc n).1.largeAllocSlow n
        else r.buddyAlloc n := rfl
  rw [call, r.buddyAlloc_eq positive]
  rcases h.orderAlloc n (C.buddy.orderForSize n) with granted | ⟨null, full, _, v', quiet, owned⟩
  · rw [if_neg (granted.live h)]
    exact Or.inl granted
  · rw [if_pos (by rw [null]; rfl)]
    have busy := h.toRegionCore.busy_congr quiet.step.inv.toRegionCore quiet.step.live_eq
    rcases quiet.step.inv.largeAllocSlow positive with granted | ⟨declined, complete⟩
    · exact Or.inl (quiet.granted h granted)
    · rw [owned, quiet.step.total_eq, busy] at complete
      exact Or.inr ⟨quiet.declined declined, complete full⟩

theorem RegionInv.smallAllocSlow_outcome (h : RegionInv r v) (positive : 0 < n)
    (small : n ≤ C.classSmall)
    (none : ¬v.tlsf.Offers C.tlsf (TlsfState.adjusted C.tlsf n)) (o : Nat)
    : Granted r v n o (r.smallAllocSlow n) ∨ Declined r v (r.smallAllocSlow n) := by
  rcases h.smallAllocSlow positive small none with
      ⟨x, take, v', chunk, least, most, unused, ⟨y, room⟩, step⟩ | ⟨null, _, v', step, same⟩
  · have fits : n ≤ C.buddy.orderSize C.sheetOrder := by
      have := C.small_in_sheet
      have : C.classSmall = C.tlsf.smallMax := rfl
      rw [C.orderSize_sheet]
      omega
    have free := (room.busy (T := C.tlsf)).mono ((C.buddy.orderForSize_le positive).mpr fits)
    exact Or.inl (.small chunk ⟨positive, small⟩ (Or.inl ⟨y, free⟩) least most unused step)
  · exact Or.inr ⟨null, v', step.unchanged h same⟩

/-- `small_alloc` declines only if the sheets offer no block. -/
theorem RegionInv.smallAlloc (h : RegionInv r v) (positive : 0 < n) (small : n ≤ C.classSmall)
    (o : Nat)
    : Granted r v n o (r.smallAlloc n)
      ∨ (Declined r v (r.smallAlloc n)
        ∧ ¬v.tlsf.Offers C.tlsf (TlsfState.adjusted C.tlsf n)) := by
  have call : r.smallAlloc n
      = if (r.tlsfAlloc n).2.ptr = 0 then (r.tlsfAlloc n).1.smallAllocSlow n
        else r.tlsfAlloc n := rfl
  rw [call]
  rcases h.tlsfAlloc positive small o with granted | ⟨same, none⟩
  · rw [if_neg (granted.live h)]
    exact Or.inl granted
  · rw [same, if_pos (by rfl)]
    exact (h.smallAllocSlow_outcome positive small none o).imp id (fun declined => ⟨declined, none⟩)

/-- `large_alloc_aligned` grants a block of the order for both sizes exactly if the base is
aligned and there is room, empty sheets and the order cache counted in. The block is never a
small one, whatever size `m` those may have.
-/
theorem RegionInv.largeAllocAligned (h : RegionInv r v) (positive : 0 < n) (pow : isPow2 a = true)
    (m : Nat)
    : (a ≤ r.buddy.baseAlign
        ∧ Granted r v m (BuddyState.alignedOrder C.buddy n a) (r.largeAllocAligned n a))
      ∨ (Declined r v (r.largeAllocAligned n a)
        ∧ (r.buddy.baseAlign < a
          ∨ ∀ x, ¬Room C.buddy r.buddy.total (v.busy C.tlsf)
            (BuddyState.alignedOrder C.buddy n a) x)) := by
  have nonzero : n ≠ 0 := by omega
  have attempt : ∀ r' : RegionState C, r'.buddy.baseAlign = r.buddy.baseAlign →
      r'.buddyAllocAligned n a = if r.buddy.baseAlign < a then (r', .null)
        else r'.orderAlloc (BuddyState.alignedOrder C.buddy n a) := by
    intro r' same
    have align : r'.buddyState.baseAlign = r.buddy.baseAlign := same
    simp only [RegionState.buddyAllocAligned, BuddyState.allocateAligned, nonzero, pow, align,
      decide_false, Bool.not_true, Bool.or_false, Bool.false_eq_true, if_false, gt_iff_lt,
      RegionState.orderAlloc]
    split <;> rfl
  have call : r.largeAllocAligned n a
      = if (r.buddyAllocAligned n a).2.ptr = 0 && (r.buddyAllocAligned n a).1.spare ≠ nullOff
            && (r.buddyAllocAligned n a).1.buddyState.servableAligned n a then
          (r.buddyAllocAligned n a).1.flushSpare.buddyAllocAligned n a
        else r.buddyAllocAligned n a := rfl
  rw [call, attempt r rfl]
  have base : ∀ r' : RegionState C, r'.buddy.base = r.buddy.base → r'.buddyState.base ≠ 0 := by
    intro r' same
    have := h.buddy.rep.geometry.base_pos
    change 0 < r.buddy.base at this
    change r'.buddy.base ≠ 0
    omega
  by_cases degraded : r.buddy.baseAlign < a
  · have refused : r.buddyState.servableAligned n a = false := by
      have : r.buddyState.baseAlign < a := degraded
      simp [BuddyState.servableAligned, this]
    simp only [degraded, if_true, refused, Bool.and_false, Bool.false_eq_true, if_false]
    exact Or.inr ⟨⟨rfl, v, .refl h⟩, Or.inl trivial⟩
  simp only [degraded, if_false, false_or]
  rcases h.orderAlloc m (BuddyState.alignedOrder C.buddy n a) with
      granted | ⟨null, full, spare, v', quiet, owned⟩
  · have live := granted.live h
    simp only [live, decide_false, Bool.false_and, Bool.false_eq_true, if_false]
    exact Or.inl ⟨by omega, granted⟩
  · have ptr : (r.orderAlloc (BuddyState.alignedOrder C.buddy n a)).2.ptr = 0 := by rw [null]; rfl
    have busy := h.toRegionCore.busy_congr quiet.step.inv.toRegionCore quiet.step.live_eq
    have align : ∀ {r' : RegionState C} {u : RegionView} {k l : Live}, RegionStep r r' u k l →
        r'.buddy.baseAlign = r.buddy.baseAlign :=
      fun step => congrArg BuddyGeometry.baseAlign step.geometry
    simp only [ptr, decide_true, Bool.true_and]
    generalize r.orderAlloc (BuddyState.alignedOrder C.buddy n a) = c at *
    by_cases retry : c.1.spare ≠ nullOff ∧ c.1.buddyState.servableAligned n a = true
    · rw [if_pos (by simp [retry])]
      obtain ⟨w, flush, _, _⟩ := quiet.step.inv.flushSpare_unchanged
      rw [attempt _ (align (quiet.step.trans flush.step (by
        rw [quiet.step.live_eq]; exact Live.Sub.refl _))), if_neg degraded]
      rcases quiet.step.inv.flushAlloc m (BuddyState.alignedOrder C.buddy n a) with
          granted | ⟨declined, none⟩
      · exact Or.inl ⟨by omega, quiet.granted h granted⟩
      · rw [quiet.step.total_eq, busy] at none
        exact Or.inr ⟨quiet.declined declined, none⟩
    · rw [if_neg (by simpa using retry)]
      refine Or.inr ⟨⟨null, v', quiet⟩, fun x => ?_⟩
      by_cases noSpare : c.1.spare = nullOff
      · rw [← busy, quiet.step.inv.busy_of_null noSpare, owned]
        exact full x
      · have refused : c.1.buddyState.servableAligned n a = false := by
          simpa [noSpare] using retry
        have align' : c.1.buddyState.baseAlign = r.buddy.baseAlign := align quiet.step
        have high : c.1.buddyState.maxOrder ≤ BuddyState.alignedOrder C.buddy n a := by
          simpa [BuddyState.servableAligned, base c.1 quiet.step.base_eq, nonzero, pow, align',
            degraded] using refused
        have order : c.1.buddyState.maxOrder = r.buddy.maxOrder :=
          congrArg BuddyGeometry.maxOrder quiet.step.geometry
        exact h.no_room (order ▸ high) x

end Allocation

end Bbmalloc
