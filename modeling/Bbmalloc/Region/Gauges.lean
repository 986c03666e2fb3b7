import Bbmalloc.Region.Setup

/-! The gauges of a region. `used` is the sum of the live blocks with their headers and the
overhead of the sheets in use, and `largest_free` is the largest request that is served.
-/

namespace Bbmalloc

open Bbmalloc.Foundations

variable {C : Config} {r r' : RegionState C} {v v' : RegionView} {n : Nat}

-----------------------------------------------------------------------------------------
-- The largest free block
-----------------------------------------------------------------------------------------

/-- The buddy gauge of a state with an empty order cache. -/
theorem BuddyInv.largestFree_iff {P : BuddyParams} {b : BuddyState P} {w : BuddyView}
    (h : BuddyInv b w) (positive : 0 < n)
    : n ≤ b.largestFree.2 ↔ ∃ x, Room P b.total w.owned (P.orderForSize n) x := by
  obtain ⟨_, _, _, ⟨zero, none⟩ | ⟨o, value, ⟨x, room⟩, most⟩⟩ := h.largestFree
  · rw [zero]
    refine iff_of_false (by omega) ?_
    rintro ⟨x, room⟩
    exact none _ x room
  · rw [value]
    constructor
    · intro le
      exact ⟨x, room.mono ((P.orderForSize_le positive).mpr le)⟩
    · rintro ⟨y, room'⟩
      exact (P.orderForSize_le positive).mp (most _ y room')

/-- `largest_free` flushes the spare and the order cache, and it reports the largest request
that the region serves.
-/
theorem RegionInv.largestFree (h : RegionInv r v)
    : ∃ v', Unchanged r v r.largestFree.1 v' ∧ r.largestFree.1.spare = nullOff
        ∧ (∀ o, v'.buddy.cached o = []) ∧ v'.buddy.owned = v.busy C.tlsf
        ∧ ∀ n, 0 < n → (n ≤ r.largestFree.2 ↔ v.Serves C r.buddy.total n) := by
  obtain ⟨v₁, quiet, null, owned⟩ := h.flushSpare_unchanged
  have inv := quiet.step.inv
  obtain ⟨w, step, cached, _⟩ := inv.buddy.largestFree
  have core := inv.toRegionCore.buddyStep step (fun _ _ known => known)
    (fun sh member => inv.sheet_owned member) inv.sheets
  have settled := core.settle inv.spareSheet inv.onlySpare
  refine ⟨⟨w, v₁.tlsf⟩, quiet.trans (settled.unchanged inv rfl), null, cached,
    step.owned_eq.trans owned, fun n positive => ?_⟩
  rw [← quiet.serves n positive, RegionView.Serves]
  have busy := h.toRegionCore.busy_congr inv.toRegionCore quiet.step.live_eq
  have buddy := inv.buddy.largestFree_iff positive
  rw [owned, ← busy] at buddy
  rw [show r.flushSpare.buddyState.total = r.buddy.total from quiet.step.total_eq] at buddy
  rw [← buddy]
  set flushed := r.flushSpare.setBuddy r.flushSpare.buddyState.largestFree.1 with flushedEq
  have value : r.largestFree.2
      = (if r.flushSpare.buddyState.largestFree.2
            > (if flushed.tlsfState.largestFree > C.classSmall then C.classSmall
              else flushed.tlsfState.largestFree) then
          r.flushSpare.buddyState.largestFree.2
        else if flushed.tlsfState.largestFree > C.classSmall then C.classSmall
        else flushed.tlsfState.largestFree) := by
    rfl
  have tlsf : n ≤ C.classSmall → (n ≤ flushed.tlsfState.largestFree
      ↔ v₁.tlsf.Offers C.tlsf (TlsfState.adjusted C.tlsf n)) := fun small =>
    settled.inv.tlsf.largestFree_iff positive
      (TlsfState.adjusted_small (T := C.tlsf) positive small).1
  rw [value]
  by_cases small : n ≤ C.classSmall
  · rw [← tlsf small]
    split <;> split <;> omega
  · simp only [small, false_and, or_false]
    split <;> split <;> omega

-----------------------------------------------------------------------------------------
-- Used bytes
-----------------------------------------------------------------------------------------

open Classical in
/-- The sheets that hold a live block. -/
noncomputable def RegionState.fullSheets (r : RegionState C) (v : RegionView) : List Nat :=
  r.tlsf.sheets.filter (fun sh => ¬v.tlsf.EmptySheet C.tlsf sh)

/-- The bytes of the live buddy blocks. -/
def RegionState.largeBytes (r : RegionState C) (v : RegionView) : Nat :=
  blockSum C.buddy.orderSize r.buddy.total v.live.large

/-- The bytes of the live small blocks, headers included. -/
def RegionState.smallBytes (r : RegionState C) (v : RegionView) : Nat :=
  blockSum id r.buddy.total v.live.small

/-- The buddy counter is the sum of the clients' blocks and the sheets. -/
theorem RegionCore.allocatedBytes_eq (h : RegionCore r v)
    : r.buddy.allocatedBytes = r.largeBytes v + r.tlsf.sheets.length * C.tlsf.sheet := by
  classical
  have counter : r.buddy.allocatedBytes
      = blockSum (ownedSize C.buddy) r.buddy.total v.buddy.owned :=
    h.buddy.rep.counter_owned
  have split : ∀ x ∈ Finset.range r.buddy.total, (v.buddy.owned x).elim 0 (ownedSize C.buddy)
      = (v.live.large x).elim 0 C.buddy.orderSize
        + if x ∈ r.tlsf.sheets.toFinset then C.tlsf.sheet else 0 := by
    intro x _
    by_cases sheet : x ∈ r.tlsf.sheets
    · have owned := h.sheet_owned sheet
      have large : v.live.large x = none := by
        rw [RegionView.live, Live.of]
        simp only [owned, clientOrder]
      simp [owned, large, sheet, ownedSize, C.orderSize_sheet]
    · rw [if_neg (by simpa using sheet), Nat.add_zero]
      cases owned : v.buddy.owned x with
      | none =>
          have large : v.live.large x = none := by
            rw [RegionView.live, Live.of]
            simp only [owned, clientOrder]
          simp [large]
      | some c =>
          obtain ⟨k, o⟩ := c
          have kind := (ownedOf_eq_some.mp owned).2
          cases k with
          | alloc =>
              have large : v.live.large x = some o := Live.of_large.mpr owned
              simp [large, ownedSize]
          | sheet => exact absurd ((h.sheets x o).mp owned).1 sheet
          | free => cases kind
          | cached => cases kind
          | held => cases kind
  have inside : r.tlsf.sheets.toFinset ⊆ Finset.range r.buddy.total := by
    intro sh member
    exact Finset.mem_range.mpr (h.sheet_lt (by simpa using member)).2.2.1
  rw [counter, blockSum, Finset.sum_congr rfl split, Finset.sum_add_distrib,
    ← Finset.sum_filter, Finset.filter_mem_eq_inter, Finset.inter_eq_right.mpr inside,
    Finset.sum_const, smul_eq_mul,
    show r.tlsf.sheets.toFinset.card = r.tlsf.sheets.length from
      List.toFinset_card_of_nodup h.tlsf.fit.nodup]
  rfl

/-- At most one sheet is empty, and then it is the spare. -/
theorem RegionInv.fullSheets_length (h : RegionInv r v)
    : r.tlsf.sheets.length = (r.fullSheets v).length
        + if r.spare ≠ nullOff ∧ r.buddyState.isSheetAt r.spare = true
            ∧ r.tlsfState.sheetEmpty r.spare = true then 1 else 0 := by
  classical
  have split : r.tlsf.sheets.length = (r.fullSheets v).length
      + (r.tlsf.sheets.filter (fun sh => v.tlsf.EmptySheet C.tlsf sh)).length := by
    have := List.length_eq_length_filter_add (l := r.tlsf.sheets)
      (fun sh => decide (v.tlsf.EmptySheet C.tlsf sh))
    rw [this, Nat.add_comm, RegionState.fullSheets]
    simp
  rw [split]
  congr 1
  by_cases spare : r.spare ≠ nullOff ∧ r.buddyState.isSheetAt r.spare = true
      ∧ r.tlsfState.sheetEmpty r.spare = true
  · rw [if_pos spare]
    have member := h.spareSheet.resolve_left spare.1
    have empty := (h.sheetEmpty_iff member).mp spare.2.2
    have only : r.tlsf.sheets.filter (fun sh => v.tlsf.EmptySheet C.tlsf sh)
        = r.tlsf.sheets.filter (fun sh => sh == r.spare) := by
      refine List.filter_congr (fun sh found => ?_)
      have : v.tlsf.EmptySheet C.tlsf sh ↔ sh = r.spare :=
        ⟨fun empty' => (h.onlySpare sh found empty').symm, fun same => same ▸ empty⟩
      rw [Bool.eq_iff_iff, decide_eq_true_eq, this, beq_iff_eq]
    rw [only, ← List.countP_eq_length_filter]
    exact List.count_eq_one_of_mem h.tlsf.fit.nodup member
  · rw [if_neg spare, List.length_eq_zero_iff, List.filter_eq_nil_iff]
    intro sh found empty
    have empty : v.tlsf.EmptySheet C.tlsf sh := by simpa using empty
    obtain rfl := h.onlySpare sh found empty
    exact spare ⟨(h.sheet_lt found).2.2.2, h.isSheetAt found, (h.sheetEmpty_iff found).mpr empty⟩

/-- The live small blocks fit in the data spans of the sheets in use. -/
theorem RegionCore.smallBytes_le (h : RegionCore r v)
    : r.smallBytes v ≤ (r.fullSheets v).length * C.tlsf.dataBytes := by
  classical
  set cells := (r.fullSheets v).toFinset.biUnion (fun sh =>
    Finset.Ico (sh + C.tlsf.dataOff) (sh + C.tlsf.dataOff + C.tlsf.dataBytes)) with cellsEq
  have card : cells.card ≤ (r.fullSheets v).length * C.tlsf.dataBytes := by
    refine Finset.card_biUnion_le.trans ?_
    simp only [Nat.card_Ico, Nat.add_sub_cancel_left, Finset.sum_const, smul_eq_mul]
    exact Nat.mul_le_mul_right _ (List.toFinset_card_le _)
  refine le_trans (blockSum_le_card cells ?_ ?_) card
  · intro a b c d first second before
    exact h.tlsf.tiling.apart (TlsfView.granted_eq_some.mp first)
      (TlsfView.granted_eq_some.mp second) before
  · intro a b x found lo hi
    have granted : v.tlsf.granted a = some b := found
    obtain ⟨sh, member, start, stop⟩ := h.small_inside granted
    have parts := C.tlsf.sheet_parts
    have large := (h.tlsf.granted_block granted).2.2.1
    have full : ¬v.tlsf.EmptySheet C.tlsf sh := fun empty =>
      empty a b granted ⟨by omega, by omega⟩
    refine Finset.mem_biUnion.mpr ⟨sh, ?_, ?_⟩
    · simp [RegionState.fullSheets, member, full]
    · simp only [id_eq] at hi
      exact Finset.mem_Ico.mpr ⟨by omega, by omega⟩

/-- `used` is exact, and the subtraction in it never saturates. -/
theorem RegionInv.used_eq (h : RegionInv r v)
    : r.used = r.largeBytes v + r.smallBytes v
          + (r.fullSheets v).length * (C.tlsf.sheet - C.tlsf.dataBytes)
        ∧ r.credit ≤ r.buddy.allocatedBytes ∧ r.used ≤ r.buddy.total := by
  have counter := h.allocatedBytes_eq
  have lengths := h.fullSheets_length
  have fits := h.toRegionCore.smallBytes_le
  have parts := C.tlsf.sheet_parts
  have small : r.tlsf.allocatedBytes = r.smallBytes v := h.tlsf.counter
  have counted : r.tlsf.count = r.tlsf.sheets.length := h.tlsf.counted
  have most : r.buddy.allocatedBytes ≤ r.buddy.total := h.buddy.rep.counter_le
  have creditEq : r.credit = r.tlsf.sheets.length * C.tlsf.dataBytes
      + (if r.spare ≠ nullOff ∧ r.buddyState.isSheetAt r.spare = true
          ∧ r.tlsfState.sheetEmpty r.spare = true then C.tlsf.sheet - C.tlsf.dataBytes else 0) := by
    rw [RegionState.credit, counted]
    by_cases spare : r.spare ≠ nullOff ∧ r.buddyState.isSheetAt r.spare = true
        ∧ r.tlsfState.sheetEmpty r.spare = true
    · rw [if_pos spare]
      exact if_pos (by simpa [and_assoc] using spare)
    · rw [if_neg spare]
      exact if_neg (by simpa [and_assoc] using spare)
  -- One number for each sum, so that what is left is linear in them.
  have usedEq : r.used = (if r.buddy.allocatedBytes < r.credit then 0
      else r.buddy.allocatedBytes - r.credit) + r.tlsf.allocatedBytes := rfl
  rw [usedEq, small]
  clear usedEq
  generalize r.credit = credit at *
  generalize r.smallBytes v = t at *
  generalize r.largeBytes v = b at *
  generalize (r.fullSheets v).length = k at *
  have sheetEq : C.tlsf.sheet = C.tlsf.dataBytes + (C.tlsf.sheet - C.tlsf.dataBytes) := by omega
  generalize C.tlsf.sheet - C.tlsf.dataBytes = gap at *
  generalize C.tlsf.dataBytes = d at *
  rw [lengths] at counter creditEq
  by_cases spare : r.spare ≠ nullOff ∧ r.buddyState.isSheetAt r.spare = true
      ∧ r.tlsfState.sheetEmpty r.spare = true
  · rw [if_pos spare] at counter creditEq
    rw [if_pos spare] at creditEq
    have expand : (k + 1) * C.tlsf.sheet = k * d + k * gap + d + gap := by
      rw [sheetEq]
      ring
    have expand' : (k + 1) * d = k * d + d := by ring
    rw [expand] at counter
    rw [expand'] at creditEq
    have enough : ¬r.buddy.allocatedBytes < credit := by omega
    rw [if_neg enough]
    exact ⟨by omega, by omega, by omega⟩
  · rw [if_neg spare, Nat.add_zero] at counter creditEq
    have expand : k * C.tlsf.sheet = k * d + k * gap := by
      rw [sheetEq]
      ring
    rw [expand] at counter
    have enough : ¬r.buddy.allocatedBytes < credit := by
      have : credit = k * d := by simpa [spare] using creditEq
      omega
    have creditEq : credit = k * d := by simpa [spare] using creditEq
    rw [if_neg enough]
    exact ⟨by omega, by omega, by omega⟩

/-- The two gauges add up to the size of the region. -/
theorem RegionInv.available_eq (h : RegionInv r v)
    : r.available + r.used = r.buddy.total := by
  have le := h.used_eq.2.2
  simp only [RegionState.available, h.live, Bool.not_true, Bool.false_eq_true, if_false]
  split <;> omega

/-- Equal live blocks on equal geometry have equal gauges. -/
theorem RegionInv.used_congr (h : RegionInv r v) (h' : RegionInv r' v')
    (geometry : r'.buddy.toBuddyGeometry = r.buddy.toBuddyGeometry) (live : v'.live = v.live)
    : r'.used = r.used := by
  classical
  have total : r'.buddy.total = r.buddy.total := congrArg BuddyGeometry.total geometry
  have granted : v'.tlsf.granted = v.tlsf.granted := congrArg Live.small live
  have full : (r'.fullSheets v').length = (r.fullSheets v).length := by
    refine List.Perm.length_eq ((List.perm_ext_iff_of_nodup (h'.tlsf.fit.nodup.filter _)
      (h.tlsf.fit.nodup.filter _)).mpr (fun sh => ?_))
    have busy := congrFun (h.toRegionCore.busy_congr h'.toRegionCore live) sh
    have shown : ∀ {q : RegionState C} {u : RegionView}, RegionInv q u →
        (sh ∈ q.tlsf.sheets.filter (fun sh => ¬u.tlsf.EmptySheet C.tlsf sh)
          ↔ u.busy C.tlsf sh = some (.sheet, C.sheetOrder)) := by
      intro q u inv
      rw [RegionView.busy_eq_some, inv.sheets sh C.sheetOrder]
      simp
    exact (shown h').trans (busy ▸ (shown h).symm)
  rw [h.used_eq.1, h'.used_eq.1, full, RegionState.largeBytes, RegionState.largeBytes,
    RegionState.smallBytes, RegionState.smallBytes, live, total]

/-- Equal live blocks on equal geometry make all gauges equal. -/
theorem RegionInv.gauges_congr (h : RegionInv r v) (h' : RegionInv r' v')
    (geometry : r'.buddy.toBuddyGeometry = r.buddy.toBuddyGeometry) (live : v'.live = v.live)
    : r'.used = r.used ∧ r'.available = r.available ∧ r'.buddy.total = r.buddy.total := by
  have used := h.used_congr h' geometry live
  have total : r'.buddy.total = r.buddy.total := congrArg BuddyGeometry.total geometry
  have left := h.available_eq
  have left' := h'.available_eq
  exact ⟨used, by omega, total⟩

end Bbmalloc
