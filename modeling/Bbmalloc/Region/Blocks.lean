import Bbmalloc.Region.Calls

/-! Releasing a buddy block and resizing blocks of either tier in place. The contents that a
resized block keeps are not stored to.
-/

namespace Bbmalloc

open Bbmalloc.Foundations

variable {C : Config} {r : RegionState C} {v : RegionView} {x n m o : Nat}

-----------------------------------------------------------------------------------------
-- Buddy blocks
-----------------------------------------------------------------------------------------

/-- A client's buddy block is no sheet. -/
theorem RegionView.large_not_sheet (held : v.live.large x = some o) (i : Nat)
    : v.buddy.owned x ≠ some (.sheet, i) := by
  rw [Live.of_large.mp held]
  simp

theorem RegionInv.largeFree (h : RegionInv r v) (held : v.live.large x = some o)
    : ∃ v', RegionStep r (r.setBuddy (r.buddyState.deallocateOrder (r.buddy.base + x) o)) v'
        (v.live.setLarge x none) (v.live.setLarge x none) := by
  have known := Live.of_large.mp held
  obtain ⟨sheets, keeps⟩ := h.toRegionCore.sheets_update (c := none)
    (RegionView.large_not_sheet held) (by simp)
  obtain ⟨w, step⟩ := h.buddy.deallocateOrder (ownedOf_eq_some.mp known).1
  have core := h.toRegionCore.buddyStep step (fun y c found => by
    by_cases here : y = x
    · subst here
      simp at found
    · rwa [Function.update_of_ne here] at found) (keeps none) sheets
  rw [Live.of_none] at core
  exact ⟨_, core.settle h.spareSheet h.onlySpare⟩

/-- `buddy.grow` in a region: nothing happens, or the block gets the order for `n`. -/
theorem RegionInv.largeGrow (h : RegionInv r v) (held : v.live.large x = some o) (n : Nat)
    : ((r.buddyState.grow (r.buddy.base + x) n).2 = 0
        ∧ r.setBuddy (r.buddyState.grow (r.buddy.base + x) n).1 = r)
      ∨ ∃ i v', (r.buddyState.grow (r.buddy.base + x) n).2 = C.buddy.orderSize i
        ∧ n ≤ C.buddy.orderSize i ∧ o ≤ i ∧ 0 < n ∧ (i = o ∨ i = C.buddy.orderForSize n)
        ∧ RegionStep r (r.setBuddy (r.buddyState.grow (r.buddy.base + x) n).1) v' v.live
          (v.live.setLarge x (some i)) := by
  have known := Live.of_large.mp held
  have tile := (ownedOf_eq_some.mp known).1
  have still : v.live.setLarge x (some o) = v.live := by
    rw [Live.setLarge, ← held, Function.update_eq_self]
  rcases h.buddy.grow tile n with ⟨zero, same⟩ | ⟨size, same, positive, enough⟩
      | ⟨larger, positive, size, w, step, _⟩
  · exact Or.inl ⟨zero, by rw [show r.buddy.base = r.buddyState.base from rfl, same]; rfl⟩
  · refine Or.inr ⟨o, v, size, ?_, Nat.le_refl o, Nat.pos_of_ne_zero positive, Or.inl rfl, ?_⟩
    · exact (C.buddy.orderForSize_le (Nat.pos_of_ne_zero positive)).mp enough
    · rw [show r.buddy.base = r.buddyState.base from rfl, same, still]
      exact h.refl _
  · obtain ⟨sheets, keeps⟩ := h.toRegionCore.sheets_update
      (c := some (.alloc, C.buddy.orderForSize n)) (RegionView.large_not_sheet held) (by simp)
    have within := h.buddy.grow_within tile n
    have step : BuddyStep r.buddyState (r.buddyState.grow (r.buddyState.base + x) n).1 w
        v.buddy.owned (Function.update v.buddy.owned x (some (.alloc, C.buddy.orderForSize n))) :=
      ⟨step.inv, step.geometry, step.owned_eq, within⟩
    have core := h.toRegionCore.buddyStep step (fun _ _ found => found)
      (fun sh member => h.sheet_owned member) sheets
    rw [Live.of_alloc] at core
    exact Or.inr ⟨C.buddy.orderForSize n, _, size,
      C.buddy.le_orderSize (Nat.pos_of_ne_zero positive), by omega, Nat.pos_of_ne_zero positive,
      Or.inr rfl, core.settle h.spareSheet h.onlySpare⟩

-----------------------------------------------------------------------------------------
-- Small blocks
-----------------------------------------------------------------------------------------

/-- Resizing a block changes no sheet from empty to used or back. -/
theorem TlsfView.EmptySheet.of_resize {T : TlsfParams} {v w : TlsfView} {sh : Nat}
    (granted : w.granted = Function.update v.granted x (some m)) (known : v.granted x = some n)
    (empty : w.EmptySheet T sh)
    : v.EmptySheet T sh := by
  intro y i found
  by_cases here : y = x
  · subst here
    exact empty y m (by rw [granted, Function.update_self])
  · exact empty y i (by rw [granted, Function.update_of_ne here]; exact found)

/-- A resized small block and the part `p` of its payload that no store touches. -/
theorem RegionInv.smallResize (h : RegionInv r v) (known : v.tlsf.granted x = some n)
    {t : TlsfState C.tlsf} {w : TlsfView} {p : Nat}
    (step : TlsfStep r.buddy.total r.tlsfState t w (Function.update v.tlsf.granted x none)
      (Function.update v.tlsf.granted x (some m)))
    (payload : Memory.Within (OffPayload r.tlsf.rbase x p) r.mem t.mem)
    : RegionStep r (r.setTlsf t) ⟨v.buddy, w⟩ (v.live.setSmall x (some p))
        (v.live.setSmall x (some m)) := by
  have within : Memory.Within (TlsfLoose C.tlsf r.tlsf.rbase r.tlsf.sheets
      (Function.update v.tlsf.granted x (some p))) r.mem t.mem := by
    refine (step.within.inter payload).mono (fun a loose => ⟨loose.1.1, fun y i found => ?_⟩)
    by_cases here : y = x
    · subst here
      rw [Function.update_self] at found
      obtain rfl := Option.some.inj found
      have := loose.2
      unfold OffPayload at this
      omega
    · exact loose.1.2 y i (by rwa [Function.update_of_ne here] at found ⊢)
  have core := h.toRegionCore.tlsfStep ⟨step.inv, step.base, step.sheets, step.granted_eq, within⟩
  have sheets : (r.setTlsf t).tlsf.sheets = r.tlsf.sheets := step.sheets
  refine core.settle ?_ ?_
  · rw [sheets]
    exact h.spareSheet
  · intro sh member empty
    rw [sheets] at member
    exact h.onlySpare sh member (empty.of_resize step.granted_eq known)

/-- `tlsf.shrink` in a region. -/
theorem RegionInv.smallShrink (h : RegionInv r v) (known : v.tlsf.granted x = some n) (m : Nat)
    : ∃ v', RegionStep r (r.setTlsf (r.tlsfState.shrink x m).1) v'
        (v.live.setSmall x (some (shrunkSize C.tlsf n m)))
        (v.live.setSmall x (some (shrunkSize C.tlsf n m)))
      ∧ (r.tlsfState.shrink x m).2
        = decide (TlsfState.adjusted C.tlsf m ≠ 0 ∧ TlsfState.adjusted C.tlsf m ≤ n)
      ∧ (r.tlsfState.shrink x m).1.payload x = shrunkSize C.tlsf n m - 16 := by
  obtain ⟨w, step, result, _⟩ := h.tlsf.shrink known m
  refine ⟨_, h.smallResize known step (h.tlsf.shrink_payload known m), result, ?_⟩
  exact step.inv.payload (by rw [step.granted_eq, Function.update_self])

/-- `tlsf.grow` in a region. -/
theorem RegionInv.smallGrow (h : RegionInv r v) (known : v.tlsf.granted x = some n) (m : Nat)
    : ∃ v' i, RegionStep r (r.setTlsf (r.tlsfState.grow x m).1) v' v.live
        (v.live.setSmall x (some i))
      ∧ n ≤ i
      ∧ ((r.tlsfState.grow x m).2 = true → TlsfState.adjusted C.tlsf m ≠ 0
        ∧ TlsfState.adjusted C.tlsf m ≤ i ∧ (i = n ∨ i ≤ TlsfState.adjusted C.tlsf m + 16))
      ∧ ((r.tlsfState.grow x m).2 = false → r.setTlsf (r.tlsfState.grow x m).1 = r ∧ i = n)
      ∧ (r.tlsfState.grow x m).1.payload x = i - 16
      ∧ (n < TlsfState.adjusted C.tlsf m → ((r.tlsfState.grow x m).2 = true
          ↔ r.tlsfState.isFree (x + n) = true
            ∧ TlsfState.adjusted C.tlsf m ≤ n + r.tlsfState.bsize (x + n))
        ∧ ((r.tlsfState.grow x m).2 = true →
          i = shrunkSize C.tlsf (n + r.tlsfState.bsize (x + n)) m)) := by
  obtain ⟨w, i, step, le, grown, failed, iff, size⟩ := h.tlsf.grow known m
  have resized := h.smallResize known step (h.tlsf.grow_payload known m)
  have still : v.live.setSmall x (some n) = v.live := by
    rw [Live.setSmall, ← known]
    exact congrArg (Live.mk _) (Function.update_eq_self _ _)
  rw [still] at resized
  refine ⟨_, i, resized, le, grown, fun result => ⟨?_, (failed result).2⟩, ?_, fun more =>
    ⟨?_, size more⟩⟩
  · rw [(failed result).1]
    rfl
  · exact step.inv.payload (by rw [step.granted_eq, Function.update_self])
  · rw [iff]
    exact ⟨fun fits => fits.2.resolve_left (by omega), fun fits => ⟨by omega, Or.inr fits⟩⟩

end Bbmalloc
