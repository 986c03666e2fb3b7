import Bbmalloc.Region.Representation
import Bbmalloc.Tlsf.Transitions

/-! What the calls of one region do to the statistics: they count the sheets that they take
from the buddy list and give back, and no other counter of the public interface.
-/

namespace Bbmalloc

open Bbmalloc.Foundations

-----------------------------------------------------------------------------------------
-- Sheets counted by the small-block allocator
-----------------------------------------------------------------------------------------

namespace TlsfState

variable {T : TlsfParams}

/-- `allocate` leaves the number of sheets alone. -/
theorem allocate_count (s : TlsfState T) {n : Nat} {c : TlsfState T × Chunk}
    (done : s.allocate n = some c)
    : c.1.count = s.count := by
  rw [allocate] at done
  split at done
  · cases done
    rfl
  · obtain ⟨f, _, rfl⟩ := Option.map_eq_some_iff.mp done
    rw [allocateAt]
    split
    · rfl
    · simp only
      split <;> rfl

/-- `deallocate` leaves the number of sheets alone. -/
theorem deallocate_count (s : TlsfState T) (off : Nat) : (s.deallocate off).1.count = s.count := by
  rw [deallocate]
  simp only [(insertFree_stores _ _ _).2.2.2.2.1]
  split <;> split <;> rfl

/-- `shrink` leaves the number of sheets alone. -/
theorem shrink_count (s : TlsfState T) (off n : Nat) : (s.shrink off n).1.count = s.count := by
  rw [shrink]
  simp only
  split
  · rfl
  split
  · rfl
  split
  · rfl
  split <;> rfl

/-- `grow` leaves the number of sheets alone. -/
theorem grow_count (s : TlsfState T) (off n : Nat) : (s.grow off n).1.count = s.count := by
  rw [grow]
  simp only
  split
  · rfl
  split
  · rfl
  split
  · rfl
  split
  · rfl
  split <;> rfl

/-- `add_sheet` counts the sheet it adds. -/
theorem addSheet_count {s : TlsfState T} {sheet : Nat} (added : (s.addSheet sheet).2 = true)
    : (s.addSheet sheet).1.count = s.count + 1 := by
  rw [addSheet] at added ⊢
  split
  · next refused => simp [refused] at added
  · rfl

/-- `remove_sheet` no longer counts the sheet it removes. -/
theorem removeSheet_count (s : TlsfState T) (sheet : Nat)
    : ((s.removeSheet sheet).2 = false ∧ (s.removeSheet sheet).1 = s)
      ∨ ((s.removeSheet sheet).2 = true ∧ (s.removeSheet sheet).1.count + 1 = s.count) := by
  rw [removeSheet]
  split
  · exact Or.inl ⟨rfl, rfl⟩
  · next kept =>
      have counted : s.count ≠ 0 := fun none => kept (by simp [none])
      refine Or.inr ⟨rfl, ?_⟩
      change s.count - 1 + 1 = s.count
      omega

end TlsfState

-----------------------------------------------------------------------------------------
-- Audits
-----------------------------------------------------------------------------------------

/-- The counters of blocks and bytes, which only the public interface advances. -/
structure Stats.SameTally (st st' : Stats) : Prop where
  allocs : st'.allocRequests = st.allocRequests
  deallocs : st'.deallocRequests = st.deallocRequests
  granted : st'.bytesGranted = st.bytesGranted
  freed : st'.bytesFreed = st.bytesFreed
  usage : st'.currentUsage = st.currentUsage
  clamps : st'.clamps = st.clamps

theorem Stats.SameTally.refl (st : Stats) : st.SameTally st := ⟨rfl, rfl, rfl, rfl, rfl, rfl⟩

theorem Stats.SameTally.trans {a b c : Stats} (first : a.SameTally b) (second : b.SameTally c)
    : a.SameTally c :=
  ⟨second.allocs.trans first.allocs, second.deallocs.trans first.deallocs,
    second.granted.trans first.granted, second.freed.trans first.freed,
    second.usage.trans first.usage, second.clamps.trans first.clamps⟩

/-- Counting something else leaves the tally alone. -/
theorem Stats.SameTally.collect (st : Stats) (on : Bool) {k : StatType} (n : Nat)
    (other : k ≠ .alloc ∧ k ≠ .dealloc ∧ k ≠ .granted ∧ k ≠ .freed)
    : st.SameTally (st.collect on k n) := by
  cases on with
  | false => exact .refl st
  | true =>
  cases k with
  | alloc => exact absurd rfl other.1
  | dealloc => exact absurd rfl other.2.1
  | granted => exact absurd rfl other.2.2.1
  | freed => exact absurd rfl other.2.2.2
  | _ => exact ⟨rfl, rfl, rfl, rfl, rfl, rfl⟩

/-- The sheets acquired less the sheets released advance with the number `n` of sheets. -/
def Stats.SheetsFollow (st : Stats) (n : Nat) (st' : Stats) (n' : Nat) : Prop :=
  (st'.sheetsAcquired + st.sheetsReleased + n) % 2 ^ 64
    = (st.sheetsAcquired + st'.sheetsReleased + n') % 2 ^ 64

theorem Stats.SheetsFollow.trans {a b c : Stats} {n n' n'' : Nat}
    (first : a.SheetsFollow n b n') (second : b.SheetsFollow n' c n'')
    : a.SheetsFollow n c n'' := by
  unfold SheetsFollow at *
  omega

/-- A region call that does not touch the tally; unless the two tiers disagreed about a sheet,
the sheet counters follow the number of sheets.
-/
structure RegionState.Audited {C : Config} (r r' : RegionState C) : Prop where
  tally : r.stats.SameTally r'.stats
  rollbacks : r.rollbacks ≤ r'.rollbacks
  sheets : r'.rollbacks = r.rollbacks →
    r.stats.SheetsFollow r.tlsf.count r'.stats r'.tlsf.count

section Audits

variable {C : Config} {r r' r'' : RegionState C}

/-- A part that does not count anything. -/
theorem RegionState.Audited.of_same (stats : r'.stats = r.stats)
    (rollbacks : r'.rollbacks = r.rollbacks) (count : r'.tlsf.count = r.tlsf.count)
    : r.Audited r' := by
  refine ⟨?_, by omega, fun _ => ?_⟩
  · rw [stats]
    exact .refl _
  · rw [Stats.SheetsFollow, stats, count]

theorem RegionState.Audited.refl (r : RegionState C) : r.Audited r := .of_same rfl rfl rfl

theorem RegionState.Audited.trans (first : r.Audited r') (second : r'.Audited r'')
    : r.Audited r'' := by
  have up := first.rollbacks
  have more := second.rollbacks
  exact ⟨first.tally.trans second.tally, by omega, fun same =>
    (first.sheets (by omega)).trans (second.sheets (by omega))⟩

/-- Buddy calls count nothing. -/
theorem RegionState.Audited.setBuddy (r : RegionState C) (b : BuddyState C.buddy)
    : r.Audited (r.setBuddy b) :=
  .of_same rfl rfl rfl

/-- TLSF calls on the same sheets count nothing. -/
theorem RegionState.Audited.setTlsf {t : TlsfState C.tlsf} (count : t.count = r.tlsf.count)
    : r.Audited (r.setTlsf t) :=
  .of_same rfl rfl count

/-- A part that ends with the tiers in disagreement. -/
theorem RegionState.Audited.rolledBack {u : RegionState C} (tally : r.stats.SameTally u.stats)
    (up : r.rollbacks ≤ u.rollbacks)
    : r.Audited { u with rollbacks := u.rollbacks + 1 } := by
  refine ⟨tally, Nat.le_succ_of_le up, fun same => ?_⟩
  change u.rollbacks + 1 = r.rollbacks at same
  omega

/-- A sheet that is taken and counted. -/
theorem RegionState.Audited.acquired (on : C.collectStats = true)
    (stats : r'.stats = r.stats.collect C.collectStats .sheetAcquired 0)
    (rollbacks : r'.rollbacks = r.rollbacks) (count : r'.tlsf.count = r.tlsf.count + 1)
    : r.Audited r' := by
  refine ⟨?_, by omega, fun _ => ?_⟩
  · rw [stats]
    exact .collect r.stats _ 0 ⟨nofun, nofun, nofun, nofun⟩
  · simp only [Stats.SheetsFollow, stats, count, Stats.collect, on, if_true, bump]
    omega

/-- A sheet that is given back and counted. -/
theorem RegionState.Audited.released (on : C.collectStats = true)
    (stats : r'.stats = r.stats.collect C.collectStats .sheetReleased 0)
    (rollbacks : r'.rollbacks = r.rollbacks) (count : r'.tlsf.count + 1 = r.tlsf.count)
    : r.Audited r' := by
  refine ⟨?_, by omega, fun _ => ?_⟩
  · rw [stats]
    exact .collect r.stats _ 0 ⟨nofun, nofun, nofun, nofun⟩
  · simp only [Stats.SheetsFollow, stats, ← count, Stats.collect, on, if_true, bump]
    omega

end Audits

-----------------------------------------------------------------------------------------
-- Calls
-----------------------------------------------------------------------------------------

namespace RegionState

section Calls

variable {C : Config}

/-- A released sheet is counted once. -/
theorem releaseSheet_audited (r : RegionState C) (on : C.collectStats = true) (sheet : Nat)
    : r.Audited (r.releaseSheet sheet) := by
  rw [releaseSheet]
  split
  · exact .refl r
  simp only
  split
  · exact .refl r
  rcases r.tlsfState.removeSheet_count sheet with ⟨refused, same⟩ | ⟨removed, count⟩
  · simp only [refused, same, Bool.not_false, if_true]
    exact .of_same rfl rfl rfl
  simp only [removed, Bool.not_true, Bool.false_eq_true, if_false]
  split
  · exact Audited.rolledBack (u := setTlsf _ _) (.refl _) le_rfl
  · exact .released on rfl rfl count

/-- A sheet that is given back because it served nothing. -/
theorem Audited.releasedBack {r r' : RegionState C} (on : C.collectStats = true)
    (audited : r.Audited r') (sheet : Nat)
    : r.Audited
        { r'.releaseSheet sheet with rollbacks := (r'.releaseSheet sheet).rollbacks + 1 } := by
  have both := audited.trans (r'.releaseSheet_audited on sheet)
  exact .rolledBack both.tally both.rollbacks

/-- A spare sheet that is flushed is counted. -/
theorem flushSpare_audited (r : RegionState C) (on : C.collectStats = true)
    : r.Audited r.flushSpare := by
  rw [flushSpare]
  split
  · exact .refl r
  simp only
  split
  · have dropped : r.Audited { r with spare := nullOff } := .of_same rfl rfl rfl
    exact dropped.trans (releaseSheet_audited _ on _)
  · exact .of_same rfl rfl rfl

/-- A new sheet is counted once the small-block allocator has taken it. -/
theorem smallAllocSlow_audited (r : RegionState C) (on : C.collectStats = true) (n : Nat)
    : r.Audited (r.smallAllocSlow n).1 := by
  rw [smallAllocSlow]
  split
  · exact .refl r
  simp only
  split
  · exact .of_same rfl rfl rfl
  split
  · exact Audited.rolledBack (u := setBuddy _ _) (.refl _) le_rfl
  · next kept =>
      have count := TlsfState.addSheet_count (by simpa using kept)
      split
      · refine Audited.releasedBack on ?_ _
        exact .acquired on rfl rfl
          ((TlsfState.allocate_count _ (TlsfState.allocate_narrow _ _ _)).trans count)
      · exact .acquired on rfl rfl
          ((TlsfState.allocate_count _ (TlsfState.allocate_narrow _ _ _)).trans count)

/-- A small request is served by a sheet that is there or by a new one. -/
theorem smallAlloc_audited (r : RegionState C) (on : C.collectStats = true) (n : Nat)
    : r.Audited (r.smallAlloc n).1 := by
  have first : r.Audited (r.setTlsf (r.tlsfState.allocateNarrow C.sheet_narrow n).1) :=
    .setTlsf (TlsfState.allocate_count _ (TlsfState.allocate_narrow _ _ _))
  rw [smallAlloc]
  split
  · exact first.trans (smallAllocSlow_audited _ on n)
  · exact first

theorem tlsfAlloc_audited (r : RegionState C) (n : Nat) : r.Audited (r.tlsfAlloc n).1 :=
  .setTlsf (TlsfState.allocate_count _ (TlsfState.allocate_narrow _ _ _))

theorem sheetEmptied_audited (r : RegionState C) (on : C.collectStats = true) (sheet : Nat)
    : r.Audited (r.sheetEmptied sheet) := by
  rw [sheetEmptied]
  split
  · exact .of_same rfl rfl rfl
  · exact r.releaseSheet_audited on sheet

theorem smallFree_audited (r : RegionState C) (on : C.collectStats = true) (off : Nat)
    : r.Audited (r.smallFree off) := by
  have first : r.Audited (r.setTlsf (r.tlsfState.deallocate off).1) :=
    .setTlsf (TlsfState.deallocate_count _ _)
  rw [smallFree]
  split
  · exact first.trans (sheetEmptied_audited _ on _)
  · exact first

theorem largeAllocSlow_audited (r : RegionState C) (on : C.collectStats = true) (n : Nat)
    : r.Audited (r.largeAllocSlow n).1 := by
  rw [largeAllocSlow]
  split
  · exact .refl r
  · exact (r.flushSpare_audited on).trans (.setBuddy _ _)

theorem largeAlloc_audited (r : RegionState C) (on : C.collectStats = true) (n : Nat)
    : r.Audited (r.largeAlloc n).1 := by
  have first : r.Audited (r.buddyAlloc n).1 := .setBuddy r _
  rw [largeAlloc]
  split
  · exact first.trans (largeAllocSlow_audited _ on n)
  · exact first

theorem largeAllocAligned_audited (r : RegionState C) (on : C.collectStats = true) (n a : Nat)
    : r.Audited (r.largeAllocAligned n a).1 := by
  have first : r.Audited (r.buddyAllocAligned n a).1 := .setBuddy r _
  rw [largeAllocAligned]
  split
  · exact (first.trans (flushSpare_audited _ on)).trans (.setBuddy _ _)
  · exact first

theorem largestFree_audited (r : RegionState C) (on : C.collectStats = true)
    : r.Audited r.largestFree.1 :=
  (r.flushSpare_audited on).trans (.setBuddy _ _)

/-- `attach` counts nothing, and a region that it accepts has no sheet yet. -/
theorem attach_counts (r : RegionState C) (mem len tags cap : Nat) (zeroed : Bool)
    : (r.attach mem len tags cap zeroed).1.stats = r.stats
      ∧ (r.attach mem len tags cap zeroed).1.rollbacks = r.rollbacks
      ∧ ((r.attach mem len tags cap zeroed).2 = true →
        (r.attach mem len tags cap zeroed).1.tlsf.count = 0) := by
  rw [attach]
  split
  · exact ⟨rfl, rfl, fun _ => rfl⟩
  · next refused => exact ⟨rfl, rfl, fun live => absurd live refused⟩

end Calls

end RegionState

end Bbmalloc
