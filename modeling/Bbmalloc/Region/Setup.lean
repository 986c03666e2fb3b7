import Bbmalloc.Region.Blocks

/-! Attaching and resetting a region, the memory that its state depends on, and what the
tags and the bitmaps say about a pointer into it.
-/

namespace Bbmalloc

open Bbmalloc.Foundations

-----------------------------------------------------------------------------------------
-- Fresh and idle regions
-----------------------------------------------------------------------------------------

/-- A region that has just been attached or reset. -/
structure FreshRegion {C : Config} (r : RegionState C) (v : RegionView) : Prop
    extends RegionInv r v where
  seeded : v.buddy.tile = seedTiles C.buddy r.buddy.toBuddyGeometry .free
  noCache : ∀ o, v.buddy.cached o = []
  noOwner : v.buddy.owned = fun _ => none
  noBlock : v.tlsf = TlsfView.empty
  noSheet : r.tlsf.sheets = []
  noSpare : r.spare = nullOff

/-- A region that is not attached. -/
structure RegionState.Idle {C : Config} (r : RegionState C) : Prop where
  live : r.live = false
  total : r.buddy.total = 0
  maxOrder : r.buddy.maxOrder = 0
  count : r.tlsf.count = 0
  noRollback : r.rollbacks = 0

/-- A buddy list that has been told its range. -/
def BuddyList.aimedAt (b : BuddyList) (mem len tags cap align : Nat) : BuddyList :=
  { b with rawMem := mem, rawLen := len, extTags := tags, extCap := cap, wantAlign := align }

section Setup

variable {C : Config} {r : RegionState C} {v : RegionView} {b : BuddyState C.buddy}
  {w : BuddyView} {mem len tags cap : Nat} {zeroed : Bool}

theorem FreshRegion.live_eq (h : FreshRegion r v) : v.live = Live.none := by
  rw [RegionView.live, h.noOwner, h.noBlock]
  rfl

/-- A seeded buddy list with an empty small-block allocator is a fresh region. -/
theorem FreshRegion.of_seed (seed : BuddyInv b w) (owned : w.owned = fun _ => none)
    (tile : w.tile = seedTiles C.buddy b.toBuddyGeometry .free) (cached : ∀ o, w.cached o = [])
    (buddy : r.buddyState = b) (tlsf : ∃ t : TlsfState C.tlsf, r.tlsfState = t.init b.base)
    (live : r.live = true) (spare : r.spare = nullOff) (noRollback : r.rollbacks = 0)
    : FreshRegion r ⟨w, TlsfView.empty⟩ := by
  subst buddy
  obtain ⟨t, init⟩ := tlsf
  have sheets : r.tlsf.sheets = [] := congrArg (fun t : TlsfState C.tlsf => t.sheets) init
  have base : r.tlsf.rbase = r.buddy.base := congrArg (fun t : TlsfState C.tlsf => t.rbase) init
  have fits : r.buddy.total ≤ u32 := seed.rep.geometry.total_le.trans (by decide)
  refine ⟨⟨⟨live, seed, ?_, base, ?_, noRollback⟩, Or.inl spare, ?_⟩, tile, cached, owned, rfl,
    sheets, spare⟩
  · rw [init]
    exact TlsfState.init_spec t _ _ fits
  · intro x o
    rw [show (RegionView.mk w TlsfView.empty).buddy.owned = _ from owned, sheets]
    simp
  · simp [sheets]

/-- `attach` makes a fresh region of the range, or leaves an idle one and the memory as it
was.
-/
theorem RegionState.attach_spec (r : RegionState C) (noRollback : r.rollbacks = 0)
    (unused : r.tlsf.count = 0) (area : RawArea C.buddy r.mem mem len tags cap zeroed)
    : ((r.attach mem len tags cap zeroed).2 = true
        ∧ (∃ v', FreshRegion (r.attach mem len tags cap zeroed).1 v')
        ∧ (r.attach mem len tags cap zeroed).1.buddy.layout C.buddy
          = some (r.attach mem len tags cap zeroed).1.buddy.toBuddyGeometry
        ∧ (r.buddy.aimedAt mem len tags cap C.maxAlignment).layout C.buddy
          = some (r.attach mem len tags cap zeroed).1.buddy.toBuddyGeometry
        ∧ Memory.Within (Footprint (r.attach mem len tags cap zeroed).1.buddy.toBuddyGeometry)
          r.mem (r.attach mem len tags cap zeroed).1.mem)
      ∨ ((r.attach mem len tags cap zeroed).2 = false
        ∧ (r.attach mem len tags cap zeroed).1.Idle
        ∧ (r.attach mem len tags cap zeroed).1.mem = r.mem
        ∧ (r.buddy.aimedAt mem len tags cap C.maxAlignment).layout C.buddy = none) := by
  set s : BuddyState C.buddy :=
    ⟨r.buddy.aimedAt mem len tags cap C.maxAlignment, r.mem⟩ with sEq
  have call : r.attach mem len tags cap zeroed
      = (let b := s.setup zeroed
         let r' : RegionState C := { r.setBuddy b.1 with live := b.2, spare := nullOff }
         (if r'.live then r'.setTlsf (r'.tlsfState.init r'.buddy.base) else r', r'.live)) := rfl
  rw [call]
  cases laid : s.layout C.buddy with
  | none =>
      obtain ⟨base, align, failed⟩ := s.setup_none zeroed laid
      rw [failed]
      exact Or.inr ⟨rfl, ⟨rfl, rfl, rfl, unused, noRollback⟩, rfl, rfl⟩
  | some g =>
      obtain ⟨sound, clean⟩ := area.sound laid ⟨rfl, rfl⟩ ⟨rfl, rfl⟩
      obtain ⟨ok, w, inv, geometry, owned, tile, cached, within⟩ :=
        BuddyState.setup_spec zeroed laid sound clean
      generalize s.setup zeroed = b at *
      obtain ⟨b, live⟩ := b
      simp only at ok inv geometry within
      subst ok
      simp only [if_true]
      refine Or.inl ⟨trivial, ⟨⟨w, TlsfView.empty⟩, ?_⟩, ?_, ?_, ?_⟩
      · exact FreshRegion.of_seed inv owned (geometry ▸ tile) cached rfl ⟨_, rfl⟩ rfl rfl noRollback
      · change b.toBuddyGeometry.layout C.buddy = some b.toBuddyGeometry
        rw [geometry]
        exact BuddyGeometry.layout_again laid
      · change some g = some b.toBuddyGeometry
        rw [geometry]
      · change Memory.Within (Footprint b.toBuddyGeometry) r.mem b.mem
        rw [geometry]
        exact within.mono (fun a loose => loose.imp id (fun data => ⟨data.1, data.2.1⟩))

/-- `reset` makes the region a fresh one on the same range. -/
theorem RegionInv.reset (h : RegionInv r v)
    (laid : r.buddy.layout C.buddy = some r.buddy.toBuddyGeometry)
    : ∃ v', FreshRegion r.reset v'
        ∧ RegionStep r r.reset v' Live.none Live.none := by
  obtain ⟨_, w, inv, geometry, owned, tile, cached, within⟩ :=
    BuddyState.setup_spec (s := r.buddyState) false laid h.buddy.rep.geometry (by simp)
  have call : r.reset
      = ({ ((r.setBuddy (r.buddyState.setup false).1).setTlsf
          ((r.setBuddy (r.buddyState.setup false).1).tlsfState.init
            (r.buddyState.setup false).1.base)) with spare := nullOff } : RegionState C) := by
    simp only [RegionState.reset, h.live, Bool.not_true, Bool.false_eq_true, if_false]
    rfl
  rw [call]
  generalize (r.buddyState.setup false).1 = b at *
  have fresh : FreshRegion ({ ((r.setBuddy b).setTlsf
      ((r.setBuddy b).tlsfState.init b.base)) with spare := nullOff } : RegionState C)
      ⟨w, TlsfView.empty⟩ :=
    FreshRegion.of_seed inv owned (geometry ▸ tile) cached rfl ⟨_, rfl⟩ h.live rfl h.noRollback
  refine ⟨_, fresh, fresh.toRegionInv, geometry, fresh.live_eq, ?_⟩
  refine within.mono (fun a loose => ⟨loose.imp id (fun data => ⟨data.1, data.2.1⟩), ?_⟩)
  rintro (⟨x, o, held, _⟩ | ⟨x, n, held, _⟩) <;> simp [Live.none] at held

end Setup

-----------------------------------------------------------------------------------------
-- The memory a region depends on
-----------------------------------------------------------------------------------------

section Frame

variable {C : Config} {r : RegionState C} {v : RegionView} {m : Memory} {a x o n : Nat}

/-- What either tier may write is loose for the region. -/
theorem RegionCore.loose (h : RegionCore r v)
    : (∀ a, Loose C.buddy r.buddy.toBuddyGeometry v.buddy.owned a →
        RegionLoose C.buddy r.buddy.toBuddyGeometry v.live a)
      ∧ ∀ a, TlsfLoose C.tlsf r.tlsf.rbase r.tlsf.sheets v.tlsf.granted a →
        RegionLoose C.buddy r.buddy.toBuddyGeometry v.live a := by
  constructor
  · intro a loose
    exact loose.region h.buddy.rep.geometry (fun x c known => (h.buddy.owned_le known).2)
      (fun x o held => Live.of_large.mp held) (fun x n held => by
        obtain ⟨sh, member, lo, hi⟩ := h.small_inside held
        exact ⟨sh, _, h.sheet_owned member, by omega, by omega⟩)
  · intro a loose
    refine loose.region h.base h.tlsf.fit.end_le (fun x o held sh member => ?_)
      (fun x n held => held)
    have held := Live.of_large.mp held
    have apart := h.buddy.owned_apart held (h.sheet_owned member) (fun same => by
      rw [same, h.sheet_owned member] at held
      simp at held)
    simpa only [C.orderSize_sheet] using apart

/-- A region depends on its loose bytes only. -/
theorem RegionInv.congr (h : RegionInv r v)
    (same : ∀ a, RegionLoose C.buddy r.buddy.toBuddyGeometry v.live a →
      (m a).byte = (r.mem a).byte)
    : RegionInv ({ r with mem := m } : RegionState C) v := by
  obtain ⟨buddy, tlsf⟩ := h.toRegionCore.loose
  refine ⟨⟨h.live, ?_, ?_, h.base, h.sheets, h.noRollback⟩, h.spareSheet, h.onlySpare⟩
  · exact h.buddy.congr (fun a loose => same a (buddy a loose))
  · exact h.tlsf.congr (fun a loose => same a (tlsf a loose))

/-- Live blocks lie in the data area. -/
theorem RegionCore.covers_inside (h : RegionCore r v)
    (covered : v.live.Covers C.buddy r.buddy.base a)
    : r.buddy.base ≤ a ∧ a < r.buddy.base + r.buddy.total := by
  rcases covered with ⟨x, o, held, lo, hi⟩ | ⟨x, n, held, lo, hi⟩
  · have inside : x + C.buddy.orderSize o ≤ r.buddy.total :=
      (h.buddy.owned_le (Live.of_large.mp held)).2
    omega
  · obtain ⟨sh, member, start, stop⟩ := h.small_inside held
    have inside := (h.sheet_lt member).2.1
    omega

end Frame

end Bbmalloc
