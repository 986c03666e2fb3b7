import Bbmalloc.Region.Setup

/-! A region that owns nothing and caches nothing. Its free blocks are those that a reset
seeds, so nothing that a reset restores differs.
-/

namespace Bbmalloc

open Bbmalloc.Foundations

-----------------------------------------------------------------------------------------
-- Bare regions
-----------------------------------------------------------------------------------------

/-- A region that owns no block, with empty cache lists and no spare sheet. -/
structure Bare {C : Config} (r : RegionState C) (v : RegionView) : Prop extends RegionInv r v where
  noSpare : r.spare = nullOff
  noCache : ∀ o, v.buddy.cached o = []
  noOwner : v.buddy.owned = fun _ => none

/-- Two regions with the same layout, the same tags, free lists and cache lists, and the same
sheets, bins and counters.
-/
structure RegionState.SameLayout {C : Config} (r r' : RegionState C) : Prop where
  geometry : r.buddy.toBuddyGeometry = r'.buddy.toBuddyGeometry
  tags : ∀ i < r.buddy.tagCount, r.buddyState.tag i = r'.buddyState.tag i
  freeLists : r.buddy.freeLists = r'.buddy.freeLists
  listed : ∀ o, ∃ nodes, Chain 0 r.buddyState.next (r.buddy.freeLists o) nodes
    ∧ Chain 0 r'.buddyState.next (r'.buddy.freeLists o) nodes
  freeMask : r.buddy.freeMask = r'.buddy.freeMask
  allocatedBytes : r.buddy.allocatedBytes = r'.buddy.allocatedBytes
  cacheHead : r.buddy.cacheHead = r'.buddy.cacheHead
  cacheCount : r.buddy.cacheCount = r'.buddy.cacheCount
  heads : r.tlsf.heads = r'.tlsf.heads
  flBitmap : r.tlsf.flBitmap = r'.tlsf.flBitmap
  slBitmap : r.tlsf.slBitmap = r'.tlsf.slBitmap
  smallBytes : r.tlsf.allocatedBytes = r'.tlsf.allocatedBytes
  count : r.tlsf.count = r'.tlsf.count
  sheets : r.tlsf.sheets = r'.tlsf.sheets
  spare : r.spare = r'.spare

section Bare

variable {C : Config} {r r' : RegionState C} {v v' : RegionView}

theorem FreshRegion.bare (fresh : FreshRegion r v) : Bare r v :=
  ⟨fresh.toRegionInv, fresh.noSpare, fresh.noCache, fresh.noOwner⟩

/-- A bare region has no sheet. -/
theorem Bare.noSheet (h : Bare r v) : r.tlsf.sheets = [] := by
  rw [List.eq_nil_iff_forall_not_mem]
  intro sh member
  have owned := h.sheet_owned member
  rw [h.noOwner] at owned
  cases owned

/-- Without sheets every bin is empty, and so is every bitmap. -/
theorem TlsfInv.blank {T : TlsfParams} {limit : Nat} {t : TlsfState T} {w : TlsfView}
    (h : TlsfInv limit t w) (none : t.sheets = [])
    : t.heads = (fun _ => nullOff) ∧ t.slBitmap = (fun _ => 0) ∧ t.flBitmap = 0 ∧ t.count = 0
      ∧ t.allocatedBytes = 0 := by
  have block : ∀ x, w.block x = Option.none := by
    intro x
    rw [Option.eq_none_iff_forall_ne_some]
    rintro ⟨k, n⟩ known
    obtain ⟨sh, member, _⟩ := h.sheet known
    rw [none] at member
    cases member
  have bins : ∀ i, w.bins i = [] := by
    intro i
    rw [List.eq_nil_iff_forall_not_mem]
    intro x member
    obtain ⟨n, known, _⟩ := (h.binned i x).mp member
    rw [block] at known
    cases known
  have second : t.slBitmap = fun _ => 0 := by
    funext fl
    refine Nat.eq_of_testBit_eq (fun sl => ?_)
    rw [Nat.zero_testBit, Bool.eq_false_iff, Ne, h.bits.1 fl sl]
    exact fun set => set.2 (bins _)
  refine ⟨?_, second, ?_, ?_, ?_⟩
  · funext i
    exact (h.lists i).chain.front_null.mpr (bins i)
  · refine Nat.eq_of_testBit_eq (fun fl => ?_)
    rw [Nat.zero_testBit, Bool.eq_false_iff, Ne, h.bits.2 fl, second]
    exact fun set => set rfl
  · rw [h.counted, none]
    rfl
  · rw [h.counter]
    refine blockSum_eq_zero (fun x n known => ?_)
    have := TlsfView.granted_eq_some.mp known
    rw [block] at this
    cases this

/-- The free blocks of a bare region are those that a reset seeds. -/
theorem Bare.seeded (h : Bare r v) (h' : FreshRegion r' v')
    (geometry : r.buddy.toBuddyGeometry = r'.buddy.toBuddyGeometry)
    : v.buddy.tile = seedTiles C.buddy r.buddy.toBuddyGeometry .free := by
  rw [h.buddy.same_tiles h'.buddy geometry (h.noOwner.trans h'.noOwner.symm) h.noCache h'.noCache,
    h'.seeded, geometry]

/-- A bare region is laid out like a fresh one: there is at most one free block of an order,
so the free lists have no choice of their sequence.
-/
theorem Bare.sameLayout (h : Bare r v) (h' : FreshRegion r' v')
    (geometry : r.buddy.toBuddyGeometry = r'.buddy.toBuddyGeometry)
    : r.SameLayout r' := by
  have owned : v.buddy.owned = v'.buddy.owned := h.noOwner.trans h'.noOwner.symm
  have tiles := h.buddy.same_tiles h'.buddy geometry owned h.noCache h'.noCache
  have free := h.buddy.same_free h'.buddy geometry owned h.noCache h'.noCache
  have base : r.buddyState.base = r'.buddyState.base := congrArg BuddyGeometry.base geometry
  have lists : ∀ o, v.buddy.lists o = v'.buddy.lists o := by
    intro o
    refine eq_of_same_members (h.buddy.rep.lists o).nodup (h'.buddy.rep.lists o).nodup
      (fun a => ?_) ?_
    · rw [h.buddy.rep.listed o a, h'.buddy.rep.listed o a, tiles, base]
    · intro a first b second
      obtain ⟨x, rfl, found⟩ := (h'.buddy.rep.listed o a).mp first
      obtain ⟨y, rfl, found'⟩ := (h'.buddy.rep.listed o b).mp second
      rw [h'.seeded] at found found'
      rw [seedTiles_unique found found' rfl]
  have chain : ∀ o, Chain 0 r.buddyState.next (r.buddy.freeLists o) (v'.buddy.lists o)
      ∧ Chain 0 r'.buddyState.next (r'.buddy.freeLists o) (v'.buddy.lists o) := fun o =>
    ⟨lists o ▸ (h.buddy.rep.lists o).chain, (h'.buddy.rep.lists o).chain⟩
  have cache : ∀ o, Chain 0 r.buddyState.next (r.buddy.cacheHead o) []
      ∧ Chain 0 r'.buddyState.next (r'.buddy.cacheHead o) [] := fun o =>
    ⟨h.noCache o ▸ h.buddy.rep.cache o, h'.noCache o ▸ h'.buddy.rep.cache o⟩
  have counter : ∀ {q : RegionState C} {u : RegionView}, Bare q u → q.buddy.allocatedBytes = 0 := by
    intro q u bare
    rw [show q.buddy.allocatedBytes = _ from bare.buddy.rep.counter_owned, bare.noOwner]
    exact blockSum_eq_zero (fun x b known => by cases known)
  have cached : ∀ {q : RegionState C} {u : RegionView}, Bare q u →
      q.buddy.cacheCount = fun _ => 0 := by
    intro q u bare
    funext o
    rw [show q.buddy.cacheCount o = _ from (bare.buddy.counts o).1, bare.noCache o]
    rfl
  obtain ⟨heads, second, first, count, bytes⟩ := h.tlsf.blank h.noSheet
  obtain ⟨heads', second', first', count', bytes'⟩ := h'.tlsf.blank h'.noSheet
  exact {
    geometry := geometry
    tags := free.tags
    freeLists := funext (fun o => (chain o).1.front_eq (chain o).2)
    listed := fun o => ⟨_, chain o⟩
    freeMask := free.mask
    allocatedBytes := (counter h).trans (counter h'.bare).symm
    cacheHead := funext (fun o => (cache o).1.trans (cache o).2.symm)
    cacheCount := (cached h).trans (cached h'.bare).symm
    heads := heads.trans heads'.symm
    flBitmap := first.trans first'.symm
    slBitmap := second.trans second'.symm
    smallBytes := bytes.trans bytes'.symm
    count := count.trans count'.symm
    sheets := h.noSheet.trans h'.noSheet.symm
    spare := h.noSpare.trans h'.noSpare.symm }

end Bare

end Bbmalloc
