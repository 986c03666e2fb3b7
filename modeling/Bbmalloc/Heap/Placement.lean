import Bbmalloc.Heap.Lookup
import Bbmalloc.Heap.PlainSearch
import Bbmalloc.Heap.Safety

/-! Where a request is served. Every region can tell by itself, without the others, whether its
sheets or its buddy list have a block for a request; the heap takes the first region that can,
and sheets before buddy lists for a small request.
-/

namespace Bbmalloc

open Bbmalloc.Foundations

-----------------------------------------------------------------------------------------
-- What a region can serve
-----------------------------------------------------------------------------------------

/-- The sheets of the region have a block for `n` bytes, or there is room for one more sheet. -/
def SheetRoom (C : Config) (n : Nat) (r : Region) (w : RegionView) : Prop :=
  w.tlsf.Offers C.tlsf (TlsfState.adjusted C.tlsf n)
  ∨ r.tlsf.count < C.tlsf.maxSheets
    ∧ ∃ y, Room C.buddy r.buddy.total w.buddy.owned C.sheetOrder y

/-- The buddy list of the region has a block for `n` bytes at multiples of `a`. -/
def BlockRoom (C : Config) (n a : Nat) (r : Region) (w : RegionView) : Prop :=
  a ≤ r.buddy.baseAlign
  ∧ ∃ x, Room C.buddy r.buddy.total (w.busy C.tlsf) (BuddyState.alignedOrder C.buddy n a) x

section Regions

variable {C : Config} {r : RegionState C} {v : RegionView} {n o a : Nat}
  {c : RegionState C × Chunk}

/-- A plain request is one for alignment 1. -/
theorem BuddyState.alignedOrder_one (P : BuddyParams) (n : Nat)
    : alignedOrder P n 1 = P.orderForSize n := by
  have least : P.orderForSize 1 = 0 := by
    simp only [BuddyParams.orderForSize, Nat.sub_self, Nat.zero_shiftRight]
    decide
  rw [alignedOrder, least, if_neg (by omega)]

theorem RegionInv.largeAlloc_one (h : RegionInv r v) (positive : 0 < n)
    : r.largeAlloc n = r.largeAllocAligned n 1 := by
  have align : ¬1 > r.buddy.baseAlign := by
    have := h.native_le
    simp only [nativeAlignment] at this
    omega
  have attempt : ∀ t : RegionState C, t.buddy.baseAlign = r.buddy.baseAlign →
      t.buddyAllocAligned n 1 = t.buddyAlloc n := by
    intro t same
    have low : ¬1 > t.buddyState.baseAlign := same ▸ align
    simp only [RegionState.buddyAllocAligned, RegionState.buddyAlloc, BuddyState.allocateAligned,
      BuddyState.allocate, BuddyState.alignedOrder_one, if_neg low]
    simp [isPow2]
  have first := attempt r rfl
  have outcome := h.orderAlloc n (C.buddy.orderForSize n)
  rw [← RegionState.buddyAlloc_eq _ positive] at outcome
  rw [RegionState.largeAlloc, RegionState.largeAllocAligned, first]
  rcases outcome with granted | ⟨null, _, _, w, quiet, _⟩
  · have live := granted.live h
    rw [if_neg live, if_neg (by simp [live])]
  · obtain ⟨_, flushed, _⟩ := quiet.step.inv.flushSpare_unchanged
    have geometry := quiet.step.geometry
    have second := attempt (r.buddyAlloc n).1.flushSpare
      (congrArg BuddyGeometry.baseAlign (flushed.step.geometry.trans geometry))
    have servable : (r.buddyAlloc n).1.buddyState.servableAligned n 1
        = (r.buddyAlloc n).1.buddyState.servable n := by
      have low : ¬1 > (r.buddyAlloc n).1.buddyState.baseAlign := by
        rw [show (r.buddyAlloc n).1.buddyState.baseAlign = r.buddy.baseAlign from
          congrArg BuddyGeometry.baseAlign geometry]
        exact align
      have pow : isPow2 1 = true := rfl
      rw [BuddyState.servableAligned, BuddyState.servable, BuddyState.alignedOrder_one]
      by_cases base : (r.buddyAlloc n).1.buddyState.base = 0
      · simp [base]
      · simp [base, low, pow, show n ≠ 0 by omega]
    have ptr : (r.buddyAlloc n).2.ptr = 0 := by rw [null]; rfl
    have slow : r.buddyAlloc n = ((r.buddyAlloc n).1, .null) := Prod.ext rfl null
    rw [if_pos ptr, RegionState.largeAllocSlow, servable, second]
    by_cases spare : (r.buddyAlloc n).1.spare = nullOff
    · simp only [spare, decide_true, Bool.true_or, if_true]
      rw [if_neg (by simp)]
      exact slow.symm
    · by_cases serves : (r.buddyAlloc n).1.buddyState.servable n = true
      · simp [spare, serves, ptr]
      · rw [if_pos (by simp [serves]), if_neg (by simp [serves])]
        exact slow.symm

/-- `large_alloc_aligned` grants a buddy block if there is room for one, and else declines. -/
theorem RegionInv.largeAllocAligned_room (h : RegionInv r v) (positive : 0 < n)
    (pow : isPow2 a = true)
    : (BlockRoom C n a r.toRegion v
        ∧ Granted r v (C.classSmall + 1) (BuddyState.alignedOrder C.buddy n a)
          (r.largeAllocAligned n a))
      ∨ (¬BlockRoom C n a r.toRegion v ∧ Declined r v (r.largeAllocAligned n a)) := by
  rcases h.largeAllocAligned positive pow (C.classSmall + 1) with
      ⟨le, granted⟩ | ⟨declined, reason⟩
  · refine Or.inl ⟨⟨le, ?_⟩, granted⟩
    cases granted with
    | small _ request _ _ _ _ _ => omega
    | large _ room _ => exact ⟨_, room⟩
  · refine Or.inr ⟨?_, declined⟩
    rintro ⟨le, x, room⟩
    rcases reason with low | full
    · omega
    · exact full x room

/-- `small_alloc` grants a block of a sheet if the sheets have one or there is room for one
more sheet, and else declines.
-/
theorem RegionInv.smallAlloc_room (h : RegionInv r v) (positive : 0 < n)
    (small : n ≤ C.classSmall) (o : Nat)
    : (SheetRoom C n r.toRegion v ∧ Granted r v n o (r.smallAlloc n))
      ∨ (¬SheetRoom C n r.toRegion v ∧ Declined r v (r.smallAlloc n)) := by
  by_cases offers : v.tlsf.Offers C.tlsf (TlsfState.adjusted C.tlsf n)
  · rcases h.smallAlloc positive small o with granted | ⟨_, none⟩
    · exact Or.inl ⟨Or.inl offers, granted⟩
    · exact absurd offers none
  · rw [RegionState.smallAlloc_slow (h.tlsfAlloc_none offers)]
    rcases h.smallAllocSlow positive small offers with
        ⟨_, _, _, chunk, _, _, _, room, _⟩ | ⟨null, reason, _⟩
    · have live : (r.smallAllocSlow n).2.ptr ≠ 0 := by
        have := h.buddy.rep.geometry.base_pos
        change 0 < r.buddy.base at this
        rw [chunk]
        simp only
        omega
      have budget : r.tlsf.count < C.tlsf.maxSheets := by
        by_contra full
        exact live (by simp [RegionState.smallAllocSlow, not_lt.mp full, Chunk.null])
      refine Or.inl ⟨Or.inr ⟨budget, room⟩, ?_⟩
      exact (h.smallAllocSlow_outcome positive small offers o).resolve_right
        (fun declined => live declined.null)
    · refine Or.inr ⟨?_, ?_⟩
      · rintro (some | ⟨budget, y, room⟩)
        · exact offers some
        · rcases reason with full | none
          · exact absurd budget (not_lt.mpr full)
          · exact none y room
      · rcases h.smallAllocSlow_outcome positive small offers o with granted | declined
        · exact absurd (by rw [null]; rfl) (granted.live h)
        · exact declined

/-- A granted block lies in the data area of its region. -/
theorem Granted.inside (granted : Granted r v n o c)
    : r.buddy.base ≤ c.2.ptr ∧ c.2.ptr < r.buddy.base + r.buddy.total := by
  cases granted with
  | @small x take w chunk _ _ _ _ _ step =>
      have block : w.live.small x = some take := by
        rw [step.live_eq]
        simp [Live.setSmall]
      obtain ⟨sh, member, lo, hi⟩ := step.inv.small_inside block
      have size := (step.inv.tlsf.granted_block block).2.2.1
      have fits := (step.inv.sheet_lt member).2.1
      have total : c.1.buddy.total = r.buddy.total := step.total_eq
      rw [chunk]
      simp only [headerSize]
      omega
  | @large x w chunk room _ =>
      have fits := room.2.1
      have := C.buddy.orderSize_pos o
      rw [chunk]
      simp only
      omega

end Regions

-----------------------------------------------------------------------------------------
-- First fit
-----------------------------------------------------------------------------------------

/-- The call granted a block of tier `t` in region `i`, and no region was added. -/
inductive Chosen {C : Config} (s : HeapState C) (held : Nat → Option Block) (i : Nat) (t : Tier)
    (c : HeapState C × Chunk)
    : Prop
  | block {p : Nat} {b : Block} {v' : Nat → RegionView} (less : i < s.count)
      (chunk : c.2 = ⟨p, b.len⟩) (notNull : p ≠ 0) (tier : b.tier = t)
      (inside : (s.geo i).base ≤ p ∧ p < (s.geo i).base + (s.geo i).total)
      (count : c.1.count = s.count)
      (step : HeapStep s c.1 v' held (Function.update held p (some b)))

section FirstFit

variable {C : Config} {s s' : HeapState C} {v v' : Nat → RegionView} {held : Nat → Option Block}
  {n o a i : Nat} {t : Tier} {c : HeapState C × Chunk} {f : RegionState C → RegionState C × Chunk}

theorem Chosen.notNull (chosen : Chosen s held i t c) : c.2.ptr ≠ 0 := by
  cases chosen with
  | block _ chunk notNull _ _ _ _ => rwa [chunk]

/-- The block is found where it was placed. -/
theorem Chosen.located (chosen : Chosen s held i t c)
    : (c.1.locate c.2.ptr).2.r = some i ∧ (c.1.locate c.2.ptr).2.t = t := by
  cases chosen with
  | @block p b v' less chunk _ tier inside count step =>
      have some : i < c.1.count := by omega
      have ready := step.inv.inited_of_count (show 0 < c.1.count by omega)
      have known : Function.update held p (Option.some b) p = Option.some b :=
        Function.update_self _ _ _
      have place : (c.1.geo i).base ≤ p ∧ p < (c.1.geo i).base + (c.1.geo i).total := by
        rwa [step.geo i less]
      rw [chunk]
      have found := (step.inv.locate ready p).2
      have same := (found.held_iff step.inv).mp known
      generalize (c.1.locate p).2 = l at found same
      cases found with
      | @small j x n lessJ block at_ =>
          have holds : (v' j).live.Holds C.buddy (c.1.geo j).base p ⟨n - headerSize, .tlsf⟩ :=
            Or.inr ⟨x, n, block, at_, rfl⟩
          obtain rfl := step.inv.holds_apart lessJ some holds place
          refine ⟨rfl, ?_⟩
          rw [← tier, same.2]
      | @large j x o lessJ block at_ =>
          have holds : (v' j).live.Holds C.buddy (c.1.geo j).base p
              ⟨C.buddy.orderSize o, .buddy⟩ := Or.inl ⟨x, o, block, at_, rfl⟩
          obtain rfl := step.inv.holds_apart lessJ some holds place
          refine ⟨rfl, ?_⟩
          rw [← tier, same.2]
      | absent free =>
          rw [free] at known
          cases known

/-- A grant of region `i`; what suits the request gives the tier away. -/
theorem HeapInv.chosen (h : HeapInv s v held) (less : i < s.count)
    (granted : Granted (s.region i) (v i) n o (f (s.region i)))
    (tier : ∀ b, Suits C n o b → b.len < u32 → b.tier = t)
    : Chosen s held i t (s.onRegion i f) := by
  have region := h.regions i less
  have inside := granted.inside
  cases h.regionGranted less granted (granted.native region) region.native_le with
  | @block p b v' chunk notNull _ _ suits _ _ step =>
      have place : (f (s.region i)).2.ptr = p := congrArg Chunk.ptr chunk
      rw [place] at inside
      refine .block less chunk notNull (tier b suits ?_) inside rfl step
      obtain ⟨j, lessJ, lo, hi, _⟩ := step.inv.held_inside (Function.update_self p _ held)
      have sound := (step.inv.regions j lessJ).buddy.rep.geometry
      have most : ((s.onRegion i f).1.geo j).total ≤ BuddyParams.maxTotal := sound.total_le
      have cap : BuddyParams.maxTotal = 4294967280 := rfl
      have word : u32 = 4294967296 := rfl
      omega

/-- What is chosen after quiet calls was there before. -/
theorem Quiet.chosen (quiet : Quiet s v held s' v') (chosen : Chosen s' held i t c)
    : Chosen s held i t c := by
  cases chosen with
  | block less chunk notNull tier inside count step =>
      rw [quiet.steady.count] at less count
      rw [quiet.step.geo i less] at inside
      exact .block less chunk notNull tier inside count
        (quiet.step.trans step (fun _ _ => id) (fun _ _ => id))

/-- A scan is first fit, by induction on the regions left. -/
theorem HeapInv.tryFrom_first_fit {A : Region → RegionView → Prop}
    (spec : ∀ {r : RegionState C} {w : RegionView}, RegionInv r w →
      (A r.toRegion w ∧ Granted r w n o (f r)) ∨ (¬A r.toRegion w ∧ Declined r w (f r)))
    (tier : ∀ b, Suits C n o b → b.len < u32 → b.tier = t) (k : Nat)
    : ∀ {i : Nat} {s : HeapState C} {v : Nat → RegionView}, HeapInv s v held →
      i + k ≤ s.count →
      (∃ j, i ≤ j ∧ j < i + k ∧ A (s.regions j) (v j)
          ∧ (∀ l, i ≤ l → l < j → ¬A (s.regions l) (v l))
          ∧ Chosen s held j t (HeapState.tryFrom f k i (s, .null)))
        ∨ ((∀ j, i ≤ j → j < i + k → ¬A (s.regions j) (v j))
          ∧ (HeapState.tryFrom f k i (s, .null)).2 = .null
          ∧ ∃ v', Quiet s v held (HeapState.tryFrom f k i (s, .null)).1 v') := by
  induction k with
  | zero =>
      intro i s v h _
      exact Or.inr ⟨fun j _ _ => by omega, rfl, v, .refl h⟩
  | succ k ih =>
      intro i s v h fits
      have less : i < s.count := by omega
      rw [HeapState.tryFrom, if_neg (by simp [Chunk.null])]
      rcases spec (h.regions i less) with ⟨able, granted⟩ | ⟨unable, null, w, unchanged⟩
      · have chosen := h.chosen less granted tier
        rw [HeapState.tryFrom_done chosen.notNull]
        exact Or.inl ⟨i, le_rfl, by omega, able, fun l lo hi => by omega, chosen⟩
      · have first := h.regionUnchanged less unchanged
        have call : s.onRegion i f = (s.setRegion i (f (s.region i)).1, .null) :=
          Prod.ext rfl null
        have other : ∀ {j}, j ≠ i →
            A ((s.setRegion i (f (s.region i)).1).regions j) (Function.update v i w j)
            = A (s.regions j) (v j) := by
          intro j differ
          simp only [HeapState.setRegion, Function.update_of_ne differ]
        rw [call]
        rcases ih first.step.inv (by change i + 1 + k ≤ s.count; omega) with
            ⟨j, lo, hi, able, before, chosen⟩ | ⟨none, null', v', rest⟩
        · refine Or.inl ⟨j, by omega, by omega, by rwa [other (by omega)] at able,
            fun l lo' hi' => ?_, first.chosen chosen⟩
          by_cases same : l = i
          · subst same
            exact unable
          · rw [← other same]
            exact before l (by omega) hi'
        · refine Or.inr ⟨fun j lo hi => ?_, null', v', first.trans rest⟩
          by_cases same : j = i
          · subst same
            exact unable
          · rw [← other same]
            exact none j (by omega) (by omega)

end FirstFit

-----------------------------------------------------------------------------------------
-- The choice of a region
-----------------------------------------------------------------------------------------

namespace HeapState

variable {C : Config}

/-- The first region on which a call, made by itself, would succeed. -/
def firstAble (s : HeapState C) (f : RegionState C → RegionState C × Chunk) : Option Nat :=
  (List.range s.count).find? (fun i => decide ((f (s.region i)).2.ptr ≠ 0))

/-- Where a request for `n` bytes belongs: in the first region whose sheets can serve it, if it
is small, and else in the first one whose buddy list can.
-/
def choice (s : HeapState C) (n : Nat) : Option (Nat × Tier) :=
  let sheets := if n ≤ C.classSmall then s.firstAble (fun r => r.smallAlloc n) else none
  match sheets with
  | some i => some (i, .tlsf)
  | none => (s.firstAble (fun r => r.largeAlloc n)).map (fun i => (i, .buddy))

/-- Where an over-aligned request belongs. -/
def choiceAligned (s : HeapState C) (n alignment : Nat) : Option (Nat × Tier) :=
  (s.firstAble (fun r => r.largeAllocAligned n alignment)).map (fun i => (i, .buddy))

end HeapState

section Choice

variable {C : Config} {s s' : HeapState C} {v v' : Nat → RegionView} {held : Nat → Option Block}
  {n o a i : Nat} {t : Tier} {c : HeapState C × Chunk} {f : RegionState C → RegionState C × Chunk}
  {A : Region → RegionView → Prop}

/-- A region is able to serve a request exactly if it has room for it. -/
theorem able_iff {r : RegionState C} {w : RegionView} (h : RegionInv r w)
    (spec : (A r.toRegion w ∧ Granted r w n o (f r)) ∨ (¬A r.toRegion w ∧ Declined r w (f r)))
    : decide ((f r).2.ptr ≠ 0) = true ↔ A r.toRegion w := by
  rw [decide_eq_true_eq]
  rcases spec with ⟨able, granted⟩ | ⟨unable, declined⟩
  · exact ⟨fun _ => able, fun _ => granted.live h⟩
  · exact ⟨fun live => absurd declined.null live, fun able => absurd able unable⟩

theorem HeapInv.firstAble_some (h : HeapInv s v held)
    (spec : ∀ {r : RegionState C} {w : RegionView}, RegionInv r w →
      (A r.toRegion w ∧ Granted r w n o (f r)) ∨ (¬A r.toRegion w ∧ Declined r w (f r)))
    : s.firstAble f = some i
      ↔ i < s.count ∧ A (s.regions i) (v i) ∧ ∀ j < i, ¬A (s.regions j) (v j) := by
  have able : ∀ j < s.count, (decide ((f (s.region j)).2.ptr ≠ 0) = true
      ↔ A (s.regions j) (v j)) :=
    fun j less => able_iff (h.regions j less) (spec (h.regions j less))
  rw [HeapState.firstAble, List.find?_range_eq_some]
  constructor
  · rintro ⟨here, mem, before⟩
    have less := List.mem_range.mp mem
    refine ⟨less, (able i less).mp here, fun j lt can => ?_⟩
    have := before j lt
    rw [(able j (by omega)).mpr can] at this
    cases this
  · rintro ⟨less, here, before⟩
    refine ⟨(able i less).mpr here, List.mem_range.mpr less, fun j lt => ?_⟩
    rw [Bool.not_eq_true', ← Bool.not_eq_true]
    exact fun can => before j lt ((able j (by omega)).mp can)

theorem HeapInv.firstAble_none (h : HeapInv s v held)
    (spec : ∀ {r : RegionState C} {w : RegionView}, RegionInv r w →
      (A r.toRegion w ∧ Granted r w n o (f r)) ∨ (¬A r.toRegion w ∧ Declined r w (f r)))
    : s.firstAble f = none ↔ ∀ i < s.count, ¬A (s.regions i) (v i) := by
  have able : ∀ j < s.count, (decide ((f (s.region j)).2.ptr ≠ 0) = true
      ↔ A (s.regions j) (v j)) :=
    fun j less => able_iff (h.regions j less) (spec (h.regions j less))
  rw [HeapState.firstAble, List.find?_range_eq_none]
  refine forall₂_congr (fun j less => ?_)
  rw [Bool.not_eq_true', ← Bool.not_eq_true, able j less]

/-- Both passes of a search, for a call of which the regions can tell by themselves whether it
succeeds.
-/
theorem HeapInv.scan_choice (h : HeapInv s v held)
    (spec : ∀ {r : RegionState C} {w : RegionView}, RegionInv r w →
      (A r.toRegion w ∧ Granted r w n o (f r)) ∨ (¬A r.toRegion w ∧ Declined r w (f r)))
    (tier : ∀ b, Suits C n o b → b.len < u32 → b.tier = t)
    : (∃ i, s.firstAble f = some i
        ∧ Chosen s held i t (HeapState.tryFrom f s.count 0 (s, .null)))
      ∨ (s.firstAble f = none ∧ (HeapState.tryFrom f s.count 0 (s, .null)).2 = .null
        ∧ ∃ v', Quiet s v held (HeapState.tryFrom f s.count 0 (s, .null)).1 v') := by
  rcases h.tryFrom_first_fit spec tier s.count (i := 0) (by omega) with
      ⟨i, _, less, able, before, chosen⟩ | ⟨none, null, quiet⟩
  · exact Or.inl ⟨i, (h.firstAble_some spec).mpr
      ⟨by omega, able, fun j lt => before j (Nat.zero_le j) lt⟩, chosen⟩
  · exact Or.inr ⟨(h.firstAble_none spec).mpr
      (fun i less => none i (Nat.zero_le i) (by omega)), null, quiet⟩

/-- A small request is served by a sheet, as no buddy block has the order 64. -/
theorem Suits.in_sheet {b : Block} (suits : Suits C n 64 b) (short : b.len < u32)
    : b.tier = .tlsf := by
  rcases suits with ⟨tier, _⟩ | ⟨_, len⟩
  · exact tier
  · have high : 2 ^ 64 ≤ C.buddy.orderSize 64 := by
      rw [C.buddy.orderSize_eq]
      exact Nat.pow_le_pow_right (by decide) (Nat.le_add_left 64 _)
    have word : u32 = 4294967296 := rfl
    omega

theorem Suits.in_blocks {b : Block} (suits : Suits C (C.classSmall + 1) o b) : b.tier = .buddy := by
  rcases suits with ⟨_, small, _⟩ | ⟨tier, _⟩
  · omega
  · exact tier

/-- The calls of a search, as regions see them. -/
theorem RegionInv.largeAlloc_room {r : RegionState C} {w : RegionView} (h : RegionInv r w)
    (positive : 0 < n)
    : (BlockRoom C n 1 r.toRegion w
        ∧ Granted r w (C.classSmall + 1) (BuddyState.alignedOrder C.buddy n 1) (r.largeAlloc n))
      ∨ (¬BlockRoom C n 1 r.toRegion w ∧ Declined r w (r.largeAlloc n)) := by
  rw [h.largeAlloc_one positive]
  exact h.largeAllocAligned_room positive rfl

/-- Quiet calls do not change what buddy lists have room for. -/
theorem Quiet.blockRoom (h : HeapInv s v held) (quiet : Quiet s v held s' v')
    (less : i < s.count)
    : BlockRoom C n a (s'.regions i) (v' i) ↔ BlockRoom C n a (s.regions i) (v i) := by
  refine and_congr ?_ (exists_congr (fun x => quiet.room h less))
  rw [show (s'.regions i).buddy.baseAlign = (s.regions i).buddy.baseAlign from
    congrArg BuddyGeometry.baseAlign (quiet.step.geo i less)]

/-- Quiet calls do not change the choice among regions whose room they do not change. -/
theorem Quiet.firstAble (h : HeapInv s v held) (quiet : Quiet s v held s' v')
    (spec : ∀ {r : RegionState C} {w : RegionView}, RegionInv r w →
      (A r.toRegion w ∧ Granted r w n o (f r)) ∨ (¬A r.toRegion w ∧ Declined r w (f r)))
    (keeps : ∀ i < s.count, A (s'.regions i) (v' i) ↔ A (s.regions i) (v i))
    : s'.firstAble f = s.firstAble f := by
  refine Option.ext (fun i => ?_)
  rw [quiet.step.inv.firstAble_some spec, h.firstAble_some spec, quiet.steady.count]
  refine and_congr_right (fun less => and_congr (keeps i less) ?_)
  exact forall₂_congr (fun j lt => not_congr (keeps j (by omega)))

/-- The plain search follows the choice. -/
theorem HeapInv.plainScan_choice (h : HeapInv s v held) (positive : 0 < n)
    : (∃ i t, s.choice n = some (i, t) ∧ Chosen s held i t (s.plainScan n))
      ∨ (s.choice n = none ∧ (s.plainScan n).2 = .null
        ∧ ∃ v', Quiet s v held (s.plainScan n).1 v') := by
  have large : ∀ {u : HeapState C} {w : Nat → RegionView}, HeapInv u w held → _ :=
    fun {u w} (inv : HeapInv u w held) =>
      inv.scan_choice (f := fun r => r.largeAlloc n) (A := BlockRoom C n 1) (t := .buddy)
        (fun region => region.largeAlloc_room positive) (fun _ suits _ => suits.in_blocks)
  rw [HeapState.choice, HeapState.plainScan]
  by_cases small : n ≤ C.classSmall
  · simp only [if_pos small]
    rcases h.scan_choice (f := fun r => r.smallAlloc n) (A := SheetRoom C n) (t := .tlsf)
        (fun region => region.smallAlloc_room positive small 64)
        (fun _ suits => suits.in_sheet) with
        ⟨i, first, chosen⟩ | ⟨none, null, v₂, quiet⟩
    · rw [first, if_pos chosen.notNull]
      exact Or.inl ⟨i, .tlsf, rfl, chosen⟩
    rw [none, if_neg (by rw [null]; simp [Chunk.null])]
    have before := quiet.collect .fallback 0
    generalize (HeapState.tryFrom (fun r : RegionState C => r.smallAlloc n) s.count 0
      (s, .null)).1.collect .fallback 0 = s₂ at before ⊢
    have same : s₂.firstAble (fun r => r.largeAlloc n) = s.firstAble (fun r => r.largeAlloc n) :=
      before.firstAble h (fun region => region.largeAlloc_room positive)
        (fun i less => before.blockRoom h less)
    rw [← before.steady.count, ← same]
    rcases large before.step.inv with ⟨i, first, chosen⟩ | ⟨none', null', v₃, later⟩
    · rw [first]
      exact Or.inl ⟨i, .buddy, rfl, before.chosen chosen⟩
    · rw [none']
      exact Or.inr ⟨rfl, null', v₃, before.trans later⟩
  · simp only [if_neg small]
    rcases large h with ⟨i, first, chosen⟩ | ⟨none, null, quiet⟩
    · rw [first]
      exact Or.inl ⟨i, .buddy, rfl, chosen⟩
    · rw [none]
      exact Or.inr ⟨rfl, null, quiet⟩

end Choice

-----------------------------------------------------------------------------------------
-- Growth
-----------------------------------------------------------------------------------------

section Growing

variable {C : Config} {s u g : HeapState C} {v w : Nat → RegionView} {held : Nat → Option Block}
  {n a i bytes : Nat} {k : Tier} {x : RegionView} {scan : HeapState C → HeapState C × Chunk}
  {f : HeapState C → Option (Nat × Tier)}

theorem SheetRoom.serves {r : RegionState C} {x : RegionView} (room : SheetRoom C n r.toRegion x)
    (positive : 0 < n) (small : n ≤ C.classSmall)
    : x.Serves C r.buddy.total n := by
  rcases room with offers | ⟨_, y, room⟩
  · exact Or.inr ⟨small, offers⟩
  · have fits : n ≤ C.buddy.orderSize C.sheetOrder := by
      have := C.small_in_sheet
      have : C.classSmall = C.tlsf.smallMax := rfl
      rw [C.orderSize_sheet]
      omega
    exact Or.inl ⟨y, (room.busy (T := C.tlsf)).mono ((C.buddy.orderForSize_le positive).mpr fits)⟩

theorem BlockRoom.serves {r : RegionState C} {x : RegionView} (room : BlockRoom C n 1 r.toRegion x)
    : x.Serves C r.buddy.total n := by
  obtain ⟨_, y, room⟩ := room
  rw [BuddyState.alignedOrder_one] at room
  exact Or.inl ⟨y, room⟩

/-- There is a choice if some region serves the request. -/
theorem HeapInv.choice_none (h : HeapInv s v held) (positive : 0 < n) (none : s.choice n = none)
    : ∀ i < s.count, ¬(v i).Serves C (s.geo i).total n := by
  have blocks : s.firstAble (fun r => r.largeAlloc n) = Option.none := by
    rw [HeapState.choice] at none
    split at none
    · cases none
    · exact Option.map_eq_none_iff.mp none
  have unable := (h.firstAble_none (A := BlockRoom C n 1)
    (fun region => region.largeAlloc_room positive)).mp blocks
  rintro i less (⟨y, room⟩ | ⟨small, offers⟩)
  · refine unable i less ⟨?_, y, ?_⟩
    · have := (h.regions i less).native_le
      simp only [nativeAlignment] at this
      exact le_trans (by omega) this
    · rw [BuddyState.alignedOrder_one]
      exact room
  · have sheets : s.firstAble (fun r => r.smallAlloc n) = Option.none := by
      rw [HeapState.choice] at none
      simp only [if_pos small] at none
      split at none
      · cases none
      · assumption
    exact (h.firstAble_none (A := SheetRoom C n)
      (fun region => region.smallAlloc_room positive small 64)).mp sheets i less (Or.inl offers)

/-- A choice is made among the regions, by room for a sheet or for a block. -/
theorem HeapInv.choice_room (h : HeapInv s v held) (positive : 0 < n)
    (some : s.choice n = some (i, k))
    : i < s.count ∧ (v i).Serves C (s.geo i).total n := by
  rw [HeapState.choice] at some
  split at some
  · next first =>
      cases some
      split at first
      · next small =>
          obtain ⟨less, room, _⟩ := (h.firstAble_some (A := SheetRoom C n)
            (fun region => region.smallAlloc_room positive small 64)).mp first
          exact ⟨less, SheetRoom.serves (r := s.region i) room positive small⟩
      · cases first
  · obtain ⟨j, first, same⟩ := Option.map_eq_some_iff.mp some
    cases same
    obtain ⟨less, room, _⟩ := (h.firstAble_some (A := BlockRoom C n 1)
      (fun region => region.largeAlloc_room positive)).mp first
    exact ⟨less, BlockRoom.serves (r := s.region i) room⟩

/-- The slow path of a heap with a choice follows it, and else it may choose a region that it
adds.
-/
theorem HeapInv.slowWith_choice (h : HeapInv s v held) (ready : s.inited = true)
    (pages : s.FreshPages)
    (spec : ∀ {t : HeapState C} {w : Nat → RegionView}, HeapInv t w held →
      (∃ i k, f t = some (i, k) ∧ Chosen t held i k (scan t))
        ∨ (f t = none ∧ (scan t).2 = .null ∧ ∃ w', Quiet t w held (scan t).1 w'))
    (old : ∀ {u g : HeapState C} {w : Nat → RegionView} {x : RegionView} {i : Nat} {k : Tier},
      f s = none → Quiet s v held u w → HeapInv g (Function.update w s.count x) held →
      (∀ i < s.count, g.regions i = u.regions i) → f g = some (i, k) → s.count ≤ i)
    : (∃ i k, f s = some (i, k) ∧ Chosen s held i k (s.slowWith scan bytes))
      ∨ (f s = none ∧ ((s.slowWith scan bytes).2 = .null
        ∨ (s.slowWith scan bytes).1.count = s.count + 1
          ∧ ((s.slowWith scan bytes).1.locate (s.slowWith scan bytes).2.ptr).2.r
            = some s.count)) := by
  rcases spec h with ⟨i, k, picked, chosen⟩ | ⟨none, null, w, quiet⟩
  · rw [HeapState.slowWith_granted ready chosen.notNull]
    exact Or.inl ⟨i, k, picked, chosen⟩
  refine Or.inr ⟨none, ?_⟩
  have call : s.slowWith scan bytes =
      if ((scan s).1.grow bytes).2 then scan ((scan s).1.grow bytes).1
      else (((scan s).1.grow bytes).1, .null) := by
    simp only [HeapState.slowWith, ready, null, Chunk.null, Bool.not_true, Bool.false_eq_true,
      if_false, if_true]
  rw [call]
  cases quiet.step.inv.grow (quiet.pages pages) bytes with
  | same no _ _ =>
      rw [if_neg (by simp [no])]
      exact Or.inl rfl
  | added ok fresh step count _ =>
      rw [if_pos ok]
      have inv := step.inv
      rw [quiet.steady.count] at inv count
      rcases spec inv with ⟨i, k, picked, chosen⟩ | ⟨_, null', _⟩
      · have beyond := old none quiet inv (fun i less => HeapState.grow_regions _ _ (by
          rw [quiet.steady.count]
          exact Nat.ne_of_lt less)) picked
        have located := chosen.located.1
        cases chosen with
        | block less _ _ _ _ count' _ =>
            obtain rfl : i = s.count := by omega
            exact Or.inr ⟨by rw [count', count], located⟩
      · exact Or.inl null'

/-- `alloc` follows the choice, if there is one, and else it adds a region or refuses. -/
theorem HeapInv.alloc_choice (h : HeapInv s v held) (fits : C.PoolFits) (supply : s.Supplied)
    (attached : 0 < s.count) (positive : 0 < n)
    : (∃ i k, s.choice n = some (i, k) ∧ Chosen s held i k (s.alloc n))
      ∨ (s.choice n = none ∧ ((s.alloc n).2 = .null
        ∨ (s.alloc n).1.count = s.count + 1
          ∧ ((s.alloc n).1.locate (s.alloc n).2.ptr).2.r = some s.count)) := by
  have plain : s.plainAlloc n = s.slowWith (fun s => s.plainScan n) n := if_neg (by omega)
  rw [h.alloc_plain fits supply (Or.inr attached), plain]
  refine h.slowWith_choice (f := fun s => s.choice n) (h.inited_of_count attached) supply.now
    (fun inv => inv.plainScan_choice positive) ?_
  intro u g w x i k none quiet inv same picked
  by_contra less
  have less : i < s.count := by omega
  obtain ⟨_, serves⟩ := inv.choice_room positive picked
  have geo : g.geo i = s.geo i := by
    rw [← quiet.step.geo i less, HeapState.geo, HeapState.geo, same i less]
  rw [Function.update_of_ne (by omega), geo] at serves
  exact h.choice_none positive none i less ((quiet.serves i less n positive).mp serves)

/-- So does `alloc_aligned`. -/
theorem HeapInv.allocAligned_choice (h : HeapInv s v held) (fits : C.PoolFits)
    (supply : s.Supplied) (attached : 0 < s.count) (positive : 0 < n) (pow : isPow2 a = true)
    (beyond : nativeAlignment < a)
    : (∃ i k, s.choiceAligned n a = some (i, k) ∧ Chosen s held i k (s.allocAligned n a))
      ∨ (s.choiceAligned n a = none ∧ ((s.allocAligned n a).2 = .null
        ∨ (s.allocAligned n a).1.count = s.count + 1
          ∧ ((s.allocAligned n a).1.locate (s.allocAligned n a).2.ptr).2.r = some s.count)) := by
  have spec : ∀ {r : RegionState C} {w : RegionView}, RegionInv r w → _ := fun {r w}
    (region : RegionInv r w) => region.largeAllocAligned_room positive pow
  have plain : s.plainAllocAligned n a
      = s.slowWith (fun s => s.allocAlignedScan n a) (HeapState.alignedGrowth C n a) := by
    rw [HeapState.plainAllocAligned, if_neg (by simp [pow, show n ≠ 0 by omega]),
      if_neg (by omega), s.allocAlignedSlow_eq]
  rw [h.allocAligned_plain fits supply (Or.inr (Or.inl attached)), plain]
  refine h.slowWith_choice (f := fun s => s.choiceAligned n a) (h.inited_of_count attached)
    supply.now (fun {t w} inv => ?_) ?_
  · rcases inv.scan_choice spec (t := .buddy) (fun _ suits _ => suits.in_blocks) with
        ⟨i, first, chosen⟩ | ⟨none, null, quiet⟩
    · exact Or.inl ⟨i, .buddy, by rw [HeapState.choiceAligned, first]; rfl, chosen⟩
    · exact Or.inr ⟨by rw [HeapState.choiceAligned, none]; rfl, null, quiet⟩
  · intro u g w x i k none quiet inv same picked
    by_contra less
    have less : i < s.count := by omega
    obtain ⟨j, first, eq⟩ := Option.map_eq_some_iff.mp picked
    cases eq
    have room := ((inv.firstAble_some spec).mp first).2.1
    rw [Function.update_of_ne (by omega), same i less] at room
    exact (h.firstAble_none spec).mp (Option.map_eq_none_iff.mp none) i less
      ((quiet.blockRoom h less).mp room)

end Growing

end Bbmalloc
