import Bbmalloc.Heap.Allocation
import Bbmalloc.Heap.Gauges
import Bbmalloc.Malloc.Diagnostics

/-! The gauges of the whole heap, the fragmentation gauge, and the report of `which`. What a region
can grant in one block is at most what it has available, since to grant it would raise the bytes
in use.
-/

namespace Bbmalloc

open Bbmalloc.Foundations

section Region

variable {C : Config} {r r' : RegionState C} {v v' : RegionView} {n o x take : Nat}
  {c : RegionState C × Chunk}

/-- A region with more small blocks has no fewer sheets in use. -/
theorem RegionInv.fullSheets_mono (h : RegionInv r v) (h' : RegionInv r' v')
    (more : ∀ y n, v.live.small y = some n → ∃ n', v'.live.small y = some n')
    : (r.fullSheets v).length ≤ (r'.fullSheets v').length := by
  classical
  have shown : ∀ {q : RegionState C} {u : RegionView} {sh : Nat}, RegionInv q u →
      (sh ∈ q.fullSheets u ↔ C.tlsf.sheet ∣ sh
        ∧ ∃ y n, u.live.small y = some n ∧ sh ≤ y ∧ y < sh + C.tlsf.sheet) := by
    intro q u sh inv
    have busy := inv.toRegionCore.busy_iff (x := sh) (c := (.sheet, C.sheetOrder))
    rw [RegionView.busy_eq_some, inv.sheets sh C.sheetOrder] at busy
    simpa [RegionState.fullSheets] using busy
  refine List.Subperm.length_le (List.subperm_of_subset (h.tlsf.fit.nodup.filter _) ?_)
  intro sh member
  obtain ⟨aligned, y, n, live, lo, hi⟩ := (shown h).mp member
  obtain ⟨n', live'⟩ := more y n live
  exact (shown h').mpr ⟨aligned, y, n', live', lo, hi⟩

/-- What a region could hold beyond its live blocks is available. -/
theorem RegionInv.le_available (h : RegionInv r v) (step : RegionStep r r' v' v.live v'.live)
    (more : ∀ y n, v.live.small y = some n → ∃ n', v'.live.small y = some n')
    (bytes : r.largeBytes v + r.smallBytes v + n ≤ r'.largeBytes v' + r'.smallBytes v')
    : n ≤ r.available := by
  have now := h.used_eq.1
  have sum := h.available_eq
  have later := step.inv.used_eq
  have total : r'.buddy.total = r.buddy.total := step.total_eq
  have gaps := Nat.mul_le_mul_right (C.tlsf.sheet - C.tlsf.dataBytes)
    (h.fullSheets_mono step.inv more)
  omega

/-- A granted block is taken from the bytes that are available. -/
theorem Granted.le_available (h : RegionInv r v) (granted : Granted r v n o c)
    (enough : n ≤ C.buddy.orderSize o)
    : n ≤ r.available := by
  rcases granted with
      @⟨x, take, v', _, request, _, least, _, unused, step⟩ | @⟨x, v', _, room, step⟩
  · have total : c.1.buddy.total = r.buddy.total := step.total_eq
    have live := step.live_eq
    have inside : x < r.buddy.total := by
      have known : v'.live.small x = some take := by simp [live, Live.setSmall]
      obtain ⟨sh, member, _, stop⟩ := step.inv.toRegionCore.small_inside known
      have := (step.inv.toRegionCore.sheet_lt member).2.1
      omega
    have update := blockSum_update id v.live.small (some take) inside
    rw [unused] at update
    have least' := (TlsfState.adjusted_spec (T := C.tlsf) request.1
      (TlsfState.adjusted_small (T := C.tlsf) request.1 request.2).1).2.1
    refine h.le_available (live ▸ step) (fun y m known => ?_) ?_
    · rw [live]
      rcases eq_or_ne y x with rfl | differ
      · exact ⟨take, Function.update_self _ _ _⟩
      · exact ⟨m, (Function.update_of_ne differ _ _).trans known⟩
    · simp only [RegionState.largeBytes, RegionState.smallBytes, live, total, Live.setSmall]
      simp only [Option.elim, id] at update
      omega
  · have total : c.1.buddy.total = r.buddy.total := step.total_eq
    have live := step.live_eq
    have inside : x < r.buddy.total := by
      have := room.2.1
      have := C.buddy.orderSize_pos o
      omega
    have unused : v.live.large x = none := by
      by_contra some
      obtain ⟨i, known⟩ := Option.ne_none_iff_exists'.mp some
      have busy := h.toRegionCore.busy_iff.mpr (Or.inl ⟨i, rfl, known⟩)
      rw [room.not_owned] at busy
      cases busy
    have update := blockSum_update C.buddy.orderSize v.live.large (some o) inside
    rw [unused] at update
    refine h.le_available (live ▸ step) (fun y m known => ⟨m, by rw [live]; exact known⟩) ?_
    simp only [RegionState.largeBytes, RegionState.smallBytes, live, total, Live.setLarge]
    simp only [Option.elim] at update
    omega

/-- No request that a region serves is larger than what it has available. -/
theorem RegionInv.serves_le (h : RegionInv r v) (positive : 0 < n)
    (serves : v.Serves C r.buddy.total n)
    : n ≤ r.available := by
  have enough := C.buddy.le_orderSize positive
  by_cases room : ∃ x, Room C.buddy r.buddy.total (v.busy C.tlsf) (C.buddy.orderForSize n) x
  · obtain ⟨x, room⟩ := room
    rcases h.largeAlloc positive with granted | ⟨_, none⟩
    · exact granted.le_available h enough
    · exact absurd room (none x)
  · obtain ⟨small, offers⟩ := serves.resolve_left room
    rcases h.tlsfAlloc positive small (C.buddy.orderForSize n) with granted | ⟨_, none⟩
    · exact granted.le_available h enough
    · exact absurd offers none

end Region

-----------------------------------------------------------------------------------------
-- The gauges of the heap
-----------------------------------------------------------------------------------------

section Sums

variable {C : Config} {s : HeapState C} {v : Nat → RegionView} {held : Nat → Option Block}
  {f : RegionState C → Nat} {i largest avail : Nat}

/-- A sum over the regions, up to the word size. -/
theorem HeapState.sumRegions_mod (s : HeapState C) (f : RegionState C → Nat)
    : s.sumRegions f = (∑ i ∈ Finset.range s.count, f (s.region i)) % C.buddy.word := by
  rw [sumRegions]
  generalize s.count = k
  induction k with
  | zero => simp
  | succ k ih =>
      rw [List.range_succ, List.foldl_append, ih, Finset.sum_range_succ]
      simp only [List.foldl_cons, List.foldl_nil, Nat.mod_add_mod]

/-- The data areas of the regions share one address space. -/
theorem HeapInv.totals_lt (h : HeapInv s v held)
    : ∑ i ∈ Finset.range s.count, (s.geo i).total < C.buddy.word := by
  classical
  set area : Nat → Finset Nat := fun i =>
    Finset.Ico (s.geo i).base ((s.geo i).base + (s.geo i).total) with areaEq
  have apart : ∀ i ∈ Finset.range s.count, ∀ j ∈ Finset.range s.count, i ≠ j →
      Disjoint (area i) (area j) := by
    intro i less j less' differ
    refine Finset.disjoint_left.mpr (fun a first second => ?_)
    exact h.separate i (Finset.mem_range.mp less) j (Finset.mem_range.mp less') differ a
      (Or.inr (Finset.mem_Ico.mp first)) (Or.inr (Finset.mem_Ico.mp second))
  have below : (Finset.range s.count).biUnion area ⊆ Finset.Ico 1 C.buddy.word := by
    intro a member
    obtain ⟨i, less, inside⟩ := Finset.mem_biUnion.mp member
    have sound := (h.regions i (Finset.mem_range.mp less)).buddy.rep.geometry
    have base : 0 < (s.geo i).base := sound.base_pos
    have stop : (s.geo i).base + (s.geo i).total < C.buddy.word := sound.end_lt
    obtain ⟨lo, hi⟩ := Finset.mem_Ico.mp inside
    exact Finset.mem_Ico.mpr ⟨by omega, by omega⟩
  have card := Finset.card_le_card below
  rw [Finset.card_biUnion apart] at card
  simp only [areaEq, Nat.card_Ico, Nat.add_sub_cancel_left] at card
  have word : 0 < C.buddy.word := Nat.two_pow_pos _
  omega

/-- Gauges that no region exceeds never wrap. -/
theorem HeapInv.sumRegions_eq (h : HeapInv s v held)
    (most : ∀ i < s.count, f (s.region i) ≤ (s.geo i).total)
    : s.sumRegions f = ∑ i ∈ Finset.range s.count, f (s.region i) := by
  rw [s.sumRegions_mod, Nat.mod_eq_of_lt]
  refine lt_of_le_of_lt (Finset.sum_le_sum (fun i less => ?_)) h.totals_lt
  exact most i (Finset.mem_range.mp less)

/-- The three gauges are sums over the regions, and add up. -/
theorem HeapInv.gauges_add (h : HeapInv s v held) (ready : s.inited = true)
    : s.used.2 = ∑ i ∈ Finset.range s.count, s.bytesInUse held i
      ∧ s.available.2 = ∑ i ∈ Finset.range s.count, (s.region i).available
      ∧ s.total.2 = ∑ i ∈ Finset.range s.count, (s.geo i).total
      ∧ s.used.2 + s.available.2 = s.total.2 := by
  obtain ⟨used, available, total⟩ := HeapState.gauges_ready ready
  have left : ∀ i < s.count,
      (s.region i).available + (s.region i).used = (s.geo i).total := fun i less =>
    (h.regions i less).available_eq
  rw [used, available, total]
  simp only
  rw [h.sumRegions_eq (f := RegionState.used) (fun i less => by have := left i less; omega),
    h.sumRegions_eq (f := RegionState.available) (fun i less => by have := left i less; omega),
    h.sumRegions_eq (f := fun r => r.buddy.total) (fun i less => le_rfl)]
  refine ⟨Finset.sum_congr rfl (fun i less => h.used_eq (Finset.mem_range.mp less)), rfl, rfl, ?_⟩
  rw [← Finset.sum_add_distrib]
  refine Finset.sum_congr rfl (fun i less => ?_)
  have := left i (Finset.mem_range.mp less)
  exact (Nat.add_comm _ _).trans this

/-- The largest free block is available, and no larger than a region. -/
theorem HeapInv.largestFree_le (h : HeapInv s v held) (ready : s.inited = true)
    : s.largestFree.2 ≤ s.available.2 ∧ s.largestFree.2 < 2 ^ 32 := by
  obtain ⟨_, _, _, largest⟩ := h.largestFree ready
  rcases Nat.eq_zero_or_pos s.largestFree.2 with zero | positive
  · exact ⟨by omega, by omega⟩
  obtain ⟨i, less, serves⟩ := (largest _ positive).mp le_rfl
  have one := (h.regions i less).serves_le positive serves
  have sum := (h.regions i less).available_eq
  have most : (s.geo i).total ≤ 0xFFFFFFF0 := (h.regions i less).buddy.rep.geometry.total_le
  have total : (s.region i).buddy.total = (s.geo i).total := rfl
  refine ⟨?_, by omega⟩
  rw [(h.gauges_add ready).2.1]
  exact one.trans (Finset.single_le_sum (f := fun i => (s.region i).available)
    (fun _ _ => Nat.zero_le _) (Finset.mem_range.mpr less))

/-- The part of `avail` that `largest` leaves out, in thousandths. -/
def permille (largest avail : Nat) : Nat :=
  if largest = avail then 0 else 1000 - 1000 * largest / avail

theorem permille_quotient (less : largest < avail) : 1000 * largest / avail < 1000 := by
  rw [Nat.div_lt_iff_lt_mul (by omega)]
  omega

/-- The words of 64 bits suffice for it. -/
theorem permille_word (less : largest < avail) (small : largest < 2 ^ 32)
    : (1000 + (2 ^ 64 - largest * 1000 % 2 ^ 64 / avail)) % 2 ^ 64 % 2 ^ 32
      = permille largest avail := by
  have quotient := permille_quotient less
  rw [permille, if_neg (by omega), Nat.mod_eq_of_lt (show largest * 1000 < 2 ^ 64 by omega),
    Nat.mul_comm largest]
  generalize 1000 * largest / avail = q at quotient
  rw [show 1000 + (2 ^ 64 - q) = 1000 - q + 2 ^ 64 by omega, Nat.add_mod_right]
  omega

theorem permille_le (largest avail : Nat) : permille largest avail ≤ 1000 := by
  rw [permille]
  generalize 1000 * largest / avail = q
  split <;> omega

/-- It is zero only if nothing is left out. -/
theorem permille_eq_zero (le : largest ≤ avail) : permille largest avail = 0 ↔ largest = avail := by
  rw [permille]
  split
  · simpa
  · rename_i differ
    have := permille_quotient (lt_of_le_of_ne le differ)
    omega

/-- It is one only if less than a thousandth is there. -/
theorem permille_eq_top (le : largest ≤ avail)
    : permille largest avail = 1000 ↔ 1000 * largest < avail := by
  rw [permille]
  split
  · omega
  · have zero : 1000 * largest / avail = 0 ↔ 1000 * largest < avail := by
      rw [Nat.div_eq_zero_iff]
      omega
    rw [← zero]
    generalize 1000 * largest / avail = q
    omega

/-- The gauge measures what part of the available bytes the largest free block leaves out. -/
theorem HeapInv.fragmentationPermille (h : HeapInv s v held) (ready : s.inited = true)
    : (∃ v', Quiet s v held s.fragmentationPermille.1 v')
      ∧ s.fragmentationPermille.2 = permille s.largestFree.2 s.available.2 := by
  obtain ⟨le, small⟩ := h.largestFree_le ready
  obtain ⟨v', quiet, _⟩ := h.largestFree ready
  have same : s.available.1 = s := by rw [(HeapState.gauges_ready ready).2.1]
  simp only [HeapState.fragmentationPermille, same]
  by_cases none : s.available.2 = 0
  · rw [if_pos none]
    exact ⟨⟨v, Quiet.refl h⟩, ((permille_eq_zero le).mpr (by omega)).symm⟩
  rw [if_neg none]
  by_cases all : s.largestFree.2 = s.available.2
  · rw [if_pos all.ge]
    exact ⟨⟨v', quiet⟩, ((permille_eq_zero le).mpr all).symm⟩
  · rw [if_neg (by omega)]
    exact ⟨⟨v', quiet⟩, permille_word (by omega) small⟩

end Sums

-----------------------------------------------------------------------------------------
-- The report
-----------------------------------------------------------------------------------------

/-- The counters of a region without a spare sheet. -/
theorem RegionInv.counters {C : Config} {r : RegionState C} {v : RegionView} (h : RegionInv r v)
    (noSpare : r.spare = nullOff)
    : r.used + r.tlsf.count * C.tlsf.dataBytes = r.tlsf.allocatedBytes + r.buddy.allocatedBytes
      ∧ r.tlsf.count ≤ r.buddy.total ∧ r.tlsf.allocatedBytes ≤ r.buddy.total
      ∧ r.buddy.allocatedBytes ≤ r.buddy.total := by
  obtain ⟨_, enough, most⟩ := h.used_eq
  have counted : r.tlsf.count = r.tlsf.sheets.length := h.tlsf.counted
  have sheets := h.allocatedBytes_eq
  have below : r.buddy.allocatedBytes ≤ r.buddy.total := h.buddy.rep.counter_le
  have parts := C.tlsf.sheet_parts
  have size := Nat.le_mul_of_pos_right r.tlsf.sheets.length (show 0 < C.tlsf.sheet by omega)
  have credit : r.credit = r.tlsf.count * C.tlsf.dataBytes := by
    simp [RegionState.credit, noSpare]
  have used : r.used = (if r.buddy.allocatedBytes < r.credit then 0
      else r.buddy.allocatedBytes - r.credit) + r.tlsf.allocatedBytes := rfl
  rw [if_neg (by omega)] at used
  omega

section Which

variable {C : Config} {s : HeapState C} {v : Nat → RegionView} {held : Nat → Option Block} {i : Nat}

/-- What `which` tells about a region. -/
def HeapState.row (s : HeapState C) (i : Nat) : Row :=
  ⟨i, (s.regions i).tlsf.count, (s.regions i).tlsf.allocatedBytes,
    (s.regions i).buddy.allocatedBytes⟩

/-- What `which` tells about the heap. -/
def HeapState.summary (s : HeapState C) : Report where
  regions := s.count
  capacity := s.total.2
  used := s.used.2
  available := s.available.2
  largest := s.largestFree.2
  rows := (List.range s.count).map s.largestFree.1.row

/-- The rows of a drained region. -/
theorem HeapInv.row_counters (h : HeapInv s v held) (ready : s.inited = true)
    (less : i < s.count)
    : (s.region i).used + (s.largestFree.1.row i).sheets * C.tlsf.dataBytes
        = (s.largestFree.1.row i).tlsfUsed + (s.largestFree.1.row i).buddyUsed
      ∧ ∀ f ∈ (s.largestFree.1.row i).fields, f.2 < 2 ^ 64 := by
  obtain ⟨v', quiet, drained, _⟩ := h.largestFree ready
  have less' : i < s.largestFree.1.count := by rwa [quiet.steady.count]
  have inv := quiet.step.inv.regions i less'
  obtain ⟨sum, sheets, small, large⟩ := inv.counters (drained i less).noSpare
  have most : (s.largestFree.1.region i).buddy.total ≤ 0xFFFFFFF0 :=
    inv.buddy.rep.geometry.total_le
  have index : i < 8 := by
    have := h.few
    have := C.region_count.2
    omega
  rw [(quiet.region_gauges h less).1] at sum
  refine ⟨sum, fun f mem => ?_⟩
  have words : (s.largestFree.1.region i).tlsf.count < 2 ^ 64
      ∧ (s.largestFree.1.region i).tlsf.allocatedBytes < 2 ^ 64
      ∧ (s.largestFree.1.region i).buddy.allocatedBytes < 2 ^ 64 := by
    omega
  simp only [Row.fields, List.mem_cons, List.not_mem_nil, or_false] at mem
  rcases mem with rfl | rfl | rfl | rfl
  · exact lt_trans index (by decide)
  · exact words.1
  · exact words.2.1
  · exact words.2.2

/-- The rows show the bytes in use, and the data of the sheets on top. -/
theorem HeapInv.rows_sum (h : HeapInv s v held) (ready : s.inited = true)
    : s.summary.used + (s.summary.rows.map (fun row => row.sheets * C.tlsf.dataBytes)).sum
      = (s.summary.rows.map (fun row => row.tlsfUsed + row.buddyUsed)).sum := by
  have sums : ∀ f : Nat → Nat, ((List.range s.count).map f).sum = ∑ i ∈ Finset.range s.count, f i :=
    fun f => rfl
  have used : s.used.2 = ∑ i ∈ Finset.range s.count, (s.region i).used := by
    rw [(h.gauges_add ready).1]
    exact Finset.sum_congr rfl (fun i less => (h.used_eq (Finset.mem_range.mp less)).symm)
  simp only [HeapState.summary, List.map_map, sums, used, ← Finset.sum_add_distrib]
  exact Finset.sum_congr rfl (fun i less => (h.row_counters ready (Finset.mem_range.mp less)).1)

/-- `which` writes the summary of the heap. -/
theorem HeapInv.which (h : HeapInv s v held) (ready : s.inited = true)
    : s.which = (s.largestFree.1, some s.summary.text) := by
  obtain ⟨used, available, total⟩ := HeapState.gauges_ready ready
  obtain ⟨v', quiet, _, _⟩ := h.largestFree ready
  have again : s.ensure.1 = s := HeapState.ensure_ready ready
  have state : s.used.1 = s ∧ s.available.1 = s ∧ s.total.1 = s := by
    simp [used, available, total]
  obtain ⟨_, _, totalSum, sum⟩ := h.gauges_add ready
  have word : C.buddy.word ≤ 2 ^ 64 := by
    rcases C.buddy.wordBits_ok with bits | bits <;> simp [BuddyParams.word, bits]
  have capacity : s.total.2 < C.buddy.word := totalSum ▸ h.totals_lt
  have count : s.count ≤ 8 := h.few.trans C.region_count.2
  have largest := (h.largestFree_le ready).1
  have head : HeapState.writeAll s.summary.fields = some (fieldLine s.summary.fields) := by
    refine HeapState.writeAll_eq (fun f mem => ?_)
    simp only [Report.fields, HeapState.summary, List.mem_cons, List.not_mem_nil, or_false] at mem
    rcases mem with rfl | rfl | rfl | rfl | rfl <;> simp only <;> omega
  have rows : ∀ l : List Nat, (∀ i ∈ l, i < s.count) →
      l.mapM s.largestFree.1.whichRow
        = some (l.map (fun i => fieldLine (s.largestFree.1.row i).fields ++ "\n".toList)) := by
    intro l
    induction l with
    | nil => exact fun _ => rfl
    | cons i l ih =>
        intro below
        have row : s.largestFree.1.whichRow i
            = some (fieldLine (s.largestFree.1.row i).fields ++ "\n".toList) := by
          have words := (h.row_counters ready (below i (by simp))).2
          exact congrArg (Option.map (· ++ "\n".toList)) (HeapState.writeAll_eq words)
        rw [List.mapM_cons, row, ih (fun j mem => below j (List.mem_cons_of_mem _ mem))]
        rfl
  have head' := head
  simp only [Report.fields, HeapState.summary] at head'
  simp only [HeapState.which, HeapState.regionCount, again, state.1, state.2.1, state.2.2, head',
    quiet.steady.count, rows _ (fun i mem => List.mem_range.mp mem), Option.bind_some,
    Option.map_some]
  simp [Report.text, writeLines, HeapState.summary, Report.fields, List.flatMap_def,
    Function.comp_def]

end Which

end Bbmalloc
