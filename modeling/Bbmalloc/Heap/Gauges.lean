import Bbmalloc.Heap.Allocation
import Bbmalloc.Region.Draining
import Bbmalloc.Region.Gauges

/-! The gauges of the heap: `largest_free` drains every region and returns the largest
request that any of them serves; `used`, `available` and `total` are sums over the regions.
-/

namespace Bbmalloc

open Bbmalloc.Foundations

-----------------------------------------------------------------------------------------
-- The largest free request
-----------------------------------------------------------------------------------------

/-- A region without a spare sheet and with empty cache lists: what it owns is in use. -/
structure Drained {C : Config} (r : RegionState C) (w : RegionView) : Prop where
  noSpare : r.spare = nullOff
  noCache : ∀ o, w.buddy.cached o = []
  owned : w.buddy.owned = w.busy C.tlsf

section LargestFree

variable {C : Config} {s : HeapState C} {v : Nat → RegionView} {held : Nat → Option Block}

/-- The loop of `largest_free`, by induction on the regions left: those passed are drained,
and the maximum so far bounds exactly the requests that one of them serves.
-/
theorem HeapInv.largestFrom (k : Nat)
    : ∀ {i m : Nat} {s : HeapState C} {v : Nat → RegionView}, HeapInv s v held →
      i + k ≤ s.count → (∀ j < i, Drained (s.region j) (v j)) →
      ∃ v', Quiet s v held (HeapState.largestFrom k i m s).1 v'
        ∧ (∀ j < i + k, Drained ((HeapState.largestFrom k i m s).1.region j) (v' j))
        ∧ ∀ n, 0 < n → (n ≤ (HeapState.largestFrom k i m s).2
          ↔ n ≤ m ∨ ∃ j, i ≤ j ∧ j < i + k ∧ (v j).Serves C (s.geo j).total n) := by
  induction k with
  | zero =>
      intro i m s v h _ drained
      refine ⟨v, .refl h, drained, fun n _ => ⟨Or.inl, ?_⟩⟩
      rintro (le | ⟨j, lo, hi, _⟩)
      · exact le
      · omega
  | succ k ih =>
      intro i m s v h fits drained
      have less : i < s.count := by omega
      obtain ⟨w, unchanged, spare, cache, owned, exact⟩ := (h.regions i less).largestFree
      have first := h.regionUnchanged less unchanged
      have busy : w.busy C.tlsf = (v i).busy C.tlsf :=
        (h.regions i less).busy_congr unchanged.step.inv.toRegionCore unchanged.step.live_eq
      rw [HeapState.largestFrom]
      simp only [HeapState.onRegion]
      obtain ⟨v', rest, drained', largest⟩ := ih first.step.inv
        (i := i + 1) (m := if (s.region i).largestFree.2 > m then (s.region i).largestFree.2 else m)
        (by rw [first.steady.count]; omega) (fun j below => by
          by_cases same : j = i
          · subst same
            rw [Function.update_self, HeapState.region_setRegion]
            exact ⟨spare, cache, owned.trans busy.symm⟩
          · rw [Function.update_of_ne same, s.region_setRegion_ne _ same]
            obtain ⟨spare', cache', owned'⟩ := drained j (by omega)
            exact ⟨spare', cache', owned'⟩)
      refine ⟨v', first.trans rest, fun j below => drained' j (by omega),
        fun n positive => (largest n positive).trans ?_⟩
      have step : (n ≤ if (s.region i).largestFree.2 > m then (s.region i).largestFree.2 else m)
          ↔ n ≤ m ∨ (v i).Serves C (s.geo i).total n := by
        have last : (v i).Serves C (s.geo i).total n ↔ n ≤ (s.region i).largestFree.2 :=
          (exact n positive).symm
        rw [last]
        split <;> omega
      rw [step, or_assoc]
      refine or_congr_right ⟨?_, ?_⟩
      · rintro (serves | ⟨j, lo, hi, serves⟩)
        · exact ⟨i, le_rfl, by omega, serves⟩
        · rw [Function.update_of_ne (by omega), first.step.geo j (by omega)] at serves
          exact ⟨j, by omega, by omega, serves⟩
      · rintro ⟨j, lo, hi, serves⟩
        by_cases same : j = i
        · subst same
          exact Or.inl serves
        · refine Or.inr ⟨j, by omega, by omega, ?_⟩
          rw [Function.update_of_ne same, first.step.geo j (by omega)]
          exact serves

/-- `largest_free` of an initialised heap: the largest request that a region serves. -/
theorem HeapInv.largestFree (h : HeapInv s v held) (ready : s.inited = true)
    : ∃ v', Quiet s v held s.largestFree.1 v'
        ∧ (∀ i < s.count, Drained (s.largestFree.1.region i) (v' i))
        ∧ ∀ n, 0 < n →
          (n ≤ s.largestFree.2 ↔ ∃ i < s.count, (v i).Serves C (s.geo i).total n) := by
  have call : s.largestFree = HeapState.largestFrom s.count 0 0 s := by
    simp [HeapState.largestFree, HeapState.ensure, ready]
  rw [call]
  obtain ⟨v', quiet, drained, largest⟩ :=
    h.largestFrom s.count (i := 0) (m := 0) (by omega) (fun j below => by omega)
  refine ⟨v', quiet, fun i less => drained i (by omega),
    fun n positive => (largest n positive).trans ⟨?_, ?_⟩⟩
  · rintro (none | ⟨i, _, less, serves⟩)
    · omega
    · exact ⟨i, by omega, serves⟩
  · rintro ⟨i, less, serves⟩
    exact Or.inr ⟨i, by omega, by omega, serves⟩

end LargestFree

-----------------------------------------------------------------------------------------
-- Used bytes
-----------------------------------------------------------------------------------------

/-- What a block adds to the bytes of the large blocks. -/
def Block.largeLen (b : Block) : Nat := if b.tier = .buddy then b.len else 0

/-- What a block adds to the bytes of the small blocks, its header included. -/
def Block.smallLen (b : Block) : Nat := if b.tier = .tlsf then b.len + headerSize else 0

namespace HeapState

variable {C : Config}

/-- The blocks in region `i`, by offset. -/
def blocksIn (s : HeapState C) (held : Nat → Option Block) (i y : Nat) : Option Block :=
  held ((s.geo i).base + y)

/-- The sheets of region `i` that hold a block. -/
def busySheets (s : HeapState C) (held : Nat → Option Block) (i : Nat) : List Nat :=
  (s.regions i).tlsf.sheets.filter (fun sh =>
    (List.range C.tlsf.sheet).any (fun y => (s.blocksIn held i (sh + y)).isSome))

/-- The bytes of the large blocks, those of the small ones with their headers, and what each
sheet in use spends on itself.
-/
def bytesInUse (s : HeapState C) (held : Nat → Option Block) (i : Nat) : Nat :=
  blockSum Block.largeLen (s.geo i).total (s.blocksIn held i)
    + blockSum Block.smallLen (s.geo i).total (s.blocksIn held i)
    + (s.busySheets held i).length * (C.tlsf.sheet - C.tlsf.dataBytes)

end HeapState

section Used

variable {C : Config} {s : HeapState C} {v : Nat → RegionView} {held : Nat → Option Block}
  {i x y sh : Nat} {b : Block}

/-- The blocks at the offsets of a region are those that the region granted. -/
theorem HeapInv.blocksIn_iff (h : HeapInv s v held) (less : i < s.count)
    (inside : y < (s.geo i).total)
    : s.blocksIn held i y = some b
      ↔ (v i).live.Holds C.buddy (s.geo i).base ((s.geo i).base + y) b := by
  rw [HeapState.blocksIn, h.blocks]
  constructor
  · rintro ⟨j, below, holds⟩
    obtain rfl := h.holds_apart below less holds ⟨by omega, by omega⟩
    exact holds
  · exact fun holds => ⟨i, less, holds⟩

/-- A large block of a region, by offset. -/
theorem HeapInv.blocksIn_large (h : HeapInv s v held) (less : i < s.count)
    (inside : y < (s.geo i).total)
    : (s.blocksIn held i y).elim 0 Block.largeLen
      = ((v i).live.large y).elim 0 C.buddy.orderSize := by
  cases large : (v i).live.large y with
  | some o =>
      have known : s.blocksIn held i y = some ⟨C.buddy.orderSize o, .buddy⟩ :=
        (h.blocksIn_iff less inside).mpr (Or.inl ⟨y, o, large, rfl, rfl⟩)
      simp [known, Block.largeLen]
  | none =>
      cases known : s.blocksIn held i y with
      | none => rfl
      | some b =>
          rcases (h.blocksIn_iff less inside).mp known with ⟨z, o, block, same, rfl⟩ |
            ⟨z, n, block, same, rfl⟩
          · obtain rfl : y = z := by omega
            rw [block] at large
            cases large
          · simp [Block.largeLen]

/-- A small block of a region, by the offset of its header. -/
theorem HeapInv.blocksIn_small (h : HeapInv s v held) (less : i < s.count)
    (inside : x + headerSize < (s.geo i).total)
    : (s.blocksIn held i (x + headerSize)).elim 0 Block.smallLen
      = ((v i).live.small x).elim 0 id := by
  cases small : (v i).live.small x with
  | some n =>
      have known : s.blocksIn held i (x + headerSize) = some ⟨n - headerSize, .tlsf⟩ :=
        (h.blocksIn_iff less inside).mpr (Or.inr ⟨x, n, small, by rw [Nat.add_assoc], rfl⟩)
      have size := ((h.regions i less).tlsf.granted_block small).2.2.1
      rw [known]
      change n - headerSize + headerSize = n
      simp only [headerSize]
      omega
  | none =>
      cases known : s.blocksIn held i (x + headerSize) with
      | none => rfl
      | some b =>
          rcases (h.blocksIn_iff less inside).mp known with ⟨z, o, block, same, rfl⟩ |
            ⟨z, n, block, same, rfl⟩
          · simp [Block.smallLen]
          · obtain rfl : x = z := by omega
            rw [block] at small
            cases small

/-- No small block starts in the first header of a region. -/
theorem HeapInv.blocksIn_first (h : HeapInv s v held) (less : i < s.count)
    (inside : y < (s.geo i).total) (first : y < headerSize)
    : (s.blocksIn held i y).elim 0 Block.smallLen = 0 := by
  cases known : s.blocksIn held i y with
  | none => rfl
  | some b =>
      rcases (h.blocksIn_iff less inside).mp known with ⟨z, o, block, same, rfl⟩ |
        ⟨z, n, block, same, rfl⟩
      · simp [Block.smallLen]
      · omega

/-- The bytes of the large blocks of a region. -/
theorem HeapInv.largeBytes_eq (h : HeapInv s v held) (less : i < s.count)
    : blockSum Block.largeLen (s.geo i).total (s.blocksIn held i)
      = (s.region i).largeBytes (v i) :=
  blockSum_congr (fun _ inside => h.blocksIn_large less inside)

/-- The bytes of the small blocks of a region, counted from the headers. -/
theorem HeapInv.smallBytes_eq (h : HeapInv s v held) (less : i < s.count)
    : blockSum Block.smallLen (s.geo i).total (s.blocksIn held i)
      = (s.region i).smallBytes (v i) := by
  have inv := h.regions i less
  refine blockSum_shift headerSize (fun y inside first => h.blocksIn_first less inside first)
    (fun x inside => h.blocksIn_small less inside) (fun x _ beyond => ?_)
  cases small : (v i).live.small x with
  | none => rfl
  | some n =>
      obtain ⟨sh, member, lo, hi⟩ := inv.small_inside small
      have fits : sh + C.tlsf.sheet ≤ (s.geo i).total := (inv.sheet_lt member).2.1
      have size := (inv.tlsf.granted_block small).2.2.1
      simp only [headerSize] at beyond
      omega

/-- A sheet is empty if no block starts in it. -/
theorem HeapInv.emptySheet_iff (h : HeapInv s v held) (less : i < s.count)
    (member : sh ∈ (s.regions i).tlsf.sheets)
    : (v i).tlsf.EmptySheet C.tlsf sh ↔ ∀ y < C.tlsf.sheet, s.blocksIn held i (sh + y) = none := by
  have inv := h.regions i less
  have fits : sh + C.tlsf.sheet ≤ (s.geo i).total := (inv.sheet_lt member).2.1
  have sheets := inv.tlsf.fit
  constructor
  · intro empty y inside
    rw [Option.eq_none_iff_forall_ne_some]
    intro b known
    rcases (h.blocksIn_iff less (by omega)).mp known with ⟨z, o, block, same, rfl⟩ |
      ⟨z, n, block, same, rfl⟩
    · have owned := Live.of_large.mp block
      have sheet := inv.sheet_owned member
      have apart := inv.buddy.owned_apart owned sheet (fun here => by
        rw [here, sheet] at owned
        cases owned)
      rw [C.orderSize_sheet] at apart
      have positive := C.buddy.orderSize_pos o
      simp only at apart
      omega
    · obtain ⟨sh', member', lo, hi⟩ := inv.small_inside block
      have size := (inv.tlsf.granted_block block).2.2.1
      simp only [headerSize] at same
      obtain rfl : sh = sh' := sheets.apart member member' (x := sh + y) (by omega) (by omega)
        (by omega) (by omega)
      exact empty z n block ⟨by omega, by omega⟩
  · rintro none x n block ⟨lo, hi⟩
    obtain ⟨sh', member', lo', hi'⟩ := inv.small_inside block
    have size := (inv.tlsf.granted_block block).2.2.1
    obtain rfl : sh = sh' := sheets.apart member member' lo hi (by omega) (by omega)
    have known : s.blocksIn held i (sh + (x + headerSize - sh)) = some ⟨n - headerSize, .tlsf⟩ := by
      refine (h.blocksIn_iff less ?_).mpr (Or.inr ⟨x, n, block, ?_, rfl⟩)
      · simp only [headerSize]
        omega
      · omega
    rw [none _ (by simp only [headerSize]; omega)] at known
    cases known

/-- The sheets in use are those with a live block. -/
theorem HeapInv.busySheets_eq (h : HeapInv s v held) (less : i < s.count)
    : s.busySheets held i = (s.region i).fullSheets (v i) := by
  classical
  refine List.filter_congr (fun sh member => ?_)
  have empty := h.emptySheet_iff less member
  rw [Bool.eq_iff_iff, List.any_eq_true, decide_eq_true_eq, empty]
  simp [Option.isSome_iff_ne_none]

/-- What a region reports as used is what its blocks take. -/
theorem HeapInv.used_eq (h : HeapInv s v held) (less : i < s.count)
    : (s.region i).used = s.bytesInUse held i := by
  rw [(h.regions i less).used_eq.1, HeapState.bytesInUse, h.largeBytes_eq less,
    h.smallBytes_eq less, h.busySheets_eq less]

end Used

-----------------------------------------------------------------------------------------
-- Sums over the regions
-----------------------------------------------------------------------------------------

section Sums

variable {C : Config} {s s' : HeapState C} {v v' : Nat → RegionView}
  {held : Nat → Option Block} {f g : RegionState C → Nat}

/-- Sums of equal gauges are equal. -/
theorem HeapState.sumRegions_congr (count : s'.count = s.count)
    (same : ∀ i < s.count, g (s'.region i) = f (s.region i))
    : s'.sumRegions g = s.sumRegions f := by
  have step : ∀ l : List Nat, (∀ i ∈ l, i < s.count) → ∀ a,
      l.foldl (fun t i => (t + g (s'.region i)) % C.buddy.word) a
        = l.foldl (fun t i => (t + f (s.region i)) % C.buddy.word) a := by
    intro l
    induction l with
    | nil => exact fun _ _ => rfl
    | cons i l ih =>
        intro inside a
        simp only [List.foldl_cons, same i (inside i (by simp))]
        exact ih (fun j member => inside j (by simp [member])) _
  rw [sumRegions, sumRegions, count]
  exact step _ (fun i member => List.mem_range.mp member) 0

/-- The sum of gauges that are zero. -/
theorem HeapState.sumRegions_zero (zero : ∀ i < s.count, f (s.region i) = 0)
    : s.sumRegions f = 0 := by
  have step : ∀ l : List Nat, (∀ i ∈ l, i < s.count) →
      l.foldl (fun t i => (t + f (s.region i)) % C.buddy.word) 0 = 0 := by
    intro l
    induction l with
    | nil => exact fun _ => rfl
    | cons i l ih =>
        intro inside
        simp only [List.foldl_cons, zero i (inside i (by simp))]
        exact ih (fun j member => inside j (by simp [member]))
  exact step _ (fun i member => List.mem_range.mp member)

/-- The gauges of an initialised heap. -/
theorem HeapState.gauges_ready (ready : s.inited = true)
    : s.used = (s, s.sumRegions RegionState.used)
      ∧ s.available = (s, s.sumRegions RegionState.available)
      ∧ s.total = (s, s.sumRegions (fun r => r.buddy.total)) := by
  simp [used, available, total, ensure, ready]

/-- What a region of the heap has in use, and what it has left. -/
theorem Quiet.region_gauges (h : HeapInv s v held) (quiet : Quiet s v held s' v') {i : Nat}
    (less : i < s.count)
    : (s'.region i).used = (s.region i).used
      ∧ (s'.region i).available = (s.region i).available
      ∧ (s'.region i).buddy.total = (s.region i).buddy.total := by
  exact (h.regions i less).gauges_congr (quiet.step.inv.regions i (quiet.steady.count.symm ▸ less))
    (quiet.step.geo i less) (quiet.live i less)

/-- A quiet part changes no gauge. -/
theorem Quiet.gauges (h : HeapInv s v held) (ready : s.inited = true)
    (quiet : Quiet s v held s' v')
    : s'.used.2 = s.used.2 ∧ s'.available.2 = s.available.2 ∧ s'.total.2 = s.total.2
      ∧ s'.largestFree.2 = s.largestFree.2 := by
  have ready' : s'.inited = true := quiet.step.inited ready
  obtain ⟨used, available, total⟩ := HeapState.gauges_ready ready
  obtain ⟨used', available', total'⟩ := HeapState.gauges_ready ready'
  have same := fun i less => quiet.region_gauges h (i := i) less
  rw [used, available, total, used', available', total']
  have totals : s'.sumRegions (fun r => r.buddy.total) = s.sumRegions (fun r => r.buddy.total) :=
    HeapState.sumRegions_congr quiet.steady.count (fun i less => (same i less).2.2)
  refine ⟨HeapState.sumRegions_congr quiet.steady.count (fun i less => (same i less).1),
    HeapState.sumRegions_congr quiet.steady.count (fun i less => (same i less).2.1), totals, ?_⟩
  obtain ⟨_, _, _, largest⟩ := h.largestFree ready
  obtain ⟨_, _, _, largest'⟩ := quiet.step.inv.largestFree ready'
  have serves : ∀ n, 0 < n → (n ≤ s'.largestFree.2 ↔ n ≤ s.largestFree.2) := by
    intro n positive
    rw [largest n positive, largest' n positive, quiet.steady.count]
    refine exists_congr (fun i => and_congr_right (fun less => ?_))
    rw [quiet.step.geo i less]
    exact quiet.serves i less n positive
  by_contra differ
  rcases Nat.lt_or_gt_of_ne differ with less | more
  · have := (serves s.largestFree.2 (by omega)).mpr le_rfl
    omega
  · have := (serves s'.largestFree.2 (by omega)).mp le_rfl
    omega

end Sums

-----------------------------------------------------------------------------------------
-- A heap without blocks
-----------------------------------------------------------------------------------------

section Vacant

variable {C : Config} {s : HeapState C} {v : Nat → RegionView} {held : Nat → Option Block}
  {i : Nat}

/-- Without blocks no region owns more than sheets. -/
theorem HeapInv.live_none (h : HeapInv s v fun _ => none) (less : i < s.count)
    : (v i).live = Live.none := by
  have absent : ∀ p b, ¬(v i).live.Holds C.buddy (s.geo i).base p b := fun p b holds => by
    have := (h.blocks p b).mpr ⟨i, less, holds⟩
    cases this
  have large : (v i).live.large = fun _ => none := funext (fun x =>
    Option.eq_none_iff_forall_ne_some.mpr
      (fun o known => absent _ _ (Or.inl ⟨x, o, known, rfl, rfl⟩)))
  have small : (v i).live.small = fun _ => none := funext (fun x =>
    Option.eq_none_iff_forall_ne_some.mpr
      (fun n known => absent _ _ (Or.inr ⟨x, n, known, rfl, rfl⟩)))
  exact (Live.mk.injEq ..).mpr ⟨large, small⟩

/-- Without blocks a drained region is bare. -/
theorem Drained.bare {r : RegionState C} {w : RegionView} (drained : Drained r w)
    (inv : RegionInv r w) (none : w.live = Live.none)
    : Bare r w := by
  refine ⟨inv, drained.noSpare, drained.noCache, funext (fun x => ?_)⟩
  rw [drained.owned, Option.eq_none_iff_forall_ne_some]
  intro c known
  rw [inv.toRegionCore.busy_iff, none] at known
  rcases known with ⟨o, _, held⟩ | ⟨_, _, y, n, held, _⟩
  · cases held
  · cases held

/-- Without blocks nothing is in use. -/
theorem HeapInv.vacant_gauges (h : HeapInv s v fun _ => none) (less : i < s.count)
    : (s.region i).used = 0 ∧ (s.region i).available = (s.region i).buddy.total := by
  have used : (s.region i).used = 0 := by
    have busy : s.busySheets (fun _ => none) i = [] := by
      simp [HeapState.busySheets, HeapState.blocksIn]
    have light : ∀ weight : Block → Nat,
        blockSum weight (s.geo i).total (s.blocksIn (fun _ => none) i) = 0 := fun weight =>
      blockSum_eq_zero (fun a b known => by cases known)
    rw [h.used_eq less, HeapState.bytesInUse, light, light, busy]
    simp
  have left := (h.regions i less).available_eq
  exact ⟨used, by omega⟩

/-- Without blocks `largest_free` leaves every region as `reset` does. -/
theorem HeapInv.vacant_reset (h : HeapInv s v fun _ => none) (ready : s.inited = true)
    (less : i < s.count)
    : (s.largestFree.1.region i).SameLayout (s.reset.region i)
      ∧ ∀ o a, (s.largestFree.1.region i).buddyState.Listed o a
        ↔ ∃ x, a = (s.geo i).base + x ∧ seedTiles C.buddy (s.geo i) .free x = some (.free, o) := by
  obtain ⟨v₁, quiet, drained, _⟩ := h.largestFree ready
  obtain ⟨v₂, again, _, fresh⟩ := h.reset ready
  have less' : i < s.largestFree.1.count := by
    rw [quiet.steady.count]
    exact less
  have bare := (drained i less).bare (quiet.step.inv.regions i less')
    (quiet.step.inv.live_none less')
  have geometry := quiet.step.geo i less
  have same := geometry.trans (again.geo i less).symm
  refine ⟨bare.sameLayout (fresh i less) same, fun o a => ?_⟩
  rw [bare.buddy.listed_iff, bare.seeded (fresh i less) same]
  change (∃ x, a = (s.largestFree.1.geo i).base + x
    ∧ seedTiles C.buddy (s.largestFree.1.geo i) .free x = some (.free, o)) ↔ _
  rw [geometry]

end Vacant

end Bbmalloc
