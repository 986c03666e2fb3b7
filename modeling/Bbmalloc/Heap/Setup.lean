import Bbmalloc.Heap.Representation

/-! Regions that are added to the heap: by `attach`, by the first use of a configured pool and
by growth. All of them leave the blocks of the clients alone.
-/

namespace Bbmalloc

open Bbmalloc.Foundations

-----------------------------------------------------------------------------------------
-- Attaching
-----------------------------------------------------------------------------------------

/-- A call that may add a region: it adds a fresh one at the end, or none. -/
inductive Attached {C : Config} (s : HeapState C) (v : Nat → RegionView)
    (held : Nat → Option Block) (mem len tags cap : Nat) (c : HeapState C × Bool)
    : Prop
  | accepted {w : RegionView} (ok : c.2 = true) (fresh : FreshRegion (c.1.region s.count) w)
      (laid : ((s.regions s.count).buddy.aimedAt mem len tags cap C.maxAlignment).layout C.buddy
        = some (c.1.geo s.count))
      (step : HeapStep s c.1 (Function.update v s.count w) held held)
      (count : c.1.count = s.count + 1) (inited : c.1.inited = true)
      (requests : c.1.requests = s.requests)
  | refused (no : c.2 = false) (step : HeapStep s c.1 v held held) (steady : Steady s c.1)
      (mem : c.1.mem = s.mem)

/-- A range with its tag array that no region in use touches. -/
structure HeapState.Clear {C : Config} (s : HeapState C) (mem len tags cap : Nat) (zeroed : Bool)
    : Prop where
  half : 2 * len ≤ C.buddy.word
  cap_lt : cap < C.buddy.word
  apart : ∀ i < s.count, ∀ a, Footprint (s.geo i) a →
    ¬(mem ≤ a ∧ a < mem + len) ∧ ¬(tags ≠ 0 ∧ tags ≤ a ∧ a < tags + cap)
  cleanInside : zeroed = true → ∀ a, mem ≤ a → a < mem + len → (s.mem a).byte = 0
  cleanOutside : zeroed = true → ∀ a, tags ≤ a → a < tags + cap → (s.mem a).byte = 0

section Attaching

variable {C : Config} {s : HeapState C} {v : Nat → RegionView} {held : Nat → Option Block}
  {w : RegionView} {r : RegionState C} {mem len tags cap i a : Nat} {zeroed : Bool}
  {g : BuddyGeometry} {P : BuddyParams}

theorem BuddyGeometry.Sound.total_pos (sound : g.Sound P) : 0 < g.total := by
  rw [sound.total_eq]
  exact Nat.mul_pos sound.count_pos P.minBlock_pos

/-- Tags and data lie in the raw range and the external tag array. -/
theorem BuddyGeometry.Sound.footprint_raw (sound : g.Sound P) (inside : Footprint g a)
    : (g.rawMem ≤ a ∧ a < g.rawMem + g.rawLen)
      ∨ (g.extTags ≠ 0 ∧ g.extTags ≤ a ∧ a < g.extTags + g.extCap) := by
  have rawLe := sound.raw_le
  have endLe := sound.end_le
  rcases inside with ⟨lo, hi⟩ | ⟨lo, hi⟩
  · rcases sound.tags_at with ⟨_, at_⟩ | ⟨external, at_, fits⟩
    · refine Or.inl ⟨by omega, ?_⟩
      rcases sound.tags_apart with before | after
      · omega
      · have := sound.total_pos
        omega
    · exact Or.inr ⟨external, by omega, by omega⟩
  · exact Or.inl ⟨by omega, by omega⟩

/-- The checks of `__attach` establish what set-up needs of a range. -/
theorem HeapState.Clear.area (clear : s.Clear mem len tags cap zeroed)
    (noWrap : ¬(mem + len) % C.buddy.word < mem)
    (tagsOk : s.tagsRefused mem len tags cap = false)
    : RawArea C.buddy s.mem mem len tags cap zeroed := by
  have positive : 0 < C.buddy.word := Nat.two_pow_pos _
  have wrap : ∀ {b n}, n < C.buddy.word → ¬(b + n) % C.buddy.word < b → 0 < n →
      b + n < C.buddy.word := by
    intro b n less not some
    by_contra large
    have bound := Nat.mod_lt (b + n) positive
    have start : b < C.buddy.word := by omega
    rw [Nat.mod_eq_sub_mod (by omega), Nat.mod_eq_of_lt (by omega)] at not
    omega
  have half := clear.half
  have fits : mem + len < C.buddy.word := by
    rcases Nat.eq_zero_or_pos len with rfl | some
    · have bound := Nat.mod_lt (mem + 0) positive
      omega
    · exact wrap (by omega) noWrap some
  refine ⟨fits, half, fun external => ?_, fun zero _ => clear.cleanInside zero,
    clear.cleanOutside⟩
  simp only [tagsRefused, Bool.and_eq_false_iff, Bool.or_eq_false_iff, decide_eq_false_iff_not,
    not_not] at tagsOk
  obtain ⟨⟨⟨capPos, tagWrap⟩, cross⟩, _⟩ := tagsOk.resolve_left external
  have tagFits := wrap clear.cap_lt tagWrap (by omega)
  rw [Nat.mod_eq_of_lt fits, Nat.mod_eq_of_lt tagFits] at cross
  omega

/-- A fresh region on clear memory joins the heap. -/
theorem HeapInv.addRegion (h : HeapInv s v held) (room : s.count < C.maxRegions)
    (fresh : FreshRegion r w) (laid : r.buddy.layout C.buddy = some r.buddy.toBuddyGeometry)
    (apart : ∀ i < s.count, ∀ a, Footprint (s.geo i) a → ¬Footprint r.buddy.toBuddyGeometry a)
    (within : Memory.Within (Footprint r.buddy.toBuddyGeometry) s.mem r.mem)
    : HeapStep s { s.setRegion s.count r with count := s.count + 1, inited := true }
        (Function.update v s.count w) held held := by
  set s' : HeapState C :=
    { s.setRegion s.count r with count := s.count + 1, inited := true } with sEq
  have geo : ∀ i < s.count, s'.geo i = s.geo i := by
    intro i less
    simp [sEq, HeapState.geo, HeapState.setRegion, Nat.ne_of_lt less]
  have geoLast : s'.geo s.count = r.buddy.toBuddyGeometry := by
    simp [sEq, HeapState.geo, HeapState.setRegion]
  have split : ∀ {i}, i < s'.count → i < s.count ∨ i = s.count := by
    intro i less
    exact Nat.lt_succ_iff_lt_or_eq.mp less
  have notHeld : ∀ p b, ¬(w.live.Holds C.buddy r.buddy.base p b) := by
    rintro p b (⟨x, o, found, _⟩ | ⟨x, n, found, _⟩)
    · rw [fresh.live_eq] at found
      cases found
    · rw [fresh.live_eq] at found
      cases found
  refine ⟨⟨?_, ?_, ?_, ?_, room, ?_, ?_, ?_⟩, Nat.le_succ _, geo, fun _ => rfl, ?_⟩
  · intro i less
    rcases split less with before | rfl
    · have ne := Nat.ne_of_lt before
      have other : s'.region i = { s.region i with mem := r.mem, stats := r.stats } := by
        simp [sEq, HeapState.region, HeapState.setRegion, ne]
      rw [other, Function.update_of_ne ne]
      have inv := (h.regions i before).congr (m := r.mem) (fun a loose =>
        congrArg Cell.byte (within a (apart i before a loose.1)))
      exact ⟨⟨inv.live, inv.buddy, inv.tlsf, inv.base, inv.sheets, inv.noRollback⟩,
        inv.spareSheet, inv.onlySpare⟩
    · have here : s'.region s.count = r := by
        simp [sEq, HeapState.region, HeapState.setRegion]
      rw [here, Function.update_self]
      exact fresh.toRegionInv
  · intro i less
    rcases split less with before | rfl
    · rw [geo i before]
      exact h.laid i before
    · rw [geoLast]
      exact laid
  · intro i le
    have le : s.count + 1 ≤ i := le
    have idle := h.idle i (by omega)
    have ne : i ≠ s.count := by omega
    have other : s'.region i = { s.region i with mem := r.mem, stats := r.stats } := by
      simp [sEq, HeapState.region, HeapState.setRegion, ne]
    rw [other]
    exact ⟨idle.live, idle.total, idle.maxOrder, idle.count, idle.noRollback⟩
  · intro i lessI j lessJ ne a
    rcases split lessI with beforeI | rfl
    · rcases split lessJ with beforeJ | rfl
      · rw [geo i beforeI, geo j beforeJ]
        exact h.separate i beforeI j beforeJ ne a
      · rw [geo i beforeI, geoLast]
        exact apart i beforeI a
    · rcases split lessJ with beforeJ | rfl
      · rw [geo j beforeJ, geoLast]
        exact fun last first => apart j beforeJ a first last
      · exact absurd rfl ne
  · exact fun not => absurd not (by simp [sEq])
  · exact fun not => absurd not (by simp [sEq])
  · intro p b
    rw [h.blocks]
    constructor
    · rintro ⟨i, less, holds⟩
      exact ⟨i, Nat.lt_succ_of_lt less, by
        rwa [geo i less, Function.update_of_ne (Nat.ne_of_lt less)]⟩
    · rintro ⟨i, less, holds⟩
      rcases split less with before | rfl
      · rw [geo i before, Function.update_of_ne (Nat.ne_of_lt before)] at holds
        exact ⟨i, before, holds⟩
      · rw [geoLast, Function.update_self] at holds
        exact absurd holds (notHeld p b)
  · refine within.mono (fun a inside => ⟨⟨s.count, Nat.lt_succ_self _, geoLast ▸ inside⟩, ?_⟩)
    rintro ⟨p, b, found, lo, hi⟩
    obtain ⟨i, less, holds⟩ := (h.blocks p b).mp found
    have data := h.inside less holds
    exact apart i less a (Or.inr ⟨by omega, by omega⟩) inside

/-- A region that was not filled stays unused. -/
theorem HeapInv.keepIdle (h : HeapInv s v held) (idle : r.Idle) (mem : r.mem = s.mem)
    (le : s.count ≤ i)
    : HeapStep s (s.setRegion i r) v held held := by
  have geo : ∀ j < s.count, (s.setRegion i r).geo j = s.geo j := by
    intro j less
    have ne : j ≠ i := by omega
    simp [HeapState.geo, HeapState.setRegion, ne]
  refine ⟨⟨?_, ?_, ?_, ?_, h.few, h.ready, ?_, ?_⟩, le_rfl, geo, id, ?_⟩
  · intro j less
    have less : j < s.count := less
    rw [s.region_setRegion_ne r (by omega), mem]
    have inv := h.regions j less
    exact ⟨⟨inv.live, inv.buddy, inv.tlsf, inv.base, inv.sheets, inv.noRollback⟩,
      inv.spareSheet, inv.onlySpare⟩
  · intro j less
    rw [geo j less]
    exact h.laid j less
  · intro j le'
    by_cases same : j = i
    · subst same
      simpa using idle
    · rw [s.region_setRegion_ne r same]
      have idle := h.idle j le'
      exact ⟨idle.live, idle.total, idle.maxOrder, idle.count, idle.noRollback⟩
  · intro j less j' less' ne a
    rw [geo j less, geo j' less']
    exact h.separate j less j' less' ne a
  · intro not a static
    change (r.mem a).byte = 0
    rw [mem]
    exact h.clean not a static
  · intro p b
    rw [h.blocks]
    exact exists_congr fun j => and_congr_right fun less => by rw [geo j less]
  · change Memory.Within _ s.mem r.mem
    rw [mem]
    exact Memory.Within.refl _ _

/-- `__attach` on clear memory adds a fresh region or nothing. -/
theorem HeapInv.attachPool {z : Bool} (h : HeapInv s v held) (clear : s.Clear mem len tags cap z)
    : Attached s v held mem len tags cap (s.attachPool mem len tags cap z) := by
  have quiet : Attached s v held mem len tags cap (s, false) :=
    .refused rfl (h.refl held) (.refl s) rfl
  unfold HeapState.attachPool
  split
  · exact quiet
  case isFalse full =>
    split
    · exact quiet
    case isFalse noWrap =>
      split
      · exact quiet
      · split
        · exact quiet
        case isFalse tagsOk =>
          have room : s.count < C.maxRegions := by
            simp only [ge_iff_le, Bool.or_eq_true, decide_eq_true_eq, not_or, not_le] at full
            exact full.1.1
          have area := clear.area noWrap (by simpa using tagsOk)
          have idle := h.idle s.count le_rfl
          have spec := (s.region s.count).attach_spec idle.noRollback idle.count area
          change Attached s v held mem len tags cap
            (let c := (s.region s.count).attach mem len tags cap z
             if !c.2 then (s.setRegion s.count c.1, c.2)
             else ({ s.setRegion s.count c.1 with count := s.count + 1, inited := true }, true))
          generalize (s.region s.count).attach mem len tags cap z = c at spec ⊢
          obtain ⟨r, ok⟩ := c
          rcases spec with ⟨live, ⟨w, fresh⟩, again, laid, within⟩ | ⟨live, off, same, _⟩
          · simp only at live
            subst live
            have geometry : (s.setRegion s.count r).geo s.count = r.buddy.toBuddyGeometry := by
              simp [HeapState.geo, HeapState.setRegion]
            have raw := BuddyGeometry.layout_raw laid
            have apart : ∀ i < s.count, ∀ a, Footprint (s.geo i) a →
                ¬Footprint r.buddy.toBuddyGeometry a := by
              intro i less a first second
              have away := clear.apart i less a first
              rcases fresh.buddy.rep.geometry.footprint_raw second with inside | inside
              · change r.buddy.toBuddyGeometry.rawMem ≤ a
                  ∧ a < r.buddy.toBuddyGeometry.rawMem + r.buddy.toBuddyGeometry.rawLen at inside
                rw [raw.1, raw.2.1] at inside
                exact away.1 inside
              · change r.buddy.toBuddyGeometry.extTags ≠ 0 ∧ r.buddy.toBuddyGeometry.extTags ≤ a
                  ∧ a < r.buddy.toBuddyGeometry.extTags + r.buddy.toBuddyGeometry.extCap at inside
                rw [raw.2.2.1, raw.2.2.2] at inside
                exact away.2 inside
            have step := h.addRegion room fresh again apart within
            exact .accepted (w := w) rfl
              (by simpa [HeapState.region, HeapState.setRegion] using fresh)
              (laid.trans (congrArg some geometry.symm)) step rfl rfl rfl
          · simp only at live
            subst live
            exact .refused rfl (h.keepIdle off same le_rfl) (Steady.setRegion _ _ _) same

end Attaching

-----------------------------------------------------------------------------------------
-- The configured pool and growth
-----------------------------------------------------------------------------------------

/-- A configured pool is an object, and no object takes more than half of the address
space.
-/
structure Config.PoolFits (C : Config) : Prop where
  static : ∀ mem len tags, C.pool = .static mem len tags → 2 * len ≤ C.buddy.word
  linker : ∀ lo hi, C.pool = .linker lo hi → 2 * (hi - lo) ≤ C.buddy.word

/-- What the page source answers in this state is an object of its own: no region in use
touches it.
-/
def HeapState.FreshPages {C : Config} (s : HeapState C) : Prop :=
  ∀ n d, C.pageAlloc s.requests n = some d → 2 * d.len ≤ C.buddy.word
    ∧ ∀ i < s.count, ∀ a, Footprint (s.geo i) a → ¬(d.ptr ≤ a ∧ a < d.ptr + d.len)

/-- A call that adds a fresh region or none, and says which. -/
inductive Extended {C : Config} (s : HeapState C) (v : Nat → RegionView)
    (held : Nat → Option Block) (c : HeapState C × Bool)
    : Prop
  | added {w : RegionView} (ok : c.2 = true) (fresh : FreshRegion (c.1.region s.count) w)
      (step : HeapStep s c.1 (Function.update v s.count w) held held)
      (count : c.1.count = s.count + 1) (inited : c.1.inited = true)
  | same (no : c.2 = false) (step : HeapStep s c.1 v held held) (count : c.1.count = s.count)

section Growing

variable {C : Config} {s : HeapState C} {v : Nat → RegionView} {held : Nat → Option Block}
  {mem len tags cap : Nat}

/-- Requests are only recorded, and an initialised heap promises less. -/
theorem HeapInv.setReady (h : HeapInv s v held) (requests : List Nat)
    : HeapInv ({ s with inited := true, requests := requests } : HeapState C) v held :=
  ⟨h.regions, h.laid, h.idle, h.separate, h.few, fun not => absurd not (by simp),
    fun not => absurd not (by simp), h.blocks⟩

/-- Recording a request. -/
theorem HeapInv.setRequests (h : HeapInv s v held) (requests : List Nat)
    : HeapStep s ({ s with requests := requests } : HeapState C) v held held :=
  ⟨⟨h.regions, h.laid, h.idle, h.separate, h.few, h.ready, h.clean, h.blocks⟩, le_rfl,
    fun _ _ => rfl, id, Memory.Within.refl _ _⟩

/-- Pages of the page source are clear. -/
theorem HeapState.FreshPages.clear (pages : s.FreshPages) {n : Nat} {d : Chunk}
    (served : C.pageAlloc s.requests n = some d) (requests : List Nat)
    : ({ s with requests := requests } : HeapState C).Clear d.ptr d.len 0 0 false := by
  obtain ⟨half, apart⟩ := pages n d served
  exact ⟨half, Nat.two_pow_pos _, fun i less a inside => ⟨apart i less a inside, by simp⟩,
    by simp, by simp⟩

/-- The pool of a heap that was never used is clear. -/
theorem HeapInv.configuredPool (h : HeapInv s v held) (fresh : s.inited = false)
    (fits : C.PoolFits) (pages : s.FreshPages)
    : ∃ q, (({ s with inited := true } : HeapState C).configuredPool).1
          = { s with inited := true, requests := q }
        ∧ ((({ s with inited := true } : HeapState C).configuredPool).2.mem = 0
          ∨ (({ s with inited := true } : HeapState C).configuredPool).1.Clear
              (({ s with inited := true } : HeapState C).configuredPool).2.mem
              (({ s with inited := true } : HeapState C).configuredPool).2.len
              (({ s with inited := true } : HeapState C).configuredPool).2.tags
              (({ s with inited := true } : HeapState C).configuredPool).2.tagCap
              (({ s with inited := true } : HeapState C).configuredPool).2.zeroed) := by
  have none : ∀ i, ¬i < s.count := by
    intro i
    rw [h.ready fresh]
    omega
  unfold HeapState.configuredPool
  cases pool : C.pool with
  | none => exact ⟨_, rfl, Or.inl rfl⟩
  | static mem len tags =>
      have half := fits.static mem len tags pool
      have cap : len / C.buddy.minBlock < C.buddy.word := by
        have := Nat.div_le_self len C.buddy.minBlock
        have : 0 < C.buddy.word := Nat.two_pow_pos _
        omega
      exact ⟨_, rfl, Or.inr ⟨half, cap, fun i less => absurd less (none i),
        fun _ a lo hi => h.clean fresh a ⟨mem, len, tags, pool, Or.inl ⟨lo, hi⟩⟩,
        fun _ a lo hi => h.clean fresh a ⟨mem, len, tags, pool, Or.inr ⟨lo, hi⟩⟩⟩⟩
  | linker lo hi =>
      have half := fits.linker lo hi pool
      have zero : 0 < C.buddy.word := Nat.two_pow_pos _
      refine ⟨_, rfl, ?_⟩
      by_cases none' : hi ≤ lo
      · simp only [none', if_true]
        exact Or.inl rfl
      · simp only [none', if_false]
        exact Or.inr ⟨half, zero, fun i less => absurd less (none i), by simp, by simp⟩
  | port bytes =>
      refine ⟨_, rfl, ?_⟩
      cases served : C.pageAlloc s.requests bytes with
      | none =>
          simp only [HeapState.pageAlloc, served]
          exact Or.inl rfl
      | some d =>
          simp only [HeapState.pageAlloc, served]
          obtain ⟨half, _⟩ := pages bytes d served
          exact Or.inr ⟨half, Nat.two_pow_pos _, fun i less => absurd less (none i),
            by simp [HeapState.pageDesc], by simp [HeapState.pageDesc]⟩

/-- `init` fills the first region from the configured pool, or leaves the heap empty. -/
theorem HeapInv.init (h : HeapInv s v held) (fresh : s.inited = false) (fits : C.PoolFits)
    (pages : s.FreshPages)
    : Extended s v held s.init ∧ s.init.1.inited = true := by
  obtain ⟨q, first, clear⟩ := h.configuredPool fresh fits pages
  have none := h.ready fresh
  have call : s.init
      = (let d := ({ s with inited := true } : HeapState C).configuredPool
         let t := if d.2.mem ≠ 0 then
            (d.1.attachPool d.2.mem d.2.len d.2.tags d.2.tagCap d.2.zeroed).1 else d.1
         (t, decide (0 < t.count))) := by
    rw [HeapState.init, if_neg (by simp [fresh])]
  rw [call]
  generalize ({ s with inited := true } : HeapState C).configuredPool = d at first clear ⊢
  obtain ⟨t, d⟩ := d
  simp only at first clear ⊢
  subst first
  have ready := h.setReady q
  have start : HeapStep s ({ s with inited := true, requests := q } : HeapState C) v held held :=
    ⟨ready, le_rfl, fun _ _ => rfl, fun _ => rfl, Memory.Within.refl _ _⟩
  by_cases null : d.mem = 0
  · rw [if_neg (by simpa using null)]
    exact ⟨.same (by simp [none]) start rfl, rfl⟩
  · rw [if_pos null]
    cases ready.attachPool (clear.resolve_left null) with
    | accepted ok region laid step count inited requests =>
        exact ⟨.added (by simp [count]) region (start.trans step (fun _ _ => id) (fun _ _ => id))
          count inited, inited⟩
    | refused no step steady mem =>
        have zero : _ = 0 := steady.count.trans none
        exact ⟨.same (by simp [zero])
          (start.trans step (fun _ _ => id) (fun _ _ => id)) steady.count, steady.inited⟩

/-- The pages for a new region are clear. -/
theorem HeapState.FreshPages.growPool (pages : s.FreshPages) (growBytes bytes : Nat)
    : ∃ q, (s.growPool growBytes bytes).1 = { s with requests := q }
        ∧ ((s.growPool growBytes bytes).2.mem = 0
          ∨ (s.growPool growBytes bytes).1.Clear (s.growPool growBytes bytes).2.mem
              (s.growPool growBytes bytes).2.len (s.growPool growBytes bytes).2.tags
              (s.growPool growBytes bytes).2.tagCap (s.growPool growBytes bytes).2.zeroed) := by
  unfold HeapState.growPool
  simp only
  generalize (if (if bytes < growBytes then growBytes else bytes) > C.maxRegionBytes then
    C.maxRegionBytes else if bytes < growBytes then growBytes else bytes) = n
  by_cases short : n < bytes
  · simp only [if_pos short]
    exact ⟨s.requests, rfl, Or.inl rfl⟩
  · simp only [if_neg short]
    refine ⟨_, rfl, ?_⟩
    cases served : C.pageAlloc s.requests n with
    | none =>
        simp only [HeapState.pageAlloc, served]
        exact Or.inl rfl
    | some d =>
        simp only [HeapState.pageAlloc, served]
        exact Or.inr (pages.clear served _)

/-- `__attach` touches one region only. -/
theorem HeapState.attachPool_regions {i : Nat} {z : Bool} (other : i ≠ s.count)
    : (s.attachPool mem len tags cap z).1.regions i = s.regions i := by
  have kept : (s.onRegion s.count (fun r => r.attach mem len tags cap z)).1.regions i
      = s.regions i :=
    Function.update_of_ne other _ _
  unfold HeapState.attachPool
  generalize s.onRegion s.count (fun r => r.attach mem len tags cap z) = c at kept ⊢
  split_ifs
  · rfl
  · rfl
  · rfl
  · rfl
  · simp only
    split
    · exact kept
    · exact kept

/-- Asking for pages leaves the regions alone. -/
theorem HeapState.growPool_regions (s : HeapState C) (growBytes bytes : Nat)
    : (s.growPool growBytes bytes).1.regions = s.regions
      ∧ (s.growPool growBytes bytes).1.count = s.count := by
  unfold HeapState.growPool
  simp only
  split_ifs <;> exact ⟨rfl, rfl⟩

/-- Which pages come depends on the requests made before. -/
theorem HeapState.growPool_congr {t : HeapState C} (same : t.requests = s.requests)
    (growBytes bytes : Nat)
    : (t.growPool growBytes bytes).2 = (s.growPool growBytes bytes).2 := by
  simp only [HeapState.growPool, HeapState.pageAlloc, same, apply_ite Prod.snd]

/-- Growth touches no region in use. -/
theorem HeapState.grow_regions (s : HeapState C) (bytes : Nat) {i : Nat} (other : i ≠ s.count)
    : (s.grow bytes).1.regions i = s.regions i := by
  unfold HeapState.grow
  cases C.growBytes with
  | none => rfl
  | some growBytes =>
      obtain ⟨regions, count⟩ := s.growPool_regions growBytes (HeapState.growWant C bytes)
      simp only
      split_ifs
      · rfl
      · rw [regions]
      · rw [HeapState.attachPool_regions (by rw [count]; exact other), regions]

/-- Growth adds one region of fresh pages, or none. -/
theorem HeapInv.grow (h : HeapInv s v held) (pages : s.FreshPages) (bytes : Nat)
    : Extended s v held (s.grow bytes) := by
  unfold HeapState.grow
  split
  · exact .same rfl (h.refl held) rfl
  case h_2 growBytes _ =>
    obtain ⟨q, first, clear⟩ := pages.growPool growBytes (HeapState.growWant C bytes)
    split
    · exact .same rfl (h.refl held) rfl
    · simp only
      generalize s.growPool growBytes (HeapState.growWant C bytes) = d at first clear ⊢
      obtain ⟨t, d⟩ := d
      simp only at first clear ⊢
      subst first
      have asked := h.setRequests q
      by_cases null : d.mem = 0
      · rw [if_pos null]
        exact .same rfl asked rfl
      · rw [if_neg null]
        cases asked.inv.attachPool (clear.resolve_left null) with
        | accepted ok region laid step count inited requests =>
            exact .added ok region (asked.trans step (fun _ _ => id) (fun _ _ => id)) count inited
        | refused no step steady mem =>
            exact .same no (asked.trans step (fun _ _ => id) (fun _ _ => id)) steady.count

end Growing

-----------------------------------------------------------------------------------------
-- Resetting
-----------------------------------------------------------------------------------------

section Resetting

variable {C : Config} {s : HeapState C} {v : Nat → RegionView} {held : Nat → Option Block}
  {r r' : RegionState C} {w : RegionView} {i : Nat}

/-- Freshness is about the region and its view. -/
theorem FreshRegion.congr (fresh : FreshRegion r w) (inv : RegionInv r' w)
    (same : r'.toRegion = r.toRegion)
    : FreshRegion r' w where
  toRegionInv := inv
  seeded := by
    rw [same]
    exact fresh.seeded
  noCache := fresh.noCache
  noOwner := fresh.noOwner
  noBlock := fresh.noBlock
  noSheet := by
    rw [same]
    exact fresh.noSheet
  noSpare := by
    rw [same]
    exact fresh.noSpare

/-- Resetting one region releases the blocks in it. -/
theorem HeapInv.resetRegion (h : HeapInv s v held) (less : i < s.count)
    : ∃ w held', FreshRegion (s.region i).reset w
        ∧ HeapStep s (s.setRegion i (s.region i).reset) (Function.update v i w) held' held'
        ∧ ∀ p b, held' p = some b → held p = some b := by
  obtain ⟨w, fresh, step⟩ := (h.regions i less).reset (h.laid i less)
  have split : ∀ p b, (if (s.geo i).base ≤ p ∧ p < (s.geo i).base + (s.geo i).total then none
      else held p) = some b
      ↔ (∃ j < s.count, j ≠ i ∧ (v j).live.Holds C.buddy (s.geo j).base p b)
        ∨ Live.none.Holds C.buddy (s.geo i).base p b := by
    intro p b
    have nothing : ¬Live.none.Holds C.buddy (s.geo i).base p b := by
      rintro (⟨x, o, found, _⟩ | ⟨x, n, found, _⟩)
      · cases found
      · cases found
    rw [or_iff_left nothing]
    split
    case isTrue inside =>
      refine iff_of_false (by simp) ?_
      rintro ⟨j, lessJ, ne, holds⟩
      exact ne (h.holds_apart lessJ less holds inside)
    case isFalse outside =>
      rw [h.held_split less]
      refine or_iff_left (fun holds => outside ?_)
      have inside := h.inside less holds
      exact ⟨by omega, by omega⟩
  refine ⟨w, _, fresh, h.regionStep less step split (fun p b => (split p b).mp), ?_⟩
  intro p b known
  split at known
  · cases known
  · exact known

/-- The loop of `reset`, by induction on the regions left. -/
theorem HeapInv.resetFrom (k : Nat)
    : ∀ {i : Nat} {s : HeapState C} {v : Nat → RegionView} {held : Nat → Option Block},
      HeapInv s v held → i + k ≤ s.count → (∀ j < i, FreshRegion (s.region j) (v j)) →
      ∃ v' held', HeapStep s (HeapState.eachFrom RegionState.reset k i s) v' held' held'
        ∧ Steady s (HeapState.eachFrom RegionState.reset k i s)
        ∧ (∀ j < i + k, FreshRegion ((HeapState.eachFrom RegionState.reset k i s).region j) (v' j))
        ∧ ∀ p b, held' p = some b → held p = some b := by
  induction k with
  | zero =>
      intro i s v held h _ done
      exact ⟨v, held, h.refl held, .refl s, done, fun _ _ => id⟩
  | succ k ih =>
      intro i s v held h fits done
      have less : i < s.count := by omega
      obtain ⟨w, held', fresh, step, sub⟩ := h.resetRegion less
      have done' : ∀ j < i + 1,
          FreshRegion ((s.setRegion i (s.region i).reset).region j) (Function.update v i w j) := by
        intro j lessJ
        by_cases same : j = i
        · subst same
          simpa using fresh
        · have inv := step.inv.regions j (by have := step.more; omega)
          rw [Function.update_of_ne same] at inv ⊢
          exact (done j (by omega)).congr inv
            (by simp [HeapState.region, HeapState.setRegion, same])
      obtain ⟨v', held'', rest, steady, all, sub'⟩ := ih step.inv
        (by have := step.more; omega) done'
      exact ⟨v', held'', step.trans rest sub' (fun _ _ => id),
        (Steady.setRegion s i _).trans steady, fun j lessJ => all j (by omega),
        fun p b known => sub p b (sub' p b known)⟩

/-- `reset` releases every block and leaves every region fresh. -/
theorem HeapInv.reset (h : HeapInv s v held) (ready : s.inited = true)
    : ∃ v', HeapStep s s.reset v' (fun _ => none) (fun _ => none) ∧ Steady s s.reset
        ∧ ∀ i < s.count, FreshRegion (s.reset.region i) (v' i) := by
  have call : s.reset = HeapState.eachFrom RegionState.reset s.count 0 s := by
    simp [HeapState.reset, HeapState.ensure, ready]
  rw [call]
  obtain ⟨v', held', step, steady, fresh, _⟩ := h.resetFrom s.count (i := 0) (by omega)
    (by omega)
  have nothing : held' = fun _ => none := by
    funext p
    rw [Option.eq_none_iff_forall_ne_some]
    intro b known
    obtain ⟨i, less, holds⟩ := (step.inv.blocks p b).mp known
    rw [steady.count] at less
    rw [(fresh i (by omega)).live_eq] at holds
    rcases holds with ⟨x, o, found, _⟩ | ⟨x, n, found, _⟩
    · cases found
    · cases found
  subst nothing
  exact ⟨v', step, steady, fun i less => fresh i (by omega)⟩

end Resetting

end Bbmalloc
