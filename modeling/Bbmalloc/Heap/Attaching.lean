import Bbmalloc.Heap.Laziness

/-! Runs of `attach` with arbitrary arguments: which calls are accepted, and which of the
ranges handed over stay apart.
-/

namespace Bbmalloc

open Bbmalloc.Foundations

-----------------------------------------------------------------------------------------
-- Ranges
-----------------------------------------------------------------------------------------

/-- `len` bytes from `start` on. -/
structure Range where
  start : Nat
  len : Nat

namespace Range

def Mem (r : Range) (a : Nat) : Prop := r.start ≤ a ∧ a < r.start + r.len

/-- The ranges share no byte. -/
def Apart (r q : Range) : Prop := ∀ a, r.Mem a → ¬q.Mem a

variable {r q : Range}

/-- Two ranges with bytes in them share one exactly if each begins before the other ends. -/
theorem apart_iff (some : 0 < r.len) (some' : 0 < q.len)
    : r.Apart q ↔ ¬(q.start < r.start + r.len ∧ r.start < q.start + q.len) := by
  constructor
  · rintro apart ⟨before, after⟩
    exact apart (max r.start q.start) ⟨le_max_left _ _, by omega⟩ ⟨le_max_right _ _, by omega⟩
  · rintro clear a ⟨low, high⟩ ⟨low', high'⟩
    omega

theorem apart_empty (empty : q.len = 0) : r.Apart q := by
  rintro a - ⟨low, high⟩
  omega

end Range

-----------------------------------------------------------------------------------------
-- Calls of attach
-----------------------------------------------------------------------------------------

/-- The arguments of one call of `attach`. -/
structure AttachCall where
  mem : Nat
  len : Nat
  tags : Nat
  tagCap : Nat
  deriving DecidableEq

namespace AttachCall

def region (c : AttachCall) : Range := ⟨c.mem, c.len⟩

/-- The external tag array, empty if there is none. -/
def tagArray (c : AttachCall) : Range := if c.tags = 0 then ⟨0, 0⟩ else ⟨c.tags, c.tagCap⟩

/-- The arguments are machine words. -/
structure Words (C : Config) (c : AttachCall) : Prop where
  mem : c.mem < C.buddy.word
  len : c.len < C.buddy.word
  tags : c.tags < C.buddy.word
  tagCap : c.tagCap < C.buddy.word

/-- Both ranges of the call lie in the address space, with bytes in them, and apart. -/
structure Sound (C : Config) (c : AttachCall) : Prop where
  mem_pos : c.mem ≠ 0
  len_pos : 0 < c.len
  fits : c.mem + c.len < C.buddy.word
  tagArray : c.tags ≠ 0 → 0 < c.tagCap ∧ c.tags + c.tagCap < C.buddy.word
  apart : c.region.Apart c.tagArray

/-- What a call is checked against: neither of its ranges meets the region of an earlier
call. The tag array of the earlier call is not looked at.
-/
structure Beside (earlier later : AttachCall) : Prop where
  region : earlier.region.Apart later.region
  tagArray : earlier.region.Apart later.tagArray

/-- What a call is not checked against. -/
structure ClearsTags (earlier later : AttachCall) : Prop where
  region : earlier.tagArray.Apart later.region
  tagArray : earlier.tagArray.Apart later.tagArray

/-- The two ranges of a call. -/
def ranges (c : AttachCall) : List Range := [c.region, c.tagArray]

/-- The region of the call has this geometry. -/
structure Fills (c : AttachCall) (g : BuddyGeometry) : Prop where
  mem : g.rawMem = c.mem
  len : g.rawLen = c.len
  tags : g.extTags = c.tags
  cap : g.extCap = c.tagCap

/-- The range can be laid out. -/
def Layable (C : Config) (c : AttachCall) : Prop :=
  (Region.zero.buddy.aimedAt c.mem c.len c.tags c.tagCap C.maxAlignment).layout C.buddy ≠ none

end AttachCall

/-- The ranges that a region was made of. -/
def BuddyGeometry.call (g : BuddyGeometry) : AttachCall := ⟨g.rawMem, g.rawLen, g.extTags, g.extCap⟩

/-- The calls that made the regions of a heap. -/
def HeapState.attached {C : Config} (s : HeapState C) : List AttachCall :=
  (List.range s.count).map fun i => (s.geo i).call

/-- The regions and the tag arrays of the calls share no byte. -/
def AttachCall.AllApart (done : List AttachCall) : Prop :=
  (done.flatMap AttachCall.ranges).Pairwise Range.Apart

/-- A call that `attach` accepts, although it meets a tag array: nothing compares the two. -/
structure HeapState.Overlooks {C : Config} (s : HeapState C) (c : AttachCall) : Prop where
  room : s.count < C.maxRegions
  sound : c.Sound C
  beside : ∀ e ∈ s.attached, e.Beside c
  layable : c.Layable C
  meets : ∃ e ∈ s.attached, ¬e.ClearsTags c

/-- `attach` with the arguments of a call. -/
def HeapState.attachCall {C : Config} (s : HeapState C) (c : AttachCall) : HeapState C × Bool :=
  s.attach c.mem c.len c.tags c.tagCap

/-- A sequence of calls, with those that are accepted. -/
def HeapState.attachAll {C : Config} (s : HeapState C)
    : List AttachCall → HeapState C × List AttachCall
  | [] => (s, [])
  | c :: calls =>
      let first := s.attachCall c
      let rest := first.1.attachAll calls
      (rest.1, if first.2 then c :: rest.2 else rest.2)

/-- The regions of the heap are those of the accepted calls. -/
structure Registered {C : Config} (s : HeapState C) (done : List AttachCall) : Prop where
  count : s.count = done.length
  live : ∀ i e, done[i]? = some e → (s.regions i).live = true
  filled : ∀ i (e : AttachCall), done[i]? = some e → e.Fills (s.regions i).buddy.toBuddyGeometry
  sound : ∀ e ∈ done, e.Sound C

section Accepting

variable {C : Config} {s : HeapState C} {done : List AttachCall} {c : AttachCall} {r : Range}

/-- A sum of machine words wraps around exactly if it does not fit. -/
theorem BuddyParams.wrap_iff (P : BuddyParams) {a n : Nat} (start : a < P.word) (len : n < P.word)
    (some : 0 < n)
    : (a + n) % P.word < a ↔ ¬a + n < P.word := by
  constructor
  · intro wrap fits
    rw [Nat.mod_eq_of_lt fits] at wrap
    omega
  · intro large
    rw [Nat.mod_eq_sub_mod (by omega), Nat.mod_eq_of_lt (by omega)]
    omega

/-- `overlaps` looks for a common byte with the region of the accepted call. -/
theorem Registered.overlaps_iff (h : Registered s done) {i : Nat} {e : AttachCall}
    (found : done[i]? = some e) (some : 0 < r.len) (fits : r.start + r.len < C.buddy.word)
    : (s.region i).overlaps r.start r.len = false ↔ e.region.Apart r := by
  have sound := h.sound e (List.mem_of_getElem? found)
  have live : (s.region i).live = true := h.live i e found
  have mem : (s.region i).buddy.rawMem = e.mem := (h.filled i e found).mem
  have len : (s.region i).buddy.rawLen = e.len := (h.filled i e found).len
  rw [Range.apart_iff sound.len_pos some, RegionState.overlaps, live, mem, len]
  simp only [Nat.mod_eq_of_lt fits, Nat.mod_eq_of_lt sound.fits, Bool.not_true, Bool.false_eq_true,
    if_false, Bool.and_eq_false_iff, decide_eq_false_iff_not, not_and_or]
  rfl

/-- `__clear_of_all` compares a range with the regions of the accepted calls. -/
theorem Registered.clearOfAll_iff (h : Registered s done) (some : 0 < r.len)
    (fits : r.start + r.len < C.buddy.word)
    : s.clearOfAll r.start r.len = true ↔ ∀ e ∈ done, e.region.Apart r := by
  simp only [HeapState.clearOfAll, h.count, List.all_eq_true, List.mem_range, Bool.not_eq_true']
  constructor
  · intro clear e mem
    obtain ⟨i, found⟩ := List.mem_iff_getElem?.mp mem
    have less : i < done.length := (List.getElem?_eq_some_iff.mp found).1
    exact (h.overlaps_iff found some fits).mp (clear i less)
  · intro apart i less
    have found := List.getElem?_eq_getElem less
    exact (h.overlaps_iff found some fits).mpr (apart _ (List.mem_of_getElem? found))

/-- The checks of an external tag array. -/
theorem Registered.tagsRefused_iff (h : Registered s done) (words : c.Words C)
    (some : 0 < c.len) (fits : c.mem + c.len < C.buddy.word)
    : s.tagsRefused c.mem c.len c.tags c.tagCap = false
      ↔ (c.tags ≠ 0 → 0 < c.tagCap ∧ c.tags + c.tagCap < C.buddy.word)
        ∧ c.region.Apart c.tagArray ∧ ∀ e ∈ done, e.region.Apart c.tagArray := by
  by_cases internal : c.tags = 0
  · have empty : c.tagArray.len = 0 := by
      rw [AttachCall.tagArray, if_pos internal]
    refine iff_of_true ?_ ⟨fun wrong => absurd internal wrong, Range.apart_empty empty,
      fun e _ => Range.apart_empty empty⟩
    simp [HeapState.tagsRefused, internal]
  · have array : c.tagArray = ⟨c.tags, c.tagCap⟩ := if_neg internal
    rw [array]
    by_cases zero : c.tagCap = 0
    · refine iff_of_false ?_ (fun all => absurd (all.1 internal).1 (by omega))
      simp [HeapState.tagsRefused, internal, zero]
    have wrap := C.buddy.wrap_iff words.tags words.tagCap (by omega)
    by_cases large : c.tags + c.tagCap < C.buddy.word
    case neg =>
      refine iff_of_false ?_ (fun all => large (all.1 internal).2)
      simp [HeapState.tagsRefused, internal, zero, wrap.mpr large]
    have clear := h.clearOfAll_iff (r := ⟨c.tags, c.tagCap⟩) (by simp only; omega) large
    have own : c.region.Apart ⟨c.tags, c.tagCap⟩
        ↔ ¬(c.tags < c.mem + c.len ∧ c.mem < c.tags + c.tagCap) :=
      Range.apart_iff some (by simp only; omega)
    rw [own, ← clear, HeapState.tagsRefused, Nat.mod_eq_of_lt large, Nat.mod_eq_of_lt fits]
    have start : ¬c.tags + c.tagCap < c.tags := by omega
    simp only [internal, zero, start, large, ne_eq, not_false_eq_true, decide_true,
      decide_false, Bool.true_and, Bool.false_or, Bool.or_eq_false_iff, Bool.and_eq_false_iff,
      decide_eq_false_iff_not, not_and_or, Bool.not_eq_false', and_true, true_implies,
      Nat.pos_of_ne_zero zero, true_and]

/-- What `__attach` answers, once its comparisons are done. -/
theorem HeapState.attachPool_eq (s : HeapState C) (mem len tags cap : Nat) (z : Bool)
    : (s.attachPool mem len tags cap z).2
      = (!(decide (s.count ≥ C.maxRegions) || decide (mem = 0) || decide (len = 0))
        && !decide ((mem + len) % C.buddy.word < mem) && s.clearOfAll mem len
        && !s.tagsRefused mem len tags cap
        && ((Region.zero.buddy.aimedAt mem len tags cap C.maxAlignment).layout
          C.buddy).isSome) := by
  have accepts : (s.onRegion s.count (fun r => r.attach mem len tags cap z)).2
      = ((Region.zero.buddy.aimedAt mem len tags cap C.maxAlignment).layout C.buddy).isSome :=
    (s.region s.count).attach_accepts mem len tags cap z
  rw [HeapState.attachPool, ← accepts]
  generalize s.onRegion s.count (fun r => r.attach mem len tags cap z) = r
  obtain ⟨t, ok⟩ := r
  split_ifs with full wrap overlap refused
  · rw [full]
    rfl
  · simp [wrap]
  · simp at overlap
    simp [overlap]
  · simp [refused]
  · simp at overlap refused
    cases ok
    · simp
    · simp_all

/-- `__attach` accepts the calls whose ranges lie in the address space and meet no earlier
region, as long as there is a region left and the range can be laid out.
-/
theorem Registered.attach_iff (h : Registered s done) (words : c.Words C)
    : (s.attachCall c).2 = true
      ↔ done.length < C.maxRegions ∧ c.Sound C ∧ (∀ e ∈ done, e.Beside c) ∧ c.Layable C := by
  rw [HeapState.attachCall, HeapState.attach, s.attachPool_eq]
  simp only [Bool.and_eq_true, Bool.not_eq_true', Bool.or_eq_false_iff, decide_eq_false_iff_not,
    Option.isSome_iff_ne_none, h.count, Nat.not_le]
  constructor
  · rintro ⟨⟨⟨⟨⟨⟨room, mem⟩, len⟩, wrap⟩, clear⟩, tags⟩, laid⟩
    have some : 0 < c.len := Nat.pos_of_ne_zero len
    have fits : c.mem + c.len < C.buddy.word := by
      rwa [C.buddy.wrap_iff words.mem words.len some, not_not] at wrap
    have region := (h.clearOfAll_iff (r := c.region) some fits).mp clear
    obtain ⟨array, own, others⟩ := (h.tagsRefused_iff words some fits).mp tags
    exact ⟨room, ⟨mem, some, fits, array, own⟩, fun e done => ⟨region e done, others e done⟩, laid⟩
  · rintro ⟨room, sound, beside, laid⟩
    have wrap : ¬(c.mem + c.len) % C.buddy.word < c.mem := by
      rw [C.buddy.wrap_iff words.mem words.len sound.len_pos, not_not]
      exact sound.fits
    have clear := (h.clearOfAll_iff (r := c.region) sound.len_pos sound.fits).mpr
      (fun e done => (beside e done).region)
    have tags := (h.tagsRefused_iff words sound.len_pos sound.fits).mpr
      ⟨sound.tagArray, sound.apart, fun e done => (beside e done).tagArray⟩
    exact ⟨⟨⟨⟨⟨⟨room, sound.mem_pos⟩, sound.len_pos.ne'⟩, wrap⟩, clear⟩, tags⟩, laid⟩

theorem BuddyState.seedFrom_geometry {P : BuddyParams} (o : Nat)
    : ∀ (b : BuddyState P) (off : Nat), (b.seedFrom o off).toBuddyGeometry = b.toBuddyGeometry := by
  induction o with
  | zero => exact fun _ _ => rfl
  | succ o ih =>
      intro b off
      unfold BuddyState.seedFrom
      split
      · rw [ih]
        rfl
      · exact ih b off

/-- `attach` of a range that can be laid out. -/
theorem RegionState.attach_fills {r : RegionState C} {z : Bool}
    (ok : (r.attach c.mem c.len c.tags c.tagCap z).2 = true)
    : (r.attach c.mem c.len c.tags c.tagCap z).1.live = true
      ∧ c.Fills (r.attach c.mem c.len c.tags c.tagCap z).1.buddy.toBuddyGeometry := by
  set b : BuddyState C.buddy :=
    ⟨r.buddy.aimedAt c.mem c.len c.tags c.tagCap C.maxAlignment, r.mem⟩ with bEq
  have call : r.attach c.mem c.len c.tags c.tagCap z
      = (let b := b.setup z
         let r' : RegionState C := { r.setBuddy b.1 with live := b.2, spare := nullOff }
         (if r'.live then r'.setTlsf (r'.tlsfState.init r'.buddy.base) else r', r'.live)) := rfl
  have accepts := r.attach_accepts c.mem c.len c.tags c.tagCap z
  rw [ok] at accepts
  obtain ⟨g, laid⟩ := Option.isSome_iff_exists.mp accepts.symm
  have laid : b.layout C.buddy = some g := laid
  have geometry : (b.blankAt g z).seed.toBuddyGeometry = g := BuddyState.seedFrom_geometry _ _ _
  obtain ⟨_, _, _, _, _, same⟩ := (BuddyGeometry.layout_eq_some C.buddy _).mp laid
  rw [call, BuddyState.setup_some laid]
  refine ⟨rfl, ?_⟩
  change c.Fills (b.blankAt g z).seed.toBuddyGeometry
  rw [geometry, ← same]
  exact ⟨rfl, rfl, rfl, rfl⟩

/-- `attach` of a range that cannot be laid out. -/
theorem RegionState.attach_idle {r : RegionState C} {z : Bool} (idle : r.Idle)
    (no : (r.attach c.mem c.len c.tags c.tagCap z).2 = false)
    : (r.attach c.mem c.len c.tags c.tagCap z).1.Idle
      ∧ (r.attach c.mem c.len c.tags c.tagCap z).1.mem = r.mem := by
  set b : BuddyState C.buddy :=
    ⟨r.buddy.aimedAt c.mem c.len c.tags c.tagCap C.maxAlignment, r.mem⟩ with bEq
  have call : r.attach c.mem c.len c.tags c.tagCap z
      = (let b := b.setup z
         let r' : RegionState C := { r.setBuddy b.1 with live := b.2, spare := nullOff }
         (if r'.live then r'.setTlsf (r'.tlsfState.init r'.buddy.base) else r', r'.live)) := rfl
  have accepts := r.attach_accepts c.mem c.len c.tags c.tagCap z
  rw [no] at accepts
  have laid : b.layout C.buddy = none := Option.isNone_iff_eq_none.mp (by
    rw [← Option.not_isSome, ← accepts]
    rfl)
  obtain ⟨base, align, failed⟩ := b.setup_none z laid
  rw [call, failed]
  exact ⟨⟨rfl, rfl, rfl, idle.count, idle.noRollback⟩, rfl⟩

/-- A call fills the next region, or it leaves the heap as it is but for that region. -/
theorem HeapState.attachCall_cases (s : HeapState C) (c : AttachCall)
    : ((s.attachCall c).2 = true ∧ (s.attachCall c).1.count = s.count + 1
        ∧ ((s.attachCall c).1.regions s.count).live = true
        ∧ c.Fills ((s.attachCall c).1.geo s.count))
      ∨ ((s.attachCall c).2 = false
        ∧ ((s.attachCall c).1 = s
          ∨ ((s.region s.count).attach c.mem c.len c.tags c.tagCap false).2 = false
            ∧ (s.attachCall c).1 = s.setRegion s.count
              ((s.region s.count).attach c.mem c.len c.tags c.tagCap false).1)) := by
  have fills : (s.onRegion s.count (fun r => r.attach c.mem c.len c.tags c.tagCap false)).2 = true →
      ((s.onRegion s.count (fun r => r.attach c.mem c.len c.tags c.tagCap false)).1.regions
          s.count).live = true
        ∧ c.Fills ((s.onRegion s.count
          (fun r => r.attach c.mem c.len c.tags c.tagCap false)).1.geo s.count) := by
    intro ok
    have filled := RegionState.attach_fills (r := s.region s.count) ok
    simpa only [HeapState.onRegion, HeapState.setRegion, HeapState.geo, Function.update_self]
      using filled
  have idle : s.onRegion s.count (fun r => r.attach c.mem c.len c.tags c.tagCap false)
      = (s.setRegion s.count ((s.region s.count).attach c.mem c.len c.tags c.tagCap false).1,
        ((s.region s.count).attach c.mem c.len c.tags c.tagCap false).2) :=
    rfl
  rw [HeapState.attachCall, HeapState.attach, HeapState.attachPool]
  generalize s.onRegion s.count (fun r => r.attach c.mem c.len c.tags c.tagCap false) = r
    at fills idle ⊢
  obtain ⟨t, ok⟩ := r
  split_ifs
  · exact Or.inr ⟨rfl, Or.inl rfl⟩
  · exact Or.inr ⟨rfl, Or.inl rfl⟩
  · exact Or.inr ⟨rfl, Or.inl rfl⟩
  · exact Or.inr ⟨rfl, Or.inl rfl⟩
  · obtain ⟨same, answer⟩ := Prod.mk.inj idle
    cases ok
    · exact Or.inr ⟨rfl, Or.inr ⟨answer.symm, same⟩⟩
    · exact Or.inl ⟨rfl, rfl, fills rfl⟩

/-- An accepted call is registered after the others, a refused one is not. -/
theorem Registered.attachCall (h : Registered s done) (words : c.Words C)
    : Registered (s.attachCall c).1 (if (s.attachCall c).2 then done ++ [c] else done) := by
  have other : ∀ i < s.count, (s.attachCall c).1.regions i = s.regions i :=
    fun i less => HeapState.attachPool_regions (by omega)
  have accepts := h.attach_iff words
  have old : ∀ {i e}, done[i]? = some e → i < s.count := by
    intro i e found
    rw [h.count]
    exact (List.getElem?_eq_some_iff.mp found).1
  rcases s.attachCall_cases c with ⟨ok, count, live, filled⟩ | ⟨no, steady⟩
  · rw [if_pos ok]
    have split : ∀ {i e}, (done ++ [c])[i]? = some e →
        done[i]? = some e ∨ i = s.count ∧ e = c := by
      intro i e found
      rw [List.getElem?_append] at found
      split at found
      case isTrue => exact Or.inl found
      case isFalse high =>
        obtain ⟨less, same⟩ := List.getElem?_eq_some_iff.mp found
        simp only [List.length_singleton] at less
        have here : i - done.length = 0 := by omega
        simp only [here, List.getElem_singleton] at same
        exact Or.inr ⟨by rw [h.count]; omega, same.symm⟩
    refine ⟨by rw [count, h.count, List.length_append, List.length_singleton], ?_, ?_, ?_⟩
    · intro i e found
      rcases split found with before | ⟨rfl, rfl⟩
      · rw [other i (old before)]
        exact h.live i e before
      · exact live
    · intro i e found
      rcases split found with before | ⟨rfl, rfl⟩
      · rw [other i (old before)]
        exact h.filled i e before
      · exact filled
    · intro e mem
      rcases List.mem_append.mp mem with before | last
      · exact h.sound e before
      · rw [List.mem_singleton.mp last]
        exact (accepts.mp ok).2.1
  · have count : (s.attachCall c).1.count = s.count := by
      rcases steady with same | ⟨_, same⟩
      · rw [same]
      · rw [same]
        rfl
    rw [if_neg (by simp [no])]
    refine ⟨count.trans h.count, fun i e found => ?_, fun i e found => ?_, h.sound⟩
    · rw [other i (old found)]
      exact h.live i e found
    · rw [other i (old found)]
      exact h.filled i e found

end Accepting

-----------------------------------------------------------------------------------------
-- Runs
-----------------------------------------------------------------------------------------

section Runs

variable {C : Config} {s : HeapState C} {done calls : List AttachCall} {c : AttachCall}
  {m : Memory} {v : Nat → RegionView} {g : BuddyGeometry} {a : Nat}

/-- A heap with its accepted calls, none of which meets the region of an earlier one. -/
structure AttachRun {C : Config} (s : HeapState C) (done : List AttachCall) : Prop where
  registered : Registered s done
  beside : done.Pairwise AttachCall.Beside

theorem AttachRun.start : AttachRun (HeapState.zero C m) [] :=
  ⟨⟨rfl, by simp, by simp, by simp⟩, .nil⟩

/-- One call. -/
theorem AttachRun.step (run : AttachRun s done) (words : c.Words C)
    : AttachRun (s.attachCall c).1 (if (s.attachCall c).2 then done ++ [c] else done) := by
  refine ⟨run.registered.attachCall words, ?_⟩
  split
  case isTrue ok =>
    obtain ⟨_, _, beside, _⟩ := (run.registered.attach_iff words).mp ok
    refine List.pairwise_append.mpr
      ⟨run.beside, List.pairwise_singleton _ _, fun e mem d last => ?_⟩
    rw [List.mem_singleton.mp last]
    exact beside e mem
  case isFalse => exact run.beside

/-- The calls from `done` on, by induction on the calls left. -/
theorem AttachRun.all
    : ∀ {calls : List AttachCall} {s : HeapState C} {done : List AttachCall}, AttachRun s done →
      (∀ c ∈ calls, c.Words C) →
      AttachRun (s.attachAll calls).1 (done ++ (s.attachAll calls).2) := by
  intro calls
  induction calls with
  | nil =>
      intro s done run _
      rw [HeapState.attachAll, List.append_nil]
      exact run
  | cons c calls ih =>
      intro s done run words
      have step := ih (run.step (words c List.mem_cons_self))
        (fun d mem => words d (List.mem_cons_of_mem _ mem))
      rw [HeapState.attachAll]
      simp only
      split at step
      case isTrue ok =>
        rw [if_pos ok]
        rwa [List.append_assoc] at step
      case isFalse no =>
        rw [if_neg no]
        exact step

/-- All ranges stay apart exactly if no call meets the tag array of an earlier one. -/
theorem AttachRun.apart_iff (run : AttachRun s done)
    : (done.flatMap AttachCall.ranges).Pairwise Range.Apart
      ↔ done.Pairwise AttachCall.ClearsTags := by
  rw [List.pairwise_flatMap]
  have own : ∀ e ∈ done, e.ranges.Pairwise Range.Apart := by
    intro e mem
    simp only [AttachCall.ranges, List.pairwise_cons, List.mem_singleton, forall_eq,
      List.not_mem_nil, false_implies, implies_true, List.Pairwise.nil, and_true]
    exact (run.registered.sound e mem).apart
  rw [and_iff_right own]
  constructor
  · intro apart
    refine apart.imp (fun {e d} all => ⟨?_, ?_⟩)
    · exact all e.tagArray (by simp [AttachCall.ranges]) d.region (by simp [AttachCall.ranges])
    · exact all e.tagArray (by simp [AttachCall.ranges]) d.tagArray (by simp [AttachCall.ranges])
  · intro clear
    refine (clear.and run.beside).imp (fun {e d} both r mem q mem' => ?_)
    obtain ⟨clear, beside⟩ := both
    simp only [AttachCall.ranges, List.mem_cons, List.not_mem_nil, or_false] at mem mem'
    rcases mem with rfl | rfl
    · rcases mem' with rfl | rfl
      · exact beside.region
      · exact beside.tagArray
    · rcases mem' with rfl | rfl
      · exact clear.region
      · exact clear.tagArray

/-- The regions of the heap name the accepted calls. -/
theorem Registered.attached (h : Registered s done) : s.attached = done := by
  refine List.ext_getElem? (fun i => ?_)
  rw [HeapState.attached, List.getElem?_map, h.count]
  by_cases less : i < done.length
  · have found := List.getElem?_eq_getElem less
    have filled := h.filled i _ found
    rw [List.getElem?_range less, found, Option.map_some]
    exact congrArg some (by rw [BuddyGeometry.call, HeapState.geo, filled.mem, filled.len,
      filled.tags, filled.cap])
  · rw [List.getElem?_eq_none (by simpa using less), List.getElem?_eq_none (by omega),
      Option.map_none]

/-- What `attach` overlooks is an accepted call that meets an earlier tag array. -/
theorem AttachRun.overlooks_iff (run : AttachRun s done) (words : c.Words C)
    : s.Overlooks c ↔ (s.attachCall c).2 = true ∧ ¬∀ e ∈ done, e.ClearsTags c := by
  have attached := run.registered.attached
  rw [run.registered.attach_iff words]
  constructor
  · rintro ⟨room, sound, beside, layable, e, mem, meets⟩
    rw [attached] at beside mem
    rw [run.registered.count] at room
    exact ⟨⟨room, sound, beside, layable⟩, fun clears => meets (clears e mem)⟩
  · rintro ⟨⟨room, sound, beside, layable⟩, meets⟩
    obtain ⟨e, mem, meets⟩ : ∃ e ∈ done, ¬e.ClearsTags c := by
      simpa only [not_forall, exists_prop] using meets
    rw [← run.registered.count] at room
    rw [← attached] at beside mem
    exact ⟨room, sound, beside, layable, e, mem, meets⟩

/-- One call keeps all ranges apart, unless it is overlooked. -/
theorem AttachRun.keeps_apart (run : AttachRun s done) (words : c.Words C)
    (apart : AttachCall.AllApart s.attached)
    : AttachCall.AllApart (s.attachCall c).1.attached ↔ ¬s.Overlooks c := by
  have next := run.step words
  rw [next.registered.attached, run.overlooks_iff words]
  rw [run.registered.attached] at apart
  cases ok : (s.attachCall c).2 with
  | false => exact iff_of_true (by simpa using apart) (fun both => absurd both.1 (by decide))
  | true =>
      rw [ok, if_pos rfl] at next
      rw [if_pos rfl, and_iff_right rfl, not_not]
      refine next.apart_iff.trans ?_
      rw [List.pairwise_append]
      constructor
      · rintro ⟨_, _, last⟩ e mem
        exact last e mem c (List.mem_singleton.mpr rfl)
      · intro clears
        refine ⟨run.apart_iff.mp apart, List.pairwise_singleton _ _, fun e mem d last => ?_⟩
        rw [List.mem_singleton.mp last]
        exact clears e mem

/-- A call that is not overlooked is refused if it would bring two ranges together. -/
theorem AttachRun.refuses (run : AttachRun s done) (words : c.Words C)
    (apart : AttachCall.AllApart s.attached) (seen : ¬s.Overlooks c)
    (breaks : ¬AttachCall.AllApart (s.attached ++ [c]))
    : (s.attachCall c).2 = false := by
  by_contra accepted
  have next := (run.step words).registered.attached
  rw [if_pos (by simpa using accepted), ← run.registered.attached] at next
  have keeps := (run.keeps_apart words apart).mpr seen
  rw [next] at keeps
  exact breaks keeps

theorem HeapState.attachAll_concat (c : AttachCall)
    : ∀ (done : List AttachCall) (s : HeapState C),
      (s.attachAll (done ++ [c])).1 = ((s.attachAll done).1.attachCall c).1 := by
  intro done
  induction done with
  | nil => exact fun _ => rfl
  | cons d done ih => exact fun s => ih (s.attachCall d).1

/-- No call of the sequence is overlooked when it is made. -/
def HeapState.NoneOverlooked (s : HeapState C) (calls : List AttachCall) : Prop :=
  ∀ done c rest, calls = done ++ c :: rest → ¬(s.attachAll done).1.Overlooks c

/-- The ranges stay apart through a run without overlooked calls, by induction on the calls
made so far.
-/
theorem AttachRun.all_apart (words : ∀ c ∈ calls, c.Words C)
    (seen : (HeapState.zero C m).NoneOverlooked calls)
    : ∀ done rest, calls = done ++ rest →
      AttachCall.AllApart ((HeapState.zero C m).attachAll done).1.attached := by
  intro done
  induction done using List.reverseRecOn with
  | nil => exact fun _ _ => List.Pairwise.nil
  | append_singleton done c ih =>
      intro rest split
      rw [List.append_assoc, List.singleton_append] at split
      have before : ∀ d ∈ done, d.Words C :=
        fun d mem => words d (split ▸ List.mem_append_left _ mem)
      have last : c.Words C :=
        words c (split ▸ List.mem_append_right _ List.mem_cons_self)
      have run := (AttachRun.start (C := C) (m := m)).all before
      rw [HeapState.attachAll_concat]
      exact (run.keeps_apart last (ih _ split)).mpr (seen done c rest split)

/-- The footprint of a region lies in the ranges of its call. -/
theorem AttachCall.Fills.footprint (fills : c.Fills g) (sound : g.Sound C.buddy)
    (inside : Footprint g a)
    : c.region.Mem a ∨ c.tagArray.Mem a := by
  rcases sound.footprint_raw inside with ⟨low, high⟩ | ⟨external, low, high⟩
  · rw [fills.mem] at low high
    rw [fills.len] at high
    exact Or.inl ⟨low, high⟩
  · rw [fills.tags] at external low high
    rw [fills.cap] at high
    refine Or.inr ?_
    rw [tagArray, if_neg external]
    exact ⟨low, high⟩

/-- A call that meets no tag array either finds its ranges clear of the heap. -/
theorem AttachRun.clear (run : AttachRun s done) (h : HeapInv s v fun _ => none)
    (words : c.Words C) (half : 2 * c.len ≤ C.buddy.word) (beside : ∀ e ∈ done, e.Beside c)
    (clears : ∀ e ∈ done, e.ClearsTags c)
    : s.Clear c.mem c.len c.tags c.tagCap false := by
  refine ⟨half, words.tagCap, fun i less a inside => ?_, by simp, by simp⟩
  rw [run.registered.count] at less
  have found := List.getElem?_eq_getElem less
  have mem := List.mem_of_getElem? found
  have region : ¬c.region.Mem a ∧ ¬c.tagArray.Mem a := by
    have sound := (h.regions i (by rw [run.registered.count]; exact less)).buddy.rep.geometry
    rcases (run.registered.filled i _ found).footprint sound inside with here | here
    · exact ⟨(beside _ mem).region a here, (beside _ mem).tagArray a here⟩
    · exact ⟨(clears _ mem).region a here, (clears _ mem).tagArray a here⟩
  refine ⟨region.1, fun ⟨external, low, high⟩ => region.2 ?_⟩
  rw [AttachCall.tagArray, if_neg external]
  exact ⟨low, high⟩

/-- One call that meets no tag array, if it is accepted. -/
theorem AttachRun.inv_step (run : AttachRun s done) (h : HeapInv s v fun _ => none)
    (words : c.Words C)
    (good : (s.attachCall c).2 = true →
      2 * c.len ≤ C.buddy.word ∧ ∀ e ∈ done, e.ClearsTags c)
    : ∃ v', HeapInv (s.attachCall c).1 v' fun _ => none := by
  rcases s.attachCall_cases c with ⟨ok, _⟩ | ⟨_, same | ⟨no, same⟩⟩
  · obtain ⟨half, clears⟩ := good ok
    obtain ⟨_, _, beside, _⟩ := (run.registered.attach_iff words).mp ok
    have clear := run.clear h words half beside clears
    cases h.attachPool clear with
    | accepted _ _ _ step _ _ _ => exact ⟨_, step.inv⟩
    | refused _ step _ _ => exact ⟨_, step.inv⟩
  · rw [same]
    exact ⟨v, h⟩
  · rw [same]
    obtain ⟨idle, mem⟩ := RegionState.attach_idle (h.idle s.count le_rfl) no
    exact ⟨v, (h.keepIdle idle mem le_rfl).inv⟩

/-- A run in which no accepted call meets an earlier tag array keeps the heap in order. -/
theorem AttachRun.all_inv
    : ∀ {calls : List AttachCall} {s : HeapState C} {done : List AttachCall}
        {v : Nat → RegionView}, AttachRun s done → (HeapInv s v fun _ => none) →
      (∀ c ∈ calls, c.Words C) → (∀ c ∈ (s.attachAll calls).2, 2 * c.len ≤ C.buddy.word) →
      (done ++ (s.attachAll calls).2).Pairwise AttachCall.ClearsTags →
      ∃ v', HeapInv (s.attachAll calls).1 v' fun _ => none := by
  intro calls
  induction calls with
  | nil => exact fun _ h _ _ _ => ⟨_, h⟩
  | cons c calls ih =>
      intro s done v run h words half clears
      have rest := run.step (words c List.mem_cons_self)
      have words' : ∀ d ∈ calls, d.Words C := fun d mem => words d (List.mem_cons_of_mem _ mem)
      rw [HeapState.attachAll] at half clears ⊢
      simp only at half clears ⊢
      cases ok : (s.attachCall c).2 with
      | true =>
          simp only [ok, if_true] at rest half clears
          have good : 2 * c.len ≤ C.buddy.word ∧ ∀ e ∈ done, e.ClearsTags c :=
            ⟨half c List.mem_cons_self,
              fun e mem => (List.pairwise_append.mp clears).2.2 e mem c List.mem_cons_self⟩
          obtain ⟨v', inv⟩ := run.inv_step h (words c List.mem_cons_self) (fun _ => good)
          refine ih rest inv words' (fun d mem => half d (List.mem_cons_of_mem _ mem)) ?_
          rwa [List.append_assoc]
      | false =>
          simp only [ok, Bool.false_eq_true, if_false] at rest half clears
          obtain ⟨v', inv⟩ := run.inv_step h (words c List.mem_cons_self)
            (fun yes => absurd (ok.symm.trans yes) (by decide))
          exact ih rest inv words' half clears

end Runs

end Bbmalloc
