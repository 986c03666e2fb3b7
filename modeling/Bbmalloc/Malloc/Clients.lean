import Bbmalloc.Heap.Safety
import Bbmalloc.Malloc.Resizing
import Bbmalloc.Model.CInterface

/-! What the clients of the heap see: the blocks they hold, with their contents and without
the redzones. The functions of the public interface and of the C shim do to these blocks what
the C interface allows.
-/

namespace Bbmalloc

open Bbmalloc.Foundations

-----------------------------------------------------------------------------------------
-- The blocks of the clients
-----------------------------------------------------------------------------------------

/-- The `n` bytes at `p`. -/
def HeapState.contents {C : Config} (s : HeapState C) (p n : Nat) : List UInt8 :=
  (List.range n).map (fun i => (s.mem (p + i)).byte)

/-- The usable part of a block. -/
def HeapState.usable {C : Config} (s : HeapState C) (p : Nat) (b : Block) : List UInt8 :=
  s.contents p (b.len - C.rz)

/-- The clients of `s` hold the blocks `seen`, each with room for its redzone. -/
structure Shows {C : Config} (s : HeapState C) (v : Nat → RegionView) (held : Nat → Option Block)
    (seen : Blocks UInt8)
    : Prop where
  inv : HeapInv s v held
  padded : ∀ p b, held p = some b → C.rz < b.len
  blocks : ∀ p, seen p = (held p).map (s.usable p)

section Showing

variable {C : Config} {s s' : HeapState C} {v v' : Nat → RegionView}
  {held kept held' : Nat → Option Block} {seen : Blocks UInt8} {p q n a i : Nat} {b d : Block}

@[simp] theorem HeapState.contents_length (s : HeapState C) (p n : Nat)
    : (s.contents p n).length = n := by
  simp [contents]

theorem HeapState.contents_get (s : HeapState C) (less : i < n)
    : (s.contents p n)[i]? = some (s.mem (p + i)).byte := by
  rw [contents, List.getElem?_map, List.getElem?_range less, Option.map_some]

@[simp] theorem HeapState.usable_length (s : HeapState C) (p : Nat) (b : Block)
    : (s.usable p b).length = b.len - C.rz :=
  s.contents_length p _

/-- Equal bytes make equal contents. -/
theorem HeapState.contents_congr (same : ∀ i < n, (s'.mem (p + i)).byte = (s.mem (p + i)).byte)
    : s'.contents p n = s.contents p n :=
  List.map_congr_left (fun i mem => same i (List.mem_range.mp mem))

theorem Shows.known (shows : Shows s v held seen) (known : held p = some b)
    : seen p = some (s.usable p b) := by
  rw [shows.blocks, known, Option.map_some]

theorem Shows.unknown (shows : Shows s v held seen) (unused : held p = none) : seen p = none := by
  rw [shows.blocks, unused, Option.map_none]

theorem Shows.of_seen (shows : Shows s v held seen) {c : List UInt8} (found : seen p = some c)
    : ∃ b, held p = some b ∧ c = s.usable p b := by
  rw [shows.blocks] at found
  obtain ⟨b, known, same⟩ := Option.map_eq_some_iff.mp found
  exact ⟨b, known, same.symm⟩

/-- A store changes the byte that it meets. -/
theorem HeapState.usable_store (s : HeapState C) (p x : Nat) (b : Block) (w : UInt8)
    : ({ s with mem := s.mem.store x w } : HeapState C).usable p b
      = if p ≤ x then (s.usable p b).set (x - p) w else s.usable p b := by
  refine List.ext_getElem (by split <;> simp) (fun i less less' => ?_)
  split
  · rw [List.getElem_set]
    split
    · next same =>
        subst same
        simp [usable, contents, show p + (x - p) = x by omega]
    · next differ =>
        simp [usable, contents, Memory.store_of_ne _ w (show p + i ≠ x by omega)]
  · simp [usable, contents, Memory.store_of_ne _ w (show p + i ≠ x by omega)]

/-- A block that a step keeps keeps its contents. -/
theorem HeapStep.usable (step : HeapStep s s' v' kept held') (known : kept p = some b)
    : s'.usable p b = s.usable p b :=
  HeapState.contents_congr (fun i less =>
    congrArg Cell.byte (step.kept_mem known (by omega) (by omega)))

/-- The blocks on view do not meet. -/
theorem Shows.apart (shows : Shows s v held seen) : seen.Apart := by
  intro p q c c' found found' differ
  obtain ⟨b, known, rfl⟩ := shows.of_seen found
  obtain ⟨d, known', rfl⟩ := shows.of_seen found'
  have := shows.inv.disjoint known known' differ
  simp only [HeapState.usable_length]
  omega

/-- A step that keeps the blocks there are. -/
theorem HeapStep.shows (step : HeapStep s s' v' kept kept)
    (padded : ∀ p b, kept p = some b → C.rz < b.len)
    (blocks : ∀ p, seen p = (kept p).map (s.usable p))
    : Shows s' v' kept seen := by
  refine ⟨step.inv, padded, fun p => ?_⟩
  rw [blocks]
  cases known : kept p with
  | none => rfl
  | some b => rw [Option.map_some, Option.map_some, step.usable known]

/-- A step that adds a block to those that it keeps does so on clear ground. -/
theorem HeapStep.shows_put (step : HeapStep s s' v' kept (Function.update kept q (some b)))
    (padded : ∀ p b, kept p = some b → C.rz < b.len)
    (blocks : ∀ p, seen p = (kept p).map (s.usable p)) (unused : kept q = none)
    (room : C.rz < b.len)
    : Shows s' v' (Function.update kept q (some b)) (seen.put q (s'.usable q b))
      ∧ seen.Clear q (b.len - C.rz) := by
  constructor
  · refine ⟨step.inv, fun p d known => ?_, fun p => ?_⟩
    · by_cases same : p = q
      · subst same
        rw [Function.update_self] at known
        cases known
        exact room
      · rw [Function.update_of_ne same] at known
        exact padded p d known
    · by_cases same : p = q
      · subst same
        rw [Blocks.put_same, Function.update_self, Option.map_some]
      · rw [Blocks.put_other _ _ same, blocks, Function.update_of_ne same]
        cases known : kept p with
        | none => rfl
        | some d => rw [Option.map_some, Option.map_some, step.usable known]
  · intro p c found
    rw [blocks] at found
    obtain ⟨d, known, rfl⟩ := Option.map_eq_some_iff.mp found
    have differ : q ≠ p := by
      rintro rfl
      rw [unused] at known
      cases known
    have apart := step.inv.disjoint (p := q) (q := p) (Function.update_self _ _ _)
      (by rw [Function.update_of_ne (Ne.symm differ)]; exact known) differ
    simp only [HeapState.usable_length]
    omega

/-- What is left on view of a ledger without the block at `p`. -/
theorem Shows.erased (shows : Shows s v held seen) (p : Nat)
    : (∀ q b, Function.update held p none q = some b → C.rz < b.len)
      ∧ ∀ q, (seen.erase p) q = (Function.update held p none q).map (s.usable q) := by
  refine ⟨fun q b known => shows.padded q b (of_erased known).1, fun q => ?_⟩
  by_cases same : q = p
  · subst same
    rw [Blocks.erase_same, Function.update_self, Option.map_none]
  · rw [Blocks.erase_other _ same, shows.blocks, Function.update_of_ne same]

end Showing

-----------------------------------------------------------------------------------------
-- Calls
-----------------------------------------------------------------------------------------

/-- If the call returns, the heap is in order, and what its clients see then and the value
returned satisfy `Q`.
-/
def Visible {C : Config} {α : Type} (c : HeapState C × Exit α) (Q : α → Blocks UInt8 → Prop)
    : Prop :=
  ∀ r, c.2 = .returned r → ∃ v held seen, Shows c.1 v held seen ∧ Q r seen

section Calls

variable {C : Config} {α β : Type} {s : HeapState C} {v : Nat → RegionView}
  {held : Nat → Option Block} {seen : Blocks UInt8} {c : HeapState C × Exit α}
  {d : HeapState C × Exit Chunk} {Q : α → Blocks UInt8 → Prop} {R : β → Blocks UInt8 → Prop}
  {n a p : Nat} {fill : Option UInt8}

theorem Visible.mono {Q' : α → Blocks UInt8 → Prop} (visible : Visible c Q)
    (weaker : ∀ r seen, Q r seen → Q' r seen)
    : Visible c Q' := by
  intro r returned
  obtain ⟨v, held, seen, shows, holds⟩ := visible r returned
  exact ⟨v, held, seen, shows, weaker r seen holds⟩

/-- What is known of the value returned. -/
theorem Visible.also {F : α → Prop} (visible : Visible c Q)
    (known : ∀ r, c.2 = .returned r → F r)
    : Visible c (fun r seen => F r ∧ Q r seen) := by
  intro r returned
  obtain ⟨v, held, seen, shows, holds⟩ := visible r returned
  exact ⟨v, held, seen, shows, known r returned, holds⟩

/-- A call that goes on where another one returned. -/
theorem Visible.andThen {f : HeapState C → α → HeapState C × Exit β} (visible : Visible c Q)
    (next : ∀ {v held seen} r, Shows c.1 v held seen → Q r seen → Visible (f c.1 r) R)
    : Visible (HeapState.andThen c f) R := by
  obtain ⟨h, e⟩ := c
  cases e with
  | returned value =>
      obtain ⟨v, held, seen, shows, holds⟩ := visible value rfl
      exact next value shows holds
  | threw => exact fun r returned => by cases returned
  | halted => exact fun r returned => by cases returned

/-- A call whose value is passed on. -/
theorem Visible.map {f : α → β} (visible : Visible c (fun r => R (f r)))
    : Visible (HeapState.andThen c (fun h r => (h, .returned (f r)))) R :=
  visible.andThen (fun _ shows holds _ returned => by
    cases returned
    exact ⟨_, _, _, shows, holds⟩)

/-- `noexcept` does not change what a call returns. -/
theorem Visible.call (visible : Visible c Q) : Visible (Shim.call c) Q := by
  intro r returned
  obtain ⟨h, e⟩ := c
  cases e with
  | returned value => exact visible r returned
  | threw => cases returned
  | halted => cases returned

/-- An allocation shows the blocks there were, with a new one if it is granted. -/
theorem Served.visible (served : Served s v held n a d) (shows : Shows s v held seen)
    (filled : ∀ x, fill = some x → ∀ e, d.2 = .returned e → e.ptr ≠ 0 → ∀ i < e.len,
      (d.1.mem (e.ptr + i)).byte = x)
    : Visible d (fun e => Allocates seen n a fill e.ptr) := by
  intro e returned
  cases served with
  | @granted p b v' chunk notNull aligned unused positive enough _ step =>
      obtain ⟨shown, clear⟩ := step.shows_put shows.padded shows.blocks unused (by omega)
      rw [chunk] at returned
      cases returned
      refine ⟨_, _, _, shown, .block positive notNull aligned ?_ (shows.unknown unused) ?_ ?_⟩
      · rw [HeapState.usable_length]
        omega
      · rw [HeapState.usable_length]
        exact clear
      · intro x wanted y mem
        obtain ⟨i, less, rfl⟩ := List.mem_map.mp mem
        exact filled x wanted _ chunk notNull i (List.mem_range.mp less)
  | refused result step =>
      rw [returned] at result
      have null := C.refused_null result
      refine ⟨_, _, _, step.shows shows.padded shows.blocks, ?_⟩
      simp only [null]
      exact .refused

/-- Nothing is returned by a failure but null. -/
theorem Shows.fail (shows : Shows s v held seen) (n : Nat)
    : Visible (s.fail n) (fun e seen' => e.ptr = 0 ∧ seen' = seen) := by
  intro e returned
  rw [s.fail_failure n] at returned ⊢
  have step : HeapStep s (s.collect .failure n) v held held :=
    ⟨shows.inv.collect .failure n, le_rfl, fun _ _ => rfl, id, Memory.Within.refl _ _⟩
  exact ⟨v, held, seen, step.shows shows.padded shows.blocks,
    C.refused_null (Or.inr returned.symm), rfl⟩

/-- `zalloc` fills its block with zeros. -/
theorem HeapState.zalloc_zero {e : Chunk} (returned : (s.zalloc n).2 = .returned e)
    {i : Nat} (less : i < e.len) (notNull : e.ptr ≠ 0)
    : ((s.zalloc n).1.mem (e.ptr + i)).byte = 0 := by
  rw [HeapState.zalloc] at returned ⊢
  generalize s.balloc n = c at returned ⊢
  obtain ⟨h, e'⟩ := c
  cases e' with
  | returned value =>
      cases returned
      simp only [HeapState.andThen, if_pos notNull]
      exact Memory.fill_inside _ _ (by omega) (by omega)
  | threw => cases returned
  | halted => cases returned

/-- Releasing a block takes it from view; releasing anything else shows no difference. -/
theorem Freed.visible (freed : Freed s v held p (s.bbDealloc p)) (shows : Shows s v held seen)
    : Visible (s.bbDealloc p) (fun _ seen' => seen' = seen.erase p) := by
  intro r returned
  have gone : held p = none → seen.erase p = seen :=
    fun unused => Blocks.erase_unused (shows.unknown unused)
  cases freed with
  | null zero result =>
      subst zero
      have unused : held 0 = none := by
        by_contra some
        obtain ⟨b, known⟩ := Option.ne_none_iff_exists'.mp some
        exact absurd (shows.inv.held_lt known).1 (lt_irrefl _)
      rw [result]
      exact ⟨v, held, seen, shows, (gone unused).symm⟩
  | bad short _ step _ =>
      have unused : held p = none := by
        by_contra some
        obtain ⟨b, known⟩ := Option.ne_none_iff_exists'.mp some
        have := short b known
        have := shows.padded p b known
        omega
      exact ⟨_, held, seen, step.shows shows.padded shows.blocks, (gone unused).symm⟩
  | tripped _ _ result _ =>
      rw [result] at returned
      cases returned
  | freed known result step =>
      obtain ⟨padded, blocks⟩ := shows.erased p
      exact ⟨_, _, _, step.shows padded blocks, rfl⟩

/-- A block that is replaced by one that begins like it. -/
theorem Shows.replaced {s' : HeapState C} {v' : Nat → RegionView} {b m : Block} {q : Nat}
    (shows : Shows s v held seen) (known : held p = some b) (positive : 0 < n) (notNull : q ≠ 0)
    (aligned : a ∣ q) (enough : n + C.rz ≤ m.len) (unused : Function.update held p none q = none)
    (step : HeapStep s s' v' (Function.update held p none)
      (Function.update (Function.update held p none) q (some m)))
    (contents : ∀ i, i < b.len - C.rz → i < m.len - C.rz →
      (s'.mem (q + i)).byte = (s.mem (p + i)).byte)
    : ∃ v held seen', Shows s' v held seen' ∧ Reallocates seen p n a q seen' := by
  obtain ⟨padded, blocks⟩ := shows.erased p
  obtain ⟨shown, clear⟩ := step.shows_put padded blocks unused (by omega)
  refine ⟨_, _, _, shown, .block (shows.known known) positive notNull aligned ?_ ?_ ?_ ?_⟩
  · rw [HeapState.usable_length]
    omega
  · rw [blocks, unused, Option.map_none]
  · rw [HeapState.usable_length]
    exact clear
  · intro i less less'
    rw [HeapState.usable_length] at less less'
    rw [HeapState.usable, HeapState.usable, HeapState.contents_get _ less,
      HeapState.contents_get _ less', contents i less less']

/-- A block that is resized keeps its beginning, wherever it goes. -/
theorem Resizes.visible (resizes : Resizes s v held ⟨p, C.usizeMax⟩ n C.usizeMax nativeAlignment
      (s.resize ⟨p, C.usizeMax⟩ n C.usizeMax nativeAlignment))
    (shows : Shows s v held seen) (notNull : p ≠ 0) (positive : 0 < n)
    : Visible (s.resize ⟨p, C.usizeMax⟩ n C.usizeMax nativeAlignment)
        (fun e => Reallocates seen p n nativeAlignment e.ptr) := by
  generalize s.resize ⟨p, C.usizeMax⟩ n C.usizeMax nativeAlignment = c at resizes ⊢
  intro e returned
  have refused : ∀ {v'}, HeapStep s c.1 v' held held → e.ptr = 0 →
      ∃ v held seen', Shows c.1 v held seen'
        ∧ Reallocates seen p n nativeAlignment e.ptr seen' := by
    intro v' step null
    rw [null]
    exact ⟨_, _, _, step.shows shows.padded shows.blocks, .refused⟩
  cases resizes with
  | ignored odd _ => exact absurd odd (by decide)
  | allocated null _ => exact absurd null notNull
  | released zero _ _ _ _ => exact absurd zero positive.ne'
  | bad _ _ result step _ =>
      rw [returned] at result
      refine refused step (C.refused_null (result.imp id (fun halted => ?_)))
      cases halted
  | reshaped _ reshaped =>
      cases reshaped with
      | refused result step =>
          rw [returned] at result
          refine refused step ?_
          rcases result with null | failure | halted
          · exact C.refused_null (Or.inl null)
          · exact C.refused_null (Or.inr failure)
          · cases halted
      | @inPlace b m v' known chunk aligned enough _ _ _ _ step contents =>
          rw [chunk] at returned
          cases returned
          have same : Function.update held p (some ⟨m, b.tier⟩)
              = Function.update (Function.update held p none) p (some ⟨m, b.tier⟩) := by
            rw [Function.update_idem]
          rw [same] at step
          refine shows.replaced known positive notNull aligned enough (Function.update_self _ _ _)
            step (fun i less less' => ?_)
          rw [contents i less less']
      | @moved b d q v' known chunk notNull' aligned unused enough _ step contents =>
          rw [chunk] at returned
          cases returned
          have apart : q ≠ p := by
            rintro rfl
            rw [unused] at known
            cases known
          refine shows.replaced known positive notNull' ((dvd_refl _).trans aligned) enough
            (by rw [Function.update_of_ne apart, unused]) step (fun i less less' => ?_)
          have short : b.len ≤ C.usizeMax := by
            have := (shows.inv.held_lt known).2
            rw [Config.usizeMax]
            omega
          exact contents i (by omega) (by simp only; omega) less less'

end Calls

-----------------------------------------------------------------------------------------
-- The C shim
-----------------------------------------------------------------------------------------

/-- What the C interface depends on in this build; `page` is the page size. -/
def Config.platform (C : Config) (page : Nat) : Platform UInt8 where
  native := nativeAlignment
  page := page
  ptrBytes := C.buddy.ptrBytes
  zero := 0
  pointer := Memory.wordBytes C.buddy.ptrBytes
  pointer_length := Memory.wordBytes_length C.buddy.ptrBytes

/-- The byte at `x` belongs to no region, nor will it belong to the static pool. -/
def HeapState.Outside {C : Config} (s : HeapState C) (x : Nat) : Prop :=
  (∀ i < s.count, ¬Footprint (s.geo i) x) ∧ (s.inited = false → ¬C.Static x)

section Interface

variable {C : Config} {s : HeapState C} {v : Nat → RegionView} {held : Nat → Option Block}
  {seen : Blocks UInt8} {n m a p page k : Nat} {fill : Option UInt8}

theorem powerOfTwo_iff : isPow2 a = true ↔ PowerOfTwo a := isPow2_iff a

/-- `bb::balloc` with its pointer only. -/
theorem Shows.bbAlloc (shows : Shows s v held seen) (fits : C.PoolFits) (supply : s.Supplied)
    (n : Nat)
    : Visible (s.bbAlloc n) (fun q => Allocates seen n nativeAlignment none q) :=
  ((shows.inv.balloc fits supply n).visible shows (fun _ wanted => by cases wanted)).map

theorem Shows.alignedPtr (shows : Shows s v held seen) (fits : C.PoolFits) (supply : s.Supplied)
    (a n : Nat)
    : Visible (HeapState.ptrOf (s.alignedBalloc a n)) (fun q seen' => (q ≠ 0 → PowerOfTwo a)
        ∧ Allocates seen n (max nativeAlignment a) none q seen') := by
  refine (((shows.inv.alignedBalloc fits supply n a).visible shows
    (fun _ wanted => by cases wanted)).also ?_).map
  intro e returned notNull
  by_contra odd
  rw [← powerOfTwo_iff, Bool.not_eq_true] at odd
  rw [HeapState.alignedBalloc, if_pos (by simp [odd])] at returned
  cases returned
  exact notNull rfl

theorem Shows.salloc (shows : Shows s v held seen) (fits : C.PoolFits) (supply : s.Supplied)
    (n : Nat)
    : Visible (s.salloc n) (fun q => Allocates seen n nativeAlignment (some 0) q) := by
  refine ((shows.inv.zalloc fits supply n).visible shows ?_).map
  intro x zero e returned notNull i less
  cases zero
  exact HeapState.zalloc_zero returned less notNull

/-- A failure of the C interface is a refusal. -/
theorem Shows.failPtr (shows : Shows s v held seen) (n : Nat) {m a : Nat}
    : Visible (HeapState.ptrOf (s.fail n)) (fun q seen' => q = 0
        ∧ Allocates seen m a fill q seen') := by
  refine Visible.map ((shows.fail n).mono ?_)
  rintro e _ ⟨null, rfl⟩
  rw [null]
  exact ⟨rfl, .refused⟩

theorem Shows.calloc (shows : Shows s v held seen) (fits : C.PoolFits) (supply : s.Supplied)
    (m n : Nat)
    : Visible (s.calloc m n) (fun q => Allocates seen (m * n) nativeAlignment (some 0) q) := by
  unfold HeapState.calloc HeapState.checkMulOverflow
  split
  · exact (shows.failPtr n).mono (fun _ _ both => both.2)
  · next total found =>
      split at found
      · cases found
        exact shows.salloc fits supply (m * n)
      · cases found

theorem Shows.free (shows : Shows s v held seen) (fits : C.PoolFits) (supply : s.Supplied)
    (p : Nat)
    : Visible (s.free p) (fun _ seen' => seen' = seen.erase p) :=
  ((shows.inv.bbDealloc fits (fun _ => supply.now) p).visible shows).map

theorem Shows.realloc (shows : Shows s v held seen) (fits : C.PoolFits) (supply : s.Supplied)
    (notNull : p ≠ 0) (n : Nat)
    : Visible (s.realloc p n) (fun q seen' => (n = 0 → q = 0 ∧ seen' = seen.erase p)
        ∧ (0 < n → Reallocates seen p n nativeAlignment q seen')) := by
  rw [HeapState.realloc, if_neg notNull]
  by_cases zero : n = 0
  · subst zero
    have call : s.resize ⟨p, C.usizeMax⟩ 0 C.usizeMax nativeAlignment
        = HeapState.andThen (s.bbDealloc p) (fun h _ => (h, .returned .null)) := by
      rw [HeapState.resize, if_neg (by decide), if_neg notNull, if_pos rfl]
    rw [call]
    refine Visible.map (Visible.map ?_)
    refine ((shows.inv.bbDealloc fits (fun _ => supply.now) p).visible shows).mono ?_
    exact fun _ _ same => ⟨fun _ => ⟨rfl, same⟩, fun wrong => absurd wrong (by omega)⟩
  · refine Visible.map ?_
    refine ((shows.inv.resize fits supply ⟨p, C.usizeMax⟩ n C.usizeMax nativeAlignment).visible
      shows notNull (by omega)).mono ?_
    exact fun _ _ resized => ⟨fun wrong => absurd wrong zero, fun _ => resized⟩

theorem Shows.alignedAlloc (shows : Shows s v held seen) (fits : C.PoolFits)
    (supply : s.Supplied) (a n : Nat)
    : Visible (s.alignedAlloc a n) (fun q seen' => (q ≠ 0 → PowerOfTwo a ∧ a ∣ n)
        ∧ Allocates seen n (max nativeAlignment a) none q seen') := by
  have refused : Visible (HeapState.ptrOf (s.fail n)) (fun q seen' =>
      (q ≠ 0 → PowerOfTwo a ∧ a ∣ n) ∧ Allocates seen n (max nativeAlignment a) none q seen') :=
    (shows.failPtr n).mono (fun _ _ both => ⟨fun some => absurd both.1 some, both.2⟩)
  unfold HeapState.alignedAlloc
  split
  · exact refused
  · next pow =>
      split
      · exact refused
      · next whole =>
          simp only [Bool.not_eq_true, Bool.not_eq_false', Bool.or_eq_true, decide_eq_true_eq,
            not_or, not_not] at pow whole
          have dvd := (placed_iff pow n).mp whole.2
          exact (shows.alignedPtr fits supply a n).mono
            (fun _ _ both => ⟨fun some => ⟨both.1 some, dvd⟩, both.2⟩)

/-- A store into a block, or away from the heap. -/
theorem Shows.store (shows : Shows s v held seen) {x : Nat} {w : UInt8}
    (own : (∃ p b, held p = some b ∧ p ≤ x ∧ x < p + b.len)
      ∨ s.Outside x)
    : Shows ({ s with mem := s.mem.store x w } : HeapState C) v held (seen.store x w) := by
  have away : ¬HeapLoose s held x ∧ (s.inited = false → ¬C.Static x) := by
    rcases own with ⟨p, b, known, lo, hi⟩ | ⟨outside, clean⟩
    · obtain ⟨i, less, _⟩ := shows.inv.held_inside known
      have ready := shows.inv.inited_of_count (show 0 < s.count by omega)
      refine ⟨fun loose => loose.2 ⟨p, b, known, lo, hi⟩, fun fresh => ?_⟩
      rw [ready] at fresh
      cases fresh
    · refine ⟨fun loose => ?_, clean⟩
      obtain ⟨⟨i, less, foot⟩, _⟩ := loose
      exact outside i less foot
  refine ⟨shows.inv.congr (fun a loose => ?_) (fun fresh a static => ?_), shows.padded,
    fun p => ?_⟩
  · rw [Memory.store_of_ne]
    rintro rfl
    exact away.1 loose
  · rw [Memory.store_of_ne]
    · exact shows.inv.clean fresh a static
    · rintro rfl
      exact away.2 fresh static
  · rw [Blocks.store, shows.blocks]
    cases held p with
    | none => rfl
    | some b =>
        rw [Option.map_some, Option.map_some, Option.map_some, s.usable_store]

/-- Stores into blocks, or away from the heap, by induction on their number. -/
theorem Shows.write (shows : Shows s v held seen) {x q : Nat}
    (own : ∀ y, x ≤ y → y < x + k → (∃ p b, held p = some b ∧ p ≤ y ∧ y < p + b.len) ∨ s.Outside y)
    : Shows ({ s with mem := s.mem.storeWord x k q } : HeapState C) v held
        (seen.write x (Memory.wordBytes k q)) := by
  induction k generalizing s seen x q with
  | zero => exact shows
  | succ k ih =>
      have first := shows.store (w := UInt8.ofNat q) (own x (Nat.le_refl x) (by omega))
      exact ih first (fun y lo hi => own y (by omega) (by omega))

theorem HeapState.ptrOf_state (c : HeapState C × Exit Chunk) : (ptrOf c).1 = c.1 := by
  obtain ⟨h, e⟩ := c
  cases e <;> rfl

/-- `posix_memalign`: the codes say what happened, and the result is stored where it is to go, in
a block on view or away from the heap that the allocation leaves.
-/
theorem Shows.posixMemalign (shows : Shows s v held seen) (fits : C.PoolFits)
    (supply : s.Supplied) (page a n : Nat) {out : Nat}
    (own : out ≠ 0 → ∀ x, out ≤ x → x < out + C.buddy.ptrBytes →
      (∃ p c, seen p = some c ∧ p ≤ x ∧ x < p + c.length) ∨ (s.alignedBalloc a n).1.Outside x)
    : Visible (Shim.posixMemalign s out a n) (fun r =>
        ClientStep (C.platform page) seen (.posixMemalign out a n, .code r.1 r.2)) := by
  unfold Shim.posixMemalign
  split
  · next bad =>
      simp only [Bool.or_eq_true, decide_eq_true_eq, Bool.not_eq_true'] at bad
      intro r returned
      cases returned
      refine ⟨v, held, seen, shows, .posixInvalid ?_⟩
      rw [← powerOfTwo_iff, Bool.not_eq_true]
      exact or_assoc.mp bad
  · next good =>
      simp only [Bool.or_eq_true, decide_eq_true_eq, Bool.not_eq_true', not_or, not_lt,
        Bool.not_eq_false] at good
      have valid : out ≠ 0 ∧ (C.platform page).ptrBytes ≤ a ∧ PowerOfTwo a :=
        ⟨good.1.1, good.1.2, powerOfTwo_iff.mp good.2⟩
      refine Visible.call ((shows.alignedPtr fits supply a n).andThen ?_)
      rintro v' held' seen' q shows' ⟨_, allocates⟩
      by_cases none : q = 0 ∧ n ≠ 0
      · rw [if_pos (by simp [none])]
        intro r returned
        cases returned
        cases allocates with
        | refused => exact ⟨_, _, _, shows', .posixFull valid (Nat.pos_of_ne_zero none.2)⟩
        | block _ notNull _ _ _ _ _ => exact absurd none.1 notNull
      · rw [if_neg (by simpa using none)]
        intro r returned
        cases returned
        refine ⟨_, _, _, shows'.write (fun x lo hi => ?_), .posix valid (by omega) allocates⟩
        rw [HeapState.ptrOf_state]
        refine (own valid.1 x lo hi).imp (fun inside => ?_) id
        obtain ⟨p, c, found, low, high⟩ := inside
        obtain ⟨b, known, rfl⟩ := shows'.of_seen (allocates.keeps found)
        rw [HeapState.usable_length] at high
        exact ⟨p, b, known, low, by omega⟩

/-- The size that `pvalloc` rounds up to, unless it saturates. -/
theorem HeapState.roundUpSat_page (page : k < C.buddy.wordBits) (n : Nat)
    : roundUpSat C n (2 ^ k) = C.usizeMax
      ∨ roundUpSat C n (2 ^ k) = (n + 2 ^ k - 1) / 2 ^ k * 2 ^ k := by
  have less : 2 ^ k < C.buddy.word := Nat.pow_lt_pow_right (by decide) page
  have positive := Nat.two_pow_pos k
  rw [roundUpSat]
  by_cases fits : n + 2 ^ k - 1 < C.buddy.word
  · refine Or.inr ?_
    rw [if_neg (Nat.not_lt.mpr (alignUp_spec fits).1), alignUp, Nat.mod_eq_of_lt fits, andNot_low]
  · refine Or.inl (if_pos ?_)
    have down := (andNot_low_bounds ((n + 2 ^ k - 1) % C.buddy.word) k).1
    have bound := Nat.mod_lt (n + 2 ^ k - 1) (show 0 < C.buddy.word by omega)
    rw [alignUp]
    by_cases word : n < C.buddy.word
    · rw [Nat.mod_eq_sub_mod (by omega), Nat.mod_eq_of_lt (by omega)] at down ⊢
      omega
    · omega

theorem Shows.pvalloc (shows : Shows s v held seen) (fits : C.PoolFits) (supply : s.Supplied)
    (page : k < C.buddy.wordBits) (n : Nat)
    : Visible (Shim.pvalloc s (2 ^ k) n) (fun q => Allocates seen ((n + 2 ^ k - 1) / 2 ^ k * 2 ^ k)
        (max nativeAlignment (2 ^ k)) none q) := by
  unfold Shim.pvalloc
  simp only
  split
  · intro q returned
    cases returned
    exact ⟨v, held, seen, shows, .refused⟩
  · next room =>
      rw [(HeapState.roundUpSat_page page n).resolve_left room]
      exact ((shows.alignedPtr fits supply _ _).mono (fun _ _ both => both.2)).call

end Interface

end Bbmalloc
