import Bbmalloc.Buddy.Accesses

/-! Calls on a buddy list whose link words a client has overwritten. The checks accept any
link to a minimum block of the region, so list heads stay inside the region; a head that is
split as a block of its order must have room for the upper half.
-/

namespace Bbmalloc

open Bbmalloc.Foundations

/-- The layout is sound and every list head is null or a minimum block of the region. Nothing
is said about links in memory or about tags.
-/
structure Guarded {P : BuddyParams} (g : BuddyGeometry) (s : BuddyState P) : Prop where
  geometry : s.toBuddyGeometry = g
  sound : g.Sound P
  heads : ∀ o, s.freeLists o = 0 ∨ g.Node P (s.freeLists o)

/-- All accesses are inside the region. -/
def AllInside (P : BuddyParams) (g : BuddyGeometry) (log : List BuddyAccess) : Prop :=
  ∀ a ∈ log, a.Inside P g

/-- The words that an unlink of `node` uses are null or minimum blocks of the region. -/
structure BuddyState.LinksInside {P : BuddyParams} (g : BuddyGeometry) (s : BuddyState P)
    (node o : Nat)
    : Prop where
  next : s.next node = 0 ∨ g.Node P (s.next node)
  prev : s.freeLists o = node ∨ s.prev node = 0 ∨ g.Node P (s.prev node)

section Links

variable {P : BuddyParams} {g : BuddyGeometry} {s s' : BuddyState P} {a b o i x v : Nat}
  {log more : List BuddyAccess}

theorem AllInside.nil : AllInside P g [] := fun _ member => absurd member List.not_mem_nil

theorem AllInside.append
    : AllInside P g (log ++ more) ↔ AllInside P g log ∧ AllInside P g more :=
  List.forall_mem_append

theorem AllInside.cons {access : BuddyAccess}
    : AllInside P g (access :: log) ↔ access.Inside P g ∧ AllInside P g log :=
  List.forall_mem_cons

/-- Both link words of a minimum block are inside the region. -/
theorem BuddyGeometry.Node.links_inside (h : g.Sound P) (node : g.Node P a)
    : (BuddyAccess.link a).Inside P g ∧ (BuddyAccess.link (a + P.ptrBytes)).Inside P g := by
  have bounds := node.bounds h
  have links := P.links_fit
  exact ⟨⟨by omega, by omega⟩, ⟨by omega, by omega⟩⟩

/-- Only such words pass the link check. -/
theorem BuddyState.node_of_linkValid (h : s.Sound P) (valid : s.linkValid a = true)
    : a = 0 ∨ s.Node P a := by
  have last := h.end_lt
  unfold linkValid at valid
  simp only [Bool.or_eq_true, beq_iff_eq, Bool.and_eq_true, decide_eq_true_eq] at valid
  rcases valid with null | ⟨inside, whole⟩
  · exact Or.inl null
  · obtain ⟨lo, hi⟩ := (wrapSub_lt (by omega)).mp inside
    rw [wrapSub_of_le lo] at inside whole
    rw [BuddyParams.minBlock, and_low] at whole
    exact Or.inr ⟨a - s.base, by omega, Nat.dvd_of_mod_eq_zero whole, inside⟩

/-- What the unlink check guarantees. -/
theorem Guarded.unlinkCheck (h : Guarded g s) (checked : P.checkLinks = true)
    (accepted : s.unlinkCheck a o = true)
    : s.LinksInside g a o := by
  obtain ⟨rfl, sound, heads⟩ := h
  have valid : (s.linkValid (s.next a)
      && s.linkValid (if (s.freeLists o == a) = true then 0 else s.prev a)) = true := by
    by_contra invalid
    unfold BuddyState.unlinkCheck at accepted
    simp only [checked, if_true] at accepted
    rw [if_pos (by rw [Bool.not_eq_true']; exact Bool.eq_false_iff.mpr invalid)] at accepted
    exact Bool.false_ne_true accepted
  simp only [Bool.and_eq_true] at valid
  refine ⟨BuddyState.node_of_linkValid sound valid.1, ?_⟩
  by_cases front : s.freeLists o = a
  · exact Or.inl front
  · have second := valid.2
    rw [if_neg (by simpa using front)] at second
    exact Or.inr (BuddyState.node_of_linkValid sound second)

/-- Set-up data and list heads are all that the guard is about. -/
theorem Guarded.congr (h : Guarded g s) (geometry : s'.toBuddyGeometry = s.toBuddyGeometry)
    (heads : s'.freeLists = s.freeLists)
    : Guarded g s' :=
  ⟨geometry.trans h.geometry, h.sound, by rw [heads]; exact h.heads⟩

theorem Guarded.setHead {t : BuddyState P} (h : Guarded g s)
    (geometry : t.toBuddyGeometry = s.toBuddyGeometry)
    (head : a = 0 ∨ g.Node P a) (heads : t.freeLists = Function.update s.freeLists o a)
    : Guarded g t := by
  refine ⟨geometry.trans h.geometry, h.sound, fun i => ?_⟩
  rw [heads]
  by_cases same : i = o
  · rw [same, Function.update_self]
    exact head
  · rw [Function.update_of_ne same]
    exact h.heads i

theorem Guarded.tag_inside (h : Guarded g s) (node : g.Node P a)
    : (BuddyAccess.tag (s.tagIndex a)).Inside P g := by
  obtain ⟨x, rfl, _, inside⟩ := node
  rw [← h.geometry, s.tagIndex_base, h.geometry]
  exact h.sound.index_lt inside

/-- Linking a minimum block in front of a list. -/
theorem Guarded.linkFront (h : Guarded g s) (node : g.Node P a) (o : Nat)
    : Guarded g (s.linkFront a o) ∧ AllInside P g (s.linkFrontLog a o) := by
  refine ⟨h.setHead rfl (Or.inr node) rfl, ?_⟩
  have own := node.links_inside h.sound
  unfold BuddyState.linkFrontLog
  simp only
  rw [AllInside.append, AllInside.append, AllInside.cons, AllInside.cons, AllInside.cons]
  refine ⟨⟨⟨own.1, own.2, AllInside.nil⟩, ?_⟩, ?_, AllInside.nil⟩
  · split
    · rename_i live
      have head := (h.heads o).resolve_left live
      exact AllInside.cons.mpr ⟨(head.links_inside h.sound).2, AllInside.nil⟩
    · exact AllInside.nil
  · exact h.tag_inside node

theorem Guarded.pushFree (h : Guarded g s) (node : g.Node P a) (o : Nat)
    : Guarded g (s.pushFree a o) :=
  (h.linkFront node o).1.congr rfl rfl

/-- The list heads after an unlink. -/
theorem BuddyState.unlinkDo_heads (s : BuddyState P) (a o : Nat)
    : (s.unlinkDo a o).freeLists
      = if s.freeLists o = a then Function.update s.freeLists o (s.next a) else s.freeLists := by
  by_cases front : s.freeLists o = a <;> simp [unlinkDo, front, setPrevOrScratch]

/-- Unlinking a node whose links were checked. -/
theorem Guarded.unlinkDo (h : Guarded g s) (links : s.LinksInside g a o)
    : Guarded g (s.unlinkDo a o) ∧ AllInside P g (s.unlinkDoLog a o) := by
  have heads := BuddyState.unlinkDo_heads s a o
  constructor
  · by_cases front : s.freeLists o = a
    · rw [if_pos front] at heads
      exact h.setHead rfl links.next heads
    · rw [if_neg front] at heads
      exact h.congr rfl heads
  · unfold BuddyState.unlinkDoLog
    by_cases front : s.freeLists o = a
    · have isHead : (s.freeLists o == a) = true := by simpa using front
      simp only [isHead, Bool.not_true, Bool.false_and, Bool.and_false, Bool.false_eq_true,
        if_false, List.append_nil]
      exact AllInside.nil
    · have isHead : (s.freeLists o == a) = false := by simpa using front
      simp only [isHead, Bool.not_false, Bool.true_and, Bool.and_true, Bool.false_eq_true,
        if_false, decide_eq_true_eq]
      refine AllInside.append.mpr ⟨?_, ?_⟩
      · split
        · rename_i live
          have node := (links.prev.resolve_left front).resolve_left live
          exact AllInside.cons.mpr ⟨(node.links_inside h.sound).1, AllInside.nil⟩
        · exact AllInside.nil
      · split
        · rename_i live
          have node := links.next.resolve_left live
          exact AllInside.cons.mpr ⟨(node.links_inside h.sound).2, AllInside.nil⟩
        · exact AllInside.nil

end Links

-----------------------------------------------------------------------------------------
-- Releasing
-----------------------------------------------------------------------------------------

section Releasing

variable {P : BuddyParams} {g : BuddyGeometry} {s : BuddyState P} {a o x r : Nat}

/-- Setting or clearing one bit of an offset gives the offset or that of its buddy. -/
theorem or_bit (x r : Nat) : x ||| 2 ^ r = x ∨ x ||| 2 ^ r = x ^^^ 2 ^ r := by
  by_cases set : x.testBit r = true
  · left
    refine Nat.eq_of_testBit_eq (fun i => ?_)
    rw [Nat.testBit_or, Nat.testBit_two_pow]
    by_cases same : r = i
    · subst same
      simp [set]
    · simp [same]
  · right
    refine Nat.eq_of_testBit_eq (fun i => ?_)
    rw [Nat.testBit_or, Nat.testBit_xor, Nat.testBit_two_pow]
    by_cases same : r = i
    · subst same
      simp [set]
    · simp [same]

theorem andNot_bit (x r : Nat) : andNot x (2 ^ r) = x ∨ andNot x (2 ^ r) = x ^^^ 2 ^ r := by
  by_cases set : x.testBit r = true
  · right
    refine Nat.eq_of_testBit_eq (fun i => ?_)
    rw [testBit_andNot, Nat.testBit_xor, Nat.testBit_two_pow]
    by_cases same : r = i
    · subst same
      simp [set]
    · simp [same]
  · left
    refine Nat.eq_of_testBit_eq (fun i => ?_)
    rw [testBit_andNot, Nat.testBit_two_pow]
    by_cases same : r = i
    · subst same
      simp [set]
    · simp [same]

/-- The buddy of a block offset is a block offset. -/
theorem BuddyParams.buddy_unit (P : BuddyParams) (unit : P.minBlock ∣ x) (o : Nat)
    : P.minBlock ∣ x ^^^ P.orderSize o := by
  rw [P.orderSize_eq]
  refine Nat.dvd_of_mod_eq_zero ?_
  rw [BuddyParams.minBlock] at unit ⊢
  rw [Nat.xor_mod_two_pow, Nat.mod_eq_zero_of_dvd unit,
    Nat.mod_eq_zero_of_dvd (Nat.pow_dvd_pow 2 (Nat.le_add_right _ _))]
  rfl

/-- The merging loop keeps to blocks of the region, by induction on the orders left. -/
theorem Guarded.mergeUp (checked : P.checkLinks = true) (fuel : Nat)
    : ∀ {s : BuddyState P} {x o : Nat}, Guarded g s → P.minBlock ∣ x → x < g.total →
      Guarded g (s.mergeUp fuel x o).1
      ∧ P.minBlock ∣ (s.mergeUp fuel x o).2.1 ∧ (s.mergeUp fuel x o).2.1 < g.total
      ∧ AllInside P g (s.mergeUpLog fuel x o) := by
  induction fuel with
  | zero => exact fun h unit inside => ⟨h, unit, inside, AllInside.nil⟩
  | succ fuel ih =>
      intro s x o h unit inside
      unfold BuddyState.mergeUp BuddyState.mergeUpLog
      by_cases more : o < s.maxOrder - 1
      swap
      · rw [if_neg more, if_neg more]
        exact ⟨h, unit, inside, AllInside.nil⟩
      rw [if_pos more, if_pos more]
      simp only
      have total : s.total = g.total := congrArg BuddyGeometry.total h.geometry
      have base : s.base = g.base := congrArg BuddyGeometry.base h.geometry
      by_cases past : x ^^^ P.orderSize o ≥ s.total
      · rw [if_pos past, if_pos past]
        exact ⟨h, unit, inside, AllInside.nil⟩
      rw [if_neg past, if_neg past]
      have inside' : x ^^^ P.orderSize o < g.total := by omega
      have unit' := P.buddy_unit unit o
      have probe : (BuddyAccess.tag ((x ^^^ P.orderSize o) >>> P.log2Min)).Inside P g :=
        h.sound.index_lt inside'
      by_cases other : s.tag ((x ^^^ P.orderSize o) >>> P.log2Min) ≠ tagFree ||| o
      · rw [if_pos other, if_pos other]
        exact ⟨h, unit, inside, AllInside.cons.mpr ⟨probe, AllInside.nil⟩⟩
      rw [if_neg other, if_neg other]
      unfold BuddyState.unlink
      by_cases check : s.unlinkCheck (s.base + (x ^^^ P.orderSize o)) o = true
      swap
      · simp only [check, Bool.false_eq_true, if_false, Bool.not_false, if_true]
        exact ⟨h, unit, inside, AllInside.cons.mpr ⟨probe, AllInside.nil⟩⟩
      simp only [check, if_true, Bool.not_true, Bool.false_eq_true, if_false]
      obtain ⟨unlinked, log⟩ := h.unlinkDo (h.unlinkCheck checked check)
      -- both masked offsets are the block's own or its buddy's
      have joined : (x ||| P.orderSize o) < g.total := by
        rw [P.orderSize_eq] at inside' ⊢
        rcases or_bit x (P.log2Min + o) with same | same <;> rw [same] <;> assumption
      have lower : P.minBlock ∣ andNot x (P.orderSize o) ∧ andNot x (P.orderSize o) < g.total := by
        rw [P.orderSize_eq] at inside' unit' ⊢
        rcases andNot_bit x (P.log2Min + o) with same | same <;> rw [same]
        · exact ⟨unit, inside⟩
        · exact ⟨unit', inside'⟩
      have cleared : Guarded g ((s.unlinkDo (s.base + (x ^^^ P.orderSize o)) o).setTag
          ((x ||| P.orderSize o) >>> P.log2Min) tagNone) :=
        unlinked.congr rfl rfl
      obtain ⟨result, unit'', inside'', rest⟩ := ih (o := o + 1) cleared lower.1 lower.2
      refine ⟨result, unit'', inside'', ?_⟩
      rw [List.cons_append, AllInside.cons, AllInside.append, AllInside.cons]
      exact ⟨probe, log, h.sound.index_lt joined, rest⟩

/-- Freeing a minimum block with merging. -/
theorem Guarded.mergeAndFree (h : Guarded g s) (checked : P.checkLinks = true) (node : g.Node P a)
    (o : Nat)
    : Guarded g (s.mergeAndFree a o) ∧ AllInside P g (s.mergeAndFreeLog a o) := by
  obtain ⟨x, rfl, unit, inside⟩ := node
  have base : s.base = g.base := congrArg BuddyGeometry.base h.geometry
  have offset : g.base + x - s.base = x := by omega
  obtain ⟨merged, unit', inside', log⟩ := Guarded.mergeUp checked s.maxOrder (o := o) h unit inside
  have node : g.Node P ((s.mergeUp s.maxOrder x o).1.base + (s.mergeUp s.maxOrder x o).2.1) := by
    rw [show (s.mergeUp s.maxOrder x o).1.base = g.base from
      congrArg BuddyGeometry.base merged.geometry]
    exact h.sound.node unit' inside'
  unfold BuddyState.mergeAndFree BuddyState.mergeAndFreeLog
  rw [offset]
  exact ⟨merged.pushFree node _, AllInside.append.mpr ⟨log, (merged.linkFront node _).2⟩⟩

/-- A lookup reads a tag of the region and finds minimum blocks only. -/
theorem Guarded.orderAt (h : Guarded g s) (a : Nat)
    : AllInside P g (s.orderAtLog a) ∧ ∀ o, s.orderAt a = some o → g.Node P a ∧ o < g.maxOrder := by
  obtain ⟨rfl, sound, heads⟩ := h
  have last := sound.end_lt
  unfold BuddyState.orderAtLog BuddyState.orderAt
  simp only
  by_cases odd : (decide (wrapSub P.word a s.base ≥ s.total)
      || decide (wrapSub P.word a s.base &&& (P.minBlock - 1) ≠ 0)) = true
  · rw [if_pos odd, if_pos odd]
    exact ⟨AllInside.nil, by simp⟩
  · rw [if_neg odd, if_neg odd]
    simp only [ge_iff_le, ne_eq, decide_not, Bool.or_eq_true, decide_eq_true_eq,
      Bool.not_eq_eq_eq_not, Bool.not_true, decide_eq_false_iff_not, not_or, not_le,
      not_not] at odd
    obtain ⟨inside, whole⟩ := odd
    obtain ⟨lo, hi⟩ := (wrapSub_lt (by omega)).mp inside
    rw [wrapSub_of_le lo] at inside whole ⊢
    refine ⟨AllInside.cons.mpr ⟨sound.index_lt inside, AllInside.nil⟩, fun o found => ?_⟩
    rw [BuddyParams.minBlock, and_low] at whole
    refine ⟨⟨a - s.base, by omega, Nat.dvd_of_mod_eq_zero whole, inside⟩, ?_⟩
    split at found
    · rename_i live
      simp only [ne_eq, Bool.and_eq_true, decide_eq_true_eq] at live
      rw [← Option.some.inj found]
      exact live.2
    · exact absurd found (by simp)

/-- Freeing any pointer stays inside the region. -/
theorem Guarded.deallocate (h : Guarded g s) (checked : P.checkLinks = true)
    (plain : P.cacheCap = 0) (p : Nat)
    : Guarded g (s.deallocate p).1 ∧ AllInside P g (s.deallocateLog p) := by
  obtain ⟨look, found⟩ := h.orderAt p
  unfold BuddyState.deallocate BuddyState.deallocateLog
  generalize s.orderAt p = read at found
  cases read with
  | none => exact ⟨h, AllInside.append.mpr ⟨look, AllInside.nil⟩⟩
  | some o =>
      have uncached : BuddyState.cacheable P o = false := by simp [BuddyState.cacheable, plain]
      have counted : Guarded g
          ({ s with allocatedBytes := s.allocatedBytes - P.orderSize o } : BuddyState P) :=
        h.congr rfl rfl
      obtain ⟨freed, log⟩ := counted.mergeAndFree checked (found o rfl).1 o
      simp only [BuddyState.deallocateOrder, uncached, Bool.false_and, Bool.false_eq_true,
        if_false]
      exact ⟨freed, AllInside.append.mpr ⟨look, log⟩⟩

end Releasing

-----------------------------------------------------------------------------------------
-- Allocating
-----------------------------------------------------------------------------------------

/-- If the search for an order ends at a larger one, then the list head that will be split has
room in the region for the upper half of a block of that order.
-/
def BuddyState.SplitFits {P : BuddyParams} (s : BuddyState P) (o : Nat) : Prop :=
  let i := s.findFreeOrder o
  o < i → i < s.maxOrder → s.freeLists i ≠ 0 →
    s.freeLists i - s.base + P.orderSize (i - 1) < s.total

section Allocating

variable {P : BuddyParams} {g : BuddyGeometry} {s : BuddyState P} {b o i : Nat}

/-- Splitting a minimum block as one of order `o`: what is touched is inside the region
exactly when the first upper half is.
-/
theorem Guarded.splitDown (node : g.Node P b) (levels : Nat)
    : ∀ {s : BuddyState P} {o : Nat}, Guarded g s → levels ≤ o →
      (AllInside P g (s.splitDownLog b levels o (P.orderSize o))
        ↔ (levels ≠ 0 → b - g.base + P.orderSize (o - 1) < g.total))
      ∧ ((levels ≠ 0 → b - g.base + P.orderSize (o - 1) < g.total) →
        Guarded g (s.splitDown b levels o (P.orderSize o))) := by
  induction levels with
  | zero => exact fun h _ => ⟨⟨fun _ no => absurd rfl no, fun _ => AllInside.nil⟩, fun _ => h⟩
  | succ levels ih =>
      intro s o h le
      obtain ⟨o, rfl⟩ : ∃ k, o = k + 1 := ⟨o - 1, by omega⟩
      have half : P.orderSize (o + 1) >>> 1 = P.orderSize o := by
        have double := P.orderSize_succ o
        rw [Nat.shiftRight_one]
        omega
      unfold BuddyState.splitDown BuddyState.splitDownLog
      rw [half, Nat.add_sub_cancel]
      obtain ⟨x, rfl, unit, inside⟩ := node
      rw [Nat.add_sub_cancel_left]
      have upper : x + P.orderSize o < g.total → g.Node P (g.base + x + P.orderSize o) := by
        intro fits
        rw [Nat.add_assoc]
        exact h.sound.node (Nat.dvd_add unit (P.minBlock_dvd_orderSize o)) fits
      have rest : x + P.orderSize o < g.total →
          levels ≠ 0 → g.base + x - g.base + P.orderSize (o - 1) < g.total := by
        intro fits _
        have := P.orderSize_mono (Nat.sub_le o 1)
        omega
      have step := fun fits => ih (h.linkFront (upper fits) o).1 (show levels ≤ o by omega)
      refine ⟨⟨fun all _ => ?_, fun fits => ?_⟩, fun fits => ?_⟩
      · -- the first store is to the upper half
        have first := all (.link (g.base + x + P.orderSize o)) (by
          simp [BuddyState.linkFrontLog])
        have pointer := P.ptrBytes_pos
        have hi := first.2
        omega
      · have fits := fits (Nat.succ_ne_zero _)
        exact AllInside.append.mpr
          ⟨(h.linkFront (upper fits) o).2, (step fits).1.mpr (rest fits)⟩
      · have fits := fits (Nat.succ_ne_zero _)
        exact (step fits).2 (rest fits)

/-- Taking the head of a list. -/
theorem Guarded.takeAndSplit (h : Guarded g s) (checked : P.checkLinks = true) (le : o ≤ i)
    : (AllInside P g (s.takeAndSplitLog i o)
        ↔ (o < i → s.freeLists i ≠ 0 →
          s.freeLists i - g.base + P.orderSize (i - 1) < g.total))
      ∧ ((o < i → s.freeLists i ≠ 0 →
          s.freeLists i - g.base + P.orderSize (i - 1) < g.total) →
        Guarded g (s.takeAndSplit i o).1)
      ∧ ((s.takeAndSplit i o).2 = 0 ∨ g.Node P (s.takeAndSplit i o).2) := by
  unfold BuddyState.takeAndSplit BuddyState.takeAndSplitLog
  simp only
  by_cases null : s.freeLists i = 0
  · rw [if_pos null, if_pos null]
    exact ⟨⟨fun _ _ no => absurd null no, fun _ => AllInside.nil⟩,
      fun _ => h.congr rfl rfl, Or.inl rfl⟩
  · rw [if_neg null, if_neg null]
    have node := (h.heads i).resolve_left null
    -- a next link that fails the check is replaced by null
    have head : (if (P.checkLinks && !s.linkValid (s.next (s.freeLists i))) = true then 0
          else s.next (s.freeLists i)) = 0
        ∨ g.Node P (if (P.checkLinks && !s.linkValid (s.next (s.freeLists i))) = true then 0
          else s.next (s.freeLists i)) := by
      split
      · exact Or.inl rfl
      · rename_i valid
        simp only [checked, Bool.true_and, Bool.not_eq_true', Bool.not_eq_false] at valid
        have := BuddyState.node_of_linkValid (by rw [h.geometry]; exact h.sound) valid
        rwa [h.geometry] at this
    have popped := h.setHead (t := { s with
        freeLists := Function.update s.freeLists i
          (if (P.checkLinks && !s.linkValid (s.next (s.freeLists i))) = true then 0
            else s.next (s.freeLists i)) }) rfl head rfl
    obtain ⟨log, guard⟩ := Guarded.splitDown node (i - o) popped (Nat.sub_le i o)
    have same : (i - o ≠ 0 → s.freeLists i - g.base + P.orderSize (i - 1) < g.total)
        ↔ (o < i → s.freeLists i ≠ 0 →
          s.freeLists i - g.base + P.orderSize (i - 1) < g.total) := by
      constructor
      · exact fun fits more _ => fits (by omega)
      · exact fun fits more => fits (by omega) null
    refine ⟨log.trans same, fun fits => ?_, Or.inr node⟩
    exact (guard (same.mpr fits)).congr rfl rfl

/-- Without an order cache, an allocation stays inside the region exactly when the block it
splits has room.
-/
theorem Guarded.allocateOrder (h : Guarded g s) (checked : P.checkLinks = true)
    (plain : P.cacheCap = 0) (o : Nat)
    : (AllInside P g (s.allocateOrderLog o) ↔ s.SplitFits o)
      ∧ (s.SplitFits o → Guarded g (s.allocateOrder o).1) := by
  have total : s.total = g.total := congrArg BuddyGeometry.total h.geometry
  have base : s.base = g.base := congrArg BuddyGeometry.base h.geometry
  rw [BuddyState.allocateOrder_plain plain]
  unfold BuddyState.allocateOrderLog BuddyState.SplitFits
  simp only
  by_cases high : o ≥ s.maxOrder
  · rw [if_pos high, if_pos high]
    exact ⟨⟨fun _ _ _ => by omega, fun _ => AllInside.nil⟩, fun _ => h⟩
  rw [if_neg high, if_neg high]
  by_cases none : s.findFreeOrder o ≥ s.maxOrder
  · rw [if_pos none, if_pos none]
    exact ⟨⟨fun _ _ _ => by omega, fun _ => AllInside.nil⟩, fun _ => h⟩
  rw [if_neg none, if_neg none, total, base]
  have le : o ≤ s.findFreeOrder o := by
    unfold BuddyState.findFreeOrder
    simp only
    split <;> omega
  obtain ⟨log, guard, taken⟩ := h.takeAndSplit checked le
  have same : (o < s.findFreeOrder o → s.findFreeOrder o < s.maxOrder →
        s.freeLists (s.findFreeOrder o) ≠ 0 →
        s.freeLists (s.findFreeOrder o) - g.base + P.orderSize (s.findFreeOrder o - 1) < g.total)
      ↔ (o < s.findFreeOrder o → s.freeLists (s.findFreeOrder o) ≠ 0 →
        s.freeLists (s.findFreeOrder o) - g.base + P.orderSize (s.findFreeOrder o - 1)
          < g.total) :=
    ⟨fun fits more => fits more (by omega), fun fits more _ => fits more⟩
  rw [same, ← log]
  have stays : AllInside P g (s.takeAndSplitLog (s.findFreeOrder o) o) →
      Guarded g (s.takeAndSplit (s.findFreeOrder o) o).1 := fun all => guard (log.mp all)
  unfold BuddyState.takeOrder BuddyState.takeOrderLog
  simp only
  by_cases null : (s.takeAndSplit (s.findFreeOrder o) o).2 = 0
  · rw [if_pos null, if_pos null, List.append_nil]
    exact ⟨Iff.rfl, stays⟩
  · rw [if_neg null, if_neg null]
    have node := taken.resolve_left null
    refine ⟨?_, fun all => (stays all).congr rfl rfl⟩
    rw [AllInside.append]
    exact ⟨And.left, fun all =>
      ⟨all, AllInside.cons.mpr ⟨(stays all).tag_inside node, AllInside.nil⟩⟩⟩

end Allocating

-----------------------------------------------------------------------------------------
-- Growing
-----------------------------------------------------------------------------------------

section Growing

variable {P : BuddyParams} {g : BuddyGeometry} {s : BuddyState P} {a b o x : Nat}

/-- An unlink stores the two words that were checked, and nothing else, to links. -/
theorem BuddyState.links_unlinkDo (node : s.Node P b)
    (links : s.LinksInside s.toBuddyGeometry a o)
    : ((s.unlinkDo a o).next b = s.next b ∨ (s.unlinkDo a o).next b = s.next a)
      ∧ ((s.unlinkDo a o).prev b = s.prev b
        ∨ (s.freeLists o ≠ a ∧ (s.unlinkDo a o).prev b = s.prev a)) := by
  have word := s.next_lt a
  have word' := s.prev_lt a
  have mem := unlinkDo_mem s a o
  by_cases front : s.freeLists o = a
  · -- the front of a list is unlinked without a store to memory
    rw [if_pos front] at mem
    exact ⟨Or.inl (congrFun (next_of_mem mem) b), Or.inl (congrFun (prev_of_mem mem) b)⟩
  · rw [if_neg front] at mem
    have prevNode := links.prev.resolve_left front
    generalize step : (if s.prev a ≠ 0 then s.setNext (s.prev a) (s.next a) else s) = t at mem
    have geometry : t.toBuddyGeometry = s.toBuddyGeometry := by
      rw [← step]
      split <;> rfl
    have first : (t.next b = s.next b ∨ t.next b = s.next a) ∧ t.prev b = s.prev b := by
      rw [← step]
      split
      · rename_i live
        have slot := prevNode.resolve_left live
        rw [next_setNext slot node word, prev_setNext slot node]
        split
        · exact ⟨Or.inr rfl, rfl⟩
        · exact ⟨Or.inl rfl, rfl⟩
      · exact ⟨Or.inl rfl, rfl⟩
    have nextNode : s.next a = 0 ∨ t.Node P (s.next a) := by
      rw [geometry]
      exact links.next
    have node' : t.Node P b := by
      rw [geometry]
      exact node
    rw [next_of_mem mem, prev_of_mem mem, next_setPrevOrScratch nextNode node',
      prev_setPrevOrScratch nextNode node' word', first.2]
    refine ⟨first.1, ?_⟩
    split
    · exact Or.inr ⟨front, rfl⟩
    · exact Or.inl rfl

/-- So the links of the other minimum blocks stay null or inside the region. -/
theorem Guarded.links_unlinkDo (h : Guarded g s) (links : s.LinksInside g a o) {j : Nat}
    (node : g.Node P b) (other : j ≠ o) (checked : s.LinksInside g b j)
    : (s.unlinkDo a o).LinksInside g b j := by
  obtain ⟨rfl, _, _⟩ := h
  have same : (s.unlinkDo a o).freeLists j = s.freeLists j := by
    rw [BuddyState.unlinkDo_heads]
    split
    · exact Function.update_of_ne other _ _
    · rfl
  obtain ⟨next, prev⟩ := BuddyState.links_unlinkDo node links
  constructor
  · rcases next with eq | eq <;> rw [eq]
    · exact checked.next
    · exact links.next
  · rw [same]
    rcases prev with eq | ⟨front, eq⟩ <;> rw [eq]
    · exact checked.prev
    · exact Or.inr (links.prev.resolve_left front)

/-- A tag is no link. -/
theorem Guarded.links_setTag (h : Guarded g s) {i v : Nat} (index : i < g.tagCount)
    (node : g.Node P b) (checked : s.LinksInside g b o)
    : (s.setTag i v).LinksInside g b o := by
  obtain ⟨rfl, sound, _⟩ := h
  refine ⟨?_, ?_⟩
  · rw [BuddyState.next_setTag sound index node]
    exact checked.next
  · rw [BuddyState.prev_setTag sound index node]
    exact checked.prev

/-- The first loop reads tags of the region; the blocks that it accepts are minimum blocks
whose links were checked.
-/
theorem Guarded.growCheck (h : Guarded g s) (checked : P.checkLinks = true) (x count : Nat)
    : ∀ j, AllInside P g (s.growCheckLog x count j)
      ∧ (s.growCheck x count j = true → ∀ i, j ≤ i → i < j + count →
        x + P.orderSize i < g.total ∧ s.LinksInside g (g.base + (x + P.orderSize i)) i) := by
  have total : s.total = g.total := congrArg BuddyGeometry.total h.geometry
  have base : s.base = g.base := congrArg BuddyGeometry.base h.geometry
  induction count with
  | zero => exact fun j => ⟨AllInside.nil, fun _ i _ _ => by omega⟩
  | succ count ih =>
      intro j
      unfold BuddyState.growCheckLog BuddyState.growCheck
      simp only
      by_cases past : x + P.orderSize j ≥ s.total
      · rw [if_pos past]
        exact ⟨AllInside.nil, fun accepted => by simp [past] at accepted⟩
      rw [if_neg past]
      have inside : x + P.orderSize j < g.total := by omega
      have probe : (BuddyAccess.tag ((x + P.orderSize j) >>> P.log2Min)).Inside P g :=
        h.sound.index_lt inside
      by_cases other : s.tag ((x + P.orderSize j) >>> P.log2Min) ≠ tagFree ||| j
      · rw [if_pos other]
        exact ⟨AllInside.cons.mpr ⟨probe, AllInside.nil⟩,
          fun accepted => by simp [other] at accepted⟩
      rw [if_neg other]
      by_cases check : s.unlinkCheck (s.base + (x + P.orderSize j)) j = true
      swap
      · rw [if_pos (by simpa using check)]
        exact ⟨AllInside.cons.mpr ⟨probe, AllInside.nil⟩,
          fun accepted => by simp [check] at accepted⟩
      rw [if_neg (by simpa using check)]
      refine ⟨AllInside.cons.mpr ⟨probe, (ih (j + 1)).1⟩, fun accepted i lo hi => ?_⟩
      by_cases same : i = j
      · subst same
        rw [← base]
        exact ⟨inside, h.unlinkCheck checked check⟩
      · have tail : s.growCheck x count (j + 1) = true := by
          simpa [past, other, check] using accepted
        exact (ih (j + 1)).2 tail i (by omega) (by omega)

/-- The second loop takes the accepted blocks, by induction on their number: the links of those
that are left stay inside the region.
-/
theorem Guarded.growTake (unit : P.minBlock ∣ x) (count : Nat)
    : ∀ {s : BuddyState P} {j : Nat}, Guarded g s →
      (∀ i, j ≤ i → i < j + count →
        x + P.orderSize i < g.total ∧ s.LinksInside g (g.base + (x + P.orderSize i)) i) →
      Guarded g (s.growTake x count j) ∧ AllInside P g (s.growTakeLog x count j) := by
  induction count with
  | zero => exact fun h _ => ⟨h, AllInside.nil⟩
  | succ count ih =>
      intro s j h accepted
      have base : s.base = g.base := congrArg BuddyGeometry.base h.geometry
      obtain ⟨inside, links⟩ := accepted j (Nat.le_refl j) (by omega)
      have index := h.sound.index_lt inside
      unfold BuddyState.growTake BuddyState.growTakeLog
      simp only
      rw [base]
      obtain ⟨unlinked, log⟩ := h.unlinkDo links
      have cleared : Guarded g ((s.unlinkDo (g.base + (x + P.orderSize j)) j).setTag
          ((x + P.orderSize j) >>> P.log2Min) tagNone) :=
        unlinked.congr rfl rfl
      have rest : ∀ i, j + 1 ≤ i → i < j + 1 + count →
          x + P.orderSize i < g.total
          ∧ ((s.unlinkDo (g.base + (x + P.orderSize j)) j).setTag
            ((x + P.orderSize j) >>> P.log2Min) tagNone).LinksInside g
            (g.base + (x + P.orderSize i)) i := by
        intro i lo hi
        obtain ⟨inside', links'⟩ := accepted i (by omega) (by omega)
        have node := h.sound.node (Nat.dvd_add unit (P.minBlock_dvd_orderSize i)) inside'
        exact ⟨inside', unlinked.links_setTag index node
          (h.links_unlinkDo links node (by omega) links')⟩
      obtain ⟨result, more⟩ := ih cleared rest
      exact ⟨result, AllInside.append.mpr ⟨log, AllInside.cons.mpr ⟨index, more⟩⟩⟩

/-- Growing stays inside the region. -/
theorem Guarded.grow (h : Guarded g s) (checked : P.checkLinks = true) (a n : Nat)
    : Guarded g (s.grow a n).1 ∧ AllInside P g (s.growLog a n) := by
  obtain ⟨look, found⟩ := h.orderAt a
  unfold BuddyState.grow BuddyState.growLog
  cases read : s.orderAt a with
  | none => exact ⟨h, AllInside.append.mpr ⟨look, AllInside.nil⟩⟩
  | some o =>
      obtain ⟨⟨x, rfl, unit, inside⟩, _⟩ := found o read
      have base : s.base = g.base := congrArg BuddyGeometry.base h.geometry
      have offset : g.base + x - s.base = x := by omega
      simp only [AllInside.append, offset]
      refine ⟨?_, look, ?_⟩
      · split
        · exact h
        split
        · exact h
        split
        · exact h
        split
        · exact h
        obtain ⟨_, accept⟩ := h.growCheck checked x (P.orderForSize n - o) o
        split
        · exact h
        · rename_i accepted
          have taken := Guarded.growTake unit (P.orderForSize n - o) h
            (accept (by simpa using accepted))
          exact taken.1.congr rfl rfl
      · split
        · exact AllInside.nil
        split
        · exact AllInside.nil
        split
        · exact AllInside.nil
        split
        · exact AllInside.nil
        obtain ⟨reads, accept⟩ := h.growCheck checked x (P.orderForSize n - o) o
        refine AllInside.append.mpr ⟨reads, ?_⟩
        split
        · exact AllInside.nil
        · rename_i accepted
          have taken := Guarded.growTake unit (P.orderForSize n - o) h
            (accept (by simpa using accepted))
          exact AllInside.append.mpr
            ⟨taken.2, AllInside.cons.mpr ⟨h.sound.index_lt inside, AllInside.nil⟩⟩

end Growing

-----------------------------------------------------------------------------------------
-- Runs on corrupted links
-----------------------------------------------------------------------------------------

/-- `t` is `s` with link words inside free blocks overwritten. -/
structure BuddyState.Corrupted {P : BuddyParams} (s t : BuddyState P) : Prop where
  object : t.toBuddyList = s.toBuddyList
  links : ∀ x, t.mem x ≠ s.mem x →
    ∃ o a, s.Listed o a ∧ a ≤ x ∧ x < a + 2 * P.ptrBytes

/-- The block that a call splits, if it splits one, has room for its upper half. -/
def BuddyState.CallFits {P : BuddyParams} (s : BuddyState P) : BuddyCall → Prop
  | .allocate n => n ≠ 0 → s.SplitFits (P.orderForSize n)
  | .allocateAligned n alignment =>
      n ≠ 0 → isPow2 alignment = true → alignment ≤ s.baseAlign →
        s.SplitFits (alignedOrder P n alignment)
  | .deallocate _ => True
  | .grow _ _ => True

/-- Every call of the run touches link words and tags of the region only. -/
def BuddyState.Contained {P : BuddyParams} (s : BuddyState P) : List BuddyCall → Prop
  | [] => True
  | call :: rest =>
      AllInside P s.toBuddyGeometry (s.log call)
      ∧ Contained (s.perform call.op) rest

/-- Every call of the run finds room for what it splits. -/
def BuddyState.RunFits {P : BuddyParams} (s : BuddyState P) : List BuddyCall → Prop
  | [] => True
  | call :: rest => s.CallFits call ∧ RunFits (s.perform call.op) rest

section Runs

variable {P : BuddyParams} {g : BuddyGeometry} {s t : BuddyState P}

/-- A call of a guarded list is contained exactly when it finds room, and keeps the guard. -/
theorem Guarded.perform (h : Guarded g s) (checked : P.checkLinks = true)
    (plain : P.cacheCap = 0) (call : BuddyCall)
    : (AllInside P g (s.log call) ↔ s.CallFits call)
      ∧ (s.CallFits call → Guarded g (s.perform call.op)) := by
  cases call with
  | allocate n =>
      simp only [BuddyState.log, BuddyState.CallFits, BuddyCall.op, BuddyState.perform,
        BuddyState.allocate]
      by_cases zero : n = 0
      · rw [if_pos zero, if_pos zero]
        exact ⟨⟨fun _ no => absurd zero no, fun _ => AllInside.nil⟩, fun _ => h⟩
      · rw [if_neg zero, if_neg zero]
        obtain ⟨log, guard⟩ := h.allocateOrder checked plain (P.orderForSize n)
        exact ⟨log.trans ⟨fun fits _ => fits, fun fits => fits zero⟩, fun fits => guard (fits zero)⟩
  | allocateAligned n alignment =>
      simp only [BuddyState.log, BuddyState.CallFits, BuddyCall.op, BuddyState.perform,
        BuddyState.allocateAligned]
      by_cases bad : (decide (n = 0) || !isPow2 alignment) = true
      · rw [if_pos bad, if_pos bad]
        refine ⟨⟨fun _ some pow => ?_, fun _ => AllInside.nil⟩, fun _ => h⟩
        simp [some, pow] at bad
      rw [if_neg bad, if_neg bad]
      simp only [Bool.or_eq_true, decide_eq_true_eq, Bool.not_eq_true', not_or,
        Bool.not_eq_false] at bad
      by_cases wide : alignment > s.baseAlign
      · rw [if_pos wide, if_pos wide]
        exact ⟨⟨fun _ _ _ le => by omega, fun _ => AllInside.nil⟩, fun _ => h⟩
      · rw [if_neg wide, if_neg wide]
        have le : alignment ≤ s.baseAlign := Nat.not_lt.mp wide
        obtain ⟨log, guard⟩ := h.allocateOrder checked plain
          (BuddyState.alignedOrder P n alignment)
        exact ⟨log.trans ⟨fun fits _ _ _ => fits, fun fits => fits bad.1 bad.2 le⟩,
          fun fits => guard (fits bad.1 bad.2 le)⟩
  | deallocate p =>
      obtain ⟨freed, log⟩ := h.deallocate checked plain p
      exact ⟨⟨fun _ => trivial, fun _ => log⟩, fun _ => freed⟩
  | grow p n =>
      obtain ⟨grown, log⟩ := h.grow checked p n
      exact ⟨⟨fun _ => trivial, fun _ => log⟩, fun _ => grown⟩

/-- A run is contained exactly when all its calls find room, by induction on the run. -/
theorem Guarded.contained_iff (checked : P.checkLinks = true) (plain : P.cacheCap = 0)
    (calls : List BuddyCall)
    : ∀ {s : BuddyState P}, Guarded g s → (s.Contained calls ↔ s.RunFits calls) := by
  induction calls with
  | nil => exact fun _ => Iff.rfl
  | cons call rest ih =>
      intro s h
      obtain ⟨log, guard⟩ := h.perform checked plain call
      unfold BuddyState.Contained BuddyState.RunFits
      rw [h.geometry, log]
      exact and_congr_right (fun fits => ih (guard fits))

/-- Overwritten links leave the list heads, which are in the object. -/
theorem BuddyReached.guarded (run : BuddyReached P s) (corrupt : s.Corrupted t)
    : Guarded s.toBuddyGeometry t := by
  obtain ⟨v, inv, _⟩ := run.inv
  refine ⟨congrArg BuddyList.toBuddyGeometry corrupt.object, inv.rep.geometry, fun o => ?_⟩
  rw [show t.freeLists = s.freeLists from congrArg BuddyList.freeLists corrupt.object]
  exact (inv.rep.front o).imp_right inv.rep.listed_node

/-- After link words of free blocks were overwritten, a run of calls stays inside the region
exactly when every call that splits a list head finds room for the upper half there.
-/
theorem BuddyReached.corruption_contained (run : BuddyReached P s)
    (checked : P.checkLinks = true) (plain : P.cacheCap = 0) (corrupt : s.Corrupted t)
    (calls : List BuddyCall)
    : t.Contained calls ↔ t.RunFits calls :=
  (run.guarded corrupt).contained_iff checked plain calls

end Runs

-----------------------------------------------------------------------------------------
-- A link that passes the checks
-----------------------------------------------------------------------------------------

/-- Blocks of 16 bytes with link checks and without an order cache. -/
def checkedBuddy : BuddyParams :=
  { smallBuddy with cacheCap := 0, cap_range := by decide }

/-- A region of one free block of 128 bytes, at 4160. -/
def checkedStart : BuddyState checkedBuddy :=
  ((BuddyState.blankStart checkedBuddy).init 4096 200 0 0 64 false).1

/-- The region after a store through a dangling pointer: the `next` word of its free block
names the last minimum block.
-/
def danglingStore : BuddyState checkedBuddy := checkedStart.setNext 4160 4272

theorem checkedStart_reached : BuddyReached checkedBuddy checkedStart := by
  refine BuddyReached.init (BuddyState.blankStart checkedBuddy) 4096 200 0 0 64 false ?_ ?_
  · exact ⟨by decide, by decide, by simp, by simp, by simp⟩
  · decide +kernel

theorem danglingStore_corrupted : checkedStart.Corrupted danglingStore := by
  refine ⟨rfl, fun x differs => ⟨3, 4160, ?_, ?_⟩⟩
  · have head : checkedStart.freeLists 3 = 4160 := by decide +kernel
    unfold BuddyState.Listed
    rw [head]
    exact Follows.here (by decide)
  · by_contra outside
    refine differs (Memory.storeWord_outside checkedStart.mem ?_)
    have : checkedBuddy.ptrBytes = 8 := rfl
    omega

theorem BuddyReached.corruption_contained_small
    : danglingStore.Contained [.allocate 100] ↔ danglingStore.RunFits [.allocate 100] :=
  checkedStart_reached.corruption_contained rfl rfl danglingStore_corrupted [.allocate 100]

/-- After one more allocation the forged link is a list head, and splitting it stores a link
behind the end of the region.
-/
theorem BuddyReached.corruption_contained_dangling
    : ¬∀ (P : BuddyParams) (s t : BuddyState P), BuddyReached P s → P.checkLinks = true →
        P.cacheCap = 0 → s.Corrupted t → ∀ calls, t.Contained calls := by
  intro claim
  have contained := claim checkedBuddy checkedStart danglingStore checkedStart_reached rfl rfl
    danglingStore_corrupted [.allocate 100, .allocate 10]
  have stored : BuddyAccess.link 4336
      ∈ (danglingStore.perform (.allocate 100)).log (.allocate 10) := by
    decide +kernel
  have inside := contained.2.1 _ stored
  have last : (danglingStore.perform (.allocate 100)).base
      + (danglingStore.perform (.allocate 100)).total = 4288 := by
    decide +kernel
  have hi := inside.2
  have pointer := checkedBuddy.ptrBytes_pos
  change 4336 + _ ≤ (danglingStore.perform (.allocate 100)).base
    + (danglingStore.perform (.allocate 100)).total at hi
  omega

end Bbmalloc
