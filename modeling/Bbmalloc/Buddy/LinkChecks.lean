import Bbmalloc.Buddy.Runs

/-! A build without the link checks next to one with them. Free lists that only the buddy
list writes pass every check, so on any run both builds hold the same memory and give the
same answers; the checks matter to corrupted lists alone.
-/

namespace Bbmalloc

open Bbmalloc.Foundations

-----------------------------------------------------------------------------------------
-- The build without the checks
-----------------------------------------------------------------------------------------

/-- The arguments of a buddy list with the link checks compiled out. -/
def BuddyParams.unchecked (P : BuddyParams) : BuddyParams := { P with checkLinks := false }

/-- The same members and the same memory in the build without the checks. -/
def BuddyState.unchecked {P : BuddyParams} (s : BuddyState P) : BuddyState P.unchecked :=
  ⟨s.toBuddyList, s.mem⟩

namespace BuddyState

section Unchecked

variable {P : BuddyParams} {s : BuddyState P} {a o i v : Nat}

@[simp] theorem unchecked_base : s.unchecked.base = s.base := rfl

@[simp] theorem unchecked_total : s.unchecked.total = s.total := rfl

@[simp] theorem unchecked_maxOrder : s.unchecked.maxOrder = s.maxOrder := rfl

@[simp] theorem unchecked_tag : s.unchecked.tag i = s.tag i := rfl

@[simp] theorem unchecked_orderSize : P.unchecked.orderSize o = P.orderSize o := rfl

@[simp] theorem unchecked_log2Min : P.unchecked.log2Min = P.log2Min := rfl

theorem unchecked_setTag : s.unchecked.setTag i v = (s.setTag i v).unchecked := rfl

theorem unchecked_orderAt : s.unchecked.orderAt a = s.orderAt a := rfl

theorem unchecked_findFreeOrder : s.unchecked.findFreeOrder o = s.findFreeOrder o := rfl

/-- Without the checks every node is taken out. -/
theorem unchecked_unlink : s.unchecked.unlink a o = ((s.unlinkDo a o).unchecked, true) := rfl

theorem unchecked_splitDown (levels : Nat)
    : ∀ (s : BuddyState P) (b o split : Nat),
      s.unchecked.splitDown b levels o split = (s.splitDown b levels o split).unchecked := by
  induction levels with
  | zero => exact fun _ _ _ _ => rfl
  | succ levels ih => exact fun s b o split => ih (s.linkFront _ _) b (o - 1) (split >>> 1)

theorem unchecked_growTake (count : Nat)
    : ∀ (s : BuddyState P) (x j : Nat),
      s.unchecked.growTake x count j = (s.growTake x count j).unchecked := by
  induction count with
  | zero => exact fun _ _ _ => rfl
  | succ count ih => exact fun s x j => ih ((s.unlinkDo _ _).setTag _ _) x (j + 1)

theorem unchecked_seedFrom (top : Nat)
    : ∀ (s : BuddyState P) (x : Nat),
      s.unchecked.seedFrom top x = (s.seedFrom top x).unchecked := by
  induction top with
  | zero => exact fun _ _ => rfl
  | succ top ih =>
      intro s x
      by_cases digit : s.tagCount &&& 1 <<< top = 0
      · have skipped : s.seedFrom (top + 1) x = s.seedFrom top x := by
          simp [seedFrom, digit]
        rw [skipped, ← ih]
        simp [seedFrom, unchecked, digit]
      · have pushed : s.seedFrom (top + 1) x
            = (s.pushFree (s.base + x) top).seedFrom top (x + P.orderSize top) := by
          simp [seedFrom, digit]
        rw [pushed, ← ih]
        simp [seedFrom, unchecked, digit]
        rfl

theorem unchecked_findBase (fuel : Nat)
    : ∀ data end_ align : Nat,
      findBase P.unchecked data end_ fuel align = findBase P data end_ fuel align := by
  induction fuel with
  | zero => exact fun _ _ _ => rfl
  | succ fuel ih =>
      intro data end_ align
      unfold findBase
      rw [ih]
      rfl

/-- Set-up takes no notice of the checks. -/
theorem unchecked_setup (zeroed : Bool)
    : s.unchecked.setup zeroed = ((s.setup zeroed).1.unchecked, (s.setup zeroed).2) := by
  have placed : s.unchecked.baseOf P.unchecked = s.baseOf P := unchecked_findBase _ _ _ _
  rw [setup_eq, setup_eq, placed]
  change (if s.tooSmall P then _ else _) = _
  by_cases small : s.tooSmall P = true
  · rw [if_pos small, if_pos small]
    rfl
  · rw [if_neg small, if_neg small]
    cases s.baseOf P with
    | none => rfl
    | some place =>
        obtain ⟨b, align⟩ := place
        simp only
        change (if s.countAt P b = 0 then _ else _) = _
        by_cases empty : s.countAt P b = 0
        · rw [if_pos empty, if_pos empty]
          rfl
        · rw [if_neg empty, if_neg empty]
          exact congrArg (·, true)
            (unchecked_seedFrom _ (s.blankAt (s.laidAt P b align) zeroed) 0)

end Unchecked

end BuddyState

-----------------------------------------------------------------------------------------
-- Merging and splitting
-----------------------------------------------------------------------------------------

section Merging

variable {P : BuddyParams} {s : BuddyState P} {v : BuddyView} {x o i target : Nat}

/-- Unlinking a free block of a represented state passes the checks. -/
theorem BuddyRep.unlink_eq (h : BuddyRep s v) (known : v.tile x = some (.free, o))
    : s.unlink (s.base + x) o = (s.unlinkDo (s.base + x) o, true) := by
  rw [BuddyState.unlink, h.unlinkCheck known, if_pos rfl]

/-- A buddy whose tag shows a free block of the order is one. -/
theorem BuddyWork.buddy_free (h : BuddyWork s v x o) (inside : x ^^^ P.orderSize o < s.total)
    (tag : s.tag ((x ^^^ P.orderSize o) >>> P.log2Min) = tagFree ||| o)
    : v.tile (x ^^^ P.orderSize o) = some (.free, o) := by
  obtain ⟨aligned, _, _, _, order⟩ := h.rep.block h.known
  have unit : P.minBlock ∣ x ^^^ P.orderSize o := by
    refine dvd_trans (P.minBlock_dvd_orderSize o) ?_
    rw [P.orderSize_eq] at aligned ⊢
    exact buddy_dvd aligned
  have differ : x ^^^ P.orderSize o ≠ x := by
    intro same
    have zero : P.orderSize o = 0 := by
      rw [← Nat.zero_xor (P.orderSize o), ← Nat.xor_self x, Nat.xor_assoc, same, Nat.xor_self]
    exact (P.orderSize_pos o).ne' zero
  exact h.rep.free_of_tag unit inside (fun i found => differ (h.held _ i found))
    (h.rep.order_lt_64 order) tag

/-- The merging loop: a buddy that the tags show as free passes the checks. By induction on
the fuel, with the held block as the invariant.
-/
theorem BuddyWork.unchecked_mergeUp (fuel : Nat)
    : ∀ {s : BuddyState P} {v : BuddyView} {x o : Nat}, BuddyWork s v x o →
      s.unchecked.mergeUp fuel x o
        = ((s.mergeUp fuel x o).1.unchecked, (s.mergeUp fuel x o).2) := by
  induction fuel with
  | zero => exact fun _ => rfl
  | succ fuel ih =>
      intro s v x o h
      by_cases below : o < s.maxOrder - 1
      · by_cases outside : x ^^^ P.orderSize o ≥ s.total
        · simp [BuddyState.mergeUp, outside]
        · by_cases tag : s.tag ((x ^^^ P.orderSize o) >>> P.log2Min) = tagFree ||| o
          · have buddy := h.buddy_free (by omega) tag
            obtain ⟨w, work, _⟩ := h.mergeOnce (by omega) buddy
            simp only [BuddyState.mergeUp, BuddyState.unchecked_maxOrder, below, if_true,
              BuddyState.unchecked_orderSize, BuddyState.unchecked_total, outside, if_false,
              BuddyState.unchecked_log2Min, BuddyState.unchecked_tag, tag, ne_eq,
              not_true_eq_false, BuddyState.unchecked_unlink, BuddyState.unchecked_base,
              BuddyState.unchecked_setTag, Bool.not_true, Bool.false_eq_true,
              h.rep.unlink_eq buddy, ih work]
          · simp [BuddyState.mergeUp, tag]
      · simp [BuddyState.mergeUp, below]

theorem BuddyWork.unchecked_mergeAndFree (h : BuddyWork s v x o)
    : s.unchecked.mergeAndFree (s.base + x) o = (s.mergeAndFree (s.base + x) o).unchecked := by
  unfold BuddyState.mergeAndFree
  simp only [BuddyState.unchecked_maxOrder, BuddyState.unchecked_base, Nat.add_sub_cancel_left,
    h.unchecked_mergeUp s.maxOrder]
  rfl

/-- The head of a free list has a sound link, so its check never cuts the list. -/
theorem BuddyRep.unchecked_takeAndSplit (h : BuddyRep s v) (i target : Nat)
    : s.unchecked.takeAndSplit i target
      = ((s.takeAndSplit i target).1.unchecked, (s.takeAndSplit i target).2) := by
  by_cases null : s.freeLists i = 0
  · simp [BuddyState.takeAndSplit, BuddyState.unchecked, null]
  · have front := (h.front i).resolve_left null
    have valid : s.linkValid (s.next (s.freeLists i)) = true :=
      BuddyState.linkValid_of_node ((h.next_listed front).imp_right h.listed_node)
    have kept : (if P.checkLinks && !s.linkValid (s.next (s.freeLists i)) then 0
        else s.next (s.freeLists i)) = s.next (s.freeLists i) := by
      simp [valid]
    generalize cutEq : ({ s with
      freeLists := Function.update s.freeLists i (s.next (s.freeLists i)) } : BuddyState P) = cut
    generalize maskEq : (if s.next (s.freeLists i) = 0 then andNot s.freeMask (1 <<< i)
      else s.freeMask) ||| andNot (1 <<< i - 1) (1 <<< target - 1) = mask
    have down := BuddyState.unchecked_splitDown (i - target) cut (s.freeLists i) i (P.orderSize i)
    have checked : s.takeAndSplit i target
        = ({ cut.splitDown (s.freeLists i) (i - target) i (P.orderSize i) with freeMask := mask },
          s.freeLists i) := by
      rw [BuddyState.takeAndSplit, if_neg null]
      simp only [kept]
      rw [← cutEq, ← maskEq]
    have plain : s.unchecked.takeAndSplit i target
        = ({ cut.unchecked.splitDown (s.freeLists i) (i - target) i (P.orderSize i) with
            freeMask := mask },
          s.freeLists i) := by
      rw [BuddyState.takeAndSplit, ← cutEq, ← maskEq]
      exact if_neg null
    rw [plain, checked, down]
    rfl

theorem BuddyRep.unchecked_takeOrder (h : BuddyRep s v) (i o : Nat)
    : s.unchecked.takeOrder i o = ((s.takeOrder i o).1.unchecked, (s.takeOrder i o).2) := by
  simp only [BuddyState.takeOrder, h.unchecked_takeAndSplit]
  split
  · rfl
  · rfl

end Merging

-----------------------------------------------------------------------------------------
-- The order cache
-----------------------------------------------------------------------------------------

section Flushing

variable {P : BuddyParams}

/-- Taking the front block out of the cache leaves it held. -/
theorem BuddyIdle.popped {s : BuddyState P} {v : BuddyView} {o : Nat} (h : BuddyIdle s v)
    (live : s.cacheHead o ≠ 0)
    : ∃ x, s.cacheHead o = s.base + x
        ∧ (if s.linkValid (s.next (s.cacheHead o)) then s.next (s.cacheHead o) else 0)
          = s.next (s.cacheHead o)
        ∧ BuddyWork
          ({ s with
            cacheHead := Function.update s.cacheHead o (s.next (s.cacheHead o)) }
            : BuddyState P)
          (v.cachePop x o) x o := by
  obtain ⟨x, eq, known, guarded, _, rep, owned⟩ := h.rep.cachePop live
  refine ⟨x, eq, guarded, rep, h.mask, Coalesced.update_other h.merged (by simp), ?_, ?_⟩
  · simp [BuddyView.cachePop]
  · exact h.settled.update rfl

/-- Flushing one order, by induction on the fuel. -/
theorem BuddyIdle.unchecked_flushOrder (fuel : Nat)
    : ∀ {s : BuddyState P} {v : BuddyView} {o : Nat}, BuddyIdle s v →
      s.unchecked.flushOrder o fuel = (s.flushOrder o fuel).unchecked := by
  induction fuel with
  | zero => exact fun _ => rfl
  | succ fuel ih =>
      intro s v o h
      by_cases live : s.cacheHead o = 0
      · simp [BuddyState.flushOrder, BuddyState.unchecked, live]
      · obtain ⟨x, eq, guarded, work⟩ := h.popped live
        obtain ⟨w, idle, _⟩ := work.mergeAndFree
        have here : s.flushOrder o (fuel + 1)
            = (({ s with
                cacheHead := Function.update s.cacheHead o (s.next (s.cacheHead o)) }
                : BuddyState P).mergeAndFree (s.base + x) o).flushOrder o fuel := by
          rw [BuddyState.flushOrder, if_pos live]
          simp only [guarded]
          rw [eq]
        have there : s.unchecked.flushOrder o (fuel + 1)
            = (({ s with
                cacheHead := Function.update s.cacheHead o (s.next (s.cacheHead o)) }
                : BuddyState P).unchecked.mergeAndFree (s.base + x) o).flushOrder o fuel := by
          rw [BuddyState.flushOrder]
          refine (if_pos live).trans ?_
          have guarded' : (if s.unchecked.linkValid (s.unchecked.next (s.unchecked.cacheHead o))
              then s.unchecked.next (s.unchecked.cacheHead o) else 0)
              = s.next (s.cacheHead o) := guarded
          simp only [guarded']
          rw [← eq]
          rfl
        have merged := work.unchecked_mergeAndFree
        simp only at merged
        rw [here, there, merged, ih idle]

/-- Flushing a range of orders, by induction on their number. -/
theorem BuddyIdle.unchecked_flushFrom (count : Nat)
    : ∀ {s : BuddyState P} {v : BuddyView} {o : Nat}, BuddyIdle s v →
      (∀ i, (v.cached i).length ≤ 256) →
      s.unchecked.flushFrom count o = (s.flushFrom count o).unchecked := by
  induction count with
  | zero => exact fun _ _ => rfl
  | succ count ih =>
      intro s v o h short
      obtain ⟨w, idle, _, cached, _⟩ := h.flushOrder 256 (short o)
      have shorter : ∀ i, (w.cached i).length ≤ 256 := by
        intro i
        rw [cached]
        by_cases same : i = o
        · simp [same]
        · simpa [same] using short i
      have rest := ih (o := o + 1)
        (idle.setCounts (Function.update (s.flushOrder o 256).cacheCount o 0)) shorter
      simp only [BuddyState.flushFrom, h.unchecked_flushOrder 256]
      exact rest

theorem BuddyInv.unchecked_flushCache {s : BuddyState P} {v : BuddyView} (h : BuddyInv s v)
    : s.unchecked.flushCache = s.flushCache.unchecked := by
  have short : ∀ i, (v.cached i).length ≤ 256 := by
    intro i
    have := (h.counts i).2
    have := P.cap_range
    omega
  unfold BuddyState.flushCache
  by_cases caching : 0 < P.cacheCap
  · rw [if_pos caching]
    exact (if_pos caching).trans (h.toBuddyIdle.unchecked_flushFrom s.maxOrder short)
  · rw [if_neg caching]
    exact if_neg caching

end Flushing

-----------------------------------------------------------------------------------------
-- Operations
-----------------------------------------------------------------------------------------

section Operations

variable {P : BuddyParams} {s : BuddyState P} {v : BuddyView} {x o : Nat}

theorem BuddyInv.unchecked_allocateOrder (h : BuddyInv s v) (o : Nat)
    : s.unchecked.allocateOrder o
      = ((s.allocateOrder o).1.unchecked, (s.allocateOrder o).2) := by
  obtain ⟨w, flushed, _⟩ := h.flushCache
  unfold BuddyState.allocateOrder
  change (if o ≥ s.maxOrder then _ else if (BuddyState.cacheable P o && s.cacheHead o ≠ 0) = true
    then _ else _) = _
  by_cases high : o ≥ s.maxOrder
  · rw [if_pos high, if_pos high]
  · rw [if_neg high, if_neg high]
    by_cases hit : (BuddyState.cacheable P o && s.cacheHead o ≠ 0) = true
    · rw [if_pos hit, if_pos hit]
      rfl
    · rw [if_neg hit, if_neg hit]
      simp only [BuddyState.unchecked_findFreeOrder, BuddyState.unchecked_maxOrder,
        h.unchecked_flushCache, h.rep.unchecked_takeOrder, flushed.rep.unchecked_takeOrder]
      split
      · split
        · rfl
        · rfl
      · rfl

theorem BuddyInv.unchecked_deallocateOrder (h : BuddyInv s v)
    (known : v.tile x = some (.alloc, o))
    : s.unchecked.deallocateOrder (s.base + x) o
      = (s.deallocateOrder (s.base + x) o).unchecked := by
  have counter := h.rep.size_le_counter known
  have work : BuddyWork
      ({ s with allocatedBytes := s.allocatedBytes - P.orderSize o } : BuddyState P)
      (v.setKind x .held o) x o :=
    ⟨h.rep.release known rfl counter, h.mask, Coalesced.update_other h.merged (by simp),
      by simp [BuddyView.setKind], h.settled.update rfl⟩
  unfold BuddyState.deallocateOrder
  change (if (BuddyState.cacheable P o && s.cacheCount o < P.cacheCap) = true then _ else _) = _
  by_cases caching : (BuddyState.cacheable P o && s.cacheCount o < P.cacheCap) = true
  · rw [if_pos caching, if_pos caching]
    rfl
  · rw [if_neg caching, if_neg caching]
    exact work.unchecked_mergeAndFree

/-- A buddy that the tags offer to `grow` passes the checks. By induction on the orders. -/
theorem BuddyInv.unchecked_growCheck (h : BuddyInv s v) (unit : P.minBlock ∣ x) (count : Nat)
    : ∀ j, j + count ≤ s.maxOrder →
      s.unchecked.growCheck x count j = s.growCheck x count j := by
  induction count with
  | zero => exact fun _ _ => rfl
  | succ count ih =>
      intro j range
      unfold BuddyState.growCheck
      change (if (x + P.orderSize j ≥ s.total
          || s.tag ((x + P.orderSize j) >>> P.log2Min) ≠ tagFree ||| j) = true then _ else _) = _
      by_cases refused : (x + P.orderSize j ≥ s.total
          || s.tag ((x + P.orderSize j) >>> P.log2Min) ≠ tagFree ||| j) = true
      · rw [if_pos refused, if_pos refused]
      · rw [if_neg refused, if_neg refused]
        simp only [ge_iff_le, ne_eq, decide_not, Bool.or_eq_true, decide_eq_true_eq,
          Bool.not_eq_true', decide_eq_false_iff_not, not_or, not_le, not_not] at refused
        have buddy := h.rep.free_of_tag (Nat.dvd_add unit (P.minBlock_dvd_orderSize j)) refused.1
          (fun i => h.settled _ i) (h.rep.order_lt_64 (by omega)) refused.2
        rw [h.rep.unlinkCheck buddy, ih (j + 1) (by omega)]
        rfl

theorem BuddyInv.unchecked_grow (h : BuddyInv s v) (p n : Nat)
    : s.unchecked.grow p n = ((s.grow p n).1.unchecked, (s.grow p n).2) := by
  unfold BuddyState.grow
  rw [BuddyState.unchecked_orderAt]
  cases read : s.orderAt p with
  | none => rfl
  | some o =>
      obtain ⟨x, k, rfl, owned⟩ := h.orderAt_iff.mp read
      have unit := (h.rep.block (ownedOf_eq_some.mp owned).1).2.1
      simp only [Nat.add_sub_cancel_left, BuddyState.unchecked_base]
      change (if n = 0 then _ else if P.orderForSize n ≤ o then _
        else if P.orderForSize n ≥ s.maxOrder then _
        else if x &&& (P.orderSize (P.orderForSize n) - 1) ≠ 0 then _ else _) = _
      by_cases zero : n = 0
      · rw [if_pos zero, if_pos zero]
      · rw [if_neg zero, if_neg zero]
        by_cases inside : P.orderForSize n ≤ o
        · rw [if_pos inside, if_pos inside]
          rfl
        · rw [if_neg inside, if_neg inside]
          by_cases high : P.orderForSize n ≥ s.maxOrder
          · rw [if_pos high, if_pos high]
          · have offered : s.unchecked.growCheck x (P.unchecked.orderForSize n - o) o
                = s.growCheck x (P.orderForSize n - o) o :=
              h.unchecked_growCheck unit (P.orderForSize n - o) o (by omega)
            rw [if_neg high, if_neg high, offered, BuddyState.unchecked_growTake]
            split
            · rfl
            · split
              · rfl
              · rfl

end Operations

-----------------------------------------------------------------------------------------
-- Runs of both builds
-----------------------------------------------------------------------------------------

/-- What a call returns to its caller. -/
inductive BuddyAnswer
  | chunk (c : Chunk)
  | flag (r : RetFlag)
  | size (n : Nat)
  | accepted (ok : Bool)
  | none
  deriving DecidableEq, Repr

/-- The answer to an operation. -/
def BuddyState.answer {P : BuddyParams} (s : BuddyState P) : BuddyOp → BuddyAnswer
  | .allocate n => .chunk (s.allocate n).2
  | .allocateAligned n alignment => .chunk (s.allocateAligned n alignment).2
  | .deallocate p => .flag (s.deallocate p).2
  | .grow p n => .size (s.grow p n).2
  | .flushCache => .none
  | .largestFree => .size s.largestFree.2
  | .reset => .accepted s.reset.2

/-- The answers of a run of operations, and the state after it. -/
def BuddyState.answers {P : BuddyParams} (s : BuddyState P)
    : List BuddyOp → BuddyState P × List BuddyAnswer
  | [] => (s, [])
  | op :: rest =>
      let (t, answers) := (s.perform op).answers rest
      (t, s.answer op :: answers)

section Runs

variable {P : BuddyParams} {s : BuddyState P} {v : BuddyView}

/-- One operation: the same members, the same memory and the same answer. -/
theorem BuddyInv.unchecked_perform (h : BuddyInv s v) (plain : v.Plain) (op : BuddyOp)
    : s.unchecked.perform op = (s.perform op).unchecked
      ∧ s.unchecked.answer op = s.answer op := by
  have order := h.unchecked_allocateOrder
  cases op with
  | allocate n =>
      simp only [BuddyState.perform, BuddyState.answer, BuddyState.allocate]
      split
      · exact ⟨rfl, rfl⟩
      · exact ⟨congrArg Prod.fst (order (P.orderForSize n)),
          congrArg BuddyAnswer.chunk (congrArg Prod.snd (order (P.orderForSize n)))⟩
  | allocateAligned n alignment =>
      have granted : s.unchecked.allocateAligned n alignment
          = ((s.allocateAligned n alignment).1.unchecked, (s.allocateAligned n alignment).2) := by
        unfold BuddyState.allocateAligned
        change (if (n = 0 || !isPow2 alignment) = true then _
          else if alignment > s.baseAlign then _
          else s.unchecked.allocateOrder (BuddyState.alignedOrder P n alignment)) = _
        rw [order]
        split_ifs
        · rfl
        · rfl
        · rfl
      exact ⟨congrArg Prod.fst granted, congrArg BuddyAnswer.chunk (congrArg Prod.snd granted)⟩
  | deallocate p =>
      simp only [BuddyState.perform, BuddyState.answer, BuddyState.deallocate,
        BuddyState.unchecked_orderAt]
      cases read : s.orderAt p with
      | none => exact ⟨rfl, rfl⟩
      | some o =>
          obtain ⟨x, k, rfl, owned⟩ := h.orderAt_iff.mp read
          obtain rfl : k = .alloc := plain x _ owned
          exact ⟨h.unchecked_deallocateOrder (ownedOf_eq_some.mp owned).1, rfl⟩
  | grow p n =>
      simp only [BuddyState.perform, BuddyState.answer, h.unchecked_grow]
      exact ⟨trivial, trivial⟩
  | flushCache => exact ⟨h.unchecked_flushCache, rfl⟩
  | largestFree =>
      simp only [BuddyState.perform, BuddyState.answer, BuddyState.largestFree,
        h.unchecked_flushCache]
      exact ⟨trivial, rfl⟩
  | reset =>
      have again := BuddyState.unchecked_setup (s := s) false
      exact ⟨congrArg Prod.fst again, congrArg BuddyAnswer.accepted (congrArg Prod.snd again)⟩

/-- A run of operations, by induction on their list. -/
theorem BuddyReached.unchecked_answers (run : BuddyReached P s) (ops : List BuddyOp)
    : s.unchecked.answers ops = ((s.answers ops).1.unchecked, (s.answers ops).2) := by
  induction ops generalizing s with
  | nil => rfl
  | cons op rest ih =>
      obtain ⟨v, inv, plain, _⟩ := run.inv
      obtain ⟨same, answer⟩ := inv.unchecked_perform plain op
      simp only [BuddyState.answers, same, answer, ih (run.perform op)]

/-- `init` takes no notice of the checks. -/
theorem BuddyState.unchecked_init (s : BuddyState P) (mem len tags cap align : Nat)
    (zeroed : Bool)
    : s.unchecked.init mem len tags cap align zeroed
      = ((s.init mem len tags cap align zeroed).1.unchecked,
        (s.init mem len tags cap align zeroed).2) := by
  unfold BuddyState.init
  rw [← unchecked_setup]
  rfl

/-- What the build with the checks reaches, the build without them reaches too. -/
theorem BuddyReached.unchecked (run : BuddyReached P s)
    : BuddyReached P.unchecked s.unchecked := by
  induction run with
  | init s mem len tags cap align zeroed area accepted =>
      have same := s.unchecked_init mem len tags cap align zeroed
      have start := BuddyReached.init s.unchecked mem len tags cap align zeroed
        ⟨area.noWrap, area.half, area.apart, area.cleanInside, area.cleanOutside⟩
        ((congrArg Prod.snd same).trans accepted)
      rwa [same] at start
  | perform before op ih =>
      obtain ⟨v, inv, plain, _⟩ := before.inv
      rw [← (inv.unchecked_perform plain op).1]
      exact ih.perform op
  | writeBlock before live lo hi w ih => exact ih.writeBlock live lo hi w
  | writeElsewhere before data tags w ih => exact ih.writeElsewhere data tags w

/-- What the build without the checks reaches, the build with them reaches too. -/
theorem BuddyReached.checked {t : BuddyState P.unchecked} (run : BuddyReached P.unchecked t)
    : BuddyReached P ⟨t.toBuddyList, t.mem⟩ := by
  induction run with
  | init t mem len tags cap align zeroed area accepted =>
      have same := BuddyState.unchecked_init (P := P) ⟨t.toBuddyList, t.mem⟩ mem len tags cap
        align zeroed
      have start := BuddyReached.init (P := P) ⟨t.toBuddyList, t.mem⟩ mem len tags cap align zeroed
        ⟨area.noWrap, area.half, area.apart, area.cleanInside, area.cleanOutside⟩
        ((congrArg Prod.snd same).symm.trans accepted)
      rw [show t.init mem len tags cap align zeroed = _ from same]
      exact start
  | @perform t before op ih =>
      obtain ⟨v, inv, plain, _⟩ := ih.inv
      rw [show t.perform op = _ from (inv.unchecked_perform plain op).1]
      exact ih.perform op
  | writeBlock before live lo hi w ih => exact ih.writeBlock live lo hi w
  | writeElsewhere before data tags w ih => exact ih.writeElsewhere data tags w

/-- The link checks are transparent: the build without them reaches the same states, seen
through its own type, and from each of them every run of operations leaves the same
members and the same memory and gives the same answers.
-/
theorem BuddyReached.checks_transparent (run : BuddyReached P s) (ops : List BuddyOp)
    : (∀ t : BuddyState P, BuddyReached P t ↔ BuddyReached P.unchecked t.unchecked)
      ∧ s.unchecked.answers ops = ((s.answers ops).1.unchecked, (s.answers ops).2) :=
  ⟨fun _ => ⟨fun reached => reached.unchecked, fun reached => reached.checked⟩,
    run.unchecked_answers ops⟩

theorem BuddyReached.checks_transparent_small
    : let s := ((BuddyState.blankStart smallBuddy).init 4096 200 0 0 64 false).1
      let ops := [.allocate 20, .allocate 40, .grow 4160 64, .deallocate 4160, .largestFree]
      (∀ t : BuddyState smallBuddy,
          BuddyReached smallBuddy t ↔ BuddyReached smallBuddy.unchecked t.unchecked)
        ∧ s.unchecked.answers ops = ((s.answers ops).1.unchecked, (s.answers ops).2) :=
  smallBuddy_start.checks_transparent _

end Runs

end Bbmalloc
