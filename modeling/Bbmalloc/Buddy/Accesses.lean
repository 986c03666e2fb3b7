import Bbmalloc.Buddy.Layout

/-! What the calls of a buddy list without an order cache touch: the link words that they
store to and the tags that they read or store. Each log follows its function branch by
branch and is checked against it: no cell outside the log is written.
-/

namespace Bbmalloc

open Bbmalloc.Foundations

/-- A store to a link word in memory, or a read or a store of a tag. -/
inductive BuddyAccess
  | link (addr : Nat)
  | tag (index : Nat)
  deriving DecidableEq, Repr

/-- The access stays inside the data and the tags of the region. -/
def BuddyAccess.Inside (P : BuddyParams) (g : BuddyGeometry) : BuddyAccess → Prop
  | .link a => g.base ≤ a ∧ a + P.ptrBytes ≤ g.base + g.total
  | .tag i => i < g.tagCount

/-- The cells of an access. -/
def BuddyAccess.Cell (P : BuddyParams) (g : BuddyGeometry) (x : Nat) : BuddyAccess → Prop
  | .link a => a ≤ x ∧ x < a + P.ptrBytes
  | .tag i => x = g.blockTags + i

/-- The calls of a client. -/
inductive BuddyCall
  | allocate (n : Nat)
  | allocateAligned (n alignment : Nat)
  | deallocate (p : Nat)
  | grow (p n : Nat)

/-- The operation of a call. -/
def BuddyCall.op : BuddyCall → BuddyOp
  | .allocate n => .allocate n
  | .allocateAligned n alignment => .allocateAligned n alignment
  | .deallocate p => .deallocate p
  | .grow p n => .grow p n

-----------------------------------------------------------------------------------------
-- Logs
-----------------------------------------------------------------------------------------

namespace BuddyState

variable {P : BuddyParams}

def linkFrontLog (s : BuddyState P) (addr o : Nat) : List BuddyAccess :=
  let head := s.freeLists o
  [.link addr, .link (addr + P.ptrBytes)]
    ++ (if head ≠ 0 then [.link (head + P.ptrBytes)] else [])
    ++ [.tag ((s.setNext addr head).tagIndex addr)]

def unlinkDoLog (s : BuddyState P) (node o : Nat) : List BuddyAccess :=
  let next := s.next node
  let isHead := s.freeLists o == node
  let prev := if isHead then 0 else s.prev node
  (if !isHead && prev ≠ 0 then [.link prev] else [])
    ++ (if next ≠ 0 && !isHead then [.link (next + P.ptrBytes)] else [])

def splitDownLog (s : BuddyState P) (b : Nat) : (levels o split : Nat) → List BuddyAccess
  | 0, _, _ => []
  | levels + 1, o, split =>
      s.linkFrontLog (b + split >>> 1) (o - 1)
        ++ splitDownLog (s.linkFront (b + split >>> 1) (o - 1)) b levels (o - 1) (split >>> 1)

def takeAndSplitLog (s : BuddyState P) (from_ target : Nat) : List BuddyAccess :=
  let blk := s.freeLists from_
  if blk = 0 then []
  else
    let next := s.next blk
    let next := if P.checkLinks && !s.linkValid next then 0 else next
    let s : BuddyState P := { s with freeLists := Function.update s.freeLists from_ next }
    s.splitDownLog blk (from_ - target) from_ (P.orderSize from_)

def mergeUpLog (s : BuddyState P) : (fuel off o : Nat) → List BuddyAccess
  | 0, _, _ => []
  | fuel + 1, off, o =>
      if o < s.maxOrder - 1 then
        let sz := P.orderSize o
        let buddyOff := off ^^^ sz
        if buddyOff ≥ s.total then []
        else if s.tag (buddyOff >>> P.log2Min) ≠ tagFree ||| o then
          [.tag (buddyOff >>> P.log2Min)]
        else if s.unlinkCheck (s.base + buddyOff) o then
          let s' := s.unlinkDo (s.base + buddyOff) o
          .tag (buddyOff >>> P.log2Min) :: s.unlinkDoLog (s.base + buddyOff) o
            ++ .tag ((off ||| sz) >>> P.log2Min)
              :: mergeUpLog (s'.setTag ((off ||| sz) >>> P.log2Min) tagNone) fuel (andNot off sz)
                (o + 1)
        else [.tag (buddyOff >>> P.log2Min)]
      else []

def mergeAndFreeLog (s : BuddyState P) (addr o : Nat) : List BuddyAccess :=
  let r := s.mergeUp s.maxOrder (addr - s.base) o
  s.mergeUpLog s.maxOrder (addr - s.base) o ++ r.1.linkFrontLog (r.1.base + r.2.1) r.2.2

def takeOrderLog (s : BuddyState P) (i o : Nat) : List BuddyAccess :=
  let r := s.takeAndSplit i o
  s.takeAndSplitLog i o ++ (if r.2 = 0 then [] else [.tag (r.1.tagIndex r.2)])

def allocateOrderLog (s : BuddyState P) (o : Nat) : List BuddyAccess :=
  if o ≥ s.maxOrder then []
  else if s.findFreeOrder o ≥ s.maxOrder then []
  else s.takeOrderLog (s.findFreeOrder o) o

def orderAtLog (s : BuddyState P) (p : Nat) : List BuddyAccess :=
  let off := wrapSub P.word p s.base
  if off ≥ s.total || off &&& (P.minBlock - 1) ≠ 0 then [] else [.tag (off >>> P.log2Min)]

def deallocateLog (s : BuddyState P) (p : Nat) : List BuddyAccess :=
  s.orderAtLog p
    ++ match s.orderAt p with
      | none => []
      | some o =>
          ({ s with allocatedBytes := s.allocatedBytes - P.orderSize o }
            : BuddyState P).mergeAndFreeLog p o

def growCheckLog (s : BuddyState P) (off : Nat) : (count j : Nat) → List BuddyAccess
  | 0, _ => []
  | count + 1, j =>
      let boff := off + P.orderSize j
      if boff ≥ s.total then []
      else if s.tag (boff >>> P.log2Min) ≠ tagFree ||| j then [.tag (boff >>> P.log2Min)]
      else if !s.unlinkCheck (s.base + boff) j then [.tag (boff >>> P.log2Min)]
      else .tag (boff >>> P.log2Min) :: growCheckLog s off count (j + 1)

def growTakeLog (s : BuddyState P) (off : Nat) : (count j : Nat) → List BuddyAccess
  | 0, _ => []
  | count + 1, j =>
      let boff := off + P.orderSize j
      let s' := s.unlinkDo (s.base + boff) j
      s.unlinkDoLog (s.base + boff) j
        ++ .tag (boff >>> P.log2Min)
          :: growTakeLog (s'.setTag (boff >>> P.log2Min) tagNone) off count (j + 1)

def growLog (s : BuddyState P) (p n : Nat) : List BuddyAccess :=
  s.orderAtLog p
    ++ match s.orderAt p with
      | none => []
      | some o =>
          if n = 0 then []
          else
            let want := P.orderForSize n
            if want ≤ o then []
            else if want ≥ s.maxOrder then []
            else
              let off := p - s.base
              if off &&& (P.orderSize want - 1) ≠ 0 then []
              else
                s.growCheckLog off (want - o) o
                  ++ if !s.growCheck off (want - o) o then []
                    else s.growTakeLog off (want - o) o ++ [.tag (off >>> P.log2Min)]

/-- What a call touches, in a build without an order cache. -/
def log (s : BuddyState P) : BuddyCall → List BuddyAccess
  | .allocate n => if n = 0 then [] else s.allocateOrderLog (P.orderForSize n)
  | .allocateAligned n alignment =>
      if n = 0 || !isPow2 alignment then []
      else if alignment > s.baseAlign then []
      else s.allocateOrderLog (alignedOrder P n alignment)
  | .deallocate p => s.deallocateLog p
  | .grow p n => s.growLog p n

end BuddyState

-----------------------------------------------------------------------------------------
-- Every store is logged
-----------------------------------------------------------------------------------------

/-- `s'` has the set-up data of `s`, and what was stored between them is in the log. -/
structure Logged {P : BuddyParams} (s s' : BuddyState P) (log : List BuddyAccess) : Prop where
  geometry : s'.toBuddyGeometry = s.toBuddyGeometry
  within : Memory.Within (fun x => ∃ a ∈ log, a.Cell P s.toBuddyGeometry x) s.mem s'.mem

section Logs

variable {P : BuddyParams} {s s' s'' : BuddyState P} {log more : List BuddyAccess} {a i v : Nat}

/-- No store needs no log. -/
theorem Logged.still (geometry : s'.toBuddyGeometry = s.toBuddyGeometry) (mem : s'.mem = s.mem)
    : Logged s s' log := by
  refine ⟨geometry, ?_⟩
  rw [mem]
  exact Memory.Within.refl _ _

theorem Logged.trans (first : Logged s s' log) (second : Logged s' s'' more)
    : Logged s s'' (log ++ more) := by
  refine ⟨second.geometry.trans first.geometry, ?_⟩
  have later := second.within
  rw [first.geometry] at later
  refine (first.within.mono ?_).trans (later.mono ?_)
  · rintro x ⟨access, member, cell⟩
    exact ⟨access, List.mem_append_left _ member, cell⟩
  · rintro x ⟨access, member, cell⟩
    exact ⟨access, List.mem_append_right _ member, cell⟩

/-- A log may be longer than needed. -/
theorem Logged.mono (h : Logged s s' log) (sub : ∀ a ∈ log, a ∈ more) : Logged s s' more :=
  ⟨h.geometry, h.within.mono (fun _ ⟨access, member, cell⟩ => ⟨access, sub access member, cell⟩)⟩

/-- Only the set-up data and the memory of the later state matter. -/
theorem Logged.congr (h : Logged s s' log) (geometry : s''.toBuddyGeometry = s'.toBuddyGeometry)
    (mem : s''.mem = s'.mem)
    : Logged s s'' log :=
  ⟨geometry.trans h.geometry, by rw [mem]; exact h.within⟩

theorem Logged.setNext (s : BuddyState P) (a v : Nat) : Logged s (s.setNext a v) [.link a] := by
  refine ⟨rfl, (Memory.within_storeWord s.mem a P.ptrBytes v).mono ?_⟩
  exact fun x cell => ⟨.link a, List.mem_singleton.mpr rfl, cell⟩

theorem Logged.setPrev (s : BuddyState P) (a v : Nat)
    : Logged s (s.setPrev a v) [.link (a + P.ptrBytes)] := by
  refine ⟨rfl, (Memory.within_storeWord s.mem (a + P.ptrBytes) P.ptrBytes v).mono ?_⟩
  exact fun x cell => ⟨.link (a + P.ptrBytes), List.mem_singleton.mpr rfl, cell⟩

theorem Logged.setTag (s : BuddyState P) (i v : Nat) : Logged s (s.setTag i v) [.tag i] := by
  refine ⟨rfl, fun x outside => ?_⟩
  have apart : x ≠ s.blockTags + i :=
    fun same => outside ⟨.tag i, List.mem_singleton.mpr rfl, same⟩
  simp only [BuddyState.setTag]
  rw [Memory.store_of_ne _ _ apart]

theorem Logged.setPrevOrScratch (s : BuddyState P) (a v : Nat)
    : Logged s (s.setPrevOrScratch a v) (if a ≠ 0 then [.link (a + P.ptrBytes)] else []) := by
  by_cases live : a ≠ 0
  · rw [if_pos live]
    refine (Logged.setPrev s a v).congr rfl ?_
    simp [BuddyState.setPrevOrScratch, live]
  · exact Logged.still rfl (by simp [BuddyState.setPrevOrScratch, live])

theorem Logged.linkFront (s : BuddyState P) (a o : Nat)
    : Logged s (s.linkFront a o) (s.linkFrontLog a o) := by
  have links := (Logged.setNext s a (s.freeLists o)).trans
    (Logged.setPrev (s.setNext a (s.freeLists o)) a 0)
  have head := links.trans (Logged.setPrevOrScratch _ (s.freeLists o) a)
  have listed : Logged s
      ({ ((s.setNext a (s.freeLists o)).setPrev a 0).setPrevOrScratch (s.freeLists o) a with
        freeLists := Function.update s.freeLists o a } : BuddyState P) _ :=
    head.congr rfl rfl
  exact listed.trans (Logged.setTag _ _ _)

/-- An unlink stores to the neighbours of a node that is not the front of its list. -/
theorem BuddyState.unlinkDo_mem (s : BuddyState P) (node o : Nat)
    : (s.unlinkDo node o).mem
      = if s.freeLists o = node then s.mem
        else ((if s.prev node ≠ 0 then s.setNext (s.prev node) (s.next node)
          else s).setPrevOrScratch (s.next node) (s.prev node)).mem := by
  by_cases front : s.freeLists o = node
  · simp [unlinkDo, front, setPrevOrScratch]
  · by_cases first : s.prev node = 0 <;> by_cases last : s.next node = 0 <;>
      simp [unlinkDo, front, first, last, setPrevOrScratch, setPrev, setNext]

theorem Logged.unlinkDo (s : BuddyState P) (node o : Nat)
    : Logged s (s.unlinkDo node o) (s.unlinkDoLog node o) := by
  have mem := BuddyState.unlinkDo_mem s node o
  by_cases front : s.freeLists o = node
  · rw [if_pos front] at mem
    exact Logged.still rfl mem
  · rw [if_neg front] at mem
    have isHead : (s.freeLists o == node) = false := by simpa using front
    have log : s.unlinkDoLog node o
        = (if s.prev node ≠ 0 then [.link (s.prev node)] else [])
          ++ (if s.next node ≠ 0 then [.link (s.next node + P.ptrBytes)] else []) := by
      simp [BuddyState.unlinkDoLog, isHead]
    have slot : Logged s
        (if s.prev node ≠ 0 then s.setNext (s.prev node) (s.next node) else s)
        (if s.prev node ≠ 0 then [.link (s.prev node)] else []) := by
      split
      · exact Logged.setNext s _ _
      · exact Logged.still rfl rfl
    rw [log]
    exact (slot.trans (Logged.setPrevOrScratch _ (s.next node) (s.prev node))).congr
      slot.geometry.symm mem

theorem Logged.splitDown (b : Nat) (levels : Nat)
    : ∀ (s : BuddyState P) (o split : Nat),
      Logged s (s.splitDown b levels o split) (s.splitDownLog b levels o split) := by
  induction levels with
  | zero => exact fun s _ _ => Logged.still rfl rfl
  | succ levels ih => exact fun s o split => (Logged.linkFront s _ _).trans (ih _ _ _)

theorem Logged.takeAndSplit (s : BuddyState P) (i o : Nat)
    : Logged s (s.takeAndSplit i o).1 (s.takeAndSplitLog i o) := by
  unfold BuddyState.takeAndSplit BuddyState.takeAndSplitLog
  simp only
  by_cases null : s.freeLists i = 0
  · rw [if_pos null, if_pos null]
    exact Logged.still rfl rfl
  · rw [if_neg null, if_neg null]
    have taken := Logged.splitDown (s.freeLists i) (i - o)
      ({ s with
        freeLists := Function.update s.freeLists i
          (if (P.checkLinks && !s.linkValid (s.next (s.freeLists i))) = true then 0
            else s.next (s.freeLists i)) } : BuddyState P) i (P.orderSize i)
    exact ⟨taken.geometry, taken.within⟩

theorem Logged.mergeUp (fuel : Nat)
    : ∀ (s : BuddyState P) (off o : Nat),
      Logged s (s.mergeUp fuel off o).1 (s.mergeUpLog fuel off o) := by
  induction fuel with
  | zero => exact fun s _ _ => Logged.still rfl rfl
  | succ fuel ih =>
      intro s off o
      unfold BuddyState.mergeUp BuddyState.mergeUpLog
      by_cases more : o < s.maxOrder - 1
      swap
      · rw [if_neg more, if_neg more]
        exact Logged.still rfl rfl
      rw [if_pos more, if_pos more]
      simp only
      by_cases past : off ^^^ P.orderSize o ≥ s.total
      · rw [if_pos past, if_pos past]
        exact Logged.still rfl rfl
      rw [if_neg past, if_neg past]
      by_cases other : s.tag ((off ^^^ P.orderSize o) >>> P.log2Min) ≠ tagFree ||| o
      · rw [if_pos other, if_pos other]
        exact Logged.still rfl rfl
      rw [if_neg other, if_neg other]
      unfold BuddyState.unlink
      by_cases check : s.unlinkCheck (s.base + (off ^^^ P.orderSize o)) o = true
      · simp only [check, if_true, Bool.not_true, Bool.false_eq_true, if_false]
        have unlinked := Logged.unlinkDo s (s.base + (off ^^^ P.orderSize o)) o
        have cleared := unlinked.trans (Logged.setTag _ ((off ||| P.orderSize o) >>> P.log2Min)
          tagNone)
        refine (cleared.trans (ih _ _ _)).mono (fun access member => ?_)
        simp only [List.append_assoc, List.nil_append, List.cons_append, List.mem_append,
          List.mem_cons] at member ⊢
        exact Or.inr member
      · simp only [check, Bool.false_eq_true, if_false, Bool.not_false, if_true]
        exact Logged.still rfl rfl

theorem Logged.mergeAndFree (s : BuddyState P) (a o : Nat)
    : Logged s (s.mergeAndFree a o) (s.mergeAndFreeLog a o) :=
  ((Logged.mergeUp s.maxOrder s (a - s.base) o).trans (Logged.linkFront _ _ _)).congr rfl rfl

/-- Without an order cache an allocation is a search and a split. -/
theorem BuddyState.allocateOrder_plain (plain : P.cacheCap = 0) (s : BuddyState P) (o : Nat)
    : s.allocateOrder o
      = if o ≥ s.maxOrder then (s, .null)
        else if s.findFreeOrder o ≥ s.maxOrder then (s, .null)
        else s.takeOrder (s.findFreeOrder o) o := by
  have uncached : cacheable P o = false := by simp [cacheable, plain]
  have flush : s.flushCache = s := by simp [flushCache, plain]
  unfold allocateOrder
  simp only [uncached, Bool.false_and, Bool.false_eq_true, if_false, flush]
  split
  · rfl
  split <;> rfl

theorem Logged.takeOrder (s : BuddyState P) (i o : Nat)
    : Logged s (s.takeOrder i o).1 (s.takeOrderLog i o) := by
  have taken := Logged.takeAndSplit s i o
  unfold BuddyState.takeOrder BuddyState.takeOrderLog
  simp only
  by_cases null : (s.takeAndSplit i o).2 = 0
  · rw [if_pos null, if_pos null, List.append_nil]
    exact taken
  · rw [if_neg null, if_neg null]
    exact (taken.trans (Logged.setTag _ _ _)).congr rfl rfl

theorem Logged.allocateOrder (plain : P.cacheCap = 0) (s : BuddyState P) (o : Nat)
    : Logged s (s.allocateOrder o).1 (s.allocateOrderLog o) := by
  rw [BuddyState.allocateOrder_plain plain]
  unfold BuddyState.allocateOrderLog
  split
  · exact Logged.still rfl rfl
  split
  · exact Logged.still rfl rfl
  · exact Logged.takeOrder s _ o

theorem Logged.deallocate (plain : P.cacheCap = 0) (s : BuddyState P) (p : Nat)
    : Logged s (s.deallocate p).1 (s.deallocateLog p) := by
  unfold BuddyState.deallocate BuddyState.deallocateLog
  cases s.orderAt p with
  | none => exact Logged.still rfl rfl
  | some o =>
      have uncached : BuddyState.cacheable P o = false := by simp [BuddyState.cacheable, plain]
      simp only [BuddyState.deallocateOrder, uncached, Bool.false_and, Bool.false_eq_true,
        if_false]
      have merged := Logged.mergeAndFree
        ({ s with allocatedBytes := s.allocatedBytes - P.orderSize o } : BuddyState P) p o
      exact Logged.mono ⟨merged.geometry, merged.within⟩
        (fun access member => List.mem_append_right _ member)

theorem Logged.growTake (off count : Nat)
    : ∀ (s : BuddyState P) (j : Nat),
      Logged s (s.growTake off count j) (s.growTakeLog off count j) := by
  induction count with
  | zero => exact fun s _ => Logged.still rfl rfl
  | succ count ih =>
      intro s j
      have unlinked := Logged.unlinkDo s (s.base + (off + P.orderSize j)) j
      have cleared := unlinked.trans (Logged.setTag _ ((off + P.orderSize j) >>> P.log2Min)
        tagNone)
      refine (cleared.trans (ih _ _)).mono (fun access member => ?_)
      simpa only [BuddyState.growTakeLog, List.append_assoc, List.singleton_append] using member

theorem Logged.grow (s : BuddyState P) (p n : Nat)
    : Logged s (s.grow p n).1 (s.growLog p n) := by
  unfold BuddyState.grow BuddyState.growLog
  cases s.orderAt p with
  | none => exact Logged.still rfl rfl
  | some o =>
      simp only
      split
      · exact Logged.still rfl rfl
      split
      · exact Logged.still rfl rfl
      split
      · exact Logged.still rfl rfl
      split
      · exact Logged.still rfl rfl
      split
      · exact Logged.still rfl rfl
      · have taken := (Logged.growTake (p - s.base) (P.orderForSize n - o) s o).trans
          (Logged.setTag _ ((p - s.base) >>> P.log2Min) (tagAlloc ||| P.orderForSize n))
        refine (taken.mono (fun access member => ?_)).congr rfl rfl
        exact List.mem_append_right _ (List.mem_append_right _ member)

/-- Without an order cache, every store of a call is in its log. -/
theorem Logged.perform (plain : P.cacheCap = 0) (s : BuddyState P) (call : BuddyCall)
    : Logged s (s.perform call.op) (s.log call) := by
  cases call with
  | allocate n =>
      simp only [BuddyCall.op, BuddyState.perform, BuddyState.allocate, BuddyState.log]
      split
      · exact Logged.still rfl rfl
      · exact Logged.allocateOrder plain s _
  | allocateAligned n alignment =>
      simp only [BuddyCall.op, BuddyState.perform, BuddyState.allocateAligned, BuddyState.log]
      split
      · exact Logged.still rfl rfl
      split
      · exact Logged.still rfl rfl
      · exact Logged.allocateOrder plain s _
  | deallocate p => exact Logged.deallocate plain s p
  | grow p n => exact Logged.grow s p n

end Logs

end Bbmalloc
