import Bbmalloc.Tlsf.Search

/-! The small-block allocator between operations, and what granting and freeing a block do
in terms of the granted blocks alone.
-/

namespace Bbmalloc

open Bbmalloc.Foundations

/-- The allocator between operations: every header is valid, free blocks are merged, and the
counters agree with the granted blocks and the sheets.
-/
structure TlsfInv {T : TlsfParams} (limit : Nat) (s : TlsfState T) (v : TlsfView) : Prop
    extends TlsfRep limit s v where
  settled : v.Settled
  merged : v.Merged
  counter : s.allocatedBytes = blockSum id limit v.granted
  counted : s.count = s.sheets.length
  budget : s.count ≤ T.maxSheets

/-- A step of the allocator: sheets stay, `granted` is granted afterwards, and the payloads
of `kept` blocks are not written.
-/
structure TlsfStep {T : TlsfParams} (limit : Nat) (s s' : TlsfState T) (v' : TlsfView)
    (kept granted : Nat → Option Nat)
    : Prop where
  inv : TlsfInv limit s' v'
  base : s'.rbase = s.rbase
  sheets : s'.sheets = s.sheets
  granted_eq : v'.granted = granted
  within : Memory.Within (TlsfLoose T s.rbase s.sheets kept) s.mem s'.mem

section Rebuilding

variable {T : TlsfParams} {s s' : TlsfState T} {v v' : TlsfView} {limit x n lo hi : Nat}

/-- After a stretch was rebuilt into granted blocks and at most one free block at its end,
with no free neighbours, everything is settled and merged again.
-/
theorem TlsfInv.rebuild (h : TlsfInv limit s v) (start : ∃ b, v.block lo = some b)
    (outer : ∀ y, y < lo ∨ hi ≤ y → v'.block y = v.block y)
    (inner : ∀ y k m, lo ≤ y → y < hi → v'.block y = some (k, m) → k = .granted
      ∨ (k = .free ∧ y + m = hi ∧ (∀ m', v.block hi ≠ some (.free, m'))
        ∧ (y = lo → ∀ z m', v.block z = some (.free, m') → z + m' ≠ lo)))
    : v'.Settled ∧ v'.Merged := by
  constructor
  · intro y k m found
    by_cases outside : y < lo ∨ hi ≤ y
    · exact h.settled y k m ((outer y outside).symm.trans found)
    · rcases inner y k m (by omega) (by omega) found with rfl | ⟨rfl, _⟩ <;> rfl
  · intro y a b first second
    by_cases low : y < lo
    · have old := (outer y (Or.inl low)).symm.trans first
      obtain ⟨b', found⟩ := start
      have apart := h.tiling.apart old found low
      simp only at apart
      by_cases touch : y + a = lo
      · rw [touch] at second
        by_cases empty : hi ≤ lo
        · have same := (outer lo (Or.inr empty)).symm.trans second
          rw [← touch] at same
          exact h.merged y a b old same
        · rcases inner lo .free b (Nat.le_refl lo) (by omega) second with other | ⟨_, _, _, front⟩
          · exact absurd other (by decide)
          · exact front rfl y a old touch
      · exact h.merged y a b old ((outer _ (Or.inl (by omega))).symm.trans second)
    · by_cases high : hi ≤ y
      · exact h.merged y a b ((outer y (Or.inr high)).symm.trans first)
          ((outer _ (Or.inr (by omega))).symm.trans second)
      · rcases inner y .free a (by omega) (by omega) first with other | ⟨_, last, behind, _⟩
        · exact absurd other (by decide)
        · rw [last] at second
          exact behind b ((outer hi (Or.inr (Nat.le_refl hi))).symm.trans second)

/-- The sum of the granted sizes when one block changes. -/
theorem TlsfRep.granted_sum (h : TlsfRep limit s v) (known : ∃ b, v.block x = some b)
    (b : Option Nat)
    : blockSum id limit (Function.update v.granted x b) + (v.granted x).elim 0 id
      = blockSum id limit v.granted + b.elim 0 id := by
  obtain ⟨⟨k, n⟩, found⟩ := known
  have := ((h.headerAt found).1.lt h.fit).1
  exact blockSum_update id v.granted b (by omega)

/-- A step that changes what is granted at `x` and rebuilds the stretch `[lo, hi)`. -/
theorem TlsfInv.step (h : TlsfInv limit s v) (lo hi : Nat) {kept : Nat → Option Nat}
    {b : Option Nat}
    (known : ∃ b, v.block x = some b) (start : ∃ b, v.block lo = some b)
    (rep : TlsfRep limit s' v') (base : s'.rbase = s.rbase) (sheets : s'.sheets = s.sheets)
    (count : s'.count = s.count)
    (bytes : s'.allocatedBytes + (v.granted x).elim 0 id = s.allocatedBytes + b.elim 0 id)
    (granted : v'.granted = Function.update v.granted x b)
    (within : Memory.Within (TlsfLoose T s.rbase s.sheets kept) s.mem s'.mem)
    (outer : ∀ y, y < lo ∨ hi ≤ y → v'.block y = v.block y)
    (inner : ∀ y k m, lo ≤ y → y < hi → v'.block y = some (k, m) → k = .granted
      ∨ (k = .free ∧ y + m = hi ∧ (∀ m', v.block hi ≠ some (.free, m'))
        ∧ (y = lo → ∀ z m', v.block z = some (.free, m') → z + m' ≠ lo)))
    : TlsfStep limit s s' v' kept (Function.update v.granted x b) := by
  have shape := h.rebuild start outer inner
  have sum := h.granted_sum known b
  have counter := h.counter
  refine ⟨⟨rep, shape.1, shape.2, ?_, ?_, ?_⟩, base, sheets, granted, within⟩
  · rw [granted]
    omega
  · rw [count, sheets, h.counted]
  · rw [count]
    exact h.budget

/-- A step after which the block at `x` is granted and ends where the rebuilt stretch does. -/
theorem TlsfInv.step_whole (h : TlsfInv limit s v) {t : TlsfState T} {w : TlsfView} {k : TlsfKind}
    {kept : Nat → Option Nat} (start : ∃ b, v.block x = some b)
    (mid : TlsfRep limit t w) (front : w.block x = some (k, n))
    (outer : ∀ y, y < x ∨ x + n ≤ y → w.block y = v.block y)
    (rep : TlsfRep limit s' (w.put x (some (.granted, n))))
    (base : s'.rbase = s.rbase) (sheets : s'.sheets = s.sheets) (count : s'.count = s.count)
    (bytes : s'.allocatedBytes + (v.granted x).elim 0 id = s.allocatedBytes + n)
    (granted : (w.put x (some (.granted, n))).granted = Function.update v.granted x (some n))
    (within : Memory.Within (TlsfLoose T s.rbase s.sheets kept) s.mem s'.mem)
    : TlsfStep limit s s' (w.put x (some (.granted, n))) kept
        (Function.update v.granted x (some n)) := by
  have large := (mid.shape front).2.2
  refine h.step x (x + n) start start rep base sheets count bytes granted within ?_ ?_
  · intro y outside
    have ne : y ≠ x := by omega
    rw [TlsfView.put_block, Function.update_of_ne ne]
    exact outer y outside
  · intro y k a lo hi found
    by_cases same : y = x
    · subst same
      rw [TlsfView.put_block, Function.update_self] at found
      exact Or.inl (Prod.mk.inj (Option.some.inj found)).1.symm
    · rw [TlsfView.put_block, Function.update_of_ne same,
        mid.tiling.none_inside front (by omega) hi] at found
      cases found

/-- A step after which the block at `x` is granted and a free one fills the rebuilt stretch. -/
theorem TlsfInv.step_front (h : TlsfInv limit s v) {t : TlsfState T} {w : TlsfView} {k : TlsfKind}
    {m : Nat} {kept : Nat → Option Nat} (start : ∃ b, v.block x = some b)
    (mid : TlsfRep limit t w) (front : w.block x = some (k, n))
    (hand : w.block (x + n) = some (.held, m))
    (outer : ∀ y, y < x ∨ x + n + m ≤ y → w.block y = v.block y)
    (behind : ∀ m', v.block (x + n + m) ≠ some (.free, m'))
    (rep : TlsfRep limit s' ((w.give T (x + n) m).put x (some (.granted, n))))
    (base : s'.rbase = s.rbase) (sheets : s'.sheets = s.sheets) (count : s'.count = s.count)
    (bytes : s'.allocatedBytes + (v.granted x).elim 0 id = s.allocatedBytes + n)
    (granted : (w.put x (some (.granted, n))).granted = Function.update v.granted x (some n))
    (within : Memory.Within (TlsfLoose T s.rbase s.sheets kept) s.mem s'.mem)
    : TlsfStep limit s s' ((w.give T (x + n) m).put x (some (.granted, n))) kept
        (Function.update v.granted x (some n)) := by
  have large := (mid.shape front).2.2
  have rest := (mid.shape hand).2.2
  have given : ((w.give T (x + n) m).put x (some (.granted, n))).granted
      = Function.update v.granted x (some n) := by
    rw [TlsfView.put_granted, TlsfView.give_granted hand, ← granted, TlsfView.put_granted]
  refine h.step x (x + n + m) start start rep base sheets count bytes given within ?_ ?_
  · intro y outside
    have ne : y ≠ x := by omega
    have ne' : y ≠ x + n := by omega
    simp only [TlsfView.put_block, TlsfView.give, Function.update_of_ne ne,
      Function.update_of_ne ne']
    exact outer y outside
  · intro y k a lo hi found
    by_cases same : y = x
    · subst same
      rw [TlsfView.put_block, Function.update_self] at found
      exact Or.inl (Prod.mk.inj (Option.some.inj found)).1.symm
    simp only [TlsfView.put_block, TlsfView.give, Function.update_of_ne same] at found
    by_cases last : y = x + n
    · subst last
      rw [Function.update_self] at found
      obtain ⟨rfl, rfl⟩ := Prod.mk.inj (Option.some.inj found)
      exact Or.inr ⟨rfl, rfl, behind, fun eq => (same eq).elim⟩
    · rw [Function.update_of_ne last] at found
      by_cases low : y < x + n
      · rw [mid.tiling.none_inside front (by omega) low] at found
        cases found
      · rw [mid.tiling.none_inside hand (by omega) hi] at found
        cases found

end Rebuilding

-----------------------------------------------------------------------------------------
-- Granting
-----------------------------------------------------------------------------------------

section Granting

variable {T : TlsfParams} {s : TlsfState T} {v : TlsfView} {limit x n m a : Nat}

/-- Granting the held block at `x`: its header is stored and its bit is set. -/
theorem TlsfRep.grant (h : TlsfRep limit s v) (known : v.block x = some (.held, n))
    (back : s.prevPhys (x + n) = x)
    : TlsfRep limit ((s.setBsizeFlags x (n ||| tlsfAlloc)).mark x) (v.put x (some (.granted, n)))
      ∧ Memory.Within (TlsfLoose T s.rbase s.sheets v.granted) s.mem
          ((s.setBsizeFlags x (n ||| tlsfAlloc)).mark x).mem := by
  obtain ⟨unit, whole, large⟩ := h.shape known
  have last := ((h.headerAt known).2.1.lt h.fit).1
  have limit_le := h.fit.limit_le
  have fits : n ||| tlsfAlloc < u32 := by
    have word : u32 = 4294967296 := rfl
    rw [(TlsfState.size_word whole).2.2.2.2]
    omega
  obtain ⟨rep, move⟩ := h.setBsizeFlags known rfl unit (Nat.le_refl x) (by omega) fits
  have words := TlsfState.setBsizeFlags_words (s := s) (v := n ||| tlsfAlloc) unit unit fits
  have words' := TlsfState.setBsizeFlags_words (s := s) (v := n ||| tlsfAlloc) unit
    (h.headerAt known).2.1.1 fits
  obtain ⟨marked, within⟩ := rep.mark known (words.1.trans (if_pos rfl)) (words'.2.1.trans back)
  rw [move.base, move.sheets] at within
  exact ⟨marked, move.within.trans within⟩

/-- Making the held block at `x` free: its header and the back offset behind it are stored
and it is put into its bin.
-/
theorem TlsfRep.release (h : TlsfRep limit s v) (known : v.block x = some (.held, n))
    : TlsfRep limit (((s.setBsizeFlags x n).setPrevPhys (x + n) x).insertFree x n) (v.give T x n)
      ∧ TlsfMove s v (((s.setBsizeFlags x n).setPrevPhys (x + n) x).insertFree x n)
          (v.give T x n)
      ∧ ∀ y, HeaderAt T s.sheets y →
          (((s.setBsizeFlags x n).setPrevPhys (x + n) x).insertFree x n).bsizeFlags y
            = (if y = x then n else s.bsizeFlags y)
          ∧ (((s.setBsizeFlags x n).setPrevPhys (x + n) x).insertFree x n).prevPhys y
            = (if y = x + n then x else s.prevPhys y) := by
  obtain ⟨unit, whole, large⟩ := h.shape known
  have last := ((h.headerAt known).2.1.lt h.fit).1
  have limit_le := h.fit.limit_le
  have word : u32 = 4294967296 := rfl
  have unit' := (h.headerAt known).2.1.1
  obtain ⟨rep, move⟩ := h.setBsizeFlags known rfl unit (Nat.le_refl x) (by omega)
    (show n < u32 by omega)
  obtain ⟨rep', move'⟩ := rep.setPrevPhys known rfl unit' (by omega) (Nat.le_refl (x + n))
    (show x < u32 by omega)
  have words := fun {y : Nat} (hy : 16 ∣ y) =>
    TlsfState.setBsizeFlags_words (s := s) (v := n) unit hy (by omega)
  have words' := fun {y : Nat} (hy : 16 ∣ y) =>
    TlsfState.setPrevPhys_words (s := s.setBsizeFlags x n) (v := x) unit' hy (by omega)
  obtain ⟨rep'', move'', same⟩ := rep'.insertFree known
    (by rw [(words' unit).1, (words unit).1, if_pos rfl])
    (by rw [(words' unit').2.1, if_pos rfl])
  refine ⟨rep'', (move.trans move').trans move'', ?_⟩
  intro y header
  have := same y header
  rw [this.1, this.2, (words' header.1).1, (words' header.1).2.1, (words header.1).1,
    (words header.1).2.1]
  exact ⟨rfl, rfl⟩

/-- The stores that cut a block of `n + m` bytes in two: the header of the rest and the back
offset behind it.
-/
def TlsfState.carve (s : TlsfState T) (x n m : Nat) : TlsfState T :=
  ((s.setBsizeFlags (x + n) m).setPrevPhys (x + n) x).setPrevPhys (x + (n + m)) (x + n)

/-- Cutting a block in two, and the headers in the new state. -/
theorem TlsfRep.carve {k : TlsfKind} (h : TlsfRep limit s v)
    (known : v.block x = some (k, n + m)) (unsettled : k.settled = false) (whole : 16 ∣ n)
    (low : 32 ≤ n) (high : 32 ≤ m)
    : TlsfRep limit (s.carve x n m) (v.cut x k n m)
      ∧ TlsfMove s (v.cut x k n m) (s.carve x n m) (v.cut x k n m)
      ∧ ∀ y, 16 ∣ y →
        (s.carve x n m).bsizeFlags y = (if y = x + n then m else s.bsizeFlags y)
        ∧ (s.carve x n m).prevPhys y
          = (if y = x + (n + m) then x + n else if y = x + n then x else s.prevPhys y) := by
  obtain ⟨unit, both, _⟩ := h.shape known
  have last := ((h.headerAt known).2.1.lt h.fit).1
  have limit_le := h.fit.limit_le
  have word : u32 = 4294967296 := rfl
  have unitR : 16 ∣ x + n := by omega
  have unitE : 16 ∣ x + (n + m) := by omega
  have cut := (h.split known unsettled whole low high).1
  obtain ⟨first, second, _⟩ := v.cut_block x k m (a := n) (by omega)
  obtain ⟨rep1, move1⟩ := cut.setBsizeFlags second rfl unitR (Nat.le_refl _) (by omega)
    (show m < u32 by omega)
  obtain ⟨rep2, move2⟩ := rep1.setPrevPhys first unsettled unitR (by omega) (Nat.le_refl _)
    (show x < u32 by omega)
  obtain ⟨rep3, move3⟩ := rep2.setPrevPhys second rfl unitE (by omega) (by omega)
    (show x + n < u32 by omega)
  refine ⟨rep3, (move1.trans move2).trans move3, fun y unitY => ?_⟩
  have words1 := TlsfState.setBsizeFlags_words (s := s) (v := m) unitR unitY (by omega)
  have words2 := TlsfState.setPrevPhys_words (s := s.setBsizeFlags (x + n) m) (v := x) unitR unitY
    (by omega)
  have words3 := TlsfState.setPrevPhys_words
    (s := (s.setBsizeFlags (x + n) m).setPrevPhys (x + n) x) (v := x + n) unitE unitY (by omega)
  rw [TlsfState.carve, words3.1, words2.1, words1.1, words3.2.1, words2.2.1, words1.2.1]
  exact ⟨rfl, rfl⟩

end Granting

section Allocating

variable {T : TlsfParams} {s : TlsfState T} {v : TlsfView} {limit x i n m a : Nat} {f : TlsfHit}

/-- The list after `allocate` took the block at `x` off the front of its bin. -/
def TlsfState.popped (s : TlsfState T) (x i : Nat) : TlsfState T :=
  ({ s with heads := Function.update s.heads i (s.nextFree x) } : TlsfState T).clearIfEmpty i
    (s.nextFree x)

/-- `allocate` with a block that is granted whole. -/
theorem TlsfState.allocateAt_whole (live : f.off ≠ nullOff) (close : ¬s.bsize f.off - a ≥ 32)
    : s.allocateAt a f
      = let marked := ((s.popped f.off f.idx).setBsizeFlags f.off
          (s.bsize f.off ||| tlsfAlloc)).mark f.off
        ({ marked with allocatedBytes := s.allocatedBytes + s.bsize f.off },
          ⟨s.rbase + f.off + 16, s.bsize f.off - 16⟩) := by
  simp only [allocateAt, live, close, TlsfShape.minBlock, if_false]
  rfl

/-- `allocate` with a block of `a + m` bytes that is cut in two. -/
theorem TlsfState.allocateAt_split (live : f.off ≠ nullOff) (size : s.bsize f.off = a + m)
    (split : m ≥ 32)
    : s.allocateAt a f
      = let rest := ((s.popped f.off f.idx).carve f.off a m).insertFree (f.off + a) m
        let marked := (rest.setBsizeFlags f.off (a ||| tlsfAlloc)).mark f.off
        ({ marked with allocatedBytes := rest.allocatedBytes + a },
          ⟨rest.rbase + f.off + 16, a - 16⟩) := by
  have cut : a + m - a = m := by omega
  simp only [allocateAt, live, size, cut, split, TlsfShape.minBlock, if_true, if_false]
  rfl

/-- What is left after the found block was popped. -/
theorem TlsfInv.popped (h : TlsfInv limit s v) (found : v.Found T s.heads a m f)
    : TlsfRep limit (s.popped f.off f.idx) (v.take T f.off m)
      ∧ (s.popped f.off f.idx).prevPhys (f.off + m) = f.off
      ∧ (v.take T f.off m).block f.off = some (.held, m)
      ∧ (v.take T f.off m).granted = v.granted
      ∧ ∀ y, y < f.off ∨ f.off + m ≤ y → (v.take T f.off m).block y = v.block y := by
  have large := (h.shape found.block).2.2
  obtain ⟨rep, same⟩ := h.popFront (t := s.popped f.off f.idx) found.block found.head rfl rfl rfl
    (by rw [← found.idx]; rfl) (by rw [← found.idx]; rfl) (by rw [← found.idx]; rfl)
  refine ⟨rep, ?_, by simp [TlsfView.take], TlsfView.take_granted found.block, fun y outside => ?_⟩
  · exact (same _ (h.headerAt found.block).2.1).2.trans (h.behind found.block rfl)
  · have ne : y ≠ f.off := by omega
    simp [TlsfView.take, ne]

/-- `allocate` grants the found block whole. -/
theorem TlsfInv.allocate_whole (h : TlsfInv limit s v) (found : v.Found T s.heads a m f)
    (close : ¬m - a ≥ 32)
    : ∃ v', (s.allocateAt a f).2 = ⟨s.rbase + f.off + 16, m - 16⟩
      ∧ TlsfStep limit s (s.allocateAt a f).1 v' v.granted
          (Function.update v.granted f.off (some m)) := by
  have live := ((h.headerAt found.block).1.lt h.fit).2
  have size := (h.read found.block rfl).1
  have before : v.granted f.off = none := by simp [TlsfView.granted, found.block, grantedSize]
  obtain ⟨rep, back, held, kept, outer⟩ := h.popped found
  obtain ⟨marked, within⟩ := rep.grant held back
  rw [TlsfState.allocateAt_whole live (by rwa [size]), size]
  refine ⟨_, rfl, h.step_whole ⟨_, found.block⟩ rep held outer
    (marked.congr rfl rfl rfl rfl rfl rfl) rfl rfl rfl (by rw [before]; rfl) ?_ (kept ▸ within)⟩
  rw [TlsfView.put_granted, kept]
  rfl

/-- `allocate` grants the front of the found block and the rest stays free. -/
theorem TlsfInv.allocate_split (h : TlsfInv limit s v) (found : v.Found T s.heads a (a + m) f)
    (whole : 16 ∣ a) (large : 32 ≤ a) (split : 32 ≤ m)
    : ∃ v', (s.allocateAt a f).2 = ⟨s.rbase + f.off + 16, a - 16⟩
      ∧ TlsfStep limit s (s.allocateAt a f).1 v' v.granted
          (Function.update v.granted f.off (some a)) := by
  obtain ⟨unit, both, _⟩ := h.shape found.block
  have live := ((h.headerAt found.block).1.lt h.fit).2
  have size := (h.read found.block rfl).1
  have before : v.granted f.off = none := by simp [TlsfView.granted, found.block, grantedSize]
  obtain ⟨rep, back, held, kept, outer⟩ := h.popped found
  obtain ⟨carved, move, words⟩ := rep.carve held rfl whole large split
  have cutGranted := (rep.split held rfl whole large split).2
  obtain ⟨first, second, others⟩ := (v.take T f.off (a + m)).cut_block f.off .held m (a := a)
    (by omega)
  have ends : f.off + a + m = f.off + (a + m) := by omega
  -- the rest is put into its bin, then the front is granted
  obtain ⟨rep', move', same⟩ := carved.insertFree second
    ((words _ (by omega)).1.trans (if_pos rfl))
    (by rw [ends]; exact (words _ (by omega)).2.trans (if_pos rfl))
  have here : (((v.take T f.off (a + m)).cut f.off .held a m).give T (f.off + a) m).block f.off
      = some (.held, a) := by
    have ne : f.off ≠ f.off + a := by omega
    simp only [TlsfView.give, Function.update_of_ne ne]
    exact first
  have behind : ∀ m', v.block (f.off + a + m) ≠ some (.free, m') := fun m' next =>
    h.merged _ (a + m) m' found.block (ends ▸ next)
  obtain ⟨marked, within⟩ := rep'.grant here (by
    have ne : f.off + a ≠ f.off + (a + m) := by omega
    have header := (carved.headerAt second).1
    rw [(same _ header).2, (words _ (by omega)).2, if_neg ne, if_pos rfl])
  have moves := move.trans move'
  rw [TlsfState.allocateAt_split live size split]
  refine ⟨_, congrArg (fun r => (⟨r + f.off + 16, a - 16⟩ : Chunk)) moves.base,
    h.step_front ⟨_, found.block⟩ carved first second ?_ behind
      (marked.congr rfl rfl rfl rfl rfl rfl) moves.base moves.sheets moves.count ?_ ?_ ?_⟩
  · intro y outside
    rw [others y (by omega) (by omega)]
    exact outer y (by omega)
  · rw [before]
    exact congrArg (· + a) moves.bytes
  · rw [TlsfView.put_granted, cutGranted, kept]
    rfl
  · have earlier := moves.within
    rw [cutGranted, kept] at earlier
    rw [moves.granted, cutGranted, kept] at within
    exact earlier.trans (moves.sheets ▸ moves.base ▸ within)

/-- `allocate`, where it is defined, grants a block that holds the request whenever the search
has one to offer.
-/
theorem TlsfInv.allocate (h : TlsfInv limit s v) {c : TlsfState T × Chunk}
    (done : s.allocate n = some c)
    : (∃ v' x take, c.2 = ⟨s.rbase + x + 16, take - 16⟩
        ∧ TlsfState.adjusted T n ≠ 0 ∧ v.Offers T (TlsfState.adjusted T n)
        ∧ TlsfState.adjusted T n ≤ take ∧ take ≤ TlsfState.adjusted T n + 16
        ∧ (∃ m, v.block x = some (.free, m) ∧ take ≤ m
          ∧ v.Preferred T (TlsfState.adjusted T n) m)
        ∧ v.granted x = none
        ∧ TlsfStep limit s c.1 v' v.granted (Function.update v.granted x (some take)))
      ∨ (c = (s, .null)
        ∧ (TlsfState.adjusted T n = 0 ∨ ¬v.Offers T (TlsfState.adjusted T n))) := by
  rw [TlsfState.allocate] at done
  by_cases refused : TlsfState.adjusted T n = 0
  · rw [if_pos refused] at done
    exact Or.inr ⟨(Option.some.inj done).symm, Or.inl refused⟩
  rw [if_neg refused] at done
  obtain ⟨f, search, rfl⟩ := Option.map_eq_some_iff.mp done
  obtain ⟨_, _, whole, _, _, large⟩ := TlsfState.adjusted_pos refused
  rcases h.findFree_answers large whole search with ⟨m, found⟩ | ⟨null, none⟩
  swap
  · exact Or.inr ⟨if_pos null, Or.inr none⟩
  have wholeM := (h.shape found.block).2.1
  have enough := found.enough
  have before : v.granted f.off = Option.none := by
    simp [TlsfView.granted, found.block, grantedSize]
  set adj := TlsfState.adjusted T n
  left
  by_cases split : m - adj ≥ 32
  · obtain ⟨rest, rfl⟩ : ∃ rest, m = adj + rest := ⟨m - adj, by omega⟩
    obtain ⟨v', chunk, step⟩ := h.allocate_split found whole large (by omega)
    exact ⟨v', f.off, adj, chunk, refused, found.offers, Nat.le_refl _, by omega,
      ⟨_, found.block, enough, found.preferred⟩, before, step⟩
  · obtain ⟨v', chunk, step⟩ := h.allocate_whole found split
    exact ⟨v', f.off, m, chunk, refused, found.offers, enough, by omega,
      ⟨m, found.block, Nat.le_refl m, found.preferred⟩, before, step⟩

end Allocating

end Bbmalloc
