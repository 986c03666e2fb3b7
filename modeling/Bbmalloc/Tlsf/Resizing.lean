import Bbmalloc.Tlsf.Freeing

/-! Resizing a granted block in place: giving up its end, or taking over the start of the
free block behind it.
-/

namespace Bbmalloc

open Bbmalloc.Foundations

section Resizing

variable {T : TlsfParams} {limit x n m r : Nat} {s : TlsfState T} {v : TlsfView}

/-- The payload of a granted block is its size without the header. -/
theorem TlsfInv.payload (h : TlsfInv limit s v) (known : v.granted x = some n)
    : s.payload x = n - 16 := by
  rw [TlsfState.payload, (h.read (TlsfView.granted_eq_some.mp known) rfl).1]
  rfl

/-- A granted block has a whole size and lies in the data span of a sheet. -/
theorem TlsfInv.granted_block (h : TlsfInv limit s v) (known : v.granted x = some n)
    : 16 ∣ x ∧ 16 ∣ n ∧ 32 ≤ n ∧ x + n + 16 ≤ limit
      ∧ ∃ sh ∈ s.sheets, sh + T.dataOff ≤ x ∧ x + n ≤ sh + T.dataOff + T.dataBytes := by
  have block := TlsfView.granted_eq_some.mp known
  obtain ⟨unit, whole, large⟩ := h.shape block
  exact ⟨unit, whole, large, ((h.headerAt block).2.1.lt h.fit).1, h.sheet block⟩

/-- No step at all. -/
theorem TlsfInv.same (h : TlsfInv limit s v) (known : v.granted x = some n)
    (kept : Nat → Option Nat)
    : TlsfStep limit s s v kept (Function.update v.granted x (some n)) :=
  ⟨h, rfl, rfl, by rw [← known, Function.update_eq_self], Memory.Within.refl _ _⟩

/-- The size a granted block of `n` bytes is shrunk to. -/
def shrunkSize (T : TlsfParams) (n r : Nat) : Nat :=
  let adj := TlsfState.adjusted T r
  if adj ≠ 0 ∧ adj + 32 ≤ n then adj else n

/-- The list after `shrink` stored the headers of a block that keeps `a` of its `n` bytes. -/
def TlsfState.cutBack (s : TlsfState T) (x n a : Nat) : TlsfState T :=
  { (s.setPrevPhys (x + a) x).setBsizeFlags x (a ||| tlsfAlloc) with
    allocatedBytes := s.allocatedBytes - (n - a) }

/-- The list after the block behind `x + n` was taken out of its bin if it is free. -/
def TlsfState.absorbed (s : TlsfState T) (z : Nat) : TlsfState T :=
  if s.isFree z then s.removeFree z (s.bsize z) else s

/-- What `shrink` computes when the end of the block makes a block of its own. -/
theorem TlsfState.shrink_cut (refused : adjusted T r ≠ 0) (size : s.bsize x = n)
    (cut : adjusted T r + 32 ≤ n)
    : s.shrink x r
      = let a := adjusted T r
        let open_ := s.cutBack x n a
        let rest := if open_.isFree (x + n) then n - a + open_.bsize (x + n) else n - a
        ((((open_.absorbed (x + n)).setBsizeFlags (x + a) rest).setPrevPhys (x + a + rest)
          (x + a)).insertFree (x + a) rest, true) := by
  have notLarge : ¬adjusted T r > n := by omega
  have notSmall : ¬n - adjusted T r < TlsfShape.minBlock := by
    change ¬n - adjusted T r < 32
    omega
  simp only [shrink, refused, size, notLarge, notSmall, if_false]
  rfl

/-- The block is opened and cut, and the headers of both parts are stored but for the rest's. -/
theorem TlsfInv.cutBack (h : TlsfInv limit s v) (known : v.granted x = some n) {a : Nat}
    (whole : 16 ∣ a) (low : 32 ≤ a) (cut : a + 32 ≤ n)
    : ∃ w, TlsfWork limit s v x (x + a) (n - a) (s.cutBack x n a) w
      ∧ w.block x = some (.resized, a) ∧ w.granted = Function.update v.granted x none
      ∧ (s.cutBack x n a).bsizeFlags x = a ||| tlsfAlloc ∧ (s.cutBack x n a).prevPhys (x + a) = x
      ∧ (s.cutBack x n a).isFree (x + n) = s.isFree (x + n)
      ∧ (s.cutBack x n a).bsize (x + n) = s.bsize (x + n) := by
  have block := TlsfView.granted_eq_some.mp known
  obtain ⟨unit, wholeN, _⟩ := h.shape block
  have ends := (h.granted_block known).2.2.2.1
  have limit_le := h.fit.limit_le
  have word : u32 = 4294967296 := rfl
  have wordA := TlsfState.size_word whole
  have sum : a + (n - a) = n := by omega
  have kept : (v.put x (some (.resized, n))).granted = Function.update v.granted x none :=
    v.put_granted x _
  obtain ⟨rep, granted⟩ := (h.unsettle block).split (x := x) (k := .resized) (a := a) (b := n - a)
    (by rw [sum]; simp) rfl whole low (by omega)
  obtain ⟨first, second, rest⟩ :=
    (v.put x (some (.resized, n))).cut_block x .resized (n - a) (a := a) (by omega)
  obtain ⟨rep1, move1⟩ := rep.setPrevPhys first rfl (y := x + a) (by omega) (by omega)
    (Nat.le_refl _) (show x < u32 by omega)
  obtain ⟨rep2, move2⟩ := rep1.setBsizeFlags first rfl unit (Nat.le_refl x) (by omega)
    (show a ||| tlsfAlloc < u32 by omega)
  have words1 := fun {y : Nat} (hy : 16 ∣ y) =>
    TlsfState.setPrevPhys_words (s := s) (a := x + a) (v := x) (by omega) hy (by omega)
  have words2 := fun {y : Nat} (hy : 16 ∣ y) =>
    TlsfState.setBsizeFlags_words (s := s.setPrevPhys (x + a) x) (v := a ||| tlsfAlloc) unit hy
      (by omega)
  have next : (s.cutBack x n a).bsizeFlags (x + n) = s.bsizeFlags (x + n) := by
    have unitN : 16 ∣ x + n := by omega
    have ne : x + n ≠ x := by omega
    refine (words2 unitN).1.trans ?_
    rw [if_neg ne]
    exact (words1 unitN).1
  have moves := move1.trans move2
  refine ⟨_, ⟨rep2.congr rfl rfl rfl rfl rfl rfl, moves.base, moves.sheets, moves.count,
    moves.within, second, by omega, fun y outside => ?_⟩, first, granted.trans kept,
    (words2 unit).1.trans (if_pos rfl), ?_, ?_, ?_⟩
  · have ne : y ≠ x := by omega
    rw [rest y ne (by omega)]
    simp [ne]
  · have unitA : 16 ∣ x + a := by omega
    exact (words2 unitA).2.1.trans ((words1 unitA).2.1.trans (if_pos rfl))
  · rw [TlsfState.isFree, next, TlsfState.isFree]
  · rw [TlsfState.bsize, next, TlsfState.bsize]

/-- `shrink` gives up the end of a granted block, joined with a free block behind it. -/
theorem TlsfInv.shrink_split (h : TlsfInv limit s v) (known : v.granted x = some n)
    (refused : TlsfState.adjusted T r ≠ 0) (cut : TlsfState.adjusted T r + 32 ≤ n)
    : ∃ v', TlsfStep limit s (s.shrink x r).1 v' (Function.update v.granted x none)
        (Function.update v.granted x (some (TlsfState.adjusted T r)))
      ∧ v'.block (x + TlsfState.adjusted T r)
        = some (.free, n - TlsfState.adjusted T r
          + if s.isFree (x + n) then s.bsize (x + n) else 0) := by
  have block := TlsfView.granted_eq_some.mp known
  have unit := (h.shape block).1
  have size := (h.read block rfl).1
  have counted := h.granted_le known
  obtain ⟨_, _, whole, _, _, low⟩ := TlsfState.adjusted_pos refused
  rw [TlsfState.shrink_cut refused size cut]
  set adj := TlsfState.adjusted T r
  obtain ⟨w, work, opened, granted, header, back, free, bytes⟩ := h.cutBack known whole low cut
  obtain ⟨v₂, rest, restEq, work₂, behind, lower, granted₂, more, blocks⟩ := work.absorbNext h
  have nextEq : x + adj + (n - adj) = x + n := by omega
  rw [nextEq] at restEq work₂ blocks
  simp only [← restEq]
  obtain ⟨rep, move, words⟩ := work₂.rep.release work₂.hand
  have ne : x ≠ x + adj := by omega
  have front : v₂.block x = some (.resized, adj) := (lower x (by omega)).trans opened
  have here := (work.rep.headerAt opened).1
  have edge := (work.rep.headerAt opened).2.1
  have settled := rep.settle (x := x) (n := adj)
    (by
      simp only [TlsfView.give, Function.update_of_ne ne]
      exact front)
    (by
      rw [(words x (work₂.sheets ▸ work.sheets ▸ here)).1, if_neg ne]
      exact (blocks x here).1.trans header)
    (by
      have ne' : x + adj ≠ x + adj + rest := by omega
      rw [(words _ (work₂.sheets ▸ work.sheets ▸ edge)).2, if_neg ne']
      exact (blocks _ edge).2.trans back)
  refine ⟨_, h.step_front ⟨_, block⟩ work₂.rep front work₂.hand work₂.outer behind settled
    (move.base.trans work₂.base) (move.sheets.trans work₂.sheets) (move.count.trans work₂.count)
    ?_ ?_ ?_, ?_⟩
  · have absorbed : ((s.cutBack x n adj).absorbed (x + n)).allocatedBytes
        = s.allocatedBytes - (n - adj) := by
      rw [TlsfState.absorbed]
      split <;> rfl
    have total : s.allocatedBytes - (n - adj) + n = s.allocatedBytes + adj := by omega
    rw [known]
    exact (congrArg (· + n) (move.bytes.trans absorbed)).trans total
  · rw [TlsfView.put_granted, granted₂, granted, Function.update_idem]
    rfl
  · have first := work₂.within
    have second := move.within
    rw [granted₂, granted] at first
    rw [work₂.base, work₂.sheets, granted₂, granted] at second
    exact first.trans second
  · rw [TlsfView.put_block, Function.update_of_ne (Ne.symm ne)]
    simp only [TlsfView.give, Function.update_self, restEq, free, bytes]
    split <;> simp

/-- `shrink` gives up the end of a granted block when that makes a block of its own. -/
theorem TlsfInv.shrink (h : TlsfInv limit s v) (known : v.granted x = some n) (r : Nat)
    : ∃ v', TlsfStep limit s (s.shrink x r).1 v' (Function.update v.granted x none)
        (Function.update v.granted x (some (shrunkSize T n r)))
      ∧ (s.shrink x r).2
        = decide (TlsfState.adjusted T r ≠ 0 ∧ TlsfState.adjusted T r ≤ n)
      ∧ (TlsfState.adjusted T r ≠ 0 → TlsfState.adjusted T r + 32 ≤ n →
        v'.block (x + TlsfState.adjusted T r)
          = some (.free, n - TlsfState.adjusted T r
            + if s.isFree (x + n) then s.bsize (x + n) else 0)) := by
  have size := (h.read (TlsfView.granted_eq_some.mp known) rfl).1
  by_cases cut : TlsfState.adjusted T r ≠ 0 ∧ TlsfState.adjusted T r + 32 ≤ n
  · obtain ⟨v', step, rest⟩ := h.shrink_split known cut.1 cut.2
    have chosen : shrunkSize T n r = TlsfState.adjusted T r := if_pos cut
    have le : TlsfState.adjusted T r ≤ n := by omega
    refine ⟨v', chosen ▸ step, ?_, fun _ _ => rest⟩
    simp [TlsfState.shrink_cut cut.1 size cut.2, cut.1, le]
  · -- the block stays as it is
    have chosen : shrunkSize T n r = n := if_neg cut
    have kept : s.shrink x r
        = (s, decide (TlsfState.adjusted T r ≠ 0 ∧ TlsfState.adjusted T r ≤ n)) := by
      by_cases refused : TlsfState.adjusted T r = 0
      · simp [TlsfState.shrink, refused]
      by_cases large : TlsfState.adjusted T r > n
      · have le : ¬TlsfState.adjusted T r ≤ n := by omega
        simp [TlsfState.shrink, refused, size, large, le]
      · have le : TlsfState.adjusted T r ≤ n := by omega
        have small : n - TlsfState.adjusted T r < 32 := by omega
        simp [TlsfState.shrink, refused, size, large, le, small, TlsfShape.minBlock]
    rw [kept, chosen]
    exact ⟨v, h.same known _, rfl, fun live le => absurd ⟨live, le⟩ cut⟩

/-- The granted block at `x` is opened and takes over the free block behind it. -/
theorem TlsfInv.takeOver (h : TlsfInv limit s v) (known : v.granted x = some n)
    (next : v.block (x + n) = some (.free, m))
    : ∃ v', TlsfRep limit (s.removeFree (x + n) m) v'
      ∧ TlsfMove s (v.put x (some (.resized, n))) (s.removeFree (x + n) m) v'
      ∧ v'.granted = Function.update v.granted x none ∧ v'.block x = some (.resized, n + m)
      ∧ ∀ y, y < x ∨ x + (n + m) ≤ y → v'.block y = v.block y := by
  have block := TlsfView.granted_eq_some.mp known
  have large := (h.shape block).2.2
  have largeM := (h.shape next).2.2
  have ne : x + n ≠ x := by omega
  have opened := h.unsettle block
  have kept : (v.put x (some (.resized, n))).granted = Function.update v.granted x none :=
    v.put_granted x _
  obtain ⟨rep, move, _⟩ := opened.removeFree (x := x + n) (n := m) (by
    simp only [TlsfView.put_block, Function.update_of_ne ne]
    exact next)
  obtain ⟨rep', joined⟩ := rep.join (x := x) (k := .resized) (a := n) (b := m)
    (by simp [TlsfView.take, Function.update_of_ne (Ne.symm ne)]) rfl (by simp [TlsfView.take])
  obtain ⟨whole, _, others⟩ := ((v.put x (some (.resized, n))).take T (x + n) m).join_block x
    .resized m (a := n) (by omega)
  refine ⟨_, rep', ⟨move.base, move.sheets, move.count, move.bytes, joined.trans move.granted,
    move.within⟩, (joined.trans move.granted).trans kept, whole, ?_⟩
  intro y outside
  have ne₁ : y ≠ x := by omega
  have ne₂ : y ≠ x + n := by omega
  rw [others y ne₁ ne₂]
  simp [TlsfView.take, ne₁, ne₂]

/-- What `grow` computes once the free block of `m` bytes behind the block suffices. -/
theorem TlsfState.grow_taken {rest : Nat} (refused : adjusted T r ≠ 0) (size : s.bsize x = n)
    (more : n < adjusted T r) (free : s.isFree (x + n) = true) (next : s.bsize (x + n) = m)
    (sum : n + m = adjusted T r + rest)
    : s.grow x r
      = let a := adjusted T r
        let taken := s.removeFree (x + n) m
        if rest ≥ 32 then
          let stored := (taken.carve x a rest).setBsizeFlags x (a ||| tlsfAlloc)
          (({ stored with allocatedBytes := s.allocatedBytes + (a - n) } : TlsfState T).insertFree
            (x + a) rest, true)
        else
          let stored := (taken.setPrevPhys (x + (n + m)) x).setBsizeFlags x ((n + m) ||| tlsfAlloc)
          ({ stored with allocatedBytes := s.allocatedBytes + (n + m - n) }, true) := by
  have enough : ¬adjusted T r ≤ n := by omega
  have short : ¬n + m < adjusted T r := by omega
  have left : n + m - adjusted T r = rest := by omega
  simp only [grow, refused, size, enough, free, next, short, left, if_false, Bool.not_true,
    Bool.false_eq_true, TlsfShape.minBlock]
  split
  · simp only [carve, ← sum]
    rfl
  · rfl

/-- `grow` takes the start of the free block behind a granted one, and the rest stays free. -/
theorem TlsfInv.grow_split {rest : Nat} (h : TlsfInv limit s v) (known : v.granted x = some n)
    (next : v.block (x + n) = some (.free, m)) (refused : TlsfState.adjusted T r ≠ 0)
    (more : n < TlsfState.adjusted T r) (sum : n + m = TlsfState.adjusted T r + rest)
    (split : 32 ≤ rest)
    : ∃ v', TlsfStep limit s (s.grow x r).1 v' (Function.update v.granted x none)
        (Function.update v.granted x (some (TlsfState.adjusted T r)))
      ∧ (s.grow x r).2 = true := by
  have block := TlsfView.granted_eq_some.mp known
  obtain ⟨unit, whole, large⟩ := h.shape block
  obtain ⟨sizeM, free⟩ := h.read next rfl
  obtain ⟨_, _, wholeA, _, _, largeA⟩ := TlsfState.adjusted_pos refused
  rw [TlsfState.grow_taken refused (h.read block rfl).1 more (free.mpr rfl) sizeM sum]
  simp only [ge_iff_le, if_pos split]
  obtain ⟨v₁, rep₁, move₁, granted₁, span, outer₁⟩ := h.takeOver known next
  set adj := TlsfState.adjusted T r
  have wordA := TlsfState.size_word wholeA
  have limit_le := h.fit.limit_le
  have last := ((h.headerAt next).2.1.lt h.fit).1
  have word : u32 = 4294967296 := rfl
  rw [sum] at span
  obtain ⟨carved, move₂, words₂⟩ := rep₁.carve span rfl wholeA largeA split
  have cutGranted := (rep₁.split span rfl wholeA largeA split).2
  obtain ⟨first, second, others⟩ := v₁.cut_block x .resized rest (a := adj) (by omega)
  obtain ⟨rep₃, move₃⟩ := carved.setBsizeFlags first rfl unit (Nat.le_refl x) (by omega)
    (show adj ||| tlsfAlloc < u32 by omega)
  have words₃ := fun {y : Nat} (hy : 16 ∣ y) => TlsfState.setBsizeFlags_words
    (s := (s.removeFree (x + n) m).carve x adj rest) (v := adj ||| tlsfAlloc) unit hy (by omega)
  have ne : x ≠ x + adj := by omega
  have unitR : 16 ∣ x + adj := by omega
  have unitE : 16 ∣ x + (adj + rest) := by
    have := (h.shape next).2.1
    omega
  have ends : x + adj + rest = x + (adj + rest) := Nat.add_assoc x adj rest
  set stored : TlsfState T :=
    { ((s.removeFree (x + n) m).carve x adj rest).setBsizeFlags x (adj ||| tlsfAlloc) with
      allocatedBytes := s.allocatedBytes + (adj - n) } with storedEq
  obtain ⟨rep₄, move₄, same⟩ := (rep₃.congr (t := stored) rfl rfl rfl rfl rfl rfl).insertFree second
    ((words₃ unitR).1.trans (by rw [if_neg (Ne.symm ne), (words₂ _ unitR).1, if_pos rfl]))
    (by rw [ends]; exact (words₃ unitE).2.1.trans ((words₂ _ unitE).2.trans (if_pos rfl)))
  have settled := rep₄.settle (x := x) (n := adj)
    (by
      simp only [TlsfView.give, Function.update_of_ne ne]
      exact first)
    ((same x (carved.headerAt first).1).1.trans ((words₃ unit).1.trans (if_pos rfl)))
    (by
      have ne' : x + adj ≠ x + (adj + rest) := by omega
      rw [(same _ (carved.headerAt first).2.1).2]
      refine (words₃ unitR).2.1.trans ?_
      rw [(words₂ _ unitR).2, if_neg ne', if_pos rfl])
  have moves := move₂.trans move₃
  have behind : ∀ m', v.block (x + adj + rest) ≠ some (.free, m') := by
    intro m' found
    refine h.merged _ m m' next ?_
    rwa [Nat.add_assoc, sum, ← ends]
  refine ⟨_, h.step_front ⟨_, block⟩ carved first second (fun y outside => ?_) behind settled
    ((move₄.base.trans moves.base).trans move₁.base)
    ((move₄.sheets.trans moves.sheets).trans move₁.sheets)
    ((move₄.count.trans moves.count).trans move₁.count) ?_ ?_ ?_, trivial⟩
  · rw [others y (by omega) (by omega)]
    exact outer₁ y (by omega)
  · rw [known, move₄.bytes]
    simp only [Option.elim_some, id_eq, storedEq]
    omega
  · rw [TlsfView.put_granted, cutGranted, granted₁, Function.update_idem]
    rfl
  · have zeroth := move₁.within
    have first := moves.within
    have second := move₄.within
    rw [v.put_granted x (some (.resized, n))] at zeroth
    rw [move₁.base, move₁.sheets, cutGranted, granted₁] at first
    rw [show stored.rbase = s.rbase from moves.base.trans move₁.base,
      show stored.sheets = s.sheets from moves.sheets.trans move₁.sheets, cutGranted,
      granted₁] at second
    exact (zeroth.trans first).trans second

/-- `grow` takes over the whole free block behind a granted one. -/
theorem TlsfInv.grow_whole {rest : Nat} (h : TlsfInv limit s v) (known : v.granted x = some n)
    (next : v.block (x + n) = some (.free, m)) (refused : TlsfState.adjusted T r ≠ 0)
    (more : n < TlsfState.adjusted T r) (sum : n + m = TlsfState.adjusted T r + rest)
    (close : ¬32 ≤ rest)
    : ∃ v', TlsfStep limit s (s.grow x r).1 v' (Function.update v.granted x none)
        (Function.update v.granted x (some (n + m)))
      ∧ (s.grow x r).2 = true := by
  have block := TlsfView.granted_eq_some.mp known
  obtain ⟨unit, whole, large⟩ := h.shape block
  obtain ⟨sizeM, free⟩ := h.read next rfl
  rw [TlsfState.grow_taken refused (h.read block rfl).1 more (free.mpr rfl) sizeM sum]
  simp only [ge_iff_le, if_neg close]
  obtain ⟨v₁, rep₁, move₁, granted₁, span, outer₁⟩ := h.takeOver known next
  have wholeM := (h.shape next).2.1
  have last := ((h.headerAt next).2.1.lt h.fit).1
  have limit_le := h.fit.limit_le
  have word : u32 = 4294967296 := rfl
  have wordSpan := TlsfState.size_word (show 16 ∣ n + m by omega)
  have unitE : 16 ∣ x + (n + m) := by omega
  obtain ⟨rep₂, move₂⟩ := rep₁.setPrevPhys span rfl unitE (by omega) (Nat.le_refl _)
    (show x < u32 by omega)
  obtain ⟨rep₃, move₃⟩ := rep₂.setBsizeFlags span rfl unit (Nat.le_refl x) (by omega)
    (show (n + m) ||| tlsfAlloc < u32 by omega)
  have words₂ := TlsfState.setPrevPhys_words (s := s.removeFree (x + n) m) (v := x) unitE unitE
    (by omega)
  have words₃ := fun {y : Nat} (hy : 16 ∣ y) => TlsfState.setBsizeFlags_words
    (s := (s.removeFree (x + n) m).setPrevPhys (x + (n + m)) x) (v := (n + m) ||| tlsfAlloc) unit
    hy (by omega)
  have settled := rep₃.settle span ((words₃ unit).1.trans (if_pos rfl))
    ((words₃ unitE).2.1.trans (words₂.2.1.trans (if_pos rfl)))
  have moves := move₂.trans move₃
  refine ⟨_, h.step_whole ⟨_, block⟩ rep₁ span outer₁ (settled.congr rfl rfl rfl rfl rfl rfl)
    (moves.base.trans move₁.base) (moves.sheets.trans move₁.sheets)
    (moves.count.trans move₁.count) ?_ ?_ ?_, trivial⟩
  · rw [known]
    simp only [Option.elim_some, id_eq]
    omega
  · rw [TlsfView.put_granted, granted₁, Function.update_idem]
    rfl
  · have first := move₁.within
    have second := moves.within
    rw [v.put_granted x (some (.resized, n))] at first
    rw [move₁.base, move₁.sheets, granted₁] at second
    exact first.trans second

/-- `grow` does nothing when the block is large enough as it is, or when it cannot become so. -/
theorem TlsfState.grow_kept (size : s.bsize x = n)
    (kept : adjusted T r = 0 ∨ adjusted T r ≤ n
      ∨ ¬(s.isFree (x + n) = true ∧ adjusted T r ≤ n + s.bsize (x + n)))
    : s.grow x r = (s, decide (adjusted T r ≠ 0 ∧ adjusted T r ≤ n)) := by
  by_cases refused : adjusted T r = 0
  · simp [grow, refused]
  by_cases enough : adjusted T r ≤ n
  · simp [grow, refused, size, enough]
  have blocked := (kept.resolve_left refused).resolve_left enough
  by_cases free : s.isFree (x + n) = true
  · have short : n + s.bsize (x + n) < adjusted T r := by
      by_contra fits
      exact blocked ⟨free, by omega⟩
    simp [grow, refused, size, enough, free, short]
  · simp [grow, refused, size, enough, free]

/-- `grow` takes over the start of the free block behind a granted one, if that suffices. -/
theorem TlsfInv.grow (h : TlsfInv limit s v) (known : v.granted x = some n) (r : Nat)
    : ∃ v' n', TlsfStep limit s (s.grow x r).1 v' (Function.update v.granted x none)
        (Function.update v.granted x (some n'))
      ∧ n ≤ n'
      ∧ ((s.grow x r).2 = true → TlsfState.adjusted T r ≠ 0 ∧ TlsfState.adjusted T r ≤ n'
        ∧ (n' = n ∨ n' ≤ TlsfState.adjusted T r + 16))
      ∧ ((s.grow x r).2 = false → (s.grow x r).1 = s ∧ n' = n)
      ∧ ((s.grow x r).2 = true ↔ TlsfState.adjusted T r ≠ 0
        ∧ (TlsfState.adjusted T r ≤ n ∨ (s.isFree (x + n) = true
          ∧ TlsfState.adjusted T r ≤ n + s.bsize (x + n))))
      ∧ (n < TlsfState.adjusted T r → (s.grow x r).2 = true →
        n' = shrunkSize T (n + s.bsize (x + n)) r) := by
  have block := TlsfView.granted_eq_some.mp known
  have size := (h.read block rfl).1
  by_cases kept : TlsfState.adjusted T r = 0 ∨ TlsfState.adjusted T r ≤ n
      ∨ ¬(s.isFree (x + n) = true ∧ TlsfState.adjusted T r ≤ n + s.bsize (x + n))
  · rw [TlsfState.grow_kept size kept]
    refine ⟨v, n, h.same known _, Nat.le_refl n, ?_, fun _ => ⟨rfl, rfl⟩, ?_, ?_⟩
    · intro accepted
      have fits := of_decide_eq_true accepted
      exact ⟨fits.1, fits.2, Or.inl rfl⟩
    · simp only [decide_eq_true_eq]
      refine and_congr_right (fun refused => ⟨Or.inl, fun fits => ?_⟩)
      rcases kept with zero | enough | blocked
      · exact absurd zero refused
      · exact enough
      · exact fits.resolve_right blocked
    · intro more accepted
      have fits := of_decide_eq_true accepted
      omega
  simp only [not_or, not_not] at kept
  obtain ⟨refused, more, free, fits⟩ := kept
  obtain ⟨m, next⟩ := (h.isFree_after block (fun k m found => h.settled _ k m found)).mp free
  have sizeM := (h.read next rfl).1
  have whole := (h.shape block).2.1
  have wholeM := (h.shape next).2.1
  have wholeA := (TlsfState.adjusted_pos refused).2.2.1
  obtain ⟨rest, sum⟩ : ∃ rest, n + m = TlsfState.adjusted T r + rest := by
    rw [sizeM] at fits
    exact ⟨_, (Nat.add_sub_cancel' fits).symm⟩
  by_cases split : 32 ≤ rest
  · obtain ⟨v', step, grown⟩ := h.grow_split known next refused (by omega) sum split
    refine ⟨v', _, step, by omega, fun _ => ⟨refused, Nat.le_refl _, Or.inr (by omega)⟩, ?_, ?_,
      fun _ _ => ?_⟩
    · simp [grown]
    · simp [grown, refused, free, fits]
    · rw [sizeM, sum]
      exact (if_pos ⟨refused, by omega⟩).symm
  · obtain ⟨v', step, grown⟩ := h.grow_whole known next refused (by omega) sum split
    refine ⟨v', _, step, by omega, fun _ => ⟨refused, by omega, Or.inr (by omega)⟩, ?_, ?_,
      fun _ _ => ?_⟩
    · simp [grown]
    · simp [grown, refused, free, fits]
    · rw [sizeM]
      exact (if_neg (fun cut => split (by omega))).symm

end Resizing

end Bbmalloc
