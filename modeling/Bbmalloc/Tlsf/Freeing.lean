import Bbmalloc.Tlsf.Allocation

/-! Freeing and resizing in place: the block at hand absorbs its free neighbours and is put
back into a bin, or changes its boundary with the free block behind it.
-/

namespace Bbmalloc

open Bbmalloc.Foundations

-----------------------------------------------------------------------------------------
-- The block at hand
-----------------------------------------------------------------------------------------

/-- An operation that began in `s₀` works on the held block of `n` bytes at `x`; outside
`[lo, x + n)` the partition is still that of `v₀`.
-/
structure TlsfWork {T : TlsfParams} (limit : Nat) (s₀ : TlsfState T) (v₀ : TlsfView)
    (lo x n : Nat) (s : TlsfState T) (v : TlsfView)
    : Prop where
  rep : TlsfRep limit s v
  base : s.rbase = s₀.rbase
  sheets : s.sheets = s₀.sheets
  count : s.count = s₀.count
  within : Memory.Within (TlsfLoose T s₀.rbase s₀.sheets v.granted) s₀.mem s.mem
  hand : v.block x = some (.held, n)
  front : lo ≤ x
  outer : ∀ y, y < lo ∨ x + n ≤ y → v.block y = v₀.block y

section Work

variable {T : TlsfParams} {limit lo x y n m : Nat} {s₀ s s' : TlsfState T} {v₀ v v' : TlsfView}

/-- Moves that keep granted blocks carry the work on. -/
theorem TlsfWork.move {x' n' lo' : Nat} (w : TlsfWork limit s₀ v₀ lo x n s v)
    (rep : TlsfRep limit s' v') (moved : TlsfMove s v s' v')
    (hand : v'.block x' = some (.held, n')) (front : lo' ≤ x')
    (outer : ∀ y, y < lo' ∨ x' + n' ≤ y → v'.block y = v₀.block y)
    : TlsfWork limit s₀ v₀ lo' x' n' s' v' := by
  refine ⟨rep, moved.base.trans w.base, moved.sheets.trans w.sheets, moved.count.trans w.count, ?_,
    hand, front, outer⟩
  have later := moved.within
  rw [w.base, w.sheets, ← moved.granted] at later
  have earlier := w.within
  rw [← moved.granted] at earlier
  exact earlier.trans later

/-- Blocks that are joined to the one at hand. -/
theorem TlsfRep.absorb (h : TlsfRep limit s v) (low : y + m = x)
    (upper : v.block x = some (.held, n)) (lower : v.block y = some (.held, m))
    : TlsfRep limit s (v.join y .held m n)
      ∧ TlsfMove s v s (v.join y .held m n)
      ∧ (v.join y .held m n).block y = some (.held, m + n)
      ∧ ∀ z, z ≠ y → z ≠ x → (v.join y .held m n).block z = v.block z := by
  subst low
  obtain ⟨rep, granted⟩ := h.join lower rfl upper
  have positive := (h.shape lower).2.2
  obtain ⟨whole, _, others⟩ := v.join_block y .held n (a := m) (by omega)
  exact ⟨rep, ⟨rfl, rfl, rfl, rfl, granted, Memory.Within.refl _ _⟩, whole, others⟩

/-- The block behind the one at hand is absorbed if it is free. -/
theorem TlsfWork.absorbNext (h₀ : TlsfInv limit s₀ v₀) (w : TlsfWork limit s₀ v₀ lo x n s v)
    : ∃ v' n', n' = (if s.isFree (x + n) then n + s.bsize (x + n) else n)
      ∧ TlsfWork limit s₀ v₀ lo x n'
          (if s.isFree (x + n) then s.removeFree (x + n) (s.bsize (x + n)) else s) v'
      ∧ (∀ m, v₀.block (x + n') ≠ some (.free, m)) ∧ (∀ y, y < x → v'.block y = v.block y)
      ∧ v'.granted = v.granted ∧ n ≤ n'
      ∧ SameBlocks s
          (if s.isFree (x + n) then s.removeFree (x + n) (s.bsize (x + n)) else s) := by
  have next := w.outer (x + n) (Or.inr (Nat.le_refl _))
  have test := w.rep.isFree_after w.hand (fun k m found => h₀.settled _ k m (next.symm.trans found))
  by_cases free : s.isFree (x + n) = true
  · obtain ⟨m, found⟩ := test.mp free
    have size := (w.rep.read found rfl).1
    simp only [free, if_true, size]
    obtain ⟨rep, move, blocks⟩ := w.rep.removeFree found
    have large := (w.rep.shape w.hand).2.2
    have largeM := (w.rep.shape found).2.2
    have ne : x ≠ x + n := by omega
    have lower : (v.take T (x + n) m).block x = some (.held, n) := by
      simp only [TlsfView.take, Function.update_of_ne ne]
      exact w.hand
    have upper : (v.take T (x + n) m).block (x + n) = some (.held, m) := by
      simp [TlsfView.take]
    obtain ⟨rep', move', whole, others⟩ := rep.absorb rfl upper lower
    have same : ∀ z, z ≠ x → z ≠ x + n →
        ((v.take T (x + n) m).join x .held n m).block z = v.block z := by
      intro z ne ne'
      rw [others z ne ne']
      simp only [TlsfView.take, Function.update_of_ne ne']
    have moved := move.trans move'
    refine ⟨_, n + m, rfl, w.move rep' moved whole w.front ?_, ?_, ?_, moved.granted, by omega,
      blocks⟩
    · intro z outside
      have front := w.front
      rw [same z (by omega) (by omega)]
      exact w.outer z (by omega)
    · intro m' behind
      rw [← Nat.add_assoc] at behind
      exact h₀.merged _ m m' (next.symm.trans found) behind
    · exact fun z before => same z (by omega) (by omega)
  · simp only [free, Bool.false_eq_true, if_false]
    refine ⟨v, n, rfl, w, ?_, fun _ _ => rfl, rfl, Nat.le_refl n, fun _ _ => ⟨rfl, rfl⟩⟩
    intro m found
    exact free (test.mpr ⟨m, next.trans found⟩)

/-- The block before the one at hand is absorbed if it is free. -/
theorem TlsfWork.absorbPrev (h₀ : TlsfInv limit s₀ v₀) (w : TlsfWork limit s₀ v₀ x x n s v)
    : ∃ v' x' n', x' = (if s.isFree (s.prevPhys x) then s.prevPhys x else x)
      ∧ n' = (if s.isFree (s.prevPhys x) then n + s.bsize (s.prevPhys x) else n)
      ∧ TlsfWork limit s₀ v₀ x' x' n'
          (if s.isFree (s.prevPhys x) then s.removeFree (s.prevPhys x) (s.bsize (s.prevPhys x))
            else s) v'
      ∧ (∀ z m, v₀.block z = some (.free, m) → z + m ≠ x') ∧ x' ≤ x ∧ x + n = x' + n'
      ∧ (x' = x ∨ ∃ b, v₀.block x' = some b) ∧ v'.granted = v.granted := by
  have earlier : ∀ z k m, v.block z = some (k, m) → z < x → v₀.block z = some (k, m) :=
    fun z k m found before => (w.outer z (Or.inl before)).symm.trans found
  rcases w.rep.isFree_before w.hand (fun z k m found last => h₀.settled z k m
    (earlier z k m found (by have := (w.rep.shape found).2.2; omega))) with
    ⟨free, m, found, last⟩ | ⟨notFree, none⟩
  · set y := s.prevPhys x with yEq
    have size := (w.rep.read found rfl).1
    simp only [free, if_true, size]
    obtain ⟨rep, move, _⟩ := w.rep.removeFree found
    have large := (w.rep.shape found).2.2
    have ne : x ≠ y := by omega
    have upper : (v.take T y m).block x = some (.held, n) := by
      simp only [TlsfView.take, Function.update_of_ne ne]
      exact w.hand
    have lower : (v.take T y m).block y = some (.held, m) := by
      simp [TlsfView.take]
    obtain ⟨rep', move', whole, others⟩ := rep.absorb last upper lower
    have same : ∀ z, z ≠ y → z ≠ x → ((v.take T y m).join y .held m n).block z = v.block z := by
      intro z ne ne'
      rw [others z ne ne']
      simp only [TlsfView.take, Function.update_of_ne ne]
    have moved := move.trans move'
    refine ⟨_, y, n + m, rfl, rfl, w.move rep' moved (by rw [whole, Nat.add_comm]) (Nat.le_refl y)
      ?_, ?_, by omega, by omega, Or.inr ⟨_, earlier y .free m found (by omega)⟩, moved.granted⟩
    · intro z outside
      have far : z ≠ x := by
        have := (w.rep.shape w.hand).2.2
        omega
      by_cases here : z = y
      · omega
      · rw [same z here far]
        exact w.outer z (by omega)
    · intro z m' free' touch
      have old := earlier y .free m found (by omega)
      rw [← touch] at old
      exact h₀.merged z m' m free' old
  · simp only [notFree, Bool.false_eq_true, if_false]
    refine ⟨v, x, n, rfl, rfl, w, ?_, Nat.le_refl x, rfl, Or.inl rfl, rfl⟩
    intro z m found last
    by_cases before : z < x
    · exact none z m ((w.outer z (Or.inl before)).trans found) last
    · have := (h₀.shape found).2.2
      omega

end Work

-----------------------------------------------------------------------------------------
-- Freeing a block
-----------------------------------------------------------------------------------------

section Freeing

variable {T : TlsfParams} {limit x n m sh : Nat} {s : TlsfState T} {v : TlsfView}

/-- A sheet is empty when one free block fills its data span, and exactly then none of its
blocks is granted.
-/
theorem TlsfInv.sheetEmpty_iff (h : TlsfInv limit s v) (member : sh ∈ s.sheets)
    : (s.sheetEmpty sh = true ↔ v.block (sh + T.dataOff) = some (.free, T.dataBytes))
      ∧ (v.block (sh + T.dataOff) = some (.free, T.dataBytes)
        ↔ ∀ y m, v.granted y = some m → ¬(sh ≤ y ∧ y < sh + T.sheet)) := by
  have parts := T.sheet_parts
  -- a block starts right behind the bitmap
  obtain ⟨c, ⟨k, m⟩, found, lo, hi⟩ := h.tiling.cover (x := sh + T.dataOff)
    ⟨sh, member, Nat.le_refl _, by omega⟩
  obtain ⟨sh', member', lo', hi'⟩ := h.sheet found
  have same := h.fit.apart member member' (x := sh + T.dataOff) (by omega) (by omega) (by omega)
    (by simp only at hi; omega)
  subst same
  have start : c = sh + T.dataOff := by omega
  subst start
  have read := h.read found (h.settled _ _ _ found)
  constructor
  · rw [found]
    simp only [TlsfState.sheetEmpty, Bool.and_eq_true, beq_iff_eq, read.1, read.2,
      Option.some.injEq, Prod.mk.injEq]
  · constructor
    · intro whole y m' granted range
      have block := TlsfView.granted_eq_some.mp granted
      obtain ⟨sh', member', lo', hi'⟩ := h.sheet block
      have large := (h.shape block).2.2
      have same := h.fit.apart member member' (x := y) (by omega) (by omega) (by omega) (by omega)
      subst same
      have same := (h.tiling.unique whole block (x := y) (by omega) (by simp only; omega)
        (Nat.le_refl y) (by simp only; omega)).2
      exact absurd (congrArg Prod.fst same) (by simp)
    · intro none
      have large := (h.shape found).2.2
      have free : k = .free := by
        have settled := h.settled _ _ _ found
        cases k with
        | free => rfl
        | granted =>
            exact (none _ m (TlsfView.granted_eq_some.mpr found) (by omega)).elim
        | held => exact absurd settled (by decide)
        | resized => exact absurd settled (by decide)
      subst free
      by_cases whole : m = T.dataBytes
      · rw [found, whole]
      · -- a second block would be free too, or granted
        obtain ⟨⟨k', m'⟩, found'⟩ := h.tiling.next found
          ⟨sh, member, by simp only; omega, by simp only; omega⟩
        have settled := h.settled _ _ _ found'
        cases k' with
        | free => exact (h.merged _ m m' found found').elim
        | granted =>
            exact (none _ m' (TlsfView.granted_eq_some.mpr found') (by simp only; omega)).elim
        | held => exact absurd settled (by decide)
        | resized => exact absurd settled (by decide)

/-- A granted block is counted. -/
theorem TlsfInv.granted_le (h : TlsfInv limit s v) (known : v.granted x = some n)
    : n ≤ s.allocatedBytes := by
  have sum := h.granted_sum (x := x) ⟨_, TlsfView.granted_eq_some.mp known⟩ none
  rw [known] at sum
  have counter := h.counter
  simp only [Option.elim_none, Option.elim_some, id_eq] at sum
  omega

/-- A free block fills its sheet exactly if the sheet is empty. -/
theorem TlsfInv.filled_iff {y m : Nat} (h : TlsfInv limit s v)
    (found : v.block y = some (.free, m))
    : ∃ sh ∈ s.sheets, sh + T.dataOff ≤ y ∧ y + m ≤ sh + T.dataOff + T.dataBytes
      ∧ (m = T.dataBytes ↔ s.sheetEmpty sh = true) := by
  obtain ⟨sh, member, lo, hi⟩ := h.sheet found
  refine ⟨sh, member, lo, hi, ?_⟩
  rw [(h.sheetEmpty_iff member).1]
  constructor
  · rintro rfl
    have start : y = sh + T.dataOff := by omega
    rw [← start, found]
  · intro whole
    have large := (h.shape found).2.2
    have same := h.tiling.unique found whole (x := y) (Nat.le_refl y) (by simp only; omega)
      (by omega) (by simp only; omega)
    exact congrArg Prod.snd same.2

/-- `deallocate` takes back a granted block; it returns the sheet if that is empty now. -/
theorem TlsfInv.deallocate (h : TlsfInv limit s v) (known : v.granted x = some n)
    : ∃ v', TlsfStep limit s (s.deallocate x).1 v' (Function.update v.granted x none)
        (Function.update v.granted x none)
      ∧ (s.deallocate x).2 = (if (s.deallocate x).1.sheetEmpty (TlsfState.sheetOf T x)
          then TlsfState.sheetOf T x else nullOff) := by
  have block := TlsfView.granted_eq_some.mp known
  obtain ⟨unit, whole, large⟩ := h.shape block
  have size := (h.read block rfl).1
  obtain ⟨rep, _, within⟩ := h.unmark block
  set s₁ : TlsfState T := { s.unmark x with allocatedBytes := s.allocatedBytes - n } with s₁Eq
  have rep₁ : TlsfRep limit s₁ (v.put x (some (.held, n))) := rep.congr rfl rfl rfl rfl rfl rfl
  have kept : (v.put x (some (.held, n))).granted = Function.update v.granted x none :=
    v.put_granted x _
  have w : TlsfWork limit s v x x n s₁ (v.put x (some (.held, n))) := by
    refine ⟨rep₁, rfl, rfl, rfl, kept ▸ within, by simp, Nat.le_refl x, ?_⟩
    intro y outside
    have ne : y ≠ x := by omega
    simp [ne]
  obtain ⟨v₂, n₂, n₂Eq, w₂, behind, _, kept₂, n₂Le, _⟩ := w.absorbNext h
  set s₂ := if s₁.isFree (x + n) then s₁.removeFree (x + n) (s₁.bsize (x + n)) else s₁ with s₂Eq
  obtain ⟨v₃, x₃, n₃, x₃Eq, n₃Eq, w₃, before, le, ends, place, kept₃⟩ := w₂.absorbPrev h
  set s₃ := if s₂.isFree (s₂.prevPhys x)
    then s₂.removeFree (s₂.prevPhys x) (s₂.bsize (s₂.prevPhys x)) else s₂ with s₃Eq
  obtain ⟨rep₄, move₄, words₄⟩ := w₃.rep.release w₃.hand
  have value : s.deallocate x
      = (((s₃.setBsizeFlags x₃ n₃).setPrevPhys (x₃ + n₃) x₃).insertFree x₃ n₃,
        if n₃ = T.dataBytes then TlsfState.sheetOf T x₃ else nullOff) := by
    rw [x₃Eq, n₃Eq, n₂Eq]
    simp only [TlsfState.deallocate, size]
    rfl
  have bytes : s₃.allocatedBytes = s.allocatedBytes - n := by
    have second : s₂.allocatedBytes = s.allocatedBytes - n := by
      rw [s₂Eq]
      split <;> rfl
    rw [s₃Eq]
    split
    · exact second
    · exact second
  have granted : (v₃.give T x₃ n₃).granted = Function.update v.granted x none := by
    rw [TlsfView.give_granted w₃.hand, kept₃, kept₂, kept]
  have hand' : (v₃.give T x₃ n₃).block x₃ = some (.free, n₃) := by simp [TlsfView.give]
  have others' : ∀ y, y ≠ x₃ → (v₃.give T x₃ n₃).block y = v₃.block y := fun y ne => by
    simp [TlsfView.give, ne]
  have start : ∃ b, v.block x₃ = some b := by
    rcases place with same | found
    · exact ⟨_, same ▸ block⟩
    · exact found
  have step : TlsfStep limit s (s.deallocate x).1 (v₃.give T x₃ n₃)
      (Function.update v.granted x none) (Function.update v.granted x none) := by
    rw [value]
    refine h.step x₃ (x₃ + n₃) ⟨_, block⟩ start rep₄ (move₄.base.trans w₃.base)
      (move₄.sheets.trans w₃.sheets) (move₄.count.trans w₃.count) ?_ granted ?_ ?_ ?_
    · rw [known, move₄.bytes.trans bytes]
      have := h.granted_le known
      simp only [Option.elim_some, Option.elim_none, id_eq]
      omega
    · have first := w₃.within
      have second := move₄.within
      rw [kept₃, kept₂, kept] at first
      rw [w₃.base, w₃.sheets, kept₃, kept₂, kept] at second
      exact first.trans second
    · intro y outside
      have large₃ := (w₃.rep.shape w₃.hand).2.2
      have ne : y ≠ x₃ := by omega
      rw [others' y ne]
      exact w₃.outer y outside
    · intro y k a lo hi found
      by_cases same : y = x₃
      · subst same
        obtain ⟨rfl, rfl⟩ := by simpa [hand'] using found
        refine Or.inr ⟨rfl, rfl, ?_, fun _ => before⟩
        rw [← ends]
        exact behind
      · rw [others' y same, w₃.rep.tiling.none_inside w₃.hand (by omega) hi] at found
        simp at found
  refine ⟨_, step, ?_⟩
  obtain ⟨sh, member, lo, hi, full⟩ := step.inv.filled_iff hand'
  have parts := T.sheet_parts
  rw [step.sheets] at member
  have dvd := h.fit.dvd sh member
  have large₃ := (w₃.rep.shape w₃.hand).2.2
  have here := (sheetOf_eq (x := x) dvd (by omega) (by omega)).1
  have here₃ := (sheetOf_eq (x := x₃) dvd (by omega) (by omega)).1
  have sheet : (s.deallocate x).2 = if n₃ = T.dataBytes then TlsfState.sheetOf T x₃ else nullOff :=
    congrArg Prod.snd value
  rw [sheet, here, here₃]
  simp only [full]

end Freeing

end Bbmalloc
