import Bbmalloc.Malloc.Resizing

/-! The redzone behind a block: a call that hands a block out leaves the pattern directly
behind the length it reports, and nothing the call does afterwards touches it.
-/

namespace Bbmalloc

open Bbmalloc.Foundations

-----------------------------------------------------------------------------------------
-- Fences
-----------------------------------------------------------------------------------------

/-- The redzone behind the `len` usable bytes of the block at `p` holds the pattern. -/
def HeapState.Fenced {C : Config} (s : HeapState C) (p len : Nat) : Prop :=
  ∀ i < C.rz, (s.mem (p + len + i)).byte = HeapState.redzoneByte

/-- A block that a call returns has an intact redzone. -/
def HeapState.Fences {C : Config} (c : HeapState C × Exit Chunk) : Prop :=
  ∀ d, c.2 = .returned d → d.ptr ≠ 0 → c.1.Fenced d.ptr d.len

section Fences

variable {C : Config} {s t : HeapState C} {c : HeapState C × Chunk} {p n len : Nat}

/-- `verify_redzone` compares every byte of the redzone with the pattern. -/
theorem HeapState.verifyRedzone_iff (s : HeapState C) (p len : Nat)
    : s.verifyRedzone p len = true ↔ s.Fenced p len := by
  by_cases redzone : C.redzone = true
  · simp only [verifyRedzone, redzone, if_true, List.all_eq_true, List.mem_range, beq_iff_eq,
      Fenced]
  · have none : C.rz = 0 := if_neg redzone
    simp only [verifyRedzone, redzone, Bool.false_eq_true, if_false, Fenced, none]
    exact ⟨fun _ i less => absurd less (Nat.not_lt_zero i), fun _ => trivial⟩

/-- A fence depends on the bytes of the redzone only. -/
theorem HeapState.Fenced.congr (fenced : s.Fenced p len)
    (same : ∀ a, p + len ≤ a → a < p + len + C.rz → t.mem a = s.mem a)
    : t.Fenced p len := by
  intro i less
  rw [same (p + len + i) (by omega) (by omega)]
  exact fenced i less

/-- Writes inside the usable bytes leave the fence intact. -/
theorem HeapState.Fenced.written (fenced : s.Fenced p len) (written : Written p len s t)
    : t.Fenced p len :=
  fenced.congr (fun _ lo _ => written.outside (Or.inr lo))

/-- `write_redzone` puts the fence up. -/
theorem HeapState.writeRedzone_fenced (s : HeapState C) (p len : Nat)
    : (s.writeRedzone p len).Fenced p len := by
  intro i less
  have redzone : C.redzone = true := by
    by_contra off
    rw [Config.rz, if_neg off] at less
    omega
  rw [writeRedzone, if_pos redzone]
  exact Memory.fill_inside _ _ (by omega) (by omega)

/-- Statistics are not memory. -/
theorem HeapState.Fenced.collect (fenced : s.Fenced p len) (k : StatType) (n : Nat)
    : (s.collect k n).Fenced p len :=
  fenced

/-- `__finish` fences the block it hands out. -/
theorem HeapState.finish_fenced (s : HeapState C) (notNull : c.2.ptr ≠ 0) (requested : Nat)
    : (s.finish c.2 requested).1.Fenced (s.finish c.2 requested).2.ptr
        (s.finish c.2 requested).2.len := by
  have fenced := s.writeRedzone_fenced c.2.ptr (c.2.len - C.rz)
  have zeroed := fenced.written
    ((s.writeRedzone c.2.ptr (c.2.len - C.rz)).zeroOnAlloc_written le_rfl le_rfl)
  simp only [finish, if_neg notNull]
  exact zeroed

end Fences

-----------------------------------------------------------------------------------------
-- Allocation
-----------------------------------------------------------------------------------------

section Allocation

variable {C : Config}

/-- A call that returns no block fences nothing. -/
theorem HeapState.Fences.of_null {c : HeapState C × Exit Chunk}
    (result : c.2 = .returned .null ∨ c.2 = .halted ∨ c.2 = .threw)
    : Fences c := by
  intro d returned notNull
  rcases result with null | halted | threw
  · rw [null] at returned
    cases returned
    exact absurd rfl notNull
  · rw [halted] at returned
    cases returned
  · rw [threw] at returned
    cases returned

/-- A failed allocation returns no block. -/
theorem HeapState.fail_fences (s : HeapState C) (n : Nat) : Fences (s.fail n) := by
  rw [s.fail_failure]
  exact .of_null C.failure_cases

theorem HeapState.conclude_fences (c : HeapState C × Chunk) (size : Nat)
    : Fences (conclude c size) := by
  rw [conclude]
  split
  · exact c.1.fail_fences size
  · next notNull =>
      intro d returned _
      cases returned
      exact c.1.finish_fenced notNull size

theorem HeapState.balloc_fences (s : HeapState C) (size : Nat) : Fences (s.balloc size) := by
  rw [balloc]
  split
  · exact .of_null (Or.inl rfl)
  · split
    · exact s.fail_fences size
    · exact conclude_fences _ size

theorem HeapState.alignedBalloc_fences (s : HeapState C) (a size : Nat)
    : Fences (s.alignedBalloc a size) := by
  rw [alignedBalloc]
  split
  · exact .of_null (Or.inl rfl)
  · split
    · exact s.balloc_fences size
    · split
      · exact s.fail_fences size
      · exact conclude_fences _ size

theorem HeapState.allocFor_fences (s : HeapState C) (size a : Nat) : Fences
    (s.allocFor size a) := by
  rw [allocFor]
  split
  · exact s.balloc_fences size
  · exact s.alignedBalloc_fences a size

/-- `zalloc` clears the usable bytes and stops before the redzone. -/
theorem HeapState.zalloc_fences (s : HeapState C) (size : Nat) : Fences (s.zalloc size) := by
  have fences := s.balloc_fences size
  rw [zalloc, andThen]
  cases result : (s.balloc size).2 with
  | returned d =>
      intro e returned notNull
      cases returned
      simp only [ne_eq, notNull, not_false_eq_true, if_true]
      exact (fences d result notNull).written (fill_written _ 0 le_rfl le_rfl)
  | threw => exact .of_null (Or.inr (Or.inr rfl))
  | halted => exact .of_null (Or.inr (Or.inl rfl))

end Allocation

-----------------------------------------------------------------------------------------
-- Resizing
-----------------------------------------------------------------------------------------

section Resizing

variable {C : Config} {s : HeapState C} {v : Nat → RegionView} {held : Nat → Option Block}
  {p size preserve a : Nat} {l : Located} {old : Chunk}

/-- A block that fits is recut before its redzone is written again. -/
theorem HeapInv.resizeDown_fenced (h : HeapInv s v held) (found : LocatedAt s v held p l)
    (live : l.len ≠ 0) (positive : 0 < size) (enough : size + C.rz ≤ l.len)
    : (s.resizeDown l p (some (size + C.rz))).1.Fenced
        (s.resizeDown l p (some (size + C.rz))).2.ptr
        (s.resizeDown l p (some (size + C.rz))).2.len := by
  obtain ⟨_, m, answer, _, _, _, _, _, _⟩ := h.shrinkAt found live (size + C.rz)
  obtain ⟨value, least⟩ : (s.shrinkAt l (size + C.rz)).2 = m ∧ size + C.rz ≤ m := by
    rcases answer with done | ⟨_, _, wrong⟩
    · exact done
    · omega
  have nonzero : m ≠ 0 := by omega
  have fenced := (s.shrinkAt l (size + C.rz)).1.writeRedzone_fenced p (m - C.rz)
  simp only [HeapState.resizeDown, value, if_pos nonzero, if_neg (show ¬m < C.rz by omega)]
  split
  · exact fenced.collect _ _
  · exact fenced

/-- A grown block has its redzone written behind its new length. -/
theorem HeapState.resizeUp_fenced (s : HeapState C) (l : Located) (p want : Nat)
    (grown : (s.resizeUp l p want).2.ptr ≠ 0)
    : (s.resizeUp l p want).1.Fenced (s.resizeUp l p want).2.ptr (s.resizeUp l p want).2.len := by
  rw [resizeUp] at grown ⊢
  by_cases nonzero : (s.growAt l p want).2 = 0
  · simp only [nonzero, ne_eq, not_true_eq_false, if_false, Chunk.null] at grown
  · simp only [ne_eq, nonzero, not_false_eq_true, if_true]
    exact ((s.growAt l p want).1.writeRedzone_fenced p _).collect _ _

/-- A move fences the new block before it copies, and neither the copy nor the release of
the old block reaches the fence.
-/
theorem HeapInv.resizeMove_fences (h : HeapInv s v held) (fits : C.PoolFits)
    (supply : s.Supplied) (found : LocatedAt s v held old.ptr l) (live : l.len ≠ 0)
    (size preserve a : Nat)
    : HeapState.Fences (s.resizeMove l old size preserve a) := by
  have fences := s.allocFor_fences size a
  rw [HeapState.resizeMove]
  cases h.allocFor fits supply size a with
  | @refused v' result step =>
      have failed : (s.allocFor size a).2 = .returned .null ∨ (s.allocFor size a).2 = .halted
          ∨ (s.allocFor size a).2 = .threw := by
        rcases result with null | failure
        · exact Or.inl null
        · rw [failure]
          exact C.failure_cases
      rcases failed with null | halted | threw
      · simp only [HeapState.andThen, null, Chunk.null, if_true]
        exact .of_null (Or.inl rfl)
      · simp only [HeapState.andThen, halted]
        exact .of_null (Or.inr (Or.inl rfl))
      · simp only [HeapState.andThen, threw]
        exact .of_null (Or.inr (Or.inr rfl))
  | @granted q d v' chunk notNull aligned unused positive enough fitting step =>
      have fenced := fences _ chunk notNull
      simp only [HeapState.andThen, chunk, if_neg notNull]
      generalize (if preserve > old.len then old.len else preserve) = k
      generalize (if k > l.len - C.rz then l.len - C.rz else k) = k'
      have room : (if k' > d.len - C.rz then d.len - C.rz else k') ≤ d.len - C.rz := by
        split <;> omega
      generalize (if k' > d.len - C.rz then d.len - C.rz else k') = k'' at room ⊢
      obtain ⟨_, filled⟩ := h.releaseMoved found live unused step
        ((s.allocFor size a).1.copied_written (show k'' ≤ d.len by omega) old.ptr)
      have copied := fenced.written ((s.allocFor size a).1.copied_written room old.ptr)
      intro e returned _
      cases returned
      refine copied.congr (fun x lo hi => ?_)
      simp only at lo hi
      exact filled x (by omega) (by omega)

/-- `resize` fences the block it returns, whether it stayed, shrank, grew or moved. -/
theorem HeapInv.resize_fences (h : HeapInv s v held) (fits : C.PoolFits) (supply : s.Supplied)
    (old : Chunk) (size preserve a : Nat)
    : HeapState.Fences (s.resize old size preserve a) := by
  rw [HeapState.resize]
  by_cases pow : isPow2 a = true
  swap
  · rw [if_pos (by simp [pow])]
    exact .of_null (Or.inl rfl)
  rw [if_neg (by simp [pow])]
  split
  · exact s.allocFor_fences size a
  split
  · cases result : (s.bbDealloc old.ptr).2 with
    | returned ok =>
        simp only [HeapState.andThen, result]
        exact .of_null (Or.inl rfl)
    | threw =>
        simp only [HeapState.andThen, result]
        exact .of_null (Or.inr (Or.inr rfl))
    | halted =>
        simp only [HeapState.andThen, result]
        exact .of_null (Or.inr (Or.inl rfl))
  next null zero =>
    obtain ⟨w, first, ready, found, same⟩ := h.locate_ready fits (fun _ => supply.now) old.ptr
    simp only
    by_cases short : (s.locate old.ptr).2.len = 0 ∨ (s.locate old.ptr).2.len < C.rz
    · rw [if_pos (by simpa using short)]
      by_cases halt : C.doubleFreeAction = .halt
      · simp only [HeapState.handleBadFree, halt, if_true, HeapState.andThen]
        exact .of_null (Or.inr (Or.inl rfl))
      · simp only [HeapState.handleBadFree, halt, if_false, HeapState.andThen]
        exact .of_null (Or.inl rfl)
    rw [if_neg (by simpa using short)]
    have live : (s.locate old.ptr).2.len ≠ 0 := fun none => short (Or.inl none)
    have known := (found.held_iff first.inv).mpr ⟨live, rfl⟩
    obtain ⟨i, less, _⟩ := h.held_inside known
    have inited := h.inited_of_count (show 0 < s.count by omega)
    obtain ⟨_, found'⟩ := h.locate inited old.ptr
    rw [same, HeapState.ensure_ready inited]
    generalize record : (s.locate old.ptr).2 = l at short live found' ⊢
    rcases s.checkRedzone_eq old.ptr (l.len - C.rz) with ⟨ok, check⟩ | ⟨check, _⟩
    swap
    · simp only [check, HeapState.andThen]
      exact .of_null (Or.inr (Or.inl rfl))
    simp only [check, HeapState.andThen]
    have move := h.resizeMove_fences fits supply found' live size preserve a
    have bound := (h.held_lt ((found'.held_iff h).mpr ⟨live, rfl⟩)).2
    simp only at bound
    by_cases placed : old.ptr &&& (a - 1) = 0
    · by_cases down : size ≤ l.len - C.rz
      · have sane : HeapState.checkAddOverflow C size C.rz = some (size + C.rz) :=
          if_pos (by omega)
        simp only [placed, down, decide_true, Bool.and_self, if_true, sane]
        intro d returned _
        cases returned
        exact h.resizeDown_fenced found' live (by omega) (by omega)
      · simp only [placed, down, decide_true, decide_false, Bool.false_and, Bool.false_eq_true,
          if_false]
        by_cases sane : size + C.rz < C.buddy.word
        · have some : HeapState.checkAddOverflow C size C.rz = some (size + C.rz) := if_pos sane
          simp only [some]
          rcases h.resizeUp (r := preserve) (e := size) found' record live (by omega)
              ((placed_iff pow old.ptr).mp placed) with ⟨grown, _⟩ | none
          · rw [if_pos grown]
            intro d returned _
            cases returned
            exact s.resizeUp_fenced _ _ _ grown
          · rw [none]
            simpa [Chunk.null] using move
        · have none : HeapState.checkAddOverflow C size C.rz = none := if_neg sane
          simp only [none]
          simpa [Chunk.null] using move
    · simp only [placed, decide_false, Bool.and_false, Bool.false_eq_true, if_false]
      simpa [Chunk.null] using move

end Resizing

end Bbmalloc
