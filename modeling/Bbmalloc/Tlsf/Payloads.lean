import Bbmalloc.Tlsf.Resizing

/-! A block that is resized in place keeps its contents: the stores of `shrink` and `grow`
go to headers, and none of these lies in the part of the payload that stays.
-/

namespace Bbmalloc

open Bbmalloc.Foundations

variable {T : TlsfParams} {limit x y n m p r : Nat} {s s' : TlsfState T} {v : TlsfView}

/-- The addresses outside the payload of a block of `n` bytes at `x`. -/
def OffPayload (rbase x n a : Nat) : Prop := a < rbase + x + 16 ∨ rbase + x + n ≤ a

/-- The null offset or the offset of a free block. -/
def TlsfView.NullOrFree (v : TlsfView) (z : Nat) : Prop :=
  z = nullOff ∨ ∃ m, v.block z = some (.free, m)

theorem within_offPayload {mem : Memory} {rbase i w : Nat} (word : i + 4 ≤ 16)
    (apart : y ≤ x ∨ x + n ≤ y)
    : Memory.Within (OffPayload rbase x n) mem (mem.storeWord (rbase + y + i) 4 w) :=
  within_headerWord word (fun b lo hi => by unfold OffPayload; omega)

theorem TlsfRep.listed_free (h : TlsfRep limit s v) {i z : Nat} (member : z ∈ v.bins i)
    : v.NullOrFree z := by
  obtain ⟨m, found, _⟩ := (h.binned i z).mp member
  exact Or.inr ⟨m, found⟩

/-- The header of a free block is no part of another block. -/
theorem TlsfRep.free_apart (h : TlsfRep limit s v) (block : v.block x = some (.granted, n))
    {z : Nat} (free : v.NullOrFree z) (live : z ≠ nullOff)
    : z + 16 ≤ x ∨ x + n ≤ z := by
  obtain ⟨m, found⟩ := free.resolve_left live
  have large := (h.shape found).2.2
  have ne : z ≠ x := by
    rintro rfl
    rw [block] at found
    simp at found
  have := h.tiling.disjoint found block ne
  simp only at this
  omega

/-- A link to a free block is stored outside the payload of every granted one. -/
theorem TlsfRep.link_offPayload (h : TlsfRep limit s v) (block : v.block x = some (.granted, n))
    {z w : Nat} {t : TlsfState T} (base : t.rbase = s.rbase) (free : v.NullOrFree z)
    : Memory.Within (OffPayload s.rbase x n) t.mem (t.setPrevFreeOrScratch z w).mem := by
  refine within_setPrevFreeOrScratch (Memory.Within.refl _ _) (fun live b lo hi => ?_)
  have := h.free_apart block free live
  unfold OffPayload
  omega

/-- Taking a free block out of its bin stores to free blocks only, also in a state that
differs from `s` in sizes only.
-/
theorem TlsfRep.removeFree_payload {t : TlsfState T} (h : TlsfRep limit s v)
    (block : v.block x = some (.granted, n)) (known : v.block y = some (.free, m))
    (base : t.rbase = s.rbase) (heads : t.heads = s.heads)
    (next : t.nextFree y = s.nextFree y) (prev : t.prevFree y = s.prevFree y)
    : Memory.Within (OffPayload s.rbase x n) t.mem (t.removeFree y m).mem
      ∧ ∀ i, v.NullOrFree ((t.removeFree y m).heads i) := by
  have member := h.mem_bins known
  have front : ∀ i, v.NullOrFree (s.heads i) := fun i =>
    (h.front i).elim Or.inl h.listed_free
  have after : v.NullOrFree (s.nextFree y) := (h.next_listed member).elim Or.inl h.listed_free
  by_cases first : t.heads (TlsfState.binOf T m) = y
  · obtain ⟨mem, heads', _, _⟩ := TlsfState.removeFree_front first
    rw [mem, heads', heads, next]
    refine ⟨Memory.Within.refl _ _, fun i => ?_⟩
    by_cases same : i = TlsfState.binOf T m
    · subst same
      rw [Function.update_self]
      exact after
    · rw [Function.update_of_ne same]
      exact front i
  · obtain ⟨mem, heads', _, _⟩ := TlsfState.removeFree_inner first
    rw [heads] at first
    have before := h.listed_free ((h.lists _).prev_mem member (Ne.symm first)).1
    rw [mem, heads', heads, next, prev]
    refine ⟨?_, front⟩
    refine Memory.Within.trans (n := (t.setNextFree (s.prevFree y) (s.nextFree y)).mem) ?_
      (h.link_offPayload block base after)
    refine base ▸ within_headerWord (i := 8) (by omega) (fun b lo hi => ?_)
    have live : s.prevFree y ≠ nullOff := by
      have := ((h.listed_headerAt ((h.lists _).prev_mem member (Ne.symm first)).1).lt h.fit).2
      exact this
    have := h.free_apart block before live
    unfold OffPayload
    omega

/-- Putting a block into its bin stores to its header and to a free block. -/
theorem TlsfRep.insertFree_payload (h : TlsfRep limit s v)
    (block : v.block x = some (.granted, n)) (le : p ≤ n) (apart : y ≤ x ∨ x + p ≤ y)
    (base : s'.rbase = s.rbase) (heads : ∀ i, v.NullOrFree (s'.heads i))
    : Memory.Within (OffPayload s.rbase x p) s'.mem (s'.insertFree y m).mem := by
  rw [(s'.insertFree_stores y m).1]
  refine Memory.Within.trans (n := (s'.setNextFree y (s'.heads (TlsfState.binOf T m))).mem)
    (base ▸ within_offPayload (by omega) apart) ?_
  refine (h.link_offPayload (t := s'.setNextFree y (s'.heads (TlsfState.binOf T m))) block base
    (heads _)).mono (fun a outside => ?_)
  unfold OffPayload at outside ⊢
  omega

/-- `shrink` leaves the remaining payload alone. -/
theorem TlsfInv.shrink_payload (h : TlsfInv limit s v) (known : v.granted x = some n) (r : Nat)
    : Memory.Within (OffPayload s.rbase x (shrunkSize T n r)) s.mem (s.shrink x r).1.mem := by
  have block := TlsfView.granted_eq_some.mp known
  obtain ⟨unit, whole, large⟩ := h.shape block
  have size := (h.read block rfl).1
  by_cases refused : TlsfState.adjusted T r = 0
  · simp only [TlsfState.shrink, refused, if_true]
    exact Memory.Within.refl _ _
  by_cases cut : TlsfState.adjusted T r + 32 ≤ n
  swap
  · have same : (s.shrink x r).1 = s := by
      simp only [TlsfState.shrink, refused, size, TlsfShape.minBlock, if_false]
      split
      · rfl
      · rw [if_pos (by omega)]
    rw [same]
    exact Memory.Within.refl _ _
  obtain ⟨_, _, wholeA, _, _, largeA⟩ := TlsfState.adjusted_pos refused
  have chosen : shrunkSize T n r = TlsfState.adjusted T r := by
    simp only [shrunkSize]
    rw [if_pos ⟨refused, cut⟩]
  rw [chosen, TlsfState.shrink_cut refused size cut]
  set adj := TlsfState.adjusted T r
  obtain ⟨_, _, _, _, _, _, free, bytes⟩ := h.cutBack known wholeA largeA cut
  simp only
  generalize (if (s.cutBack x n adj).isFree (x + n) then
    n - adj + (s.cutBack x n adj).bsize (x + n) else n - adj) = rest
  have limit_le := h.fit.limit_le
  have ends := (h.granted_block known).2.2.2.1
  have word : u32 = 4294967296 := rfl
  have wordAdj := TlsfState.size_word wholeA
  have unitN : 16 ∣ x + n := by omega
  -- the links of the block that follows are not written yet
  have words1 := fun {z : Nat} (hz : 16 ∣ z) =>
    TlsfState.setPrevPhys_words (s := s) (a := x + adj) (v := x) (by omega) hz (by omega)
  have words2 := fun {z : Nat} (hz : 16 ∣ z) =>
    TlsfState.setBsizeFlags_words (s := s.setPrevPhys (x + adj) x) (v := adj ||| tlsfAlloc) unit hz
      (by omega)
  have front : ∀ i, v.NullOrFree (s.heads i) := fun i =>
    (h.front i).elim Or.inl h.listed_free
  have opened : Memory.Within (OffPayload s.rbase x adj) s.mem (s.cutBack x n adj).mem :=
    (within_offPayload (i := 4) (by omega) (Or.inr (Nat.le_refl _))).trans
      (within_offPayload (i := 0) (by omega) (Or.inl (Nat.le_refl _)))
  have absorbed : Memory.Within (OffPayload s.rbase x adj) (s.cutBack x n adj).mem
        ((s.cutBack x n adj).absorbed (x + n)).mem
      ∧ (∀ i, v.NullOrFree (((s.cutBack x n adj).absorbed (x + n)).heads i))
      ∧ ((s.cutBack x n adj).absorbed (x + n)).rbase = s.rbase := by
    rw [TlsfState.absorbed]
    by_cases next : (s.cutBack x n adj).isFree (x + n) = true
    · obtain ⟨m, found⟩ := (h.isFree_after block (fun k m found => h.settled _ k m found)).mp
        (free ▸ next)
      have taken := h.toTlsfRep.removeFree_payload (t := s.cutBack x n adj) block found rfl rfl
        ((words2 unitN).2.2.1.trans (words1 unitN).2.2.1)
        ((words2 unitN).2.2.2.trans (words1 unitN).2.2.2)
      have bytesM : (s.cutBack x n adj).bsize (x + n) = m := bytes.trans (h.read found rfl).1
      rw [if_pos next, bytesM]
      refine ⟨taken.1.mono (fun a outside => ?_), taken.2,
        ((s.cutBack x n adj).removeFree_static _ _).1⟩
      unfold OffPayload at outside ⊢
      omega
    · rw [if_neg next]
      exact ⟨Memory.Within.refl _ _, front, rfl⟩
  obtain ⟨taken, heads₂, base₂⟩ := absorbed
  generalize (s.cutBack x n adj).absorbed (x + n) = s₂ at taken heads₂ base₂ ⊢
  refine opened.trans (taken.trans ?_)
  refine Memory.Within.trans (n := ((s₂.setBsizeFlags (x + adj) rest).setPrevPhys
    (x + adj + rest) (x + adj)).mem) ?_
    (h.toTlsfRep.insertFree_payload block (by omega) (Or.inr (Nat.le_refl _)) base₂ heads₂)
  exact base₂ ▸ (within_offPayload (i := 0) (by omega) (Or.inr (Nat.le_refl _))).trans
    (within_offPayload (i := 4) (by omega) (Or.inr (by omega)))

/-- `grow` leaves the payload from before alone. -/
theorem TlsfInv.grow_payload (h : TlsfInv limit s v) (known : v.granted x = some n) (r : Nat)
    : Memory.Within (OffPayload s.rbase x n) s.mem (s.grow x r).1.mem := by
  have block := TlsfView.granted_eq_some.mp known
  obtain ⟨unit, whole, large⟩ := h.shape block
  have size := (h.read block rfl).1
  have still : Memory.Within (OffPayload s.rbase x n) s.mem s.mem := Memory.Within.refl _ _
  simp only [TlsfState.grow, size]
  split
  · exact still
  split
  · exact still
  split
  · exact still
  rename_i enough notFree
  split
  · exact still
  rename_i short
  have free : s.isFree (x + n) = true := by simpa using notFree
  obtain ⟨m, found⟩ := (h.isFree_after block (fun k m found => h.settled _ k m found)).mp free
  have sizeM := (h.read found rfl).1
  simp only [sizeM] at short ⊢
  obtain ⟨taken, heads⟩ := h.toTlsfRep.removeFree_payload (t := s) block found rfl rfl rfl rfl
  have base := (s.removeFree_static (x + n) m).1
  set adj := TlsfState.adjusted T r
  generalize s.removeFree (x + n) m = s₁ at *
  have header : ∀ {mem : Memory} {y i w : Nat}, i + 4 ≤ 16 → y ≤ x ∨ x + n ≤ y →
      Memory.Within (OffPayload s.rbase x n) mem (mem.storeWord (s₁.rbase + y + i) 4 w) :=
    fun word apart => base ▸ within_offPayload word apart
  split
  · have stored : Memory.Within (OffPayload s.rbase x n) s₁.mem
        ((((s₁.setBsizeFlags (x + adj) (n + m - adj)).setPrevPhys (x + adj) x).setPrevPhys
          (x + (n + m)) (x + adj)).setBsizeFlags x (adj ||| tlsfAlloc)).mem :=
      (((header (i := 0) (y := x + adj) (by omega) (Or.inr (by omega))).trans
        (header (i := 4) (y := x + adj) (by omega) (Or.inr (by omega)))).trans
        (header (i := 4) (y := x + (n + m)) (by omega) (Or.inr (by omega)))).trans
        (header (i := 0) (y := x) (by omega) (Or.inl (Nat.le_refl _)))
    refine taken.trans (stored.trans ?_)
    exact h.toTlsfRep.insertFree_payload block (Nat.le_refl n) (Or.inr (by omega)) base heads
  · exact taken.trans ((header (i := 4) (y := x + (n + m)) (by omega) (Or.inr (by omega))).trans
      (header (i := 0) (y := x) (by omega) (Or.inl (Nat.le_refl _))))

end Bbmalloc
