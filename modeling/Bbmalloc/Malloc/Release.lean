import Bbmalloc.Malloc.Writes

/-! `bb::dealloc`: a live block is scrubbed and released, and any other pointer is turned
down without a trace.
-/

namespace Bbmalloc

open Bbmalloc.Foundations

/-- What `handle_bad_free` answers. -/
def Config.badFree (C : Config) : Exit Bool :=
  if C.doubleFreeAction = .halt then .halted else .returned false

/-- How a release of `p` ends: nothing to release, a bad pointer, a damaged redzone that halts
the program, or a block released.
-/
inductive Freed {C : Config} (s : HeapState C) (v : Nat → RegionView)
    (held : Nat → Option Block) (p : Nat) (c : HeapState C × Exit Bool)
    : Prop
  | null (zero : p = 0) (result : c = (s, .returned true))
  | bad {v' : Nat → RegionView} (short : ∀ b, held p = some b → b.len < C.rz)
      (result : c.2 = C.badFree) (step : HeapStep s c.1 v' held held)
      (same : c.1 = s.ensure.1)
  | tripped {b : Block} {v' : Nat → RegionView} (known : held p = some b)
      (policy : C.redzoneAction = .halt) (result : c.2 = .halted)
      (step : HeapStep s c.1 v' held held)
  | freed {b : Block} {v' : Nat → RegionView} (known : held p = some b)
      (result : c.2 = .returned true)
      (step : HeapStep s c.1 v' (Function.update held p none) (Function.update held p none))

section Release

variable {C : Config} {s s' : HeapState C} {v v' : Nat → RegionView}
  {held kept held' : Nat → Option Block} {p : Nat} {b : Block} {l : Located}

theorem HeapState.ensure_ready (ready : s.inited = true) : s.ensure.1 = s := by
  simp [ensure, ready]

theorem HeapState.init_ensure (s : HeapState C) : s.init.1 = s.ensure.1 := by
  cases ready : s.inited <;> simp [ensure, init, ready]

/-- `__ensure` initialises a heap that was never used. -/
theorem HeapInv.ensure (h : HeapInv s v held) (fits : C.PoolFits)
    (pages : s.inited = false → s.FreshPages)
    : ∃ v', HeapStep s s.ensure.1 v' held held ∧ s.ensure.1.inited = true
        ∧ (s.inited = true → s.ensure.1 = s) := by
  cases ready : s.inited with
  | true =>
      rw [HeapState.ensure_ready ready]
      exact ⟨v, h.refl held, ready, fun _ => rfl⟩
  | false =>
      have same : s.ensure.1 = s.init.1 := by simp [HeapState.ensure, ready]
      rw [same]
      obtain ⟨extended, inited⟩ := h.init ready fits (pages ready)
      cases extended with
      | added ok fresh step count _ => exact ⟨_, step, inited, fun wrong => absurd wrong (by simp)⟩
      | same no step count => exact ⟨_, step, inited, fun wrong => absurd wrong (by simp)⟩

/-- `locate`, which initialises a heap that was never used. -/
theorem HeapInv.locate_ready (h : HeapInv s v held) (fits : C.PoolFits)
    (pages : s.inited = false → s.FreshPages) (p : Nat)
    : ∃ v', HeapStep s (s.locate p).1 v' held held ∧ (s.locate p).1.inited = true
        ∧ LocatedAt (s.locate p).1 v' held p (s.locate p).2
        ∧ (s.locate p).1 = s.ensure.1 := by
  obtain ⟨v', step, inited, _⟩ := h.ensure fits pages
  obtain ⟨stays, found⟩ := step.inv.locate inited p
  have call : s.locate p = s.ensure.1.locate p := by
    cases ready : s.inited with
    | true => rw [HeapState.ensure_ready ready]
    | false =>
        rw [← HeapState.init_ensure] at step inited ⊢
        exact h.locate_first ready step.inv inited p
  rw [call, stays]
  exact ⟨v', step, inited, found, rfl⟩

/-- The record of a block has its length. -/
theorem LocatedAt.held_len (h : HeapInv s v held) (found : LocatedAt s v held p l)
    (known : held p = some b)
    : l.len = b.len ∧ l.len ≠ 0 ∧ l.t = b.tier := by
  obtain ⟨live, same⟩ := (found.held_iff h).mp known
  rw [same]
  exact ⟨rfl, live, rfl⟩

/-- `__release_located` of a block. -/
theorem HeapInv.releaseLocated (h : HeapInv s v held) (found : LocatedAt s v held p l)
    (live : l.len ≠ 0)
    : (s.releaseLocated l p l.len).2 = true ∧ Steady s (s.releaseLocated l p l.len).1
        ∧ ∃ v', HeapStep s (s.releaseLocated l p l.len).1 v' (Function.update held p none)
          (Function.update held p none) := by
  have known := (found.held_iff h).mpr ⟨live, rfl⟩
  have scrubbed : Written p l.len s
      (((s.scrubOnFree p l.len).collect .dealloc 0).collect .freed l.len) :=
    ((s.scrubOnFree_written (q := p) (m := l.len) le_rfl le_rfl).collect _ _).collect _ _
  have first := (h.refl (Function.update held p none)).written known scrubbed
    (fun q d other => of_erased other)
  have found' := found.persist h live first rfl
  obtain ⟨ok, steady, v', second⟩ := first.inv.release found' live
  exact ⟨ok, scrubbed.steady.trans steady, v', first.trans second (fun _ _ => id) (fun _ _ => id)⟩

/-- The redzone check changes nothing, and it halts only under that policy. -/
theorem HeapState.checkRedzone_eq (s : HeapState C) (p user : Nat)
    : (∃ ok, s.checkRedzone p user = (s, .returned ok))
      ∨ (s.checkRedzone p user = (s, .halted) ∧ C.redzoneAction = .halt) := by
  rw [checkRedzone]
  split
  · rw [handleRedzoneTrip]
    split
    · next halt => exact Or.inr ⟨rfl, halt⟩
    · exact Or.inl ⟨false, rfl⟩
  · exact Or.inl ⟨true, rfl⟩

/-- `bb::dealloc` of any pointer. -/
theorem HeapInv.bbDealloc (h : HeapInv s v held) (fits : C.PoolFits)
    (pages : s.inited = false → s.FreshPages) (p : Nat)
    : Freed s v held p (s.bbDealloc p) := by
  rw [HeapState.bbDealloc]
  by_cases zero : p = 0
  · rw [if_pos zero]
    exact .null zero rfl
  rw [if_neg zero]
  obtain ⟨w, first, ready, found, same⟩ := h.locate_ready fits pages p
  generalize s.locate p = c at *
  simp only
  by_cases short : c.2.len = 0 ∨ c.2.len < C.rz
  · rw [if_pos (by simpa using short)]
    refine .bad (fun b known => ?_) rfl first same
    obtain ⟨len, live, _⟩ := found.held_len first.inv known
    omega
  rw [if_neg (by simpa using short)]
  have live : c.2.len ≠ 0 := fun none => short (Or.inl none)
  have known := (found.held_iff first.inv).mpr ⟨live, rfl⟩
  rcases c.1.checkRedzone_eq p (c.2.len - C.rz) with ⟨ok, check⟩ | ⟨check, policy⟩
  · rw [check]
    obtain ⟨done, _, v', second⟩ := first.inv.releaseLocated found live
    refine .freed known ?_ (first.trans second (fun q d other => (of_erased other).1)
      (fun _ _ => id))
    simp only [HeapState.andThen, done]
  · rw [check]
    exact .tripped known policy rfl first

end Release

end Bbmalloc
