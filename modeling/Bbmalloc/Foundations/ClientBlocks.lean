import Mathlib.Algebra.Group.Nat.Defs
import Mathlib.Data.List.Basic
import Mathlib.Logic.Function.Basic

/-! Allocation interfaces as their clients see them: blocks of bytes by address, and what the
calls of the C interface may do to them. Nothing here says how blocks are found.
-/

namespace Bbmalloc.Foundations

-----------------------------------------------------------------------------------------
-- Runs
-----------------------------------------------------------------------------------------

/-- A sequence of labelled steps. -/
inductive Run {σ ℓ : Type} (step : σ → ℓ → σ → Prop) : σ → List ℓ → σ → Prop
  | nil {s : σ} : Run step s [] s
  | cons {s t u : σ} {l : ℓ} {ls : List ℓ} (first : step s l t) (rest : Run step t ls u)
      : Run step s (l :: ls) u

section Runs

variable {σ τ ℓ : Type} {step : σ → ℓ → σ → Prop} {step' : τ → ℓ → τ → Prop} {s u : σ} {t : τ}
  {ls : List ℓ}

/-- If every step is matched by a step of the other system, so is every run. -/
theorem Run.simulate {R : σ → τ → Prop}
    (matched : ∀ {s t l s'}, R s t → step s l s' → ∃ t', step' t l t' ∧ R s' t')
    (run : Run step s ls u) (start : R s t)
    : ∃ t', Run step' t ls t' ∧ R u t' := by
  induction run generalizing t with
  | nil => exact ⟨t, .nil, start⟩
  | cons first _ ih =>
      obtain ⟨t', here, related⟩ := matched start first
      obtain ⟨t'', rest, final⟩ := ih related
      exact ⟨t'', .cons here rest, final⟩

/-- What every step of a run keeps, the run keeps. -/
theorem Run.keeps {P : σ → Prop} (kept : ∀ {s l s'}, l ∈ ls → P s → step s l s' → P s')
    (run : Run step s ls u) (start : P s)
    : P u := by
  induction run with
  | nil => exact start
  | cons first _ ih =>
      exact ih (fun mem => kept (List.mem_cons_of_mem _ mem)) (kept List.mem_cons_self start first)

end Runs

-----------------------------------------------------------------------------------------
-- Blocks
-----------------------------------------------------------------------------------------

/-- The contents of the blocks that clients hold, by address. -/
abbrev Blocks (β : Type) := Nat → Option (List β)

namespace Blocks

variable {β : Type} {s : Blocks β} {p q a n : Nat} {b d xs : List β} {x : β}

def erase (s : Blocks β) (p : Nat) : Blocks β := Function.update s p none

def put (s : Blocks β) (p : Nat) (b : List β) : Blocks β := Function.update s p (some b)

/-- A store of one byte, into whatever block the address lies in. -/
def store (s : Blocks β) (a : Nat) (x : β) : Blocks β :=
  fun p => (s p).map (fun b => if p ≤ a then b.set (a - p) x else b)

/-- Stores of some bytes, one after the other. -/
def write (s : Blocks β) (a : Nat) : List β → Blocks β
  | [] => s
  | x :: xs => (s.store a x).write (a + 1) xs

/-- No block meets the `n` bytes at `p`. -/
def Clear (s : Blocks β) (p n : Nat) : Prop :=
  ∀ q b, s q = some b → p + n ≤ q ∨ q + b.length ≤ p

/-- No two blocks meet. -/
def Apart (s : Blocks β) : Prop :=
  ∀ p q b d, s p = some b → s q = some d → p ≠ q → p + b.length ≤ q ∨ q + d.length ≤ p

@[simp] theorem erase_same (s : Blocks β) (p : Nat) : s.erase p p = none :=
  Function.update_self _ _ _

theorem erase_other (s : Blocks β) (differ : q ≠ p) : s.erase p q = s q :=
  Function.update_of_ne differ _ _

@[simp] theorem put_same (s : Blocks β) (p : Nat) (b : List β) : s.put p b p = some b :=
  Function.update_self _ _ _

theorem put_other (s : Blocks β) (b : List β) (differ : q ≠ p) : s.put p b q = s q :=
  Function.update_of_ne differ _ _

/-- Blocks that are left after an erasure were there before. -/
theorem of_erase (found : s.erase p q = some b) : q ≠ p ∧ s q = some b := by
  by_cases same : q = p
  · subst same
    rw [erase_same] at found
    cases found
  · exact ⟨same, s.erase_other same ▸ found⟩

/-- Erasing where there is no block changes nothing. -/
theorem erase_unused (unused : s p = none) : s.erase p = s := by
  rw [erase, ← unused, Function.update_eq_self]

theorem Apart.erase (apart : s.Apart) (p : Nat) : (s.erase p).Apart := by
  intro q r b d found found' differ
  exact apart q r b d (of_erase found).2 (of_erase found').2 differ

/-- A block on clear ground stays apart from the others. -/
theorem Apart.put (apart : s.Apart) (clear : s.Clear p b.length) : (s.put p b).Apart := by
  intro q r c d found found' differ
  by_cases here : q = p
  · subst here
    rw [put_same] at found
    cases found
    rw [put_other _ _ (Ne.symm differ)] at found'
    exact clear r d found'
  · rw [put_other _ _ here] at found
    by_cases there : r = p
    · subst there
      rw [put_same] at found'
      cases found'
      exact (clear q c found).symm
    · rw [put_other _ _ there] at found'
      exact apart q r c d found found' differ

/-- A store keeps the addresses and the lengths. -/
theorem store_found (found : s.store a x p = some b) : ∃ d, s p = some d ∧ d.length = b.length := by
  obtain ⟨d, found', rfl⟩ := Option.map_eq_some_iff.mp found
  refine ⟨d, found', ?_⟩
  split
  · rw [List.length_set]
  · rfl

theorem Apart.store (apart : s.Apart) (a : Nat) (x : β) : (s.store a x).Apart := by
  intro p q b d found found' differ
  obtain ⟨b', found, len⟩ := store_found found
  obtain ⟨d', found', len'⟩ := store_found found'
  rw [← len, ← len']
  exact apart p q b' d' found found' differ

/-- A store outside a block leaves it alone. -/
theorem store_outside (found : s p = some b) (out : a < p ∨ p + b.length ≤ a)
    : s.store a x p = some b := by
  rw [Blocks.store, found, Option.map_some]
  congr 1
  split
  · rw [List.set_eq_of_length_le (by omega)]
  · rfl

theorem Apart.write (apart : s.Apart) (a : Nat) (xs : List β) : (s.write a xs).Apart := by
  induction xs generalizing s a with
  | nil => exact apart
  | cons x xs ih => exact ih (apart.store a x) (a + 1)

theorem write_outside (found : s p = some b) (out : a + xs.length ≤ p ∨ p + b.length ≤ a)
    : s.write a xs p = some b := by
  induction xs generalizing s a with
  | nil => exact found
  | cons x xs ih =>
      rw [List.length_cons] at out
      exact ih (store_outside found (by omega)) (by omega)

end Blocks

-----------------------------------------------------------------------------------------
-- Allocation and reallocation
-----------------------------------------------------------------------------------------

section Allocation

variable {β : Type} {s s' : Blocks β} {n a p q r : Nat} {b : List β} {fill : Option β}

/-- A request for `n` bytes at a multiple of `a`: it is refused, or answered with a new block
of at least `n` bytes, all of them `fill` if that is asked for.
-/
inductive Allocates (s : Blocks β) (n a : Nat) (fill : Option β) : Nat → Blocks β → Prop
  | refused : Allocates s n a fill 0 s
  | block {q : Nat} {b : List β} (positive : 0 < n) (notNull : q ≠ 0) (aligned : a ∣ q)
      (enough : n ≤ b.length) (unused : s q = none) (clear : s.Clear q b.length)
      (filled : ∀ x, fill = some x → ∀ y ∈ b, y = x)
      : Allocates s n a fill q (s.put q b)

/-- A request to give the block at `p` a length of `n` bytes or more: it is refused, or the
block is replaced by one that begins like it, at the same address or on clear ground.
-/
inductive Reallocates (s : Blocks β) (p n a : Nat) : Nat → Blocks β → Prop
  | refused : Reallocates s p n a 0 s
  | block {q : Nat} {old b : List β} (known : s p = some old) (positive : 0 < n)
      (notNull : q ≠ 0) (aligned : a ∣ q) (enough : n ≤ b.length) (unused : s.erase p q = none)
      (clear : (s.erase p).Clear q b.length)
      (begins : ∀ i, i < old.length → i < b.length → b[i]? = old[i]?)
      : Reallocates s p n a q ((s.erase p).put q b)

theorem Allocates.apart (allocates : Allocates s n a fill q s') (apart : s.Apart) : s'.Apart := by
  cases allocates with
  | refused => exact apart
  | block _ _ _ _ _ clear _ => exact apart.put clear

theorem Reallocates.apart (reallocates : Reallocates s p n a q s') (apart : s.Apart)
    : s'.Apart := by
  cases reallocates with
  | refused => exact apart
  | block _ _ _ _ _ _ clear _ => exact (apart.erase p).put clear

/-- An allocation leaves all blocks alone. -/
theorem Allocates.keeps (allocates : Allocates s n a fill q s') (found : s r = some b)
    : s' r = some b := by
  cases allocates with
  | refused => exact found
  | block _ _ _ _ unused _ _ =>
      rwa [Blocks.put_other]
      rintro rfl
      rw [unused] at found
      cases found

/-- A reallocation leaves all other blocks alone. -/
theorem Reallocates.keeps (reallocates : Reallocates s p n a q s') (differ : r ≠ p)
    (found : s r = some b)
    : s' r = some b := by
  cases reallocates with
  | refused => exact found
  | block _ _ _ _ _ unused _ _ =>
      rw [Blocks.put_other, Blocks.erase_other _ differ]
      · exact found
      · rintro rfl
        rw [Blocks.erase_other _ differ] at unused
        rw [unused] at found
        cases found

end Allocation

-----------------------------------------------------------------------------------------
-- The C interface
-----------------------------------------------------------------------------------------

/-- What the C interface depends on: the alignment that every block has, the page size, the
byte that `calloc` fills with, and the bytes that make up a pointer.
-/
structure Platform (β : Type) where
  native : Nat
  page : Nat
  ptrBytes : Nat
  zero : β
  pointer : Nat → List β
  pointer_length : ∀ q, (pointer q).length = ptrBytes

/-- The calls of a C program, and its stores. The first argument of `posixMemalign` is the
place for the result.
-/
inductive ClientCall (β : Type)
  | malloc (size : Nat)
  | calloc (num size : Nat)
  | realloc (p size : Nat)
  | free (p : Nat)
  | alignedAlloc (alignment size : Nat)
  | memalign (alignment size : Nat)
  | posixMemalign (out alignment size : Nat)
  | valloc (size : Nat)
  | pvalloc (size : Nat)
  | store (a : Nat) (x : β)

/-- What a call answers: a pointer, or an error code with what it stored for its caller. -/
inductive ClientAnswer
  | ptr (q : Nat)
  | code (c : Nat) (stored : Option Nat)
  | done
  deriving DecidableEq

/-- A power of two. -/
def PowerOfTwo (a : Nat) : Prop := ∃ k, a = 2 ^ k

/-- What the calls may do to the blocks, and what they answer. The numbers 22 and 12 are EINVAL
and ENOMEM. The place for the result of `posixMemalign` may lie in a block.
-/
inductive ClientStep {β : Type} (P : Platform β)
    : Blocks β → ClientCall β × ClientAnswer → Blocks β → Prop
  | malloc {s s' n q} (allocates : Allocates s n P.native none q s')
      : ClientStep P s (.malloc n, .ptr q) s'
  | calloc {s s' m n q} (allocates : Allocates s (m * n) P.native (some P.zero) q s')
      : ClientStep P s (.calloc m n, .ptr q) s'
  | reallocNull {s s' n q} (allocates : Allocates s n P.native none q s')
      : ClientStep P s (.realloc 0 n, .ptr q) s'
  | reallocZero {s p} (notNull : p ≠ 0) : ClientStep P s (.realloc p 0, .ptr 0) (s.erase p)
  | realloc {s s' p n q} (notNull : p ≠ 0) (positive : 0 < n)
      (reallocates : Reallocates s p n P.native q s')
      : ClientStep P s (.realloc p n, .ptr q) s'
  | free {s p} : ClientStep P s (.free p, .done) (s.erase p)
  | alignedAlloc {s s' a n q} (valid : q ≠ 0 → PowerOfTwo a ∧ a ∣ n)
      (allocates : Allocates s n (max P.native a) none q s')
      : ClientStep P s (.alignedAlloc a n, .ptr q) s'
  | memalign {s s' a n q} (valid : q ≠ 0 → PowerOfTwo a)
      (allocates : Allocates s n (max P.native a) none q s')
      : ClientStep P s (.memalign a n, .ptr q) s'
  | posixInvalid {s out a n} (invalid : out = 0 ∨ a < P.ptrBytes ∨ ¬PowerOfTwo a)
      : ClientStep P s (.posixMemalign out a n, .code 22 none) s
  | posixFull {s out a n} (valid : out ≠ 0 ∧ P.ptrBytes ≤ a ∧ PowerOfTwo a) (positive : 0 < n)
      : ClientStep P s (.posixMemalign out a n, .code 12 none) s
  | posix {s s' out a n q} (valid : out ≠ 0 ∧ P.ptrBytes ≤ a ∧ PowerOfTwo a)
      (present : n = 0 ∨ q ≠ 0) (allocates : Allocates s n (max P.native a) none q s')
      : ClientStep P s (.posixMemalign out a n, .code 0 (some q)) (s'.write out (P.pointer q))
  | valloc {s s' n q} (allocates : Allocates s n (max P.native P.page) none q s')
      : ClientStep P s (.valloc n, .ptr q) s'
  | pvalloc {s s' n q}
      (allocates : Allocates s ((n + P.page - 1) / P.page * P.page) (max P.native P.page) none q s')
      : ClientStep P s (.pvalloc n, .ptr q) s'
  | store {s a x} : ClientStep P s (.store a x, .done) (s.store a x)

section ClientSteps

variable {β : Type} {P : Platform β} {s s' : Blocks β} {p : Nat} {b : List β}
  {l : ClientCall β × ClientAnswer} {ls : List (ClientCall β × ClientAnswer)}

/-- The call does not release, resize or store into the `len` bytes at `p`. -/
def ClientCall.Spares (c : ClientCall β) (P : Platform β) (p len : Nat) : Prop :=
  match c with
  | .posixMemalign out _ _ => out + P.ptrBytes ≤ p ∨ p + len ≤ out
  | .realloc q _ => q ≠ p
  | .free q => q ≠ p
  | .store a _ => a < p ∨ p + len ≤ a
  | _ => True

/-- Blocks stay apart. -/
theorem ClientStep.apart (step : ClientStep P s l s') (apart : s.Apart) : s'.Apart := by
  cases step with
  | malloc allocates => exact allocates.apart apart
  | calloc allocates => exact allocates.apart apart
  | reallocNull allocates => exact allocates.apart apart
  | reallocZero _ => exact apart.erase _
  | realloc _ _ reallocates => exact reallocates.apart apart
  | free => exact apart.erase _
  | alignedAlloc _ allocates => exact allocates.apart apart
  | memalign _ allocates => exact allocates.apart apart
  | posixInvalid _ => exact apart
  | posixFull _ _ => exact apart
  | posix _ _ allocates => exact (allocates.apart apart).write _ _
  | valloc allocates => exact allocates.apart apart
  | pvalloc allocates => exact allocates.apart apart
  | store => exact apart.store _ _

/-- A block keeps its place and its contents over the calls that spare it. -/
theorem ClientStep.keeps (step : ClientStep P s l s') (found : s p = some b)
    (spares : l.1.Spares P p b.length)
    : s' p = some b := by
  cases step with
  | malloc allocates => exact allocates.keeps found
  | calloc allocates => exact allocates.keeps found
  | reallocNull allocates => exact allocates.keeps found
  | reallocZero _ => rwa [Blocks.erase_other _ (Ne.symm spares)]
  | realloc _ _ reallocates => exact reallocates.keeps (Ne.symm spares) found
  | free => rwa [Blocks.erase_other _ (Ne.symm spares)]
  | alignedAlloc _ allocates => exact allocates.keeps found
  | memalign _ allocates => exact allocates.keeps found
  | posixInvalid _ => exact found
  | posixFull _ _ => exact found
  | posix _ _ allocates =>
      exact Blocks.write_outside (allocates.keeps found) (by rw [P.pointer_length]; exact spares)
  | valloc allocates => exact allocates.keeps found
  | pvalloc allocates => exact allocates.keeps found
  | store => exact Blocks.store_outside found spares

/-- In a run blocks stay apart, and a block is left alone until a call releases it, resizes it
or stores into it.
-/
theorem ClientStep.run_apart (run : Run (ClientStep P) s ls s') (apart : s.Apart)
    : s'.Apart :=
  run.keeps (P := Blocks.Apart) (fun _ held step => step.apart held) apart

theorem ClientStep.run_keeps (run : Run (ClientStep P) s ls s') (found : s p = some b)
    (spares : ∀ l ∈ ls, l.1.Spares P p b.length)
    : s' p = some b :=
  run.keeps (P := fun t => t p = some b) (fun mem held step => step.keeps held (spares _ mem)) found

end ClientSteps

end Bbmalloc.Foundations
