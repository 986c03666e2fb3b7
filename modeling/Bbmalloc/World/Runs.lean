import Bbmalloc.World.Effects

/-! Whole runs of the heap with its clients, from program start. Every world reached keeps
the invariant, and a run writes into no block that it is not asked to release or to resize.
-/

namespace Bbmalloc

open Bbmalloc.Foundations

-----------------------------------------------------------------------------------------
-- Reached worlds
-----------------------------------------------------------------------------------------

namespace World

section Reached

variable {C : Config} {ok : Op → Prop} {w w' : World C} {op : Op} {p : Nat} {g : Grant}

/-- At program start there is no region and no block. -/
theorem inv_start {m : Memory} (clean : ∀ a, C.Static a → (m a).byte = 0)
    : WorldInv (⟨HeapState.zero C m, fun _ => none⟩ : World C) := by
  refine ⟨⟨fun _ => ⟨⟨fun _ => none, fun _ => [], fun _ => []⟩, TlsfView.empty⟩, ?_⟩,
    fun p g known => by cases known⟩
  refine ⟨fun i less => absurd less (Nat.not_lt_zero i),
    fun i less => absurd less (Nat.not_lt_zero i), fun i _ => ⟨rfl, rfl, rfl, rfl, rfl⟩,
    fun i less => absurd less (Nat.not_lt_zero i), Nat.zero_le _, fun _ => rfl,
    fun _ a static => clean a static, ?_⟩
  intro p b
  constructor
  · intro known
    cases known
  · rintro ⟨i, less, _⟩
    exact absurd less (Nat.not_lt_zero i)

/-- The pools of the build fit the address space. -/
theorem Reached.fits (reached : Reached ok w) : C.PoolFits := by
  induction reached with
  | start fits _ => exact fits
  | step _ _ _ _ ih => exact ih

/-- A step keeps the invariant. -/
theorem inv_step (h : WorldInv w) (fits : C.PoolFits) (allowed : w.Allowed op)
    (next : w.step op = some w')
    : WorldInv w' := by
  by_cases store : ∃ a b, op = .store a b
  · obtain ⟨a, b, rfl⟩ := store
    cases Option.some.inj next
    exact h.store allowed b
  · exact (h.effect fits allowed next (fun a b same => store ⟨a, b, same⟩)).inv h

/-- Every world reached keeps the invariant. -/
theorem Reached.inv (reached : Reached ok w) : WorldInv w := by
  induction reached with
  | start _ clean => exact inv_start clean
  | step before _ allowed next ih => exact inv_step ih before.fits allowed next

/-- The effect of a step on a reached world. -/
theorem Reached.effect (reached : Reached ok w) (allowed : w.Allowed op)
    (next : w.step op = some w') (calls : ∀ a b, op ≠ .store a b)
    : Effect w op w' :=
  reached.inv.effect reached.fits allowed next calls

/-- In a run of the public interface every block has room for its redzone. -/
theorem Reached.padded (reached : Reached ok w) (isPublic : ∀ op, ok op → op.isPublic = true)
    : ∀ p g, w.ledger p = some g → C.rz < g.asked := by
  have changed : ∀ {l : Ledger} {p g}, (∀ q d, l q = some d → C.rz < d.asked) →
      C.rz < g.asked → ∀ q d, Function.update l p (some g) q = some d → C.rz < d.asked := by
    intro l p g old new q d known
    by_cases here : q = p
    · subst here
      rw [Function.update_self] at known
      cases known
      exact new
    · rw [Function.update_of_ne here] at known
      exact old q d known
  have erased : ∀ {l : Ledger} {p}, (∀ q d, l q = some d → C.rz < d.asked) →
      ∀ q d, l.erase p q = some d → C.rz < d.asked := by
    intro l p old q d known
    by_cases here : q = p
    · subst here
      rw [Ledger.erase_same] at known
      cases known
    · rw [Ledger.erase_other _ here] at known
      exact old q d known
  induction reached with
  | start _ _ => exact fun p g known => by cases known
  | @step w w' op before kind allowed next ih =>
      by_cases store : ∃ a b, op = .store a b
      · obtain ⟨a, b, rfl⟩ := store
        cases Option.some.inj next
        exact ih
      · have shown := isPublic op kind
        cases before.effect allowed next (fun a b same => store ⟨a, b, same⟩) with
        | kept same _ => exact fun p g known => ih p g (same ▸ known)
        | cleared _ gone _ => exact fun p g known => by rw [gone] at known; cases known
        | added _ _ padded new _ =>
            exact fun p g known => changed ih (padded shown) p g (new ▸ known)
        | dropped _ gone _ => exact fun p g known => erased ih p g (gone ▸ known)
        | changed _ _ _ padded new _ =>
            exact fun p g known => changed ih (padded shown) p g (new ▸ known)
        | moved _ _ _ _ padded new _ =>
            exact fun p g known => changed (erased ih) (padded shown) p g (new ▸ known)

end Reached

end World

-----------------------------------------------------------------------------------------
-- What a step leaves alone
-----------------------------------------------------------------------------------------

section Frames

variable {C : Config} {w w' : World C} {op : Op} {p : Nat} {g : Grant}

/-- A block that is there before and after a step that does not resize it was left alone. -/
theorem Effect.frame (effect : Effect w op w') (held : w.ledger p = some g)
    (after : w'.ledger p ≠ none) (spared : op.resizes = true → op.target ≠ some p)
    : w'.ledger p = some g
        ∧ ∀ a, p ≤ a → a < p + g.block.len → w'.heap.mem a = w.heap.mem a := by
  have block : w.ledger.blocks p = some g.block := Ledger.blocks_eq_some.mpr ⟨g, held, rfl⟩
  have erased : ∀ {q}, p ≠ q → (w.ledger.erase q).blocks p = some g.block := by
    intro q differ
    rw [Ledger.blocks_erase, Function.update_of_ne differ]
    exact block
  cases effect with
  | kept same step =>
      exact ⟨by rw [same]; exact held, fun a lo hi => step.kept_mem block lo hi⟩
  | cleared _ gone _ => exact absurd (by rw [gone]) after
  | @added v' q d unused _ _ new step =>
      have differ : p ≠ q := by
        rintro rfl
        rw [unused] at held
        cases held
      exact ⟨by rw [new, Function.update_of_ne differ]; exact held,
        fun a lo hi => step.kept_mem block lo hi⟩
  | @dropped v' q target gone step =>
      have differ : p ≠ q := by
        rintro rfl
        exact after (by rw [gone, Ledger.erase_same])
      exact ⟨by rw [gone, Ledger.erase_other _ differ]; exact held,
        fun a lo hi => step.kept_mem (erased differ) lo hi⟩
  | @changed v' q d target resizes _ _ new step =>
      have differ : p ≠ q := by
        rintro rfl
        exact spared resizes target
      exact ⟨by rw [new, Function.update_of_ne differ]; exact held,
        fun a lo hi => step.kept_mem (erased differ) lo hi⟩
  | @moved v' q x d target resizes unused _ _ new step =>
      have differ : p ≠ q := by
        rintro rfl
        exact spared resizes target
      have apart : p ≠ x := by
        rintro rfl
        rw [unused] at held
        cases held
      exact ⟨by rw [new, Function.update_of_ne apart, Ledger.erase_other _ differ]; exact held,
        fun a lo hi => step.kept_mem (erased differ) lo hi⟩

/-- A heap that is initialised stays so. -/
theorem Effect.inited (effect : Effect w op w') (ready : w.heap.inited = true)
    : w'.heap.inited = true := by
  cases effect with
  | kept _ step => exact step.inited ready
  | cleared _ _ step => exact step.inited ready
  | added _ _ _ _ step => exact step.inited ready
  | dropped _ _ step => exact step.inited ready
  | changed _ _ _ _ _ step => exact step.inited ready
  | moved _ _ _ _ _ _ step => exact step.inited ready

/-- A block that a step is not asked to release or to resize is there afterwards. -/
theorem Effect.stays (effect : Effect w op w') (held : w.ledger p = some g)
    (reset : op ≠ .reset) (target : op.target ≠ some p)
    : w'.ledger p = some g := by
  refine (effect.frame held ?_ (fun _ => target)).1
  have differ : ∀ {q}, op.target = some q → p ≠ q := by
    rintro q same rfl
    exact target same
  cases effect with
  | kept same _ => simp [same, held]
  | cleared wrong _ _ => exact absurd wrong reset
  | @added v' q d unused _ _ new _ =>
      rw [new]
      by_cases here : p = q
      · simp [here]
      · simp [Function.update_of_ne here, held]
  | @dropped v' q same gone _ =>
      rw [gone, Ledger.erase_other _ (differ same)]
      simp [held]
  | @changed v' q d same _ _ _ new _ =>
      rw [new, Function.update_of_ne (differ same)]
      simp [held]
  | @moved v' q x d same _ _ _ _ new _ =>
      rw [new]
      by_cases here : p = x
      · simp [here]
      · rw [Function.update_of_ne here, Ledger.erase_other _ (differ same)]
        simp [held]

end Frames

namespace World

variable {C : Config} {ok : Op → Prop} {w w' w'' : World C} {op : Op} {p : Nat} {g : Grant}

/-- The step neither releases nor resizes the block at `p`, and it stores nothing there. -/
def Spares (w : World C) (op : Op) (p : Nat) : Prop :=
  op ≠ .reset ∧ op.target ≠ some p
    ∧ ∀ a b, op = .store a b → ∀ g, w.ledger p = some g → ¬(p ≤ a ∧ a < p + g.block.len)

/-- Runs whose steps all spare the block at `p`. -/
inductive SparingRun (p : Nat) (w : World C) : World C → Prop
  | refl : SparingRun p w w
  | step {w' w'' : World C} {op : Op} (before : SparingRun p w w') (allowed : w'.Allowed op)
      (spares : w'.Spares op p) (next : w'.step op = some w'')
      : SparingRun p w w''

/-- A run leaves the blocks alone that its steps spare. -/
theorem SparingRun.frame (run : SparingRun p w w') (h : WorldInv w) (fits : C.PoolFits)
    (held : w.ledger p = some g)
    : WorldInv w' ∧ w'.ledger p = some g
        ∧ ∀ a, p ≤ a → a < p + g.block.len → w'.heap.mem a = w.heap.mem a := by
  induction run with
  | refl => exact ⟨h, held, fun _ _ _ => rfl⟩
  | @step w' w'' op before allowed spares next ih =>
      obtain ⟨inv, known, same⟩ := ih
      refine ⟨inv_step inv fits allowed next, ?_⟩
      by_cases store : ∃ a b, op = .store a b
      · obtain ⟨a, b, rfl⟩ := store
        cases Option.some.inj next
        refine ⟨known, fun x lo hi => (?_ : _ = _).trans (same x lo hi)⟩
        refine Memory.store_of_ne _ _ ?_
        rintro rfl
        exact spares.2.2 x b rfl g known ⟨lo, hi⟩
      · have effect := inv.effect fits allowed next (fun a b same => store ⟨a, b, same⟩)
        have stays := effect.stays known spares.1 spares.2.1
        obtain ⟨_, cells⟩ := effect.frame known (by simp [stays]) (fun _ => spares.2.1)
        exact ⟨stays, fun a lo hi => (cells a lo hi).trans (same a lo hi)⟩

end World

-----------------------------------------------------------------------------------------
-- Runs of the small build
-----------------------------------------------------------------------------------------

namespace World

/-- The bare build at program start, in zeroed memory. -/
def bareStart : World bareBuild := ⟨HeapState.zero bareBuild (fun _ => ⟨0, 0⟩), fun _ => none⟩

/-- The world after some steps, if none of them halts. -/
def run {C : Config} (w : World C) : List Op → Option (World C)
  | [] => some w
  | op :: ops => (w.step op).bind (fun w' => w'.run ops)

/-- Steps that need nothing of the environment but the page source. -/
def Calls (op : Op) : Prop :=
  match op with
  | .attach _ _ _ _ => False
  | .store _ _ => False
  | _ => True

/-- Without a page source nothing can go wrong with pages. -/
theorem supplied_of_pageless {C : Config} (none : ∀ l n, C.pageAlloc l n = .none)
    (s : HeapState C)
    : s.Supplied := by
  have fresh : ∀ t : HeapState C, t.FreshPages := by
    intro t n d served
    rw [none] at served
    cases served
  exact ⟨fresh s, fun _ => fresh _⟩

theorem Calls.allowed {C : Config} {op : Op} (call : Calls op)
    (none : ∀ l n, C.pageAlloc l n = .none) (w : World C)
    : w.Allowed op := by
  have supplied := supplied_of_pageless none w.heap
  cases op with
  | attach => exact call.elim
  | store => exact call.elim
  | _ => exact supplied

/-- A run of calls without a page source leads to a reached world. -/
theorem Reached.run {C : Config} {ok : Op → Prop} (none : ∀ l n, C.pageAlloc l n = .none)
    (ops : List Op)
    : ∀ {w w' : World C}, Reached ok w → (∀ op ∈ ops, ok op ∧ Calls op) →
      w.run ops = some w' → Reached ok w' := by
  induction ops with
  | nil =>
      intro w w' reached _ done
      cases done
      exact reached
  | cons op ops ih =>
      intro w w' reached calls done
      obtain ⟨w₁, first, rest⟩ := Option.bind_eq_some_iff.mp done
      obtain ⟨kind, call⟩ := calls op (by simp)
      exact ih (.step reached kind (call.allowed none w) first)
        (fun op member => calls op (by simp [member])) rest

/-- The bare build with one region. -/
def bareRegion : World bareBuild := ⟨(bareStart.heap.attach 4096 4224 0 0).1, fun _ => none⟩

example : bareRegion.heap.count = 1 := by decide +kernel

theorem bareRegion_reached {ok : Op → Prop} (kind : ok (.attach 4096 4224 0 0))
    : Reached ok bareRegion := by
  refine .step (w := bareStart) (.start ?_ ?_) kind ?_ rfl
  · exact ⟨fun _ _ _ same => (by cases same), fun _ _ same => (by cases same)⟩
  · exact fun a static => rfl
  · refine ⟨by decide +kernel, by decide +kernel, fun i less => ?_, fun wrong => (by cases wrong),
      fun wrong => (by cases wrong)⟩
    exact absurd less (Nat.not_lt_zero i)

/-- Public calls on that build lead to a reached world, if none of them halts. -/
theorem bareRegion_run (ops : List Op) (live : (bareRegion.run ops).isSome = true)
    (calls : ∀ op ∈ ops, op.isPublic = true ∧ Calls op)
    : Reached (fun op => op.isPublic = true) ((bareRegion.run ops).getD bareStart) := by
  obtain ⟨w, done⟩ := Option.isSome_iff_exists.mp live
  rw [done, Option.getD_some]
  have reached : Reached (fun op => op.isPublic = true) bareRegion := bareRegion_reached rfl
  exact reached.run (fun _ _ => rfl) ops calls done

/-- The calls that fill the region with small and large blocks and the order cache. -/
def bareCalls : List Op :=
  [.balloc 20, .balloc 200, .balloc 40, .balloc 70, .dealloc 5504]

/-- The bare build with a region, two small blocks, a large one and a filled order cache. -/
def bareWorld : World bareBuild := (bareRegion.run bareCalls).getD bareStart

theorem bareWorld_reached : Reached (fun op => op.isPublic = true) bareWorld :=
  bareRegion_run bareCalls (by decide +kernel) (by simp [bareCalls, Op.isPublic, Calls])

theorem bareWorld_attached : 0 < bareWorld.heap.count := by
  decide +kernel

/-- An allocation that returns a chunk notes it in the ledger. -/
theorem step_balloc {C : Config} {w : World C} {n : Nat} {d : Chunk} {t : Tier}
    (result : (w.heap.balloc n).2 = .returned d) (live : d.ptr ≠ 0)
    (tier : (w.heap.balloc n).1.tierOf d.ptr = t)
    : w.step (.balloc n) = some ⟨(w.heap.balloc n).1,
        Function.update w.ledger d.ptr (some ⟨⟨d.len + C.rz, t⟩, n + C.rz, none⟩)⟩ := by
  simp only [step, next, result, Exit.goesOn, if_true, Ledger.noteExit, Ledger.note, if_neg live,
    tier]

/-- The bare build with a small block. -/
def soleWorld : World bareBuild where
  heap := (bareRegion.heap.balloc 20).1
  ledger := Function.update (fun _ => none) 4272 (some ⟨⟨32, .tlsf⟩, 20, none⟩)

/-- The bare build with a small block and a large one. -/
def pairWorld : World bareBuild where
  heap := ((bareRegion.heap.balloc 20).1.balloc 200).1
  ledger := Function.update
    (Function.update (fun _ => none) 4272 (some ⟨⟨32, .tlsf⟩, 20, none⟩))
    5248 (some ⟨⟨256, .buddy⟩, 200, none⟩)

/-- The two calls that lead there. -/
theorem pairWorld_steps
    : bareRegion.step (.balloc 20) = some soleWorld
      ∧ soleWorld.step (.balloc 200) = some pairWorld :=
  ⟨step_balloc (w := bareRegion) (n := 20) (d := ⟨4272, 32⟩) (t := .tlsf)
      (by decide +kernel) (by decide) (by decide +kernel),
    step_balloc (w := soleWorld) (n := 200) (d := ⟨5248, 256⟩) (t := .buddy)
      (by decide +kernel) (by decide) (by decide +kernel)⟩

theorem pairWorld_reached : Reached (fun op => op.isPublic = true) pairWorld := by
  have supplied : ∀ s : HeapState bareBuild, s.Supplied := supplied_of_pageless (fun _ _ => rfl)
  exact .step
    (.step (bareRegion_reached rfl) (rfl : (Op.balloc 20).isPublic = true) (supplied _)
      pairWorld_steps.1)
    (rfl : (Op.balloc 200).isPublic = true) (supplied _) pairWorld_steps.2

end World

end Bbmalloc
