import Bbmalloc.Malloc.Redzones
import Bbmalloc.World.Runs

/-! Redzone verdicts over whole runs of the public interface: the check of a live block fails
if and only if the client overwrote a byte of its redzone since the allocator last wrote it.
-/

namespace Bbmalloc

open Bbmalloc.Foundations

-----------------------------------------------------------------------------------------
-- What a call hands out
-----------------------------------------------------------------------------------------

/-- The block that a call returned, if it did. -/
def Exit.chunk : Exit Chunk → Option Chunk
  | .returned d => if d.ptr = 0 then none else some d
  | _ => none

theorem Exit.chunk_eq_some {e : Exit Chunk} {d : Chunk}
    : e.chunk = some d ↔ e = .returned d ∧ d.ptr ≠ 0 := by
  cases e with
  | returned c =>
      simp only [chunk, returned.injEq]
      split
      · next null =>
          refine ⟨fun wrong => (by cases wrong), ?_⟩
          rintro ⟨rfl, notNull⟩
          exact absurd null notNull
      · next notNull =>
          rw [Option.some.injEq]
          exact ⟨fun same => ⟨same, same ▸ notNull⟩, And.left⟩
  | threw => simp [chunk]
  | halted => simp [chunk]

/-- The block that a public call hands out, with the length `__finish` reports for it; the
container adapter advertises another length for the same block.
-/
def World.granted {C : Config} (w : World C) : Op → Option Chunk
  | .balloc size => (w.heap.balloc size).2.chunk
  | .zalloc size => (w.heap.zalloc size).2.chunk
  | .alignedBalloc alignment size => (w.heap.alignedBalloc alignment size).2.chunk
  | .resize old size preserve alignment => (w.heap.resize old size preserve alignment).2.chunk
  | .create bytes alignment =>
      if bytes = 0 then none else (w.heap.allocFor bytes alignment).2.chunk
  | .containerResize old bytes preserve alignment =>
      if bytes = 0 then none else (w.heap.resize old bytes preserve alignment).2.chunk
  | _ => none

section Granted

variable {C : Config} {l : Ledger} {s : HeapState C} {c : HeapState C × Exit Chunk} {d : Chunk}
  {old : Chunk} {asked size preserve a p : Nat} {made : Option Nat}

/-- An allocation notes the block it returns, together with its redzone. -/
theorem Ledger.noteExit_chunk (l : Ledger) (returned : c.2.chunk = some d) (asked : Nat)
    (made : Option Nat)
    : ∃ g, l.noteExit c asked made d.ptr = some g ∧ g.block.len = d.len + C.rz := by
  obtain ⟨result, notNull⟩ := Exit.chunk_eq_some.mp returned
  simp only [noteExit, result, note, if_neg notNull, Function.update_self]
  exact ⟨_, rfl, rfl⟩

/-- An allocation notes nothing else. -/
theorem Ledger.noteExit_other (l : Ledger) (other : ∀ d, c.2.chunk = some d → d.ptr ≠ p)
    (asked : Nat) (made : Option Nat)
    : l.noteExit c asked made p = l p := by
  cases result : c.2 with
  | returned d =>
      simp only [noteExit, result, note]
      split
      · rfl
      · next notNull =>
          exact Function.update_of_ne
            (other d (Exit.chunk_eq_some.mpr ⟨result, notNull⟩)).symm _ _
  | threw => simp only [noteExit, result]
  | halted => simp only [noteExit, result]

/-- A release notes nothing about blocks that stay. -/
theorem Ledger.release_live {q : Nat} (live : l.release s q p ≠ none) : l.release s q p = l p := by
  rw [release] at live ⊢
  split
  · next released =>
      rw [if_pos released] at live
      by_cases here : p = q
      · subst here
        exact absurd (Ledger.erase_same l p) live
      · exact Ledger.erase_other l here
  · rfl

/-- A resize notes the block it returns. -/
theorem Ledger.reshape_returned (l : Ledger)
    (returned : (s.resize old size preserve a).2.chunk = some d) (made : Option Nat)
    : ∃ g, l.reshape s old size preserve a made d.ptr = some g ∧ g.block.len = d.len + C.rz := by
  obtain ⟨result, notNull⟩ := Exit.chunk_eq_some.mp returned
  rw [Ledger.reshape_chunk (q := d.ptr) (n := d.len) result notNull, Function.update_self]
  exact ⟨_, rfl, rfl⟩

/-- A resize notes nothing about blocks that stay and that it does not return. -/
theorem Ledger.reshape_other
    (other : ∀ d, (s.resize old size preserve a).2.chunk = some d → d.ptr ≠ p)
    (live : l.reshape s old size preserve a made p ≠ none)
    : l.reshape s old size preserve a made p = l p := by
  rw [reshape] at live ⊢
  cases result : (s.resize old size preserve a).2 with
  | returned d =>
      simp only [result] at live ⊢
      by_cases notNull : d.ptr ≠ 0
      · have away : d.ptr ≠ p := other d (Exit.chunk_eq_some.mpr ⟨result, notNull⟩)
        simp only [if_pos notNull, note, if_neg notNull] at live ⊢
        rw [Function.update_of_ne away.symm] at live ⊢
        by_cases here : p = old.ptr
        · subst here
          exact absurd (Ledger.erase_same l _) live
        · exact Ledger.erase_other l here
      · simp only [if_neg notNull] at live ⊢
        split
        · next released =>
            rw [if_pos released] at live
            exact Ledger.release_live live
        · rfl
  | threw => rfl
  | halted => rfl

end Granted

-----------------------------------------------------------------------------------------
-- Blocks that a step does not hand out
-----------------------------------------------------------------------------------------

section Still

variable {C : Config} {w w' : World C} {v : Nat → RegionView} {op : Op} {p : Nat} {g : Grant}
  {old : Chunk} {size preserve a : Nat} {made : Option Nat}

/-- A release that leaves its block live writes nothing into it. -/
theorem Freed.still (freed : Freed w.heap v w.ledger.blocks p (w.heap.bbDealloc p))
    (known : w.ledger p = some g) (live : w.ledger.release w.heap p p ≠ none)
    : ∀ x, p ≤ x → x < p + g.block.len → (w.heap.bbDealloc p).1.mem x = w.heap.mem x := by
  have block := Ledger.blocks_eq_some.mpr ⟨g, known, rfl⟩
  cases freed with
  | null _ result => exact fun x _ _ => by rw [result]
  | bad _ _ step _ => exact fun x lo hi => step.kept_mem block lo hi
  | tripped _ _ _ step => exact fun x lo hi => step.kept_mem block lo hi
  | freed _ result _ =>
      rw [Ledger.release, if_pos result] at live
      exact absurd (Ledger.erase_same _ _) live

/-- A resize that leaves its block live without returning it writes nothing into it. -/
theorem WorldInv.resize_still (h : WorldInv w) (fits : C.PoolFits) (supply : w.heap.Supplied)
    (goes : (w.heap.resize old size preserve a).2.goesOn = true)
    (known : w.ledger old.ptr = some g)
    (other : ∀ d, (w.heap.resize old size preserve a).2.chunk = some d → d.ptr ≠ old.ptr)
    (live : w.ledger.reshape w.heap old size preserve a made old.ptr ≠ none)
    : ∀ x, old.ptr ≤ x → x < old.ptr + g.block.len →
        (w.heap.resize old size preserve a).1.mem x = w.heap.mem x := by
  obtain ⟨v, rep⟩ := h.rep
  have block := Ledger.blocks_eq_some.mpr ⟨g, known, rfl⟩
  have notNull : old.ptr ≠ 0 := by
    intro null
    rw [null, h.null_unused] at known
    cases known
  cases rep.resize fits supply old size preserve a with
  | ignored _ result => exact fun x _ _ => by rw [result]
  | allocated null _ => exact absurd null notNull
  | released zero pow state result freed =>
      rw [state]
      refine freed.still known ?_
      rcases result with returned | halted
      · rw [Ledger.reshape, returned] at live
        simpa [Chunk.null, pow, zero] using live
      · rw [halted] at goes
        cases goes
  | bad _ _ _ step _ => exact fun x lo hi => step.kept_mem block lo hi
  | reshaped _ reshaped =>
      cases reshaped with
      | refused _ step => exact fun x lo hi => step.kept_mem block lo hi
      | @inPlace b m v' _ chunk _ _ _ _ _ _ _ _ =>
          exact absurd rfl
            (other ⟨old.ptr, m - C.rz⟩ (Exit.chunk_eq_some.mpr ⟨chunk, notNull⟩))
      | @moved b d q v' _ chunk notNull' _ unused _ _ _ _ =>
          rw [Ledger.reshape_chunk chunk notNull'] at live
          have away : old.ptr ≠ q := by
            rintro rfl
            rw [Ledger.blocks_eq_none.mp unused] at known
            cases known
          rw [Function.update_of_ne away] at live
          exact absurd (Ledger.erase_same _ _) live

end Still

namespace World

section Steps

variable {C : Config} {w w' : World C} {op : Op} {p : Nat} {g : Grant}

/-- A public call that hands a block out notes it with its redzone, which is intact. -/
theorem granted_fenced (h : WorldInv w) (fits : C.PoolFits) (allowed : w.Allowed op)
    (next : w.step op = some w') {d : Chunk} (granted : w.granted op = some d)
    : (∃ g, w'.ledger d.ptr = some g ∧ g.block.len = d.len + C.rz)
      ∧ w'.heap.Fenced d.ptr d.len := by
  obtain ⟨v, rep⟩ := h.rep
  cases op with
  | balloc size =>
      obtain ⟨_, rfl⟩ := World.next_some next
      obtain ⟨result, notNull⟩ := Exit.chunk_eq_some.mp granted
      exact ⟨w.ledger.noteExit_chunk granted _ _, w.heap.balloc_fences size d result notNull⟩
  | zalloc size =>
      obtain ⟨_, rfl⟩ := World.next_some next
      obtain ⟨result, notNull⟩ := Exit.chunk_eq_some.mp granted
      exact ⟨w.ledger.noteExit_chunk granted _ _, w.heap.zalloc_fences size d result notNull⟩
  | alignedBalloc a size =>
      obtain ⟨_, rfl⟩ := World.next_some next
      obtain ⟨result, notNull⟩ := Exit.chunk_eq_some.mp granted
      exact ⟨w.ledger.noteExit_chunk granted _ _,
        w.heap.alignedBalloc_fences a size d result notNull⟩
  | resize old size preserve a =>
      obtain ⟨_, rfl⟩ := World.next_some next
      obtain ⟨result, notNull⟩ := Exit.chunk_eq_some.mp granted
      exact ⟨w.ledger.reshape_returned granted _,
        rep.resize_fences fits allowed old size preserve a d result notNull⟩
  | create bytes a =>
      obtain ⟨_, rfl⟩ := World.next_some next
      by_cases zero : bytes = 0
      · simp [World.granted, zero] at granted
      · simp only [World.granted, zero, if_false] at granted
        obtain ⟨result, notNull⟩ := Exit.chunk_eq_some.mp granted
        simp only [HeapState.create, zero, if_false, HeapState.andThen_advertise]
        exact ⟨w.ledger.noteExit_chunk granted _ _,
          w.heap.allocFor_fences bytes a d result notNull⟩
  | containerResize old bytes preserve a =>
      obtain ⟨_, rfl⟩ := World.next_some next
      by_cases zero : bytes = 0
      · simp [World.granted, zero] at granted
      · simp only [World.granted, zero, if_false] at granted
        obtain ⟨result, notNull⟩ := Exit.chunk_eq_some.mp granted
        simp only [HeapState.containerResize, zero, if_false, HeapState.andThen_advertise]
        exact ⟨w.ledger.reshape_returned granted _,
          rep.resize_fences fits allowed old bytes preserve a d result notNull⟩
  | _ => cases granted

/-- A public step notes nothing about a block that stays and that it does not hand out. -/
theorem step_other (kind : op.isPublic = true) (next : w.step op = some w')
    (other : ∀ d, w.granted op = some d → d.ptr ≠ p) (live : w'.ledger p ≠ none)
    : w'.ledger p = w.ledger p := by
  cases op with
  | heapAlloc | heapAllocAligned | heapDealloc | shrinkAt | growAt | heapLargestFree => cases kind
  | reset =>
      cases Option.some.inj next
      exact absurd rfl live
  | balloc size =>
      obtain ⟨_, rfl⟩ := World.next_some next
      exact w.ledger.noteExit_other other _ _
  | zalloc size =>
      obtain ⟨_, rfl⟩ := World.next_some next
      exact w.ledger.noteExit_other other _ _
  | alignedBalloc a size =>
      obtain ⟨_, rfl⟩ := World.next_some next
      exact w.ledger.noteExit_other other _ _
  | dealloc q =>
      obtain ⟨_, rfl⟩ := World.next_some next
      exact Ledger.release_live live
  | destroy q =>
      obtain ⟨_, rfl⟩ := World.next_some next
      exact Ledger.release_live live
  | resize old size preserve a =>
      obtain ⟨_, rfl⟩ := World.next_some next
      exact Ledger.reshape_other other live
  | create bytes a =>
      obtain ⟨_, rfl⟩ := World.next_some next
      by_cases zero : bytes = 0
      · simp only [zero, if_true]
      · simp only [World.granted, zero, if_false] at other ⊢
        exact w.ledger.noteExit_other other _ _
  | containerResize old bytes preserve a =>
      obtain ⟨_, rfl⟩ := World.next_some next
      by_cases zero : bytes = 0
      · simp only [zero, if_true] at live ⊢
        exact Ledger.release_live live
      · simp only [World.granted, zero, if_false] at other live ⊢
        exact Ledger.reshape_other other live
  | _ =>
      cases Option.some.inj next
      rfl

/-- A public step writes nothing into a block that stays and that it does not hand out. -/
theorem step_still (h : WorldInv w) (fits : C.PoolFits) (kind : op.isPublic = true)
    (allowed : w.Allowed op) (next : w.step op = some w') (calls : ∀ a b, op ≠ .store a b)
    (known : w'.ledger p = some g) (other : ∀ d, w.granted op = some d → d.ptr ≠ p)
    : w.ledger p = some g
      ∧ ∀ a, p ≤ a → a < p + g.block.len → w'.heap.mem a = w.heap.mem a := by
  have live : w'.ledger p ≠ none := by simp [known]
  have before : w.ledger p = some g := (step_other kind next other live).symm.trans known
  refine ⟨before, ?_⟩
  by_cases target : op.resizes = true ∧ op.target = some p
  swap
  · exact ((h.effect fits allowed next calls).frame before live
      (fun resizes same => target ⟨resizes, same⟩)).2
  obtain ⟨resizes, target⟩ := target
  obtain ⟨v, rep⟩ := h.rep
  cases op with
  | resize old size preserve a =>
      obtain ⟨goes, rfl⟩ := World.next_some next
      cases target
      exact h.resize_still fits allowed goes before other live
  | containerResize old bytes preserve a =>
      obtain ⟨goes, rfl⟩ := World.next_some next
      cases target
      by_cases zero : bytes = 0
      · have state : (w.heap.containerResize old bytes preserve a).1
            = (w.heap.bbDealloc old.ptr).1 := by
          simp only [HeapState.containerResize, zero, if_true, w.heap.destroy_eq, HeapState.andThen]
          cases (w.heap.bbDealloc old.ptr).2 <;> rfl
        simp only [zero, if_true] at live
        rw [state]
        exact (rep.bbDealloc fits (fun _ => (allowed : w.heap.Supplied).now) old.ptr).still before
          live
      · simp only [HeapState.containerResize, World.granted, zero, if_false] at goes other live ⊢
        obtain ⟨state, on⟩ := HeapState.andThen_advertise
          (w.heap.resize old bytes preserve a) bytes a
        rw [state]
        exact h.resize_still fits allowed (on goes) before other live
  | shrinkAt => cases kind
  | growAt => cases kind
  | _ => cases resizes

end Steps

end World

-----------------------------------------------------------------------------------------
-- Watched runs
-----------------------------------------------------------------------------------------

/-- A world together with what the client did to its redzones: for every address the byte
that the client last stored there since the allocator last wrote a redzone over it.
-/
structure Watch (C : Config) where
  world : World C
  touched : Nat → Option UInt8

namespace Watch

variable {C : Config}

/-- What is touched after a step: a store of the client touches a byte, and a block that is
handed out gets a redzone that nobody has touched.
-/
def after (w : Watch C) : Op → Nat → Option UInt8
  | .store a b => Function.update w.touched a (some b)
  | op =>
    match w.world.granted op with
    | some d => fun a => if d.ptr + d.len ≤ a ∧ a < d.ptr + d.len + C.rz then none else w.touched a
    | none => w.touched

def step (w : Watch C) (op : Op) : Option (Watch C) :=
  (w.world.step op).map (fun w' => ⟨w', w.after op⟩)

/-- The watched runs of the public interface from program start, with clients that store into
live blocks, their redzones included, and outside the regions.
-/
inductive Watched {C : Config} : Watch C → Prop
  | start {m : Memory} (fits : C.PoolFits) (clean : ∀ a, C.Static a → (m a).byte = 0)
      : Watched ⟨⟨HeapState.zero C m, fun _ => none⟩, fun _ => none⟩
  | step {w w' : Watch C} {op : Op} (before : Watched w) (kind : op.isPublic = true)
      (allowed : w.world.Allowed op) (next : w.step op = some w')
      : Watched w'

/-- The redzone of a block of `len` bytes at `p`. -/
def InRedzone (C : Config) (p len a : Nat) : Prop := p + (len - C.rz) ≤ a ∧ a < p + len

/-- Every byte of a live redzone is what the client stored there last, or else the pattern. -/
def Faithful (w : Watch C) : Prop :=
  ∀ p g a, w.world.ledger p = some g → InRedzone C p g.block.len a →
    (w.world.heap.mem a).byte = (w.touched a).getD HeapState.redzoneByte

section Runs

variable {w w' : Watch C} {op : Op}

theorem step_some (next : w.step op = some w')
    : w.world.step op = some w'.world ∧ w'.touched = w.after op := by
  obtain ⟨v, done, rfl⟩ := Option.map_eq_some_iff.mp next
  exact ⟨done, rfl⟩

/-- A watched run is a run of the public interface. -/
theorem Watched.reached (watched : Watched w)
    : World.Reached (fun op => op.isPublic = true) w.world := by
  induction watched with
  | start fits clean => exact .start fits clean
  | step _ kind allowed next ih => exact .step ih kind allowed (step_some next).1

/-- A call that hands a block out clears the record of its redzone. -/
theorem after_granted (calls : ∀ a b, op ≠ .store a b) {d : Chunk}
    (granted : w.world.granted op = some d) (a : Nat)
    : w.after op a
      = if d.ptr + d.len ≤ a ∧ a < d.ptr + d.len + C.rz then none else w.touched a := by
  cases op with
  | store a b => exact absurd rfl (calls a b)
  | _ => simp only [after, granted]

/-- Every other call leaves the record alone. -/
theorem after_quiet (calls : ∀ a b, op ≠ .store a b) (quiet : w.world.granted op = none)
    : w.after op = w.touched := by
  cases op with
  | store a b => exact absurd rfl (calls a b)
  | _ => simp only [after, quiet]

/-- A store of the client keeps the record faithful. -/
theorem Faithful.store (faithful : Faithful w) {a : Nat} {b : UInt8}
    (next : w.step (.store a b) = some w')
    : Faithful w' := by
  obtain ⟨done, touched⟩ := step_some next
  have world : w'.world
      = ⟨{ w.world.heap with mem := w.world.heap.mem.store a b }, w.world.ledger⟩ :=
    (Option.some.inj done).symm
  intro p g x known within
  rw [world] at known ⊢
  rw [touched]
  by_cases here : x = a
  · subst here
    simp [after]
  · simp only [after, Function.update_of_ne here, Memory.store_of_ne _ _ here]
    exact faithful p g x known within

/-- A call keeps the record faithful: a block that is handed out has an intact redzone, and
nothing is written into any other block.
-/
theorem Faithful.call (faithful : Faithful w) (h : WorldInv w.world) (fits : C.PoolFits)
    (kind : op.isPublic = true) (allowed : w.world.Allowed op) (next : w.step op = some w')
    (calls : ∀ a b, op ≠ .store a b)
    : Faithful w' := by
  obtain ⟨done, touched⟩ := step_some next
  obtain ⟨v', rep'⟩ := (World.inv_step h fits allowed done).rep
  intro p g x known ⟨lo, hi⟩
  rw [touched]
  by_cases handed : ∃ d, w.world.granted op = some d ∧ d.ptr = p
  · obtain ⟨d, granted, rfl⟩ := handed
    obtain ⟨⟨g', known', len⟩, fenced⟩ := World.granted_fenced h fits allowed done granted
    cases known.symm.trans known'
    have within : d.ptr + d.len ≤ x ∧ x < d.ptr + d.len + C.rz := by omega
    have clean : w.after op x = none := by
      rw [after_granted calls granted, if_pos within]
    have pattern := fenced (x - (d.ptr + d.len)) (by omega)
    rw [Nat.add_sub_cancel' within.1] at pattern
    rw [clean]
    exact pattern
  · have other : ∀ d, w.world.granted op = some d → d.ptr ≠ p := fun d granted here =>
      handed ⟨d, granted, here⟩
    obtain ⟨before, same⟩ := World.step_still h fits kind allowed done calls known other
    rw [same x (by omega) hi]
    rw [faithful p g x before ⟨lo, hi⟩]
    cases granted : w.world.granted op with
    | none => rw [after_quiet calls granted]
    | some d =>
        obtain ⟨⟨g', known', len⟩, _⟩ := World.granted_fenced h fits allowed done granted
        have apart := rep'.disjoint (Ledger.blocks_eq_some.mpr ⟨g, known, rfl⟩)
          (Ledger.blocks_eq_some.mpr ⟨g', known', rfl⟩) (other d granted).symm
        rw [after_granted calls granted, if_neg (by omega)]

/-- Every watched run keeps the record faithful. -/
theorem Watched.faithful (watched : Watched w) : Faithful w := by
  induction watched with
  | start _ _ => exact fun p g a known => by cases known
  | @step w w' op before kind allowed next ih =>
      by_cases store : ∃ a b, op = .store a b
      · obtain ⟨a, b, rfl⟩ := store
        exact ih.store next
      · exact ih.call before.reached.inv before.reached.fits kind allowed next
          (fun a b same => store ⟨a, b, same⟩)

end Runs

-----------------------------------------------------------------------------------------
-- Verdicts
-----------------------------------------------------------------------------------------

section Verdicts

variable {C : Config} {w : Watch C}

/-- Redzone verdicts are exact. In every watched run, for every live block: `locate` reports
its length, which leaves room for a redzone behind what `query_size` reports; the check that
`dealloc` and `resize` make at that place fails if and only if some byte of the redzone was
last stored by the client, since the allocator last wrote the redzone, and not as the pattern;
and the redzone meets no other live block. A call that hands a block out reports the length in
front of the redzone.
-/
theorem Watched.redzone_verdicts (watched : Watched w)
    : (∀ p g, w.world.ledger p = some g →
        (w.world.heap.locate p).1 = w.world.heap
        ∧ (w.world.heap.locate p).2.len = g.block.len
        ∧ C.rz < g.block.len
        ∧ (w.world.heap.querySize p).2 + C.rz = g.block.len
        ∧ ((w.world.heap.locate p).1.verifyRedzone p ((w.world.heap.locate p).2.len - C.rz) = false
          ↔ ∃ a b, InRedzone C p g.block.len a ∧ w.touched a = some b
            ∧ b ≠ HeapState.redzoneByte)
        ∧ ∀ q d a, w.world.ledger q = some d → q ≠ p → InRedzone C p g.block.len a →
          ¬(q ≤ a ∧ a < q + d.block.len))
      ∧ ∀ op w' d, op.isPublic = true → w.world.Allowed op → w.step op = some w' →
        w.world.granted op = some d →
        ∃ g, w'.world.ledger d.ptr = some g ∧ g.block.len = d.len + C.rz := by
  have reached := watched.reached
  obtain ⟨⟨v, rep⟩, sane⟩ := reached.inv
  refine ⟨fun p g known => ?_, fun op w' d _ allowed next granted =>
    (World.granted_fenced reached.inv reached.fits allowed (step_some next).1 granted).1⟩
  have block := Ledger.blocks_eq_some.mpr ⟨g, known, rfl⟩
  obtain ⟨i, less, _⟩ := rep.held_inside block
  obtain ⟨same, found⟩ := rep.locate (rep.inited_of_count (by omega)) p
  obtain ⟨len, live, _⟩ := found.held_len rep block
  have padded := reached.padded (fun _ => id) p g known
  have enough := (sane p g known).enough
  refine ⟨same, len, by omega, ?_, ?_, fun q d a known' differ ⟨lo, hi⟩ inside => ?_⟩
  · rw [HeapState.querySize]
    simp only
    rw [if_neg live, len]
    omega
  · rw [same, len, ← Bool.not_eq_true, HeapState.verifyRedzone_iff, HeapState.Fenced]
    constructor
    · intro broken
      by_contra clean
      refine broken (fun j below => ?_)
      have within : InRedzone C p g.block.len (p + (g.block.len - C.rz) + j) := by
        constructor <;> omega
      rw [watched.faithful p g _ known within]
      cases touched : w.touched (p + (g.block.len - C.rz) + j) with
      | none => rfl
      | some b =>
          by_contra odd
          exact clean ⟨_, b, within, touched, odd⟩
    · rintro ⟨a, b, ⟨lo, hi⟩, touched, odd⟩ fenced
      have pattern := fenced (a - (p + (g.block.len - C.rz))) (by omega)
      rw [Nat.add_sub_cancel' lo, watched.faithful p g a known ⟨lo, hi⟩, touched] at pattern
      exact odd pattern
  · have apart := rep.disjoint block (Ledger.blocks_eq_some.mpr ⟨d, known', rfl⟩) differ.symm
    omega

end Verdicts

-----------------------------------------------------------------------------------------
-- A build with redzones
-----------------------------------------------------------------------------------------

/-- The bare build with redzones of sixteen bytes under the report policy. -/
def fencedBuild : Config :=
  { bareBuild with
    redzone := true
    redzoneSize := 16
    redzoneAction := .report
    redzone_size := by decide +kernel
    redzone_fits := by decide +kernel
    small_with_redzone := by decide +kernel }

/-- The fenced build with one region. -/
def fencedRegion : World fencedBuild :=
  ⟨((HeapState.zero fencedBuild (fun _ => ⟨0, 0⟩)).attach 4096 4224 0 0).1, fun _ => none⟩

/-- One block of 32 usable bytes, with a client that stored a zero into its redzone. -/
def overrunWatch : Watch fencedBuild where
  world :=
    ⟨{ (fencedRegion.heap.balloc 20).1 with
        mem := (fencedRegion.heap.balloc 20).1.mem.store 4310 0 },
      Function.update (fun _ => none) 4272 (some ⟨⟨48, .tlsf⟩, 36, none⟩)⟩
  touched := Function.update (fun _ => none) 4310 (some 0)

theorem overrunWatch_watched : Watched overrunWatch := by
  have started : Watched (⟨⟨HeapState.zero fencedBuild (fun _ => ⟨0, 0⟩), fun _ => none⟩,
      fun _ => none⟩ : Watch fencedBuild) := by
    refine .start ?_ (fun a static => rfl)
    exact ⟨fun _ _ _ same => (by cases same), fun _ _ same => (by cases same)⟩
  have attached : Watched (⟨fencedRegion, fun _ => none⟩ : Watch fencedBuild) := by
    refine .step started (rfl : (Op.attach 4096 4224 0 0).isPublic = true) ?_ rfl
    refine ⟨by decide +kernel, by decide +kernel, fun i less => ?_, fun wrong => (by cases wrong),
      fun wrong => (by cases wrong)⟩
    exact absurd less (Nat.not_lt_zero i)
  have call := World.step_balloc (w := fencedRegion) (n := 20) (d := ⟨4272, 32⟩) (t := .tlsf)
    (by decide +kernel) (by decide) (by decide +kernel)
  have granted : Watched (⟨⟨(fencedRegion.heap.balloc 20).1,
      Function.update (fun _ => none) 4272 (some ⟨⟨48, .tlsf⟩, 36, none⟩)⟩,
      fun _ => none⟩ : Watch fencedBuild) := by
    refine .step attached (rfl : (Op.balloc 20).isPublic = true)
      (World.supplied_of_pageless (fun _ _ => rfl) _) ?_
    have clear : (⟨fencedRegion, fun _ => none⟩ : Watch fencedBuild).after (.balloc 20)
        = fun _ => none := by
      have chunk : fencedRegion.granted (.balloc 20) = some ⟨4272, 32⟩ := by decide +kernel
      funext a
      rw [after_granted (fun _ _ other => by cases other) chunk]
      exact ite_self none
    rw [step, call, Option.map_some, clear]
    rfl
  refine .step granted (rfl : (Op.store 4310 0).isPublic = true) (Or.inl ⟨4272, _, rfl, ?_⟩) rfl
  exact ⟨by decide, by decide +kernel⟩

theorem Watched.redzone_verdicts_small
    : (overrunWatch.world.heap.locate 4272).1.verifyRedzone 4272
        ((overrunWatch.world.heap.locate 4272).2.len - fencedBuild.rz) = false := by
  obtain ⟨verdicts, _⟩ := overrunWatch_watched.redzone_verdicts
  obtain ⟨_, _, _, _, verdict, _⟩ := verdicts 4272 ⟨⟨48, .tlsf⟩, 36, none⟩ rfl
  refine verdict.mpr ⟨4310, 0, ?_, rfl, by decide⟩
  unfold InRedzone
  decide +kernel

end Watch

end Bbmalloc
