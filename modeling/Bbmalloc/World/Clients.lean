import Bbmalloc.Malloc.Clients
import Bbmalloc.World.Resizing

/-! The C interface on reached heaps. What a C program can observe, the blocks that
`query_size` has a length for and the bytes in them, changes over whole runs of its calls as
the C interface allows.
-/

namespace Bbmalloc

open Bbmalloc.Foundations

-----------------------------------------------------------------------------------------
-- Single calls
-----------------------------------------------------------------------------------------

section Calls

variable {C : Config} {s : HeapState C} {v : Nat → RegionView} {held : Nat → Option Block}
  {seen : Blocks UInt8} {p k : Nat}

/-- The byte at `x` is one of those that `query_size` reports for a pointer. -/
def HeapState.Lends {C : Config} (s : HeapState C) (x : Nat) : Prop :=
  ∃ p, p ≤ x ∧ x < p + (s.querySize p).2

/-- A C program stores to bytes of its blocks or to memory of its own, and has
`posix_memalign` store its result there.
-/
def Shim.Allowed (s : HeapState C) : ClientCall UInt8 → Prop
  | .store x _ => s.Lends x ∨ s.Outside x
  | .posixMemalign out a n =>
      out ≠ 0 → ∀ x, out ≤ x → x < out + C.buddy.ptrBytes →
        s.Lends x ∨ (s.alignedBalloc a n).1.Outside x
  | _ => True

/-- The bytes that are lent are those of the blocks on view. -/
theorem Shows.lent (shows : Shows s v held seen) (fits : C.PoolFits) (supply : s.Supplied)
    {x : Nat} (lent : s.Lends x)
    : ∃ p c, seen p = some c ∧ p ≤ x ∧ x < p + c.length := by
  obtain ⟨p, lo, hi⟩ := lent
  have live : (s.locate p).2.len ≠ 0 := by
    intro none
    rw [HeapState.querySize, if_pos none] at hi
    omega
  have known := (shows.inv.locate_live fits supply live).1
  rw [HeapState.querySize, if_neg live] at hi
  exact ⟨p, _, shows.known known, lo, by rw [HeapState.usable_length]; exact hi⟩

/-- Every call of a C program does to the blocks on view what the C interface allows. -/
theorem Shows.exec (shows : Shows s v held seen) (fits : C.PoolFits) (supply : s.Supplied)
    (page : k < C.buddy.wordBits) {c : ClientCall UInt8} (allowed : Shim.Allowed s c)
    : Visible (Shim.exec (2 ^ k) s c) (fun r =>
        ClientStep (C.platform (2 ^ k)) seen (c, r)) := by
  cases c with
  | malloc n =>
      exact ((shows.bbAlloc fits supply n).mono (fun _ _ granted => .malloc granted)).call.map
  | calloc m n =>
      exact ((shows.calloc fits supply m n).mono (fun _ _ granted => .calloc granted)).call.map
  | realloc p n =>
      by_cases null : p = 0
      · subst null
        have call : s.realloc 0 n = s.bbAlloc n := if_pos rfl
        refine Visible.map (Visible.call ?_)
        rw [call]
        exact (shows.bbAlloc fits supply n).mono (fun _ _ granted => .reallocNull granted)
      · refine ((shows.realloc fits supply null n).mono ?_).call.map
        rintro q seen' ⟨released, resized⟩
        rcases Nat.eq_zero_or_pos n with rfl | positive
        · obtain ⟨rfl, rfl⟩ := released rfl
          exact .reallocZero null
        · exact .realloc null positive (resized positive)
  | free p =>
      refine ((shows.free fits supply p).mono ?_).call.map
      rintro _ _ rfl
      exact .free
  | alignedAlloc a n =>
      exact ((shows.alignedAlloc fits supply a n).mono
        (fun _ _ both => .alignedAlloc both.1 both.2)).call.map
  | memalign a n =>
      exact ((shows.alignedPtr fits supply a n).mono
        (fun _ _ both => .memalign both.1 both.2)).call.map
  | posixMemalign out a n =>
      refine Visible.map (R := fun r => ClientStep (C.platform (2 ^ k)) seen
        (.posixMemalign out a n, r)) (shows.posixMemalign fits supply _ a n ?_)
      exact fun some x lo hi => (allowed some x lo hi).imp (shows.lent fits supply) id
  | valloc n =>
      exact ((shows.alignedPtr fits supply _ n).mono (fun _ _ both => .valloc both.2)).call.map
  | pvalloc n =>
      exact ((shows.pvalloc fits supply page n).mono (fun _ _ granted => .pvalloc granted)).map
  | store x w =>
      intro r returned
      cases returned
      refine ⟨v, held, _, shows.store ?_, .store⟩
      refine Or.imp (fun lent => ?_) id allowed
      obtain ⟨p, c, found, lo, hi⟩ := shows.lent fits supply lent
      obtain ⟨b, known, rfl⟩ := shows.of_seen found
      rw [HeapState.usable_length] at hi
      exact ⟨p, b, known, lo, by omega⟩

end Calls

-----------------------------------------------------------------------------------------
-- Runs
-----------------------------------------------------------------------------------------

/-- The blocks that a C program can observe: `query_size` has a length for their pointers. -/
def HeapState.observed {C : Config} (s : HeapState C) : Blocks UInt8 := fun p =>
  if (s.querySize p).2 = 0 then none else some (s.contents p (s.querySize p).2)

/-- A call of a C program that returns, with its answer. -/
def Shim.Steps {C : Config} (page : Nat) (s : HeapState C) (l : ClientCall UInt8 × ClientAnswer)
    (s' : HeapState C)
    : Prop :=
  s.Supplied ∧ Shim.Allowed s l.1 ∧ Shim.exec page s l.1 = (s', .returned l.2)

section Runs

variable {C : Config} {s s' : HeapState C} {v : Nat → RegionView} {held : Nat → Option Block}
  {seen : Blocks UInt8} {p k : Nat} {l : ClientCall UInt8 × ClientAnswer}
  {ls : List (ClientCall UInt8 × ClientAnswer)}

/-- The blocks on view are those that can be observed. -/
theorem Shows.observed (shows : Shows s v held seen) (fits : C.PoolFits) (supply : s.Supplied)
    : s.observed = seen := by
  funext p
  rw [HeapState.observed, HeapState.querySize, shows.blocks]
  by_cases live : (s.locate p).2.len = 0
  · rw [if_pos live, if_pos rfl]
    cases known : held p with
    | none => rfl
    | some b =>
        obtain ⟨_, first, _, found, _⟩ := shows.inv.locate_ready fits (fun _ => supply.now) p
        exact absurd live (found.held_len first.inv known).2.1
  · obtain ⟨known, _⟩ := shows.inv.locate_live fits supply live
    have := shows.padded p _ known
    rw [if_neg live, known, if_neg (by simp only at this; omega)]
    rfl

theorem Shim.steps_exec {page : Nat} {c : ClientCall UInt8} {r : ClientAnswer}
    (supply : s.Supplied) (allowed : Shim.Allowed s c)
    (returned : (Shim.exec page s c).2 = .returned r)
    : Shim.Steps page s (c, r) (Shim.exec page s c).1 :=
  ⟨supply, allowed, Prod.ext rfl returned⟩

/-- A call that returns is one that the C interface allows. -/
theorem Shim.Steps.matched (step : Shim.Steps (2 ^ k) s l s') (fits : C.PoolFits)
    (page : k < C.buddy.wordBits) (shows : Shows s v held seen)
    : ∃ seen', ClientStep (C.platform (2 ^ k)) seen l seen'
        ∧ ∃ v held, Shows s' v held seen' := by
  obtain ⟨supply, allowed, result⟩ := step
  obtain ⟨v', held', seen', shows', here⟩ := shows.exec fits supply page allowed l.2
    (by rw [result])
  rw [result] at shows'
  exact ⟨seen', here, v', held', shows'⟩

theorem Shim.run_supplied {page : Nat} (run : Run (Shim.Steps page) s ls s')
    (supply : s'.Supplied)
    : s.Supplied := by
  cases run with
  | nil => exact supply
  | cons first _ => exact first.1

/-- The calls of a run take what can be observed at its start to what can be observed at its
end.
-/
theorem Shows.run (shows : Shows s v held seen) (fits : C.PoolFits) (page : k < C.buddy.wordBits)
    (run : Run (Shim.Steps (2 ^ k)) s ls s') (supply : s'.Supplied)
    : Run (ClientStep (C.platform (2 ^ k))) s.observed ls s'.observed := by
  obtain ⟨seen', run', v', held', shows'⟩ := run.simulate
    (R := fun s seen => ∃ v held, Shows s v held seen)
    (fun ⟨_, _, shows⟩ step => step.matched fits page shows) ⟨v, held, shows⟩
  rw [shows.observed fits (Shim.run_supplied run supply), shows'.observed fits supply]
  exact run'

end Runs

namespace World

section Interface

variable {C : Config} {ok : Op → Prop} {w : World C} {s' : HeapState C} {k : Nat}
  {ls : List (ClientCall UInt8 × ClientAnswer)}

/-- What the clients of a world of the public interface see. -/
theorem Reached.shows (reached : Reached ok w) (isPublic : ∀ op, ok op → op.isPublic = true)
    : ∃ v seen, Shows w.heap v w.ledger.blocks seen := by
  obtain ⟨⟨v, rep⟩, sane⟩ := reached.inv
  refine ⟨v, _, rep, fun p b known => ?_, fun p => rfl⟩
  obtain ⟨g, granted, rfl⟩ := Ledger.blocks_eq_some.mp known
  have := reached.padded isPublic p g granted
  have := (sane p g granted).enough
  omega

/-- Every run of calls and stores of a C program, from any heap that the public interface
leads to, is one that the C interface allows: what the program observes at its end is what
the calls with these answers may make of what it observed before.
-/
theorem Reached.shim_refines (reached : Reached ok w)
    (isPublic : ∀ op, ok op → op.isPublic = true) (page : k < C.buddy.wordBits)
    (run : Run (Shim.Steps (2 ^ k)) w.heap ls s') (supply : s'.Supplied)
    : Run (ClientStep (C.platform (2 ^ k))) w.heap.observed ls s'.observed := by
  obtain ⟨v, seen, shows⟩ := reached.shows isPublic
  exact shows.run reached.fits page run supply

/-- Zeroed memory, a store into it, an aligned block whose address goes there too, a move to the
large tier, and a release.
-/
theorem Reached.shim_refines_small
    : Run (ClientStep (bareBuild.platform (2 ^ 12))) pairWorld.heap.observed
        [(.calloc 3 10, .ptr 4320), (.store 4320 7, .done),
          (.posixMemalign 4328 64 100, .code 0 (some 5504)), (.realloc 4320 100, .ptr 5632),
          (.free 4272, .done)]
        ([.calloc 3 10, .store 4320 7, .posixMemalign 4328 64 100, .realloc 4320 100,
            .free 4272].foldl
          (fun s c => (Shim.exec (2 ^ 12) s c).1) pairWorld.heap).observed := by
  have supplied : ∀ s : HeapState bareBuild, s.Supplied := supplied_of_pageless (fun _ _ => rfl)
  refine pairWorld_reached.shim_refines (fun _ same => same) (by decide) ?_ (supplied _)
  simp only [List.foldl_cons, List.foldl_nil]
  refine .cons (Shim.steps_exec (supplied _) trivial (by decide +kernel)) ?_
  refine .cons (Shim.steps_exec (supplied _) (.inl ⟨4320, le_rfl, by decide +kernel⟩) rfl) ?_
  refine .cons (Shim.steps_exec (supplied _) (fun _ x lo hi => .inl ⟨4320, by omega, ?_⟩)
    (by decide +kernel)) ?_
  · have room : ∀ i < 8, 4328 + i < 4320 + ((Shim.exec (2 ^ 12) (Shim.exec (2 ^ 12)
        pairWorld.heap (.calloc 3 10)).1 (.store 4320 7)).1.querySize 4320).2 := by
      decide +kernel
    have := room (x - 4328) (by change x < 4328 + 8 at hi; omega)
    omega
  refine .cons (Shim.steps_exec (supplied _) trivial (by decide +kernel)) ?_
  exact .cons (Shim.steps_exec (supplied _) trivial (by decide +kernel)) .nil

/-- In such a run the observed blocks are disjoint, and a block keeps its place, its length and
its contents until a call releases or resizes it or the program stores into it.
-/
theorem Reached.shim_keeps (reached : Reached ok w)
    (isPublic : ∀ op, ok op → op.isPublic = true) (page : k < C.buddy.wordBits)
    (run : Run (Shim.Steps (2 ^ k)) w.heap ls s') (supply : s'.Supplied)
    : s'.observed.Apart
      ∧ ∀ p b, w.heap.observed p = some b →
        (∀ l ∈ ls, l.1.Spares (C.platform (2 ^ k)) p b.length) →
        s'.observed p = some b := by
  obtain ⟨v, seen, shows⟩ := reached.shows isPublic
  have allowed := shows.run reached.fits page run supply
  refine ⟨ClientStep.run_apart allowed ?_, fun p b found spares =>
    ClientStep.run_keeps allowed found spares⟩
  rw [shows.observed reached.fits (Shim.run_supplied run supply)]
  exact shows.apart

end Interface

end World

end Bbmalloc
