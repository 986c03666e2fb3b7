import Bbmalloc.Malloc.Reports
import Bbmalloc.World.Gauges

/-! What the heap tells about itself: its gauges, and the log of a program that uses it. -/

namespace Bbmalloc

open Bbmalloc.Foundations

/-- The machine words among the arguments of a step. -/
def Op.Words (C : Config) : Op → Prop
  | .balloc n => n < C.buddy.word
  | .zalloc n => n < C.buddy.word
  | .alignedBalloc _ n => n < C.buddy.word
  | .create n _ => n < C.buddy.word
  | .dealloc p => p < C.buddy.word
  | .destroy p => p < C.buddy.word
  | .resize old n _ _ => old.ptr < C.buddy.word ∧ n < C.buddy.word
  | .containerResize old n _ _ => old.ptr < C.buddy.word ∧ n < C.buddy.word
  | _ => True

/-- The gauges and the report read a heap that is initialised. -/
theorem WorldInv.ensured {C : Config} {w : World C} (inv : WorldInv w) (fits : C.PoolFits)
    (supply : w.heap.Supplied)
    : (∃ v, HeapInv w.heap.ensure.1 v w.ledger.blocks) ∧ w.heap.ensure.1.inited = true
      ∧ w.heap.ensure.1.used.2 = w.heap.used.2
      ∧ w.heap.ensure.1.available = w.heap.available
      ∧ w.heap.ensure.1.total.2 = w.heap.total.2
      ∧ w.heap.ensure.1.largestFree = w.heap.largestFree
      ∧ w.heap.ensure.1.which = w.heap.which := by
  obtain ⟨v, rep⟩ := inv.rep
  obtain ⟨v', step, ready, _⟩ := rep.ensure fits (fun _ => supply.now)
  have again := HeapState.ensure_ready ready
  exact ⟨⟨v', step.inv⟩, ready, by simp [HeapState.used, again],
    by simp [HeapState.available, again], by simp [HeapState.total, again],
    by simp [HeapState.largestFree, again],
    by simp [HeapState.which, HeapState.regionCount, again]⟩

namespace World

-----------------------------------------------------------------------------------------
-- Gauges
-----------------------------------------------------------------------------------------

section Fragmentation

variable {C : Config} {ok : Op → Prop} {w : World C}

/-- The gauges of the heap are exact sums over its regions and add up to its capacity; they
never wrap.
-/
theorem Reached.gauges_sum (reached : Reached ok w) (supply : w.heap.Supplied)
    : let s := w.heap.ensure.1
      w.heap.used.2 = ∑ i ∈ Finset.range s.count, s.bytesInUse w.ledger.blocks i
        ∧ w.heap.total.2 = ∑ i ∈ Finset.range s.count, (s.geo i).total
        ∧ w.heap.used.2 + w.heap.available.2 = w.heap.total.2
        ∧ w.heap.total.2 < C.buddy.word := by
  intro s
  obtain ⟨⟨v, rep⟩, ready, used, available, total, _⟩ := reached.inv.ensured reached.fits supply
  obtain ⟨usedSum, _, totalSum, sum⟩ := rep.gauges_add ready
  rw [← used, ← available, ← total]
  exact ⟨usedSum, totalSum, sum, totalSum ▸ rep.totals_lt⟩

theorem Reached.gauges_sum_small
    : let s := pairWorld.heap.ensure.1
      pairWorld.heap.used.2
          = ∑ i ∈ Finset.range s.count, s.bytesInUse pairWorld.ledger.blocks i
        ∧ pairWorld.heap.total.2 = ∑ i ∈ Finset.range s.count, (s.geo i).total
        ∧ pairWorld.heap.used.2 + pairWorld.heap.available.2 = pairWorld.heap.total.2
        ∧ pairWorld.heap.total.2 < bareBuild.buddy.word :=
  pairWorld_reached.gauges_sum (supplied_of_pageless (fun _ _ => rfl) _)

/-- The fragmentation gauge. The largest block that can be granted is never larger than what is
available, the gauge is the part of the available bytes that it leaves out, rounded up, it is
zero only if one block can take them all, and to read it changes nothing that a client can see.
-/
theorem Reached.fragmentation (reached : Reached ok w) (supply : w.heap.Supplied)
    : let largest := w.heap.largestFree.2
      let avail := w.heap.available.2
      let read := w.heap.fragmentationPermille
      largest ≤ avail ∧ read.2 ≤ 1000 ∧ (read.2 = 0 ↔ largest = avail)
        ∧ (read.2 = 1000 ↔ 1000 * largest < avail)
        ∧ (largest ≠ avail → read.2 = 1000 - 1000 * largest / avail)
        ∧ Alike w.heap.ensure.1 read.1 := by
  obtain ⟨⟨v, rep⟩, ready, _, available, _, largest, _⟩ :=
    reached.inv.ensured reached.fits supply
  obtain ⟨⟨v', quiet⟩, value⟩ := rep.fragmentationPermille ready
  have le := (rep.largestFree_le ready).1
  have same : w.heap.ensure.1.fragmentationPermille = w.heap.fragmentationPermille := by
    simp only [HeapState.fragmentationPermille, available]
  rw [same] at value quiet
  rw [available, largest] at value le
  simp only [value]
  exact ⟨le, permille_le _ _, permille_eq_zero le, permille_eq_top le, fun differ => if_neg differ,
    Alike.of_quiet rep ready quiet⟩

theorem Reached.fragmentation_small
    : let largest := pairWorld.heap.largestFree.2
      let avail := pairWorld.heap.available.2
      let read := pairWorld.heap.fragmentationPermille
      largest ≤ avail ∧ read.2 ≤ 1000 ∧ (read.2 = 0 ↔ largest = avail)
        ∧ (read.2 = 1000 ↔ 1000 * largest < avail)
        ∧ (largest ≠ avail → read.2 = 1000 - 1000 * largest / avail)
        ∧ Alike pairWorld.heap.ensure.1 read.1 :=
  pairWorld_reached.fragmentation (supplied_of_pageless (fun _ _ => rfl) _)

/-- The largest free block has 2048 of the 3744 bytes that are available there. -/
example : pairWorld.heap.fragmentationPermille.2 = 453 := by
  decide +kernel

/-- The report of `which` can be read back: it tells the number of regions and the four gauges,
the gauges agree with one another, and the bytes in use are those that the counters of the
regions show, less the data of their sheets. To print it changes nothing that a client can see.
-/
theorem Reached.which_report (reached : Reached ok w) (supply : w.heap.Supplied)
    : ∃ r, w.heap.which.2.bind readReport = some r
      ∧ r.regions = w.heap.ensure.1.count ∧ r.capacity = w.heap.total.2
      ∧ r.used = w.heap.used.2 ∧ r.available = w.heap.available.2
      ∧ r.largest = w.heap.largestFree.2
      ∧ r.used + r.available = r.capacity ∧ r.largest ≤ r.available
      ∧ r.rows.map Row.region = List.range r.regions
      ∧ r.used + (r.rows.map (fun row => row.sheets * C.tlsf.dataBytes)).sum
        = (r.rows.map (fun row => row.tlsfUsed + row.buddyUsed)).sum
      ∧ Alike w.heap.ensure.1 w.heap.which.1 := by
  obtain ⟨⟨v, rep⟩, ready, used, available, total, largest, same⟩ :=
    reached.inv.ensured reached.fits supply
  have text := rep.which ready
  rw [same] at text
  obtain ⟨v', quiet, _⟩ := rep.largestFree ready
  obtain ⟨usedSum, _, _, sum⟩ := rep.gauges_add ready
  have le := (rep.largestFree_le ready).1
  refine ⟨w.heap.ensure.1.summary, by rw [text]; exact readReport_text _, rfl, total, used,
    congrArg Prod.snd available, congrArg Prod.snd largest, sum, le, ?_, rep.rows_sum ready, ?_⟩
  · simp [HeapState.summary, HeapState.row, Function.comp_def]
  · rw [text]
    exact Alike.of_quiet rep ready quiet

theorem Reached.which_report_small
    : ∃ r, pairWorld.heap.which.2.bind readReport = some r
      ∧ r.regions = pairWorld.heap.ensure.1.count ∧ r.capacity = pairWorld.heap.total.2
      ∧ r.used = pairWorld.heap.used.2 ∧ r.available = pairWorld.heap.available.2
      ∧ r.largest = pairWorld.heap.largestFree.2
      ∧ r.used + r.available = r.capacity ∧ r.largest ≤ r.available
      ∧ r.rows.map Row.region = List.range r.regions
      ∧ r.used + (r.rows.map (fun row => row.sheets * bareBuild.tlsf.dataBytes)).sum
        = (r.rows.map (fun row => row.tlsfUsed + row.buddyUsed)).sum
      ∧ Alike pairWorld.heap.ensure.1 pairWorld.heap.which.1 :=
  pairWorld_reached.which_report (supplied_of_pageless (fun _ _ => rfl) _)

/-- The report of a heap with a small block and a large one. -/
example : pairWorld.heap.which.2.bind readReport
    = some ⟨1, 4096, 352, 3744, 2048, [⟨0, 1, 48, 1280⟩]⟩ := by
  decide +kernel

end Fragmentation

-----------------------------------------------------------------------------------------
-- The log
-----------------------------------------------------------------------------------------

section Log

variable {C : Config} (notices : Bool) {w w' : World C} {op : Op} {ops : List Op} {n a p : Nat}
  {old : Chunk}

/-- What a step writes. -/
def text (notices : Bool) (w : World C) : Op → Option (List Char)
  | .balloc n => w.heap.ballocText notices n
  | .zalloc n => w.heap.ballocText notices n
  | .alignedBalloc a n => w.heap.alignedBallocText notices a n
  | .dealloc p => some (w.heap.bbDeallocText p)
  | .resize old n _ a => w.heap.resizeText notices old n a
  | .create n a => w.heap.createText notices n a
  | .destroy p => some (w.heap.destroyText p)
  | .containerResize old n _ a => w.heap.containerResizeText notices old n a
  | .which => w.heap.which.2
  | _ => some []

/-- What a run writes, up to the call that halts it. -/
def log (notices : Bool) : World C → List Op → Option (List Char)
  | _, [] => some []
  | w, op :: ops =>
      (w.text notices op).bind (fun first =>
        match w.step op with
        | none => some first
        | some w' => (log notices w' ops).map (first ++ ·))

/-- The verdict about a pointer, by the ledger. -/
def verdict (w : World C) (p : Nat) : Verdict := w.heap.verdict w.ledger.blocks p

def freeEvents (w : World C) (p : Nat) : List Event :=
  if p = 0 then [] else (w.verdict p).events C p

def resizeEvents (notices : Bool) (w : World C) (old : Chunk) (n preserve a : Nat)
    : List Event :=
  let exit := (w.heap.resize old n preserve a).2
  if isPow2 a = false then []
  else if old.ptr = 0 then failure notices n exit
  else if n = 0 then w.freeEvents old.ptr
  else w.freeEvents old.ptr ++ if (w.verdict old.ptr).ends C then [] else failure notices n exit

/-- What happened in a step, by the ledger and by how the call ended, and what `which` is asked
to tell.
-/
def events (notices : Bool) (w : World C) : Op → List Event
  | .balloc n => failure notices n (w.heap.balloc n).2
  | .zalloc n => failure notices n (w.heap.zalloc n).2
  | .alignedBalloc a n => failure notices n (w.heap.alignedBalloc a n).2
  | .dealloc p => w.freeEvents p
  | .resize old n preserve a => w.resizeEvents notices old n preserve a
  | .create n a => failure notices n (w.heap.create n a).2
  | .destroy p => w.freeEvents p
  | .containerResize old n preserve a =>
      if n = 0 then w.freeEvents old.ptr else w.resizeEvents notices old n preserve a
  | .which => w.heap.ensure.1.summary.events
  | _ => []

/-- What happened in a run. -/
def told (notices : Bool) : World C → List Op → List Event
  | _, [] => []
  | w, op :: ops =>
      w.events notices op
        ++ match w.step op with
          | none => []
          | some w' => told notices w' ops

/-- The environment allows every step of a run. -/
def Obeyed : World C → List Op → Prop
  | _, [] => True
  | w, op :: ops => w.Allowed op ∧ ∀ w', w.step op = some w' → Obeyed w' ops

theorem freeEvents_word (word : p < C.buddy.word) : ∀ e ∈ w.freeEvents p, e.Word C := by
  intro e mem
  rw [freeEvents] at mem
  split at mem
  · cases mem
  · cases verdict : w.verdict p with
    | stray =>
        rw [verdict, Verdict.events] at mem
        split at mem
        · cases mem
        · cases List.mem_singleton.mp mem
          exact word
    | damaged =>
        rw [verdict, Verdict.events] at mem
        split at mem
        · cases mem
        · cases List.mem_singleton.mp mem
          exact word
    | sound =>
        rw [verdict, Verdict.events] at mem
        cases mem

theorem failure_word {α : Type} {exit : Exit α} (word : n < C.buddy.word)
    : ∀ e ∈ failure notices n exit, e.Word C := by
  intro e mem
  cases exit with
  | halted =>
      simp only [failure] at mem
      split at mem
      · cases List.mem_singleton.mp mem
        exact word
      · cases mem
  | returned _ => cases mem
  | threw => cases mem

theorem events_word (words : op.Words C) : ∀ e ∈ w.events notices op, e.Word C := by
  have resize : ∀ {old : Chunk} {n preserve a : Nat}, old.ptr < C.buddy.word →
      n < C.buddy.word → ∀ e ∈ w.resizeEvents notices old n preserve a, e.Word C := by
    intro old n preserve a ptr size e mem
    simp only [resizeEvents] at mem
    split at mem
    · cases mem
    split at mem
    · exact failure_word notices size e mem
    split at mem
    · exact freeEvents_word ptr e mem
    · rcases List.mem_append.mp mem with first | second
      · exact freeEvents_word ptr e first
      · split at second
        · cases second
        · exact failure_word notices size e second
  cases op with
  | balloc => exact failure_word notices words
  | zalloc => exact failure_word notices words
  | alignedBalloc => exact failure_word notices words
  | create => exact failure_word notices words
  | dealloc => exact freeEvents_word words
  | destroy => exact freeEvents_word words
  | resize => exact resize words.1 words.2
  | containerResize =>
      simp only [events]
      split
      · exact freeEvents_word words.1
      · exact resize words.1 words.2
  | which => exact Report.events_word C _
  | _ => exact fun e mem => (by cases mem)

/-- Every step writes what happened in it. -/
theorem text_step (inv : WorldInv w) (fits : C.PoolFits)
    (padded : ∀ p g, w.ledger p = some g → C.rz < g.asked) (shown : op.isPublic = true)
    (allowed : w.Allowed op) (words : op.Words C)
    : w.text notices op = some (eventText C (w.events notices op)) := by
  obtain ⟨v, rep⟩ := inv.rep
  have room : ∀ p b, w.ledger.blocks p = some b → C.rz ≤ b.len := by
    intro p b known
    obtain ⟨g, live, rfl⟩ := Ledger.blocks_eq_some.mp known
    have := padded p g live
    have := (inv.sane p g live).enough
    omega
  have free : ∀ {p : Nat}, w.heap.Supplied → w.heap.bbDeallocText p
      = eventText C (w.freeEvents p) := by
    intro p supply
    rw [freeEvents]
    split
    · rename_i null
      rw [HeapState.bbDeallocText, if_pos null]
      rfl
    · rename_i notNull
      exact rep.bbDeallocText_eq fits supply room notNull
  have resize : ∀ {old : Chunk} {n preserve a : Nat}, w.heap.Supplied → n < C.buddy.word →
      w.heap.resizeText notices old n a
        = some (eventText C (w.resizeEvents notices old n preserve a)) := by
    intro old n preserve a supply word
    rw [resizeEvents]
    by_cases pow : isPow2 a = true
    swap
    · simp [HeapState.resizeText, pow]
    by_cases null : old.ptr = 0
    · simp only [HeapState.resizeText, HeapState.resize, pow, null]
      exact w.heap.allocForText_eq a word
    by_cases zero : n = 0
    · simp only [HeapState.resizeText, pow, null, zero]
      exact congrArg some (free supply)
    · rw [rep.resizeText_eq fits supply room pow null zero word preserve]
      simp only [pow, null, zero, freeEvents, verdict, Bool.true_eq_false, if_false]
      rfl
  cases op with
  | balloc n => exact w.heap.ballocText_eq words
  | zalloc n =>
      have same := failure_congr notices n (w.heap.zalloc_halted n)
      simp only [text, events, same]
      exact w.heap.ballocText_eq words
  | alignedBalloc a n => exact w.heap.alignedBallocText_eq a words
  | create n a =>
      simp only [text, events, HeapState.createText]
      split
      · rename_i zero
        simp [HeapState.create, zero, failure]
      · rename_i positive
        rw [failure_congr notices n (w.heap.create_halted positive)]
        exact w.heap.allocForText_eq a words
  | dealloc p => exact congrArg some (free allowed)
  | destroy p =>
      simp only [text, events, HeapState.destroyText]
      split
      · exact congrArg some (free allowed)
      · rename_i null
        rw [freeEvents, if_pos (not_not.mp null)]
        rfl
  | resize old n preserve a => exact resize allowed words.2
  | containerResize old n preserve a =>
      simp only [text, events, HeapState.containerResizeText]
      split
      · rw [HeapState.destroyText]
        split
        · exact congrArg some (free allowed)
        · rename_i null
          rw [freeEvents, if_pos (not_not.mp null)]
          rfl
      · exact resize allowed words.2
  | which =>
      obtain ⟨⟨_, first⟩, ready, _, _, _, _, same⟩ := inv.ensured fits allowed
      simp only [text, events, ← same, first.which ready, Report.text_eq C]
  | _ => rfl

/-- Every run writes what happened in it. -/
theorem log_eq (ops : List Op)
    : ∀ {w : World C}, Reached (fun op => op.isPublic = true) w →
      (∀ op ∈ ops, op.isPublic = true ∧ op.Words C) → w.Obeyed ops →
      w.log notices ops = some (eventText C (w.told notices ops))
        ∧ ∀ e ∈ w.told notices ops, e.Word C := by
  induction ops with
  | nil => exact fun _ _ _ => ⟨rfl, fun e mem => by cases mem⟩
  | cons op ops ih =>
      intro w reached calls obeyed
      obtain ⟨shown, words⟩ := calls op (by simp)
      have padded := reached.padded (fun _ shown => shown)
      have first := text_step notices reached.inv reached.fits padded shown obeyed.1
        words
      have firstWords := events_word notices (w := w) words
      rw [log, first, Option.bind_some, told]
      cases next : w.step op with
      | none => simpa using firstWords
      | some w' =>
          have reached' := Reached.step reached shown obeyed.1 next
          obtain ⟨rest, restWords⟩ := ih reached' (fun op mem => calls op (by simp [mem]))
            (obeyed.2 w' next)
          simp only [rest, Option.map_some, eventText_append]
          refine ⟨trivial, fun e mem => ?_⟩
          rcases List.mem_append.mp mem with here | later
          · exact firstWords e here
          · exact restWords e later

/-- The log of that run names the pointers, and between them the gauges after the release. -/
example : (pairWorld.log true [.dealloc 4272, .dealloc 4272, .which, .dealloc 7]).bind readLog
    = some [.badFree 4272, .heap 1 4096 256 3840 2048, .region ⟨0, 0, 0, 256⟩, .badFree 7] := by
  decide +kernel

end Log

end World

end Bbmalloc
