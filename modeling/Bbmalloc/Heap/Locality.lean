import Bbmalloc.Malloc.Resizing

/-! Calls about one block. Releasing it and resizing it in place touch the record and the memory
of its region only: the other regions stay as they are, bit by bit.
-/

namespace Bbmalloc

open Bbmalloc.Foundations

/-- The call touches region `i` only. -/
structure HeapState.Local {C : Config} (i : Nat) (s s' : HeapState C) : Prop where
  others : ∀ j, j ≠ i → s'.regions j = s.regions j
  geo : s'.geo i = s.geo i
  steady : Steady s s'
  mem : Memory.Within (Footprint (s.geo i)) s.mem s'.mem

section Local

variable {C : Config} {s s' s'' t : HeapState C} {v : Nat → RegionView}
  {held : Nat → Option Block} {p q n i len : Nat} {b : Block} {l : Located} {r : RegionState C}
  {w : RegionView} {kept live : Live}

theorem HeapState.Local.refl (i : Nat) (s : HeapState C) : s.Local i s :=
  ⟨fun _ _ => rfl, rfl, .refl s, Memory.Within.refl _ _⟩

theorem HeapState.Local.trans (first : s.Local i s') (second : s'.Local i s'') : s.Local i s'' := by
  refine ⟨fun j differ => (second.others j differ).trans (first.others j differ),
    second.geo.trans first.geo, first.steady.trans second.steady, ?_⟩
  have later := second.mem
  rw [first.geo] at later
  exact first.mem.trans later

theorem HeapState.Local.collect (call : s.Local i s') (k : StatType) (n : Nat)
    : s.Local i (s'.collect k n) :=
  ⟨call.others, call.geo, call.steady.trans ⟨rfl, rfl, rfl⟩, call.mem⟩

/-- A step of region `i`. -/
theorem RegionStep.local_ (step : RegionStep (s.region i) r w kept live)
    : s.Local i (s.setRegion i r) := by
  refine ⟨fun j differ => Function.update_of_ne differ _ _, s.geo_setRegion step.geometry i,
    Steady.setRegion s i r, fun a out => step.within a (fun loose => out loose.1)⟩

/-- Writes into a block of region `i`. -/
theorem Written.local_ (written : Written q len s t) (lo : (s.geo i).base ≤ q)
    (hi : q + len ≤ (s.geo i).base + (s.geo i).total)
    : s.Local i t := by
  refine ⟨fun j _ => ?_, written.geo i, written.steady, fun a out => ?_⟩
  · rw [written.heap]
  · exact written.mem a (fun inside => out (Or.inr ⟨by omega, by omega⟩))

/-- The region of a block that was located. -/
theorem LocatedAt.region (h : HeapInv s v held) (found : LocatedAt s v held p l)
    (live : l.len ≠ 0)
    : ∃ i < s.count, l.r = some i ∧ (s.geo i).base ≤ p
        ∧ p + l.len ≤ (s.geo i).base + (s.geo i).total := by
  cases found with
  | @small i x m less block place =>
      have inside := h.inside less (Or.inr ⟨x, m, block, place, rfl⟩)
      exact ⟨i, less, rfl, inside.1, inside.2.1⟩
  | @large i x o less block place =>
      have inside := h.inside less (Or.inl ⟨x, o, block, place, rfl⟩)
      exact ⟨i, less, rfl, inside.1, inside.2.1⟩
  | absent _ => exact absurd rfl live

/-- Releasing and resizing a located block are calls of its region. -/
theorem HeapInv.release_local (h : HeapInv s v held) (found : LocatedAt s v held p l)
    (here : l.r = some i)
    : s.Local i (s.release l p).1 := by
  cases found with
  | @small j x m less block place =>
      cases here
      obtain ⟨w, step⟩ := (h.regions i less).smallFree block
      exact step.local_
  | @large j x o less block place =>
      cases here
      subst place
      obtain ⟨w, step⟩ := (h.regions i less).largeFree block
      exact step.local_
  | absent _ =>
      subst here
      exact .refl i s

theorem HeapInv.shrinkAt_local (h : HeapInv s v held) (found : LocatedAt s v held p l)
    (here : l.r = some i) (n : Nat)
    : s.Local i (s.shrinkAt l n).1 := by
  cases found with
  | @small j x m less block place =>
      cases here
      obtain ⟨w, step, _⟩ := (h.regions i less).smallShrink block n
      exact step.local_
  | large _ _ _ => exact .refl i s
  | absent _ =>
      subst here
      exact .refl i s

theorem HeapInv.growAt_local (h : HeapInv s v held) (found : LocatedAt s v held p l)
    (here : l.r = some i) (n : Nat)
    : s.Local i (s.growAt l p n).1 := by
  cases found with
  | @small j x m less block place =>
      cases here
      rw [HeapState.growAt]
      simp only
      split
      · exact .refl i s
      · obtain ⟨w, k, step, _⟩ := (h.regions i less).smallGrow block n
        exact step.local_
  | @large j x o less block place =>
      cases here
      subst place
      rcases (h.regions i less).largeGrow block n with ⟨_, same⟩ | ⟨_, w, _, _, _, _, _, step⟩
      · have call : s.growAt ⟨some i, C.buddy.orderSize o, o, .buddy⟩ ((s.geo i).base + x) n
            = (s.setRegion i ((s.region i).setBuddy
                ((s.region i).buddyState.grow ((s.geo i).base + x) n).1),
              ((s.region i).buddyState.grow ((s.geo i).base + x) n).2) := rfl
        rw [call, show (s.region i).setBuddy
          ((s.region i).buddyState.grow ((s.geo i).base + x) n).1 = s.region i from same]
        simpa [HeapState.setRegion, HeapState.region] using HeapState.Local.refl i s
      · exact step.local_
  | absent _ =>
      subst here
      exact .refl i s

/-- `__release_located` of a block. -/
theorem HeapInv.releaseLocated_local (h : HeapInv s v held) (found : LocatedAt s v held p l)
    (live : l.len ≠ 0) (here : l.r = some i)
    : s.Local i (s.releaseLocated l p l.len).1 := by
  have known := (found.held_iff h).mpr ⟨live, rfl⟩
  obtain ⟨j, less, same, lo, hi⟩ := found.region h live
  obtain rfl : j = i := Option.some.inj (same.symm.trans here)
  have scrubbed : Written p l.len s
      (((s.scrubOnFree p l.len).collect .dealloc 0).collect .freed l.len) :=
    ((s.scrubOnFree_written (q := p) (m := l.len) le_rfl le_rfl).collect _ _).collect _ _
  have first := (h.refl (Function.update held p none)).written known scrubbed
    (fun q d other => of_erased other)
  have found' := found.persist h live first rfl
  exact (scrubbed.local_ lo hi).trans (first.inv.release_local found' here)

/-- `bb::dealloc` of a block. -/
theorem HeapInv.bbDealloc_local (h : HeapInv s v held) (ready : s.inited = true)
    (found : (s.locate p).2.r = some i) (known : held p = some b)
    : s.Local i (s.bbDealloc p).1 := by
  obtain ⟨same, located⟩ := h.locate ready p
  obtain ⟨_, live, _⟩ := located.held_len h known
  rw [HeapState.bbDealloc]
  split
  · exact .refl i s
  simp only [same]
  split
  · exact .refl i s
  rcases s.checkRedzone_eq p ((s.locate p).2.len - C.rz) with ⟨ok, check⟩ | ⟨check, _⟩
  · rw [check]
    exact h.releaseLocated_local located live found
  · rw [check]
    exact .refl i s

/-- A block lies in the region that it starts in. -/
theorem HeapInv.ends_inside (h : HeapInv s v held) (less : i < s.count)
    (inside : (s.geo i).base ≤ p ∧ p < (s.geo i).base + (s.geo i).total) (known : held p = some b)
    : p + b.len ≤ (s.geo i).base + (s.geo i).total := by
  obtain ⟨j, lessJ, holds⟩ := (h.blocks p b).mp known
  obtain rfl := h.holds_apart lessJ less holds inside
  exact (h.inside lessJ holds).2.1

/-- The parts of `resize` that keep a block in place. -/
theorem HeapInv.resizeDown_local (h : HeapInv s v held) (found : LocatedAt s v held p l)
    (live : l.len ≠ 0) (here : l.r = some i) {want : Option Nat}
    (room : ∀ n, want = some n → C.rz ≤ n)
    : s.Local i (s.resizeDown l p want).1 := by
  obtain ⟨j, less, same, lo, hi⟩ := found.region h live
  obtain rfl : j = i := Option.some.inj (same.symm.trans here)
  cases want with
  | none =>
      simp only [HeapState.resizeDown, ne_eq, not_true_eq_false, if_false]
      exact .refl j s
  | some n =>
      have first := h.shrinkAt_local found here n
      have rz := room n rfl
      obtain ⟨_, m, outcome, positive, le, _⟩ := h.shrinkAt found live n
      simp only [HeapState.resizeDown]
      rcases outcome with ⟨value, fits⟩ | ⟨zero, _⟩
      · rw [value, if_pos (show m ≠ 0 by omega), if_neg (show ¬m < C.rz by omega)]
        have second : (s.shrinkAt l n).1.Local j
            ((s.shrinkAt l n).1.writeRedzone p (m - C.rz)) := by
          refine Written.local_ (HeapState.writeRedzone_written (q := p) (m := m) _ le_rfl
            (by omega)) ?_ ?_
          · rwa [first.geo]
          · rw [first.geo]
            omega
        split
        · exact (first.trans second).collect _ _
        · exact first.trans second
      · rw [zero, if_neg (by simp)]
        exact first

theorem HeapInv.resizeUp_local (h : HeapInv s v held) (found : LocatedAt s v held p l)
    (live : l.len ≠ 0) (here : l.r = some i) (room : C.rz ≤ n)
    : s.Local i (s.resizeUp l p n).1 := by
  obtain ⟨j, less, same, lo, hi⟩ := found.region h live
  obtain rfl : j = i := Option.some.inj (same.symm.trans here)
  have first := h.growAt_local found here n
  simp only [HeapState.resizeUp]
  rcases h.growAt found live n with ⟨zero, _⟩ | ⟨_, m, value, fits, _, positive, _, _, _, step⟩
  · rw [zero, if_neg (by simp)]
    exact first
  · rw [value, if_pos (by omega)]
    have known : Function.update held p (some (⟨m, l.t⟩ : Block)) p = some ⟨m, l.t⟩ :=
      Function.update_self _ _ _
    have ends := step.inv.ends_inside (i := j) (lt_of_lt_of_le less step.more)
      (by rw [first.geo]; omega) known
    have second : (s.growAt l p n).1.Local j ((s.growAt l p n).1.writeRedzone p (m - C.rz)) :=
      Written.local_ (HeapState.writeRedzone_written (q := p) (m := m) _ le_rfl (by omega))
        (by rwa [first.geo]) ends
    exact (first.trans second).collect _ _

/-- A moved block is not where the old one was. -/
theorem HeapInv.resizeMove_moves {old c : Chunk} {size preserve a : Nat} (h : HeapInv s v held)
    (fits : C.PoolFits) (supply : s.Supplied) (known : held old.ptr = some b)
    (result : (s.resizeMove l old size preserve a).2 = .returned c)
    : c.ptr ≠ old.ptr := by
  have positive := (h.held_lt known).1
  rw [HeapState.resizeMove] at result
  cases h.allocFor fits supply size a with
  | @refused v' failed step =>
      rcases outcome : (s.allocFor size a).2 with d | _ | _
      · rw [outcome] at failed
        have null : d.ptr = 0 := C.refused_null failed
        simp only [HeapState.andThen, outcome, null, if_true] at result
        cases result
        exact positive.ne
      · simp only [HeapState.andThen, outcome] at result
        cases result
      · simp only [HeapState.andThen, outcome] at result
        cases result
  | @granted q d v' chunk notNull aligned unused _ _ _ step =>
      simp only [HeapState.andThen, chunk, if_neg notNull] at result
      cases result
      rintro rfl
      rw [unused] at known
      cases known

/-- `resize` of a found block that leaves it where it is. -/
theorem HeapInv.resizeLocated_local {old c : Chunk} {size preserve a : Nat} {placed : Bool}
    (h : HeapInv s v held) (fits : C.PoolFits) (supply : s.Supplied)
    (found : LocatedAt s v held old.ptr l) (live : l.len ≠ 0) (here : l.r = some i)
    (stays : c.ptr = old.ptr)
    : let want := HeapState.checkAddOverflow C size C.rz
      let r : HeapState C × Exit Chunk :=
        if size ≤ l.len - C.rz && placed then
          let c := s.resizeDown l old.ptr want
          (c.1, .returned c.2)
        else
          let c :=
            match placed, want with
            | true, some want => s.resizeUp l old.ptr want
            | _, _ => (s, .null)
          if c.2.ptr ≠ 0 then (c.1, .returned c.2)
          else c.1.resizeMove l old size preserve a
      r.2 = .returned c → s.Local i r.1 := by
  intro want r result
  have known := (found.held_iff h).mpr ⟨live, rfl⟩
  have room : ∀ n, want = some n → C.rz ≤ n := by
    intro n some
    have sum : (if size + C.rz < C.buddy.word then Option.some (size + C.rz) else none)
        = Option.some n := some
    split at sum
    · cases sum
      omega
    · cases sum
  have moves : (s.resizeMove l old size preserve a).2 ≠ .returned c :=
    fun moved => h.resizeMove_moves fits supply known moved stays
  rcases placed with _ | _
  · simp only [r, Bool.and_false, Bool.false_eq_true, if_false] at result
    exact absurd result moves
  by_cases down : size ≤ l.len - C.rz
  · simp only [r, down, decide_true, Bool.and_self, if_true]
    exact h.resizeDown_local found live here room
  · simp only [r, down, decide_false, Bool.false_and, Bool.false_eq_true, if_false] at result ⊢
    rcases Option.eq_none_or_eq_some (HeapState.checkAddOverflow C size C.rz) with none | ⟨n, sum⟩
    · simp only [want, none] at result
      exact absurd result moves
    · simp only [want, sum] at result ⊢
      rcases h.growAt found live n with ⟨zero, same⟩ | ⟨_, m, value, _, more, _⟩
      · simp only [HeapState.resizeUp, zero, ne_eq, not_true_eq_false, if_false, same] at result
        exact absurd result moves
      · have up := h.resizeUp_local found live here (room n sum)
        have grown : (s.resizeUp l old.ptr n).2.ptr ≠ 0 := by
          have positive := (h.held_lt known).1
          simp only [HeapState.resizeUp, value, if_pos (show m ≠ 0 by omega)]
          exact positive.ne'
        rw [if_pos grown]
        exact up

/-- `resize` that leaves a block where it is. -/
theorem HeapInv.resize_local {old c : Chunk} {size preserve a : Nat} (h : HeapInv s v held)
    (fits : C.PoolFits) (supply : s.Supplied) (ready : s.inited = true)
    (here : (s.locate old.ptr).2.r = some i) (known : held old.ptr = some b)
    (result : (s.resize old size preserve a).2 = .returned c) (stays : c.ptr = old.ptr)
    : s.Local i (s.resize old size preserve a).1 := by
  obtain ⟨same, found⟩ := h.locate ready old.ptr
  obtain ⟨_, live, _⟩ := found.held_len h known
  have positive := (h.held_lt known).1
  rw [HeapState.resize] at result ⊢
  split
  · exact .refl i s
  rename_i pow
  rw [if_neg pow, if_neg (by omega)] at result
  rw [if_neg (by omega)]
  split
  · rename_i zero
    rw [if_pos zero] at result
    have released := h.bbDealloc_local ready here known
    rcases outcome : (s.bbDealloc old.ptr).2 with ok | _ | _
    · simpa only [HeapState.andThen, outcome] using released
    · simpa only [HeapState.andThen, outcome] using released
    · simpa only [HeapState.andThen, outcome] using released
  rename_i positiveSize
  rw [if_neg positiveSize] at result
  simp only [same] at result ⊢
  split
  · by_cases halt : C.doubleFreeAction = .halt
    · simpa only [HeapState.handleBadFree, halt, if_true, HeapState.andThen] using .refl i s
    · simpa only [HeapState.handleBadFree, halt, if_false, HeapState.andThen] using .refl i s
  rename_i fits'
  rw [if_neg fits'] at result
  rcases s.checkRedzone_eq old.ptr ((s.locate old.ptr).2.len - C.rz) with
      ⟨ok, check⟩ | ⟨check, _⟩
  · simp only [check, HeapState.andThen] at result ⊢
    exact h.resizeLocated_local fits supply found live here stays result
  · simp only [check, HeapState.andThen]
    exact .refl i s

end Local

end Bbmalloc
