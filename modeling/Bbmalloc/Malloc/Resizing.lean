import Bbmalloc.Malloc.Allocation
import Bbmalloc.Malloc.Release

/-! `bb::resize` of a live block: in place if the block or its neighbours allow it, else by a
copy to a new block. The bytes that both blocks hold survive either way.
-/

namespace Bbmalloc

open Bbmalloc.Foundations

/-- A call that resizes the block of `old` to `size` bytes at alignment `a`: it fails and
changes nothing, it resizes the block in place, or it moves the contents to a new block.
-/
inductive Reshaped {C : Config} (s : HeapState C) (v : Nat → RegionView)
    (held : Nat → Option Block) (old : Chunk) (size preserve a : Nat)
    (c : HeapState C × Exit Chunk)
    : Prop
  | refused {v' : Nat → RegionView}
      (result : c.2 = .returned .null ∨ c.2 = C.failure ∨ c.2 = .halted)
      (step : HeapStep s c.1 v' held held)
  | inPlace {b : Block} {m : Nat} {v' : Nat → RegionView} (known : held old.ptr = some b)
      (chunk : c.2 = .returned ⟨old.ptr, m - C.rz⟩) (aligned : a ∣ old.ptr)
      (enough : size + C.rz ≤ m) (resized : Resized C (size + C.rz) b.len ⟨m, b.tier⟩)
      (large : b.tier = .buddy → b.len ≤ m)
      (small : b.tier = .tlsf → size + C.rz ≤ C.classSmall ∨ size + C.rz ≤ b.len ∧ m ≤ b.len)
      (reach : ∃ r, s.Reaches old.ptr (size + C.rz) (s.locate old.ptr).2 r
        ∧ m = C.keptLen (size + C.rz) r b.tier)
      (step : HeapStep s c.1 v' (Function.update held old.ptr none)
        (Function.update held old.ptr (some ⟨m, b.tier⟩)))
      (contents : ∀ i, i < b.len - C.rz → i < m - C.rz →
        c.1.mem (old.ptr + i) = s.mem (old.ptr + i))
  | moved {b d : Block} {q : Nat} {v' : Nat → RegionView} (known : held old.ptr = some b)
      (chunk : c.2 = .returned ⟨q, d.len - C.rz⟩) (notNull : q ≠ 0)
      (aligned : max nativeAlignment a ∣ q) (unused : held q = none)
      (enough : size + C.rz ≤ d.len) (fitting : Fitting C (size + C.rz) (max nativeAlignment a) d)
      (step : HeapStep s c.1 v' (Function.update held old.ptr none)
        (Function.update (Function.update held old.ptr none) q (some d)))
      (contents : ∀ i, i < preserve → i < old.len → i < b.len - C.rz → i < d.len - C.rz →
        (c.1.mem (q + i)).byte = (s.mem (old.ptr + i)).byte)

section Resizing

variable {C : Config} {s s' : HeapState C} {v v' : Nat → RegionView}
  {held : Nat → Option Block} {p size preserve a : Nat} {b : Block} {l : Located} {old : Chunk}

/-- The alignment test of `resize`. -/
theorem placed_iff (pow : isPow2 a = true) (p : Nat) : p &&& (a - 1) = 0 ↔ a ∣ p := by
  obtain ⟨k, rfl⟩ := (isPow2_iff a).mp pow
  rw [and_low]
  exact Nat.dvd_iff_mod_eq_zero.symm

/-- A block ends within the address space. -/
theorem HeapInv.held_lt (h : HeapInv s v held) (known : held p = some b)
    : 0 < p ∧ p + b.len < C.buddy.word := by
  obtain ⟨i, less, lo, hi, _⟩ := h.held_inside known
  have sound := (h.regions i less).buddy.rep.geometry
  have base : 0 < (s.geo i).base := sound.base_pos
  have inside : (s.geo i).base + (s.geo i).total < C.buddy.word := sound.end_lt
  omega

/-- `resize` of a block that is large enough and placed. -/
theorem HeapInv.resizeDown (h : HeapInv s v held) (found : LocatedAt s v held old.ptr l)
    (record : (s.locate old.ptr).2 = l) (live : l.len ≠ 0) (positive : 0 < size)
    (fits : size + C.rz ≤ l.len) (aligned : a ∣ old.ptr)
    : Reshaped s v held old size preserve a
        ((s.resizeDown l old.ptr (some (size + C.rz))).1,
          .returned (s.resizeDown l old.ptr (some (size + C.rz))).2) := by
  have known := (found.held_iff h).mpr ⟨live, rfl⟩
  obtain ⟨v', m, answer, _, most, buddy, resized, steady, step⟩ :=
    h.shrinkAt found live (size + C.rz)
  obtain ⟨value, enough⟩ : (s.shrinkAt l (size + C.rz)).2 = m ∧ size + C.rz ≤ m := by
    rcases answer with done | ⟨_, _, wrong⟩
    · exact done
    · omega
  have kept : m = C.keptLen (size + C.rz) l.len l.t :=
    value.symm.trans (h.shrinkAt_kept found (by omega) fits)
  have nonzero : m ≠ 0 := by omega
  simp only [HeapState.resizeDown, value, if_pos nonzero, if_neg (show ¬m < C.rz by omega)]
  have redzone := (s.shrinkAt l (size + C.rz)).1.writeRedzone_written (q := old.ptr)
    (p := old.ptr) (n := m - C.rz) (m := m) le_rfl (by omega)
  have written : Written old.ptr m (s.shrinkAt l (size + C.rz)).1
      (if l.len > m then
        ((s.shrinkAt l (size + C.rz)).1.writeRedzone old.ptr (m - C.rz)).collect .freed (l.len - m)
      else (s.shrinkAt l (size + C.rz)).1.writeRedzone old.ptr (m - C.rz)) := by
    split
    · exact redzone.collect _ _
    · exact redzone
  have done := (step.weaken (k := Function.update held old.ptr none) (fun q d other => by
      obtain ⟨live', differ⟩ := of_erased other
      rw [Function.update_of_ne differ]
      exact live')).written (q := old.ptr) (b := ⟨m, l.t⟩) (by simp) written
    (fun q d other => by
      obtain ⟨live', differ⟩ := of_erased other
      exact ⟨by rw [Function.update_of_ne differ]; exact live', differ⟩)
  refine .inPlace (b := ⟨l.len, l.t⟩) known rfl aligned enough resized
    (fun kind => (buddy kind).ge) (fun _ => Or.inr ⟨fits, most⟩)
    ⟨_, by rw [record]; exact .own fits, kept⟩ done (fun i _ below => ?_)
  have after : ((s.shrinkAt l (size + C.rz)).1.writeRedzone old.ptr (m - C.rz)).mem (old.ptr + i)
      = s.mem (old.ptr + i) := by
    have kept := step.kept_mem (q := old.ptr) (b := ⟨m, l.t⟩) (by simp)
      (a := old.ptr + i) (by omega) (by simp only; omega)
    rw [← kept, HeapState.writeRedzone]
    split
    · exact Memory.fill_outside _ _ (by omega)
    · rfl
  split
  · exact after
  · exact after

/-- `resize` of a placed block that is too small: it grows, or nothing changes. -/
theorem HeapInv.resizeUp {e r : Nat} (h : HeapInv s v held)
    (found : LocatedAt s v held old.ptr l) (record : (s.locate old.ptr).2 = l)
    (live : l.len ≠ 0) (short : l.len < e + C.rz) (aligned : a ∣ old.ptr)
    : ((s.resizeUp l old.ptr (e + C.rz)).2.ptr ≠ 0
        ∧ Reshaped s v held old e r a
          ((s.resizeUp l old.ptr (e + C.rz)).1,
            .returned (s.resizeUp l old.ptr (e + C.rz)).2))
      ∨ s.resizeUp l old.ptr (e + C.rz) = (s, .null) := by
  have known := (found.held_iff h).mpr ⟨live, rfl⟩
  rcases h.growAt found live (e + C.rz) with
      ⟨zero, same⟩ | ⟨v', m, value, enough, more, positive, small, resized, steady, step⟩
  · right
    simp only [HeapState.resizeUp, zero, ne_eq, not_true_eq_false, if_false, same]
  left
  have nonzero : m ≠ 0 := by omega
  obtain ⟨t, reaches, kept, _⟩ := (h.growAt_kept found live short).resolve_left
    (fun none => nonzero (value.symm.trans none.1))
  rw [value] at kept
  simp only [HeapState.resizeUp, value, if_pos nonzero]
  have written : Written old.ptr m (s.growAt l old.ptr (e + C.rz)).1
      (((s.growAt l old.ptr (e + C.rz)).1.writeRedzone old.ptr (m - C.rz)).collect .granted
        (m - l.len)) :=
    ((s.growAt l old.ptr (e + C.rz)).1.writeRedzone_written (q := old.ptr) (p := old.ptr)
      (n := m - C.rz) (m := m) le_rfl (by omega)).collect _ _
  have done := (step.weaken (k := Function.update held old.ptr none)
      (fun q d other => (of_erased other).1)).written (q := old.ptr) (b := ⟨m, l.t⟩)
    (by simp) written (fun q d other => by
      obtain ⟨live', differ⟩ := of_erased other
      exact ⟨by rw [Function.update_of_ne differ]; exact live', differ⟩)
  refine ⟨(by have := (h.held_lt known).1; omega), .inPlace (b := ⟨l.len, l.t⟩) known rfl
    aligned enough resized (fun _ => more) (fun kind => Or.inl (small kind))
    ⟨t, by rw [record]; exact reaches, kept⟩ done (fun i below _ => ?_)⟩
  simp only at below
  have kept := step.kept_mem known (a := old.ptr + i) (by omega) (by simp only; omega)
  rw [← kept]
  change ((s.growAt l old.ptr (e + C.rz)).1.writeRedzone old.ptr (m - C.rz)).mem _ = _
  rw [HeapState.writeRedzone]
  split
  · exact Memory.fill_outside _ _ (by omega)
  · rfl

/-- The copy of a move writes inside the new block, at most as far as it copies. -/
theorem HeapState.copied_written (s : HeapState C) {q n len : Nat} (room : n ≤ len) (p : Nat)
    : Written q len s (if n ≠ 0 then { s with mem := s.mem.copy q p n } else s) := by
  split
  · refine ⟨rfl, rfl, fun x out => Memory.copy_outside _ ?_⟩
    omega
  · exact .refl _

/-- The copy of a move, byte by byte. -/
theorem HeapState.copied_byte (s : HeapState C) {q n i : Nat} (below : i < n) (p : Nat)
    : ((if n ≠ 0 then { s with mem := s.mem.copy q p n } else s : HeapState C).mem (q + i)).byte
      = (s.mem (p + i)).byte := by
  rw [if_pos (by omega)]
  simp only [Memory.copy, if_pos (show q ≤ q + i ∧ q + i < q + n by omega)]
  rw [Nat.add_sub_cancel_left]

/-- The copy of a move leaves both blocks live, and the old one is still located. -/
theorem HeapInv.filled {t : HeapState C} {q : Nat} {d : Block} (h : HeapInv s v held)
    (found : LocatedAt s v held p l) (live : l.len ≠ 0) (unused : held q = none)
    (step : HeapStep s s' v' held (Function.update held q (some d)))
    (copied : Written q d.len s' t)
    : HeapStep s t v' held (Function.update held q (some d))
      ∧ LocatedAt t v' (Function.update held q (some d)) p l := by
  have known := (found.held_iff h).mpr ⟨live, rfl⟩
  have differ : p ≠ q := by
    rintro rfl
    rw [unused] at known
    cases known
  have first := step.written (q := q) (b := d) (by simp) copied (fun x e other => by
    have apart : x ≠ q := by
      rintro rfl
      rw [unused] at other
      cases other
    exact ⟨by rw [Function.update_of_ne apart]; exact other, apart⟩)
  exact ⟨first, found.persist h live first (by rw [Function.update_of_ne differ])⟩

/-- The end of a move: the old block goes once the new one is filled, and what was filled
in stays.
-/
theorem HeapInv.releaseMoved {t : HeapState C} {q : Nat} {d : Block} (h : HeapInv s v held)
    (found : LocatedAt s v held p l) (live : l.len ≠ 0) (unused : held q = none)
    (step : HeapStep s s' v' held (Function.update held q (some d)))
    (copied : Written q d.len s' t)
    : (∃ w, HeapStep s (t.releaseLocated l p l.len).1 w (Function.update held p none)
        (Function.update (Function.update held p none) q (some d)))
      ∧ ∀ x, q ≤ x → x < q + d.len → (t.releaseLocated l p l.len).1.mem x = t.mem x := by
  have known := (found.held_iff h).mpr ⟨live, rfl⟩
  have differ : p ≠ q := by
    rintro rfl
    rw [unused] at known
    cases known
  obtain ⟨first, found'⟩ := h.filled found live unused step copied
  obtain ⟨_, _, w, second⟩ := first.inv.releaseLocated found' live
  have order : Function.update (Function.update held q (some d)) p none
      = Function.update (Function.update held p none) q (some d) :=
    Function.update_comm differ.symm _ _ _
  have both := first.trans second (k := Function.update held p none)
    (fun x e other => (of_erased other).1) (fun x e other => by
      obtain ⟨other, apart⟩ := of_erased other
      have apart' : x ≠ q := by
        rintro rfl
        rw [unused] at other
        cases other
      rw [Function.update_of_ne apart, Function.update_of_ne apart']
      exact other)
  rw [order] at both second
  exact ⟨⟨w, both⟩, fun x lo hi => second.kept_mem (q := q) (b := d) (by simp) lo hi⟩

/-- `resize` by a move to a new block. -/
theorem HeapInv.resizeMove (h : HeapInv s v held) (fits : C.PoolFits) (supply : s.Supplied)
    (found : LocatedAt s v held old.ptr l) (live : l.len ≠ 0)
    (size preserve a : Nat)
    : Reshaped s v held old size preserve a (s.resizeMove l old size preserve a) := by
  have known := (found.held_iff h).mpr ⟨live, rfl⟩
  rw [HeapState.resizeMove]
  cases h.allocFor fits supply size a with
  | @refused v' result step =>
      have failed : (s.allocFor size a).2 = .returned .null ∨ (s.allocFor size a).2 = .halted
          ∨ (s.allocFor size a).2 = .threw := by
        rcases result with null | failure
        · exact Or.inl null
        · rw [failure]
          exact C.failure_cases
      rcases failed with null | halted | threw
      · simp only [HeapState.andThen, null, Chunk.null, if_true]
        exact .refused (Or.inl rfl) step
      · simp only [HeapState.andThen, halted]
        exact .refused (Or.inr (Or.inr rfl)) step
      · rw [threw] at result
        simp only [HeapState.andThen, threw]
        exact .refused (Or.inr (Or.inl (result.resolve_left (by simp)))) step
  | @granted q d v' chunk notNull aligned unused positive enough fitting step =>
      simp only [HeapState.andThen, chunk, if_neg notNull]
      set k := if preserve > old.len then old.len else preserve with defk
      set k' := if k > l.len - C.rz then l.len - C.rz else k with defk'
      set k'' := if k' > d.len - C.rz then d.len - C.rz else k' with defk''
      have room : k'' ≤ d.len := by
        rw [defk'']
        split <;> omega
      obtain ⟨⟨w, both⟩, filled⟩ := h.releaseMoved found live unused step
        ((s.allocFor size a).1.copied_written room old.ptr)
      refine .moved known rfl notNull aligned unused enough fitting both
        (fun i inPreserve inOld inHave inNew => ?_)
      have below : i < k'' := by
        simp only at inHave
        rw [defk'', defk', defk]
        split <;> split <;> split <;> omega
      rw [filled (q + i) (by omega) (by omega), (s.allocFor size a).1.copied_byte below]
      simp only at inHave
      rw [step.kept_mem known (a := old.ptr + i) (by omega) (by simp only; omega)]

end Resizing

-----------------------------------------------------------------------------------------
-- The whole call
-----------------------------------------------------------------------------------------

/-- How `resize` ends with any arguments: it turns the alignment down, or it ends as an
allocation, as a release, at a bad pointer, or with the block resized or left alone.
-/
inductive Resizes {C : Config} (s : HeapState C) (v : Nat → RegionView)
    (held : Nat → Option Block) (old : Chunk) (size preserve a : Nat)
    (c : HeapState C × Exit Chunk)
    : Prop
  | ignored (odd : isPow2 a = false) (result : c = (s, .returned .null))
  | allocated (null : old.ptr = 0) (served : Served s v held size (max nativeAlignment a) c)
  | released (zero : size = 0) (pow : isPow2 a = true) (state : c.1 = (s.bbDealloc old.ptr).1)
      (result : c.2 = .returned .null ∨ c.2 = .halted)
      (freed : Freed s v held old.ptr (s.bbDealloc old.ptr))
  | bad {v' : Nat → RegionView} (positive : 0 < size)
      (short : ∀ b, held old.ptr = some b → b.len < C.rz)
      (result : c.2 = .returned .null ∨ c.2 = .halted) (step : HeapStep s c.1 v' held held)
      (same : c.1 = s.ensure.1)
  | reshaped (positive : 0 < size) (reshaped : Reshaped s v held old size preserve a c)

section Whole

variable {C : Config} {s : HeapState C} {v : Nat → RegionView} {held : Nat → Option Block}
  {size preserve a : Nat} {l : Located} {old : Chunk}

/-- `resize` once the block is found and its redzone is checked. -/
theorem HeapInv.resizeLocated (h : HeapInv s v held) (fits : C.PoolFits) (supply : s.Supplied)
    (pow : isPow2 a = true) (found : LocatedAt s v held old.ptr l)
    (record : (s.locate old.ptr).2 = l) (live : l.len ≠ 0) (redzone : C.rz ≤ l.len)
    (positive : 0 < size) (preserve : Nat)
    : Reshaped s v held old size preserve a
        (let placed : Bool := old.ptr &&& (a - 1) = 0
        let want := HeapState.checkAddOverflow C size C.rz
        if size ≤ l.len - C.rz && placed then
          let c := s.resizeDown l old.ptr want
          (c.1, .returned c.2)
        else
          let c :=
            match placed, want with
            | true, some want => s.resizeUp l old.ptr want
            | _, _ => (s, .null)
          if c.2.ptr ≠ 0 then (c.1, .returned c.2)
          else c.1.resizeMove l old size preserve a) := by
  have known := (found.held_iff h).mpr ⟨live, rfl⟩
  have bound := (h.held_lt known).2
  simp only at bound ⊢
  have move := h.resizeMove fits supply found live size preserve a
  by_cases placed : old.ptr &&& (a - 1) = 0
  · have aligned := (placed_iff pow old.ptr).mp placed
    by_cases down : size ≤ l.len - C.rz
    · have sane : HeapState.checkAddOverflow C size C.rz = some (size + C.rz) :=
        if_pos (by omega)
      simp only [placed, down, decide_true, Bool.and_self, if_true, sane]
      exact h.resizeDown found record live positive (by omega) aligned
    · simp only [placed, down, decide_true, decide_false, Bool.false_and, Bool.false_eq_true,
        if_false]
      by_cases sane : size + C.rz < C.buddy.word
      · have some : HeapState.checkAddOverflow C size C.rz = some (size + C.rz) := if_pos sane
        simp only [some]
        rcases h.resizeUp (e := size) (r := preserve) found record live (by omega) aligned with
            ⟨granted, reshaped⟩ | none
        · rw [if_pos granted]
          exact reshaped
        · rw [none]
          simpa [Chunk.null] using move
      · have none : HeapState.checkAddOverflow C size C.rz = none := if_neg sane
        simp only [none]
        simpa [Chunk.null] using move
  · simp only [placed, decide_false, Bool.and_false, Bool.false_eq_true, if_false]
    simpa [Chunk.null] using move

/-- `resize` with any arguments. -/
theorem HeapInv.resize (h : HeapInv s v held) (fits : C.PoolFits) (supply : s.Supplied)
    (old : Chunk) (size preserve a : Nat)
    : Resizes s v held old size preserve a (s.resize old size preserve a) := by
  rw [HeapState.resize]
  by_cases pow : isPow2 a = true
  swap
  · rw [if_pos (by simp [pow])]
    exact .ignored (by simpa using pow) rfl
  rw [if_neg (by simp [pow])]
  by_cases null : old.ptr = 0
  · rw [if_pos null]
    exact .allocated null (h.allocFor fits supply size a)
  rw [if_neg null]
  by_cases zero : size = 0
  · rw [if_pos zero]
    have freed := h.bbDealloc fits (fun _ => supply.now) old.ptr
    have ends : (∃ ok, (s.bbDealloc old.ptr).2 = .returned ok)
        ∨ (s.bbDealloc old.ptr).2 = .halted := by
      cases freed with
      | null _ result => exact Or.inl ⟨true, by rw [result]⟩
      | bad _ result _ _ =>
          rw [result, Config.badFree]
          split
          · exact Or.inr rfl
          · exact Or.inl ⟨false, rfl⟩
      | tripped _ _ result _ => exact Or.inr result
      | freed _ result _ => exact Or.inl ⟨true, result⟩
    rcases ends with ⟨ok, returned⟩ | halted
    · exact .released zero pow (by simp only [HeapState.andThen, returned])
        (by simp only [HeapState.andThen, returned]; exact Or.inl trivial) freed
    · exact .released zero pow (by simp only [HeapState.andThen, halted])
        (by simp only [HeapState.andThen, halted]; exact Or.inr trivial) freed
  rw [if_neg zero]
  obtain ⟨w, first, ready, found, same⟩ := h.locate_ready fits (fun _ => supply.now) old.ptr
  simp only
  by_cases short : (s.locate old.ptr).2.len = 0 ∨ (s.locate old.ptr).2.len < C.rz
  · rw [if_pos (by simpa using short)]
    have tight : ∀ b, held old.ptr = some b → b.len < C.rz := by
      intro b known
      obtain ⟨len, live, _⟩ := found.held_len first.inv known
      omega
    by_cases halt : C.doubleFreeAction = .halt
    · simp only [HeapState.handleBadFree, halt, if_true, HeapState.andThen]
      exact .bad (by omega) tight (Or.inr rfl) first same
    · simp only [HeapState.handleBadFree, halt, if_false, HeapState.andThen]
      exact .bad (by omega) tight (Or.inl rfl) first same
  rw [if_neg (by simpa using short)]
  have live : (s.locate old.ptr).2.len ≠ 0 := fun none => short (Or.inl none)
  have known := (found.held_iff first.inv).mpr ⟨live, rfl⟩
  obtain ⟨i, less, _⟩ := h.held_inside known
  have inited := h.inited_of_count (show 0 < s.count by omega)
  obtain ⟨_, found'⟩ := h.locate inited old.ptr
  rw [same, HeapState.ensure_ready inited]
  rcases s.checkRedzone_eq old.ptr ((s.locate old.ptr).2.len - C.rz) with
      ⟨ok, check⟩ | ⟨check, _⟩
  · simp only [check, HeapState.andThen]
    exact .reshaped (by omega) (h.resizeLocated fits supply pow found' rfl live (by omega)
      (by omega) preserve)
  · simp only [check, HeapState.andThen]
    exact .reshaped (by omega) (.refused (Or.inr (Or.inr rfl)) (h.refl held))

end Whole

end Bbmalloc
