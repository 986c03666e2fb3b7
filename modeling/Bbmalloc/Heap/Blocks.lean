import Bbmalloc.Heap.Allocation
import Bbmalloc.Heap.Lookup

/-! Releasing and resizing a block of a client in place, from the record that `locate` made
of it. The record stays valid as long as the client keeps the block.
-/

namespace Bbmalloc

open Bbmalloc.Foundations

/-- The length of a block that was resized for `n` bytes: as before, or what a grant has. -/
def Resized (C : Config) (n len : Nat) (b : Block) : Prop :=
  b.len = len
  ∨ (b.tier = .tlsf ∧ TlsfState.adjusted C.tlsf n ≤ b.len + headerSize
    ∧ b.len ≤ TlsfState.adjusted C.tlsf n)
  ∨ (b.tier = .buddy ∧ b.len = C.buddy.orderSize (C.buddy.orderForSize n))

section Located

variable {C : Config} {s s' : HeapState C} {v v' : Nat → RegionView}
  {held held' kept : Nat → Option Block} {p n : Nat} {l : Located}

/-- A record of a block outlives every step that keeps the block. -/
theorem LocatedAt.persist (h : HeapInv s v held) (found : LocatedAt s v held p l)
    (live : l.len ≠ 0) (step : HeapStep s s' v' kept held') (same : held' p = held p)
    : LocatedAt s' v' held' p l := by
  have known := (found.held_iff h).mpr ⟨live, rfl⟩
  rw [← same] at known
  obtain ⟨j, less, holds⟩ := (step.inv.blocks p _).mp known
  have region : ∀ i < s.count, (s.geo i).base ≤ p → p < (s.geo i).base + (s.geo i).total →
      j = i := by
    intro i less' lo hi
    rw [← step.geo i less'] at lo hi
    exact step.inv.holds_apart less (lt_of_lt_of_le less' step.more) holds ⟨lo, hi⟩
  cases found with
  | @small i x m lessI block place =>
      have inside := h.inside lessI (Or.inr ⟨x, m, block, place, rfl⟩)
      obtain rfl := region i lessI inside.1 (by omega)
      have geo := step.geo j lessI
      rcases holds with ⟨y, o, _, _, wrong⟩ | ⟨y, k, block', place', size⟩
      · cases congrArg Block.tier wrong
      · rw [geo] at place'
        obtain rfl : x = y := by omega
        have size : m - headerSize = k - headerSize := congrArg Block.len size
        rw [size]
        exact .small less block' (by rw [geo]; exact place)
  | @large i x o lessI block place =>
      have inside := h.inside lessI (Or.inl ⟨x, o, block, place, rfl⟩)
      obtain rfl := region i lessI inside.1 (by omega)
      have geo := step.geo j lessI
      rcases holds with ⟨y, i, block', place', size⟩ | ⟨y, k, _, _, wrong⟩
      · rw [geo] at place'
        obtain rfl : x = y := by omega
        have size : C.buddy.orderSize o = C.buddy.orderSize i := congrArg Block.len size
        have order : o = i := by
          rw [← C.buddy.orderForSize_orderSize (o := o), size, C.buddy.orderForSize_orderSize]
        subst order
        exact .large less block' (by rw [geo]; exact place)
      · cases congrArg Block.tier wrong
  | absent free => exact absurd rfl live

/-- A record without a length is of no block, and nothing can be done with it. -/
theorem LocatedAt.nothing (h : HeapInv s v held) (found : LocatedAt s v held p l)
    (none : l.len = 0)
    : held p = Option.none ∧ s.release l p = (s, false) ∧ (∀ n, s.shrinkAt l n = (s, 0))
        ∧ ∀ n, s.growAt l p n = (s, 0) := by
  have absent : ∀ b, held p ≠ some b := fun b known =>
    ((found.held_iff h).mp known).1 none
  cases found with
  | @small i x m less block place =>
      exact absurd ((h.blocks p _).mpr ⟨i, less, Or.inr ⟨x, m, block, place, rfl⟩⟩) (absent _)
  | @large i x o less block place =>
      exact absurd ((h.blocks p _).mpr ⟨i, less, Or.inl ⟨x, o, block, place, rfl⟩⟩) (absent _)
  | @absent r free => cases r <;> exact ⟨free, rfl, fun _ => rfl, fun _ => rfl⟩

/-- `release` of a located block. -/
theorem HeapInv.release (h : HeapInv s v held) (found : LocatedAt s v held p l)
    (live : l.len ≠ 0)
    : (s.release l p).2 = true ∧ Steady s (s.release l p).1
        ∧ ∃ v', HeapStep s (s.release l p).1 v' (Function.update held p none)
          (Function.update held p none) := by
  cases found with
  | @small i x m less block place =>
      subst place
      obtain ⟨w, step⟩ := (h.regions i less).smallFree block
      have inside := h.inside less (Or.inr ⟨x, m, block, rfl, rfl⟩)
      have done := h.setSmall (t := Function.update held ((s.geo i).base + x + headerSize) none)
        less step (Or.inl (by rw [block]; simp)) (by omega) (Or.inr ⟨rfl, rfl⟩)
      exact ⟨rfl, Steady.setRegion s i _, _, done⟩
  | @large i x o less block place =>
      subst place
      obtain ⟨w, step⟩ := (h.regions i less).largeFree block
      have inside := h.inside less (Or.inl ⟨x, o, block, rfl, rfl⟩)
      have done := h.setLarge (t := Function.update held ((s.geo i).base + x) none)
        less step (Or.inl (by rw [block]; simp)) (by omega) (Or.inr ⟨rfl, rfl⟩)
      exact ⟨rfl, Steady.setRegion s i _, _, done⟩
  | absent free => exact absurd rfl live

/-- The adjusted size of a request that fits a small block of `m` bytes is at most `m`. -/
theorem TlsfState.adjusted_le {T : TlsfParams} {m : Nat} (positive : 0 < n)
    (fits : n ≤ m - headerSize) (unit : 16 ∣ m) (large : 32 ≤ m) (most : m ≤ T.dataBytes)
    : adjusted T n ≠ 0 ∧ adjusted T n ≤ m := by
  simp only [headerSize] at fits
  have nonzero : adjusted T n ≠ 0 := by
    rw [ne_eq, adjusted_eq_zero]
    omega
  obtain ⟨_, _, dvd, _, less, _⟩ := adjusted_pos nonzero
  exact ⟨nonzero, by omega⟩

/-- `shrink_at` of a located block: it is cut down for `n` bytes, unless there are none or
more than it has.
-/
theorem HeapInv.shrinkAt (h : HeapInv s v held) (found : LocatedAt s v held p l)
    (live : l.len ≠ 0) (n : Nat)
    : ∃ v' m, (((s.shrinkAt l n).2 = m ∧ n ≤ m)
          ∨ ((s.shrinkAt l n).2 = 0 ∧ m = l.len ∧ (n = 0 ∨ l.len < n)))
        ∧ 0 < m ∧ m ≤ l.len ∧ (l.t = .buddy → m = l.len) ∧ Resized C n l.len ⟨m, l.t⟩
        ∧ Steady s (s.shrinkAt l n).1
        ∧ HeapStep s (s.shrinkAt l n).1 v' (Function.update held p (some ⟨m, l.t⟩))
          (Function.update held p (some ⟨m, l.t⟩)) := by
  cases found with
  | @small i x m less block place =>
      subst place
      obtain ⟨unit, unit', large, _⟩ := (h.regions i less).tlsf.granted_block block
      obtain ⟨sh, member, lo, hi⟩ := (h.regions i less).small_inside block
      have parts := C.tlsf.sheet_parts
      obtain ⟨w, step, answer, payload⟩ := (h.regions i less).smallShrink block n
      have inside := h.inside less (Or.inr ⟨x, m, block, rfl, rfl⟩)
      have size : (shrunkSize C.tlsf m n = TlsfState.adjusted C.tlsf n
            ∧ TlsfState.adjusted C.tlsf n ≠ 0 ∧ TlsfState.adjusted C.tlsf n + 32 ≤ m)
          ∨ shrunkSize C.tlsf m n = m := by
        unfold shrunkSize
        simp only
        split
        · next cut => exact Or.inl ⟨rfl, cut⟩
        · exact Or.inr rfl
      generalize shrunkSize C.tlsf m n = k at *
      have done := h.setSmall
        (t := Function.update held ((s.geo i).base + x + headerSize) (smallBlock (some k)))
        less step (Or.inr (by simp)) (by omega) (Or.inr ⟨rfl, rfl⟩)
      have call : (s.shrinkAt ⟨some i, m - headerSize, x, .tlsf⟩ n).2
          = if ((s.region i).tlsfState.shrink x n).2 then
              ((s.region i).tlsfState.shrink x n).1.payload x else 0 := by
        simp only [HeapState.shrinkAt, HeapState.onRegion]
      have bounds : 32 ≤ k ∧ k ≤ m := by
        rcases size with ⟨rfl, nonzero, fits⟩ | rfl
        · exact ⟨(TlsfState.adjusted_pos nonzero).2.2.2.2.2, by omega⟩
        · exact ⟨large, le_rfl⟩
      refine ⟨_, k - headerSize, ?_, ?_, ?_, fun kind => absurd kind (by simp), ?_,
        Steady.setRegion s i _, done⟩
      · rw [call, answer, payload]
        by_cases served : TlsfState.adjusted C.tlsf n ≠ 0 ∧ TlsfState.adjusted C.tlsf n ≤ m
        · obtain ⟨_, bound, dvd, room, tight, _⟩ := TlsfState.adjusted_pos served.1
          left
          rw [if_pos (decide_eq_true served)]
          have enough : TlsfState.adjusted C.tlsf n ≤ k := by
            rcases size with ⟨rfl, _, _⟩ | rfl
            · exact le_rfl
            · exact served.2
          refine ⟨rfl, ?_⟩
          simp only [headerSize]
          omega
        · right
          rw [if_neg (by simpa using served)]
          have fixed : k = m := size.resolve_left (fun cut => served ⟨cut.2.1, by omega⟩)
          refine ⟨rfl, by rw [fixed], ?_⟩
          by_contra fits
          obtain ⟨positive, le⟩ := not_or.mp fits
          exact served (TlsfState.adjusted_le (by omega) (by simpa using le) unit' large (by omega))
      · simp only [headerSize]
        omega
      · simp only
        omega
      · rcases size with ⟨rfl, _, _⟩ | rfl
        · refine Or.inr (Or.inl ⟨rfl, ?_, Nat.sub_le _ _⟩)
          simp only [headerSize]
          omega
        · exact Or.inl rfl
  | @large i x o less block place =>
      have known : held p = some ⟨C.buddy.orderSize o, .buddy⟩ :=
        (h.blocks p _).mpr ⟨i, less, Or.inl ⟨x, o, block, place, rfl⟩⟩
      have same : Function.update held p (some ⟨C.buddy.orderSize o, .buddy⟩) = held := by
        rw [← known, Function.update_eq_self]
      refine ⟨v, C.buddy.orderSize o, ?_, C.buddy.orderSize_pos o, le_rfl, fun _ => rfl,
        Or.inl rfl, ?_, ?_⟩
      · simp only [HeapState.shrinkAt]
        by_cases fits : n ≤ C.buddy.orderSize o
        · exact Or.inl ⟨if_pos fits, fits⟩
        · exact Or.inr ⟨if_neg fits, trivial, by omega⟩
      · exact .refl s
      · rw [same]
        exact h.refl held
  | absent free => exact absurd rfl live

/-- `grow_at` of a located block grows it, or changes nothing. -/
theorem HeapInv.growAt (h : HeapInv s v held) (found : LocatedAt s v held p l)
    (live : l.len ≠ 0) (n : Nat)
    : ((s.growAt l p n).2 = 0 ∧ (s.growAt l p n).1 = s)
      ∨ ∃ v' m, (s.growAt l p n).2 = m ∧ n ≤ m ∧ l.len ≤ m ∧ 0 < n
        ∧ (l.t = .tlsf → n ≤ C.classSmall) ∧ Resized C n l.len ⟨m, l.t⟩
        ∧ Steady s (s.growAt l p n).1
        ∧ HeapStep s (s.growAt l p n).1 v' held (Function.update held p (some ⟨m, l.t⟩)) := by
  cases found with
  | @small i x m less block place =>
      subst place
      by_cases large : n > C.classSmall
      · left
        simp [HeapState.growAt, large]
      obtain ⟨unit, unit', size, _⟩ := (h.regions i less).tlsf.granted_block block
      have inside := h.inside less (Or.inr ⟨x, m, block, rfl, rfl⟩)
      obtain ⟨w, k, step, le, accepted, refused, payload, _⟩ :=
        (h.regions i less).smallGrow block n
      have call : s.growAt ⟨some i, m - headerSize, x, .tlsf⟩
            ((s.geo i).base + x + headerSize) n
          = (s.setRegion i ((s.region i).setTlsf ((s.region i).tlsfState.grow x n).1),
            if ((s.region i).tlsfState.grow x n).2 then
              ((s.region i).tlsfState.grow x n).1.payload x else 0) := by
        simp only [HeapState.growAt, if_neg large, HeapState.onRegion]
      rw [call]
      cases answer : ((s.region i).tlsfState.grow x n).2 with
      | false =>
          left
          rw [(refused answer).1]
          exact ⟨rfl, by simp [HeapState.setRegion, HeapState.region]⟩
      | true =>
          obtain ⟨nonzero, least, tight⟩ := accepted answer
          obtain ⟨positive, _, dvd, room, _, _⟩ := TlsfState.adjusted_pos nonzero
          have done := h.setSmall (t := held) less step (Or.inr (by simp)) (by omega)
            (Or.inl ⟨rfl, rfl⟩)
          right
          refine ⟨_, k - headerSize, by rw [if_pos rfl]; exact payload, ?_, ?_, positive,
            fun _ => by omega, ?_, Steady.setRegion s i _, done⟩
          · simp only [headerSize]
            omega
          · simp only
            omega
          · rcases tight with rfl | most
            · exact Or.inl rfl
            · refine Or.inr (Or.inl ⟨rfl, ?_, ?_⟩)
              · simp only [headerSize]
                omega
              · simp only [headerSize]
                omega
  | @large i x o less block place =>
      subst place
      have inside := h.inside less (Or.inl ⟨x, o, block, rfl, rfl⟩)
      rcases (h.regions i less).largeGrow block n with
          ⟨zero, same⟩ | ⟨j, w, size, fits, le, positive, which, step⟩
      · left
        refine ⟨zero, ?_⟩
        change s.setRegion i ((s.region i).setBuddy _) = s
        rw [show (s.region i).setBuddy
          ((s.region i).buddyState.grow ((s.geo i).base + x) n).1 = s.region i from same]
        simp [HeapState.setRegion, HeapState.region]
      · right
        have done := h.setLarge (t := held) less step (Or.inr (by simp)) (by omega)
          (Or.inl ⟨rfl, rfl⟩)
        refine ⟨_, C.buddy.orderSize j, size, fits, C.buddy.orderSize_mono le, positive,
          fun kind => absurd kind (by simp), ?_, Steady.setRegion s i _, done⟩
        rcases which with rfl | rfl
        · exact Or.inl rfl
        · exact Or.inr (Or.inr ⟨rfl, rfl⟩)
  | absent free => exact absurd rfl live

end Located

end Bbmalloc
