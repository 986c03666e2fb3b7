import Bbmalloc.Buddy.Resizing
import Bbmalloc.Heap.Blocks

/-! The length that a block can have where it is, read off the state before it is resized:
its own, or with the free memory right behind it. `shrink_at` and `grow_at` reach exactly these
lengths.
-/

namespace Bbmalloc

open Bbmalloc.Foundations

/-- The length that `n` bytes leave a block of `r` bytes in place: a small block gives back a
rest that makes a block of its own.
-/
def Config.keptLen (C : Config) (n r : Nat) : Tier → Nat
  | .tlsf => shrunkSize C.tlsf (r + headerSize) n - headerSize
  | _ => r

/-- The block of a record at `p` has `r` bytes for a request of `n`: as it is, with the free
block behind a small one, or at the order of the request if all bytes up to there are free.
-/
inductive HeapState.Reaches {C : Config} (s : HeapState C) (p n : Nat) : Located → Nat → Prop
  | own {l : Located} (holds : n ≤ l.len) : s.Reaches p n l l.len
  | small {i len off : Nat} (short : len < n) (request : n ≤ C.classSmall)
      (free : (s.region i).tlsfState.isFree (off + (len + headerSize)) = true)
      (enough : TlsfState.adjusted C.tlsf n
        ≤ len + headerSize + (s.region i).tlsfState.bsize (off + (len + headerSize)))
      : s.Reaches p n ⟨some i, len, off, .tlsf⟩
        (len + (s.region i).tlsfState.bsize (off + (len + headerSize)))
  | large {i len o : Nat} (short : len < n)
      (order : C.buddy.orderForSize n < (s.geo i).maxOrder)
      (place : C.buddy.orderSize (C.buddy.orderForSize n) ∣ p - (s.geo i).base)
      (free : ∀ k, p - (s.geo i).base + len ≤ k →
        k < p - (s.geo i).base + C.buddy.orderSize (C.buddy.orderForSize n) →
        k < (s.geo i).total ∧ (s.region i).buddyState.FreeByte k)
      : s.Reaches p n ⟨some i, len, o, .buddy⟩ (C.buddy.orderSize (C.buddy.orderForSize n))

section Extension

variable {C : Config} {s : HeapState C} {v : Nat → RegionView} {held : Nat → Option Block}
  {p n r r' : Nat} {l : Located}

/-- There is one such length at most. -/
theorem HeapState.Reaches.unique (h : s.Reaches p n l r) (h' : s.Reaches p n l r') : r = r' := by
  cases h with
  | own holds =>
      cases h' with
      | own => rfl
      | small short => exact absurd holds (Nat.not_le.mpr short)
      | large short => exact absurd holds (Nat.not_le.mpr short)
  | small short =>
      cases h' with
      | own holds => exact absurd holds (Nat.not_le.mpr short)
      | small => rfl
  | large short =>
      cases h' with
      | own holds => exact absurd holds (Nat.not_le.mpr short)
      | large => rfl

/-- A block that is large enough is left with the length that the request leaves it. -/
theorem HeapInv.shrinkAt_kept (h : HeapInv s v held) (found : LocatedAt s v held p l)
    (positive : 0 < n) (holds : n ≤ l.len)
    : (s.shrinkAt l n).2 = C.keptLen n l.len l.t := by
  cases found with
  | @small i x m less block place =>
      obtain ⟨_, unit, large, _⟩ := (h.regions i less).tlsf.granted_block block
      obtain ⟨sh, member, lo, hi⟩ := (h.regions i less).small_inside block
      have parts := C.tlsf.sheet_parts
      obtain ⟨_, _, answer, payload⟩ := (h.regions i less).smallShrink block n
      have fits := TlsfState.adjusted_le (T := C.tlsf) positive (by simpa using holds) unit large
        (by omega)
      have same : m - headerSize + headerSize = m := by
        simp only [headerSize]
        omega
      simp only [HeapState.shrinkAt, HeapState.onRegion, Config.keptLen, same, answer]
      rw [if_pos (by simpa using fits)]
      exact payload
  | large less block place => exact if_pos holds
  | absent free => exact absurd holds (Nat.not_le.mpr positive)

/-- A block that is too small grows exactly if it reaches a length that is enough. -/
theorem HeapInv.growAt_kept (h : HeapInv s v held) (found : LocatedAt s v held p l)
    (live : l.len ≠ 0) (short : l.len < n)
    : (s.growAt l p n).2 = 0 ∧ (∀ r, ¬s.Reaches p n l r)
      ∨ ∃ r, s.Reaches p n l r ∧ (s.growAt l p n).2 = C.keptLen n r l.t
        ∧ (s.growAt l p n).2 ≠ 0 := by
  cases found with
  | @small i x m less block place =>
      subst place
      by_cases large : n > C.classSmall
      · left
        refine ⟨by simp [HeapState.growAt, large], fun r reaches => ?_⟩
        cases reaches with
        | own holds => exact absurd holds (Nat.not_le.mpr short)
        | small _ request => omega
      obtain ⟨_, unit, size, _⟩ := (h.regions i less).tlsf.granted_block block
      have same : m - headerSize + headerSize = m := by
        simp only [headerSize]
        omega
      obtain ⟨fits, _⟩ := TlsfState.adjusted_small (T := C.tlsf) (show 0 < n by omega)
        (show n ≤ C.tlsf.smallMax by simp only [Config.classSmall] at large; omega)
      obtain ⟨_, room, _, _⟩ := TlsfState.adjusted_spec (T := C.tlsf) (show 0 < n by omega) fits
      obtain ⟨_, k, _, _, accepted, _, payload, exact⟩ := (h.regions i less).smallGrow block n
      obtain ⟨iff, kept⟩ := exact (by simp only [headerSize] at short; omega)
      have call : (s.growAt ⟨some i, m - headerSize, x, .tlsf⟩
            ((s.geo i).base + x + headerSize) n).2
          = if ((s.region i).tlsfState.grow x n).2 then
              ((s.region i).tlsfState.grow x n).1.payload x else 0 := by
        simp only [HeapState.growAt, if_neg large, HeapState.onRegion]
      rw [call]
      cases answer : ((s.region i).tlsfState.grow x n).2 with
      | false =>
          left
          refine ⟨rfl, fun r reaches => ?_⟩
          cases reaches with
          | own holds => exact absurd holds (Nat.not_le.mpr short)
          | small _ _ free enough =>
              rw [same] at free enough
              rw [iff.mpr ⟨free, enough⟩] at answer
              cases answer
      | true =>
          obtain ⟨free, enough⟩ := iff.mp answer
          obtain ⟨_, least, _⟩ := accepted answer
          refine Or.inr ⟨_, .small short (by omega) (by rw [same]; exact free)
            (by rw [same]; exact enough), ?_, ?_⟩
          · rw [if_pos rfl, payload, kept answer, same]
            simp only [Config.keptLen]
            congr 2
            simp only [headerSize]
            omega
          · rw [if_pos rfl, payload]
            omega
  | @large i x o less block place =>
      subst place
      have known := (ownedOf_eq_some.mp (Live.of_large.mp block)).1
      have larger : o < C.buddy.orderForSize n := by
        by_contra le
        exact absurd ((C.buddy.orderForSize_le (show 0 < n by omega)).mp (Nat.not_lt.mp le))
          (Nat.not_le.mpr short)
      have iff := (h.regions i less).buddy.grow_iff known larger
      have call : (s.growAt ⟨some i, C.buddy.orderSize o, o, .buddy⟩ ((s.geo i).base + x) n).2
          = ((s.region i).buddyState.grow ((s.region i).buddyState.base + x) n).2 := rfl
      have offset : (s.geo i).base + x - (s.geo i).base = x := Nat.add_sub_cancel_left _ _
      rw [call]
      by_cases refused
          : ((s.region i).buddyState.grow ((s.region i).buddyState.base + x) n).2 = 0
      · left
        refine ⟨refused, fun r reaches => ?_⟩
        cases reaches with
        | own holds => exact absurd holds (Nat.not_le.mpr short)
        | large _ order unit free =>
            rw [offset] at unit free
            exact iff.mpr ⟨order, unit, free⟩ refused
      · right
        obtain ⟨order, unit, free⟩ := iff.mp refused
        refine ⟨_, .large short order (by rw [offset]; exact unit) (by rw [offset]; exact free),
          ?_, refused⟩
        rcases (h.regions i less).buddy.grow known n with
          ⟨zero, _⟩ | ⟨_, _, _, le⟩ | ⟨_, _, size, _⟩
        · exact absurd zero refused
        · omega
        · exact size
  | absent free => exact absurd rfl live

end Extension

end Bbmalloc
