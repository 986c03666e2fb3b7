import Bbmalloc.Malloc.Extent
import Bbmalloc.Malloc.Resizing

/-! How far the length that the container adapter advertises can be trusted. A new block has
what the adapter expects of it. A block that is resized where it is keeps its tier and need not.
-/

namespace Bbmalloc

open Bbmalloc.Foundations

/-- A chunk that a call of the adapter returns for `bytes` bytes lies in its block. -/
def HeapState.ExtentFits {C : Config} (bytes : Nat) (c : HeapState C × Exit Chunk) : Prop :=
  ∀ q len, c.2 = .returned ⟨q, len⟩ → q ≠ 0 → bytes ≤ len ∧ len ≤ (c.1.querySize q).2

/-- `old` starts a block that a resize leaves where it is, shorter than the adapter expects:
the redzone check passes, the block is placed for the alignment, and what it has there for the
request is less than the expected block.
-/
structure HeapState.Overreports {C : Config} (s : HeapState C) (old : Chunk) (bytes a : Nat)
    : Prop where
  positive : 0 < bytes
  live : (s.locate old.ptr).2.len ≠ 0
  redzone : C.rz ≤ (s.locate old.ptr).2.len
  passes : (s.checkRedzone old.ptr ((s.locate old.ptr).2.len - C.rz)).2 ≠ .halted
  aligned : a ∣ old.ptr
  short : ∃ r, s.Reaches old.ptr (bytes + C.rz) (s.locate old.ptr).2 r
    ∧ C.keptLen (bytes + C.rz) r (s.locate old.ptr).2.t < C.expected (bytes + C.rz) a

-----------------------------------------------------------------------------------------
-- What is located
-----------------------------------------------------------------------------------------

section Located

variable {C : Config} {s : HeapState C} {v : Nat → RegionView} {held : Nat → Option Block}
  {p : Nat} {b : Block}

/-- `locate` and `query_size` of a live block. -/
theorem HeapInv.locate_known (h : HeapInv s v held) (known : held p = some b)
    : (s.locate p).1 = s ∧ (s.locate p).2.len = b.len ∧ (s.locate p).2.t = b.tier
      ∧ (s.locate p).2.len ≠ 0 ∧ (s.querySize p).2 = b.len - C.rz := by
  obtain ⟨i, less, _⟩ := h.held_inside known
  obtain ⟨same, found⟩ := h.locate (h.inited_of_count (show 0 < s.count by omega)) p
  obtain ⟨len, live, tier⟩ := found.held_len h known
  refine ⟨same, len, tier, live, ?_⟩
  rw [HeapState.querySize]
  simp only
  rw [if_neg live, len]

/-- `locate` of an address at which no block starts. -/
theorem HeapInv.locate_unknown (h : HeapInv s v held) (ready : s.inited = true)
    (unknown : held p = none)
    : (s.locate p).2.len = 0 := by
  obtain ⟨_, found⟩ := h.locate ready p
  by_contra live
  have known := (found.held_iff h).mpr ⟨live, rfl⟩
  rw [unknown] at known
  cases known

/-- A power of two divides the alignment that an allocation for it has. -/
theorem dvd_max_native {a : Nat} (pow : isPow2 a = true) : a ∣ max nativeAlignment a := by
  rcases le_total nativeAlignment a with beyond | native
  · rw [max_eq_right beyond]
  · obtain ⟨k, rfl⟩ := (isPow2_iff a).mp pow
    rw [max_eq_left native]
    exact (Nat.pow_dvd_pow_iff_le_right (by omega)).mpr
      ((Nat.pow_le_pow_iff_right (n := k) (m := 4) (by omega)).mp native)

/-- `resize` turns other alignments down. -/
theorem HeapState.resize_pow2 {size preserve a q len : Nat} {old : Chunk}
    (returned : (s.resize old size preserve a).2 = .returned ⟨q, len⟩) (notNull : q ≠ 0)
    : isPow2 a = true := by
  by_contra odd
  rw [resize, if_pos (by simpa using odd)] at returned
  cases returned
  exact notNull rfl

end Located

-----------------------------------------------------------------------------------------
-- The advertised length
-----------------------------------------------------------------------------------------

section Extents

variable {C : Config} {s : HeapState C} {v : Nat → RegionView} {held : Nat → Option Block}
  {p want a bytes m r size preserve : Nat} {b d : Block} {old : Chunk}

/-- The adapter expects no more than a large block that holds the request and is as long as
the alignment.
-/
theorem Config.expected_le_order {o : Nat} (positive : 0 < want)
    (fits : want ≤ C.buddy.orderSize o) (reach : nativeAlignment < a → a ≤ C.buddy.orderSize o)
    : C.expected want a ≤ C.buddy.orderSize o := by
  have order := C.buddy.orderSize_mono ((C.buddy.orderForSize_le positive).mpr fits)
  have unit : 16 ∣ C.buddy.orderSize o := by
    rw [C.buddy.orderSize_eq, show 16 = 2 ^ 4 from rfl]
    exact Nat.pow_dvd_pow 2 (by have := C.min_block_large; omega)
  rw [Config.expected]
  split
  · omega
  · refine max_le order ?_
    by_cases native : nativeAlignment < a
    · exact reach native
    · exact (not_lt.mp native).trans (Nat.le_of_dvd (by omega) unit)

/-- The adapter expects no more than the block that an allocation makes. -/
theorem Fitting.expected_le (fitting : Fitting C want (max nativeAlignment a) b)
    (positive : 0 < want)
    : C.expected want a ≤ b.len := by
  rcases fitting with ⟨_, native, small, least, _⟩ | ⟨_, len⟩
  · have expects : C.ExpectsSmall want a := ⟨(le_max_right _ _).trans native, small⟩
    obtain ⟨fits, _⟩ := TlsfState.adjusted_small (T := C.tlsf) positive small
    obtain ⟨unit, room, _⟩ := TlsfState.adjusted_spec (T := C.tlsf) positive fits
    rw [Config.expected, if_pos expects]
    simp only [headerSize] at least
    omega
  · rw [len, Config.wantOrder]
    split
    · next native =>
        have low : a ≤ nativeAlignment := (le_max_right _ _).trans native
        exact Config.expected_le_order positive (C.buddy.le_orderSize positive)
          (fun beyond => absurd low (by omega))
    · next beyond =>
        have same : max nativeAlignment a = a := max_eq_right (by omega)
        obtain ⟨holds, reach⟩ := C.buddy.le_alignedOrder want (max nativeAlignment a)
        refine Config.expected_le_order positive
          ((C.buddy.orderForSize_le positive).mp holds) (fun _ => ?_)
        rw [same] at reach ⊢
        exact (C.buddy.orderForSize_le (by simp only [nativeAlignment] at *; omega)).mp reach

/-- The advertised length lies in a block exactly if the expected block does. -/
theorem HeapState.allocationExtent_le_iff (positive : 0 < bytes) (room : C.rz ≤ m)
    (fits : m + 1 < C.buddy.word)
    : allocationExtent C bytes a ≤ m - C.rz ↔ C.expected (bytes + C.rz) a ≤ m := by
  have max : C.usizeMax = C.buddy.word - 1 := rfl
  rw [allocationExtent_eq positive]
  split
  · next saturates =>
      have top := saturates.2
      rw [Config.expected, if_neg saturates.1]
      omega
  · have holds := C.le_expected (show 0 < bytes + C.rz by omega) a
    omega

/-- The advertised length holds the bytes asked for if the expected block is a word. -/
theorem HeapState.le_allocationExtent_of_expected (positive : 0 < bytes)
    (fits : C.expected (bytes + C.rz) a < C.buddy.word)
    : bytes ≤ allocationExtent C bytes a := by
  have holds := C.le_expected (show 0 < bytes + C.rz by omega) a
  have max : C.usizeMax = C.buddy.word - 1 := rfl
  rw [allocationExtent_eq positive]
  split <;> omega

theorem HeapState.resizeDown_place (s : HeapState C) (l : Located) (p : Nat) (want : Option Nat)
    : ∃ len, (s.resizeDown l p want).2 = ⟨p, len⟩ := by
  cases want with
  | none => exact ⟨l.len - C.rz, rfl⟩
  | some want =>
      simp only [resizeDown]
      split
      · exact ⟨_, rfl⟩
      · exact ⟨_, rfl⟩

/-- What the adapter does with a chunk is not seen in the heap. -/
theorem HeapState.advertise_state (c : HeapState C × Exit Chunk) (n a : Nat)
    : (andThen c (advertise n a)).1 = c.1 := by
  rw [andThen]
  cases c.2 with
  | returned d =>
      simp only [advertise]
      split <;> rfl
  | threw => rfl
  | halted => rfl

/-- What the adapter returns is what it was handed, with the advertised length. -/
theorem HeapState.advertise_returned {c : HeapState C × Exit Chunk} {q len : Nat}
    (notNull : q ≠ 0)
    : (andThen c (advertise bytes a)).2 = .returned ⟨q, len⟩
      ↔ (∃ n, c.2 = .returned ⟨q, n⟩) ∧ len = allocationExtent C bytes a := by
  obtain ⟨t, e⟩ := c
  cases e with
  | threw => simp [andThen]
  | halted => simp [andThen]
  | returned d =>
      obtain ⟨x, n⟩ := d
      simp only [andThen, advertise]
      by_cases null : x = 0
      · rw [if_pos null]
        simp only [reduceCtorEq, Exit.returned.injEq, Chunk.mk.injEq, false_iff, not_and]
        rintro ⟨_, same, _⟩
        omega
      · rw [if_neg null]
        simp only [Exit.returned.injEq, Chunk.mk.injEq]
        constructor
        · rintro ⟨rfl, rfl⟩
          exact ⟨⟨n, rfl, rfl⟩, rfl⟩
        · rintro ⟨⟨_, rfl, _⟩, rfl⟩
          exact ⟨rfl, rfl⟩

/-- The advertised length lies in the block that is live at the pointer exactly if the
expected block does.
-/
theorem HeapInv.advertised_iff (h : HeapInv s v held) (known : held p = some d)
    (positive : 0 < bytes) (room : bytes + C.rz ≤ d.len)
    : (bytes ≤ HeapState.allocationExtent C bytes a
        ∧ HeapState.allocationExtent C bytes a ≤ (s.querySize p).2)
      ↔ C.expected (bytes + C.rz) a ≤ d.len := by
  obtain ⟨_, _, _, _, query⟩ := h.locate_known known
  have inside := h.held_lt known
  rw [query, HeapState.allocationExtent_le_iff positive (by omega) (by omega)]
  exact ⟨And.right, fun le =>
    ⟨HeapState.le_allocationExtent_of_expected positive (by omega), le⟩⟩

/-- An allocation for the adapter: the advertised length lies in the block. -/
theorem Served.extent_fits {c : HeapState C × Exit Chunk} {q n : Nat}
    (served : Served s v held bytes (max nativeAlignment a) c)
    (returned : c.2 = .returned ⟨q, n⟩) (notNull : q ≠ 0)
    : bytes ≤ HeapState.allocationExtent C bytes a
      ∧ HeapState.allocationExtent C bytes a ≤ (c.1.querySize q).2 := by
  cases served with
  | refused result _ =>
      rw [returned] at result
      exact absurd (C.refused_null result) notNull
  | @granted p b v' chunk _ _ _ positive enough fitting step =>
      rw [returned] at chunk
      cases chunk
      have block : Function.update held q (some b) q = some b := Function.update_self _ _ _
      exact (step.inv.advertised_iff block positive enough).mpr (fitting.expected_le (by omega))

/-- The chunk that `create` returns lies in its block. -/
theorem HeapInv.create_fits (h : HeapInv s v held) (fits : C.PoolFits) (supply : s.Supplied)
    (bytes a : Nat)
    : HeapState.ExtentFits bytes (s.create bytes a) := by
  intro q len returned notNull
  rw [HeapState.create] at returned ⊢
  by_cases zero : bytes = 0
  · rw [if_pos zero] at returned
    cases returned
    exact absurd rfl notNull
  rw [if_neg zero] at returned ⊢
  rw [HeapState.advertise_state]
  obtain ⟨⟨n, granted⟩, rfl⟩ := (HeapState.advertise_returned notNull).mp returned
  exact (h.allocFor fits supply bytes a).extent_fits granted notNull

/-- What `locate` finds is live, also if it has to initialise the heap first. -/
theorem HeapInv.locate_live (h : HeapInv s v held) (fits : C.PoolFits) (supply : s.Supplied)
    (live : (s.locate p).2.len ≠ 0)
    : held p = some ⟨(s.locate p).2.len, (s.locate p).2.t⟩ ∧ (s.locate p).1 = s := by
  obtain ⟨_, first, _, found, same⟩ := h.locate_ready fits (fun _ => supply.now) p
  have known := (found.held_iff first.inv).mpr ⟨live, rfl⟩
  obtain ⟨i, less, _⟩ := h.held_inside known
  exact ⟨known, same.trans (HeapState.ensure_ready (h.inited_of_count (by omega)))⟩

/-- A resize leaves a block where it is that is placed for the alignment and can have a length
there that is enough, if the redzone check passes.
-/
theorem HeapInv.resize_stays (h : HeapInv s v held) (fits : C.PoolFits) (supply : s.Supplied)
    (excess : s.Overreports old bytes a) (pow : isPow2 a = true) (preserve : Nat)
    : ∃ len, (s.resize old bytes preserve a).2 = .returned ⟨old.ptr, len⟩ := by
  obtain ⟨positive, live, redzone, passes, aligned, r, reaches, _⟩ := excess
  obtain ⟨known, same⟩ := h.locate_live fits supply live
  obtain ⟨i, less, _⟩ := h.held_inside known
  obtain ⟨_, found⟩ := h.locate (h.inited_of_count (show 0 < s.count by omega)) old.ptr
  have notNull := (h.held_lt known).1
  have placed := (placed_iff pow old.ptr).mpr aligned
  have bound := (h.held_lt known).2
  rcases s.checkRedzone_eq old.ptr ((s.locate old.ptr).2.len - C.rz) with ⟨ok, check⟩ | ⟨check, _⟩
  swap
  · exact absurd (by rw [check]) passes
  rw [HeapState.resize, if_neg (by simp [pow]), if_neg (by omega), if_neg (by omega)]
  simp only [same]
  rw [if_neg (by simp only [Bool.or_eq_true, decide_eq_true_eq]; omega), check]
  simp only [HeapState.andThen]
  generalize (s.locate old.ptr).2 = l at *
  by_cases down : bytes ≤ l.len - C.rz
  · obtain ⟨len, place⟩ := s.resizeDown_place l old.ptr (HeapState.checkAddOverflow C bytes C.rz)
    simp only [down, placed, decide_true, Bool.and_self, if_true]
    exact ⟨len, by rw [place]⟩
  · have kept := h.growAt_kept found live (n := bytes + C.rz) (by omega)
    obtain ⟨t, _, _, grows⟩ := kept.resolve_left (fun none => none.2 r reaches)
    have room : bytes + C.rz < C.buddy.word := by
      rcases h.growAt found live (bytes + C.rz) with
        ⟨zero, _⟩ | ⟨_, m, _, enough, _, _, _, _, _, step⟩
      · exact absurd zero grows
      · have := (step.inv.held_lt (p := old.ptr) (b := ⟨m, l.t⟩) (by simp)).2
        simp only at this
        omega
    have sane : HeapState.checkAddOverflow C bytes C.rz = some (bytes + C.rz) := if_pos room
    simp only [down, placed, sane, decide_false, decide_true, Bool.false_and, Bool.false_eq_true,
      if_false, HeapState.resizeUp, grows, ne_eq, not_false_eq_true, if_true]
    rw [if_pos (by omega)]
    exact ⟨_, rfl⟩

/-- `resize` of the adapter in terms of the resize below it. -/
theorem HeapState.containerResize_fits (s : HeapState C) (old : Chunk) (bytes preserve a : Nat)
    : ExtentFits bytes (s.containerResize old bytes preserve a)
      ↔ bytes = 0 ∨ ∀ q n, (s.resize old bytes preserve a).2 = .returned ⟨q, n⟩ → q ≠ 0 →
        bytes ≤ allocationExtent C bytes a
          ∧ allocationExtent C bytes a ≤ ((s.resize old bytes preserve a).1.querySize q).2 := by
  rw [containerResize]
  by_cases zero : bytes = 0
  · refine ⟨fun _ => Or.inl zero, fun _ q len returned notNull => ?_⟩
    rw [if_pos zero] at returned
    simp only [andThen] at returned
    split at returned
    · cases returned
      exact absurd rfl notNull
    · cases returned
    · cases returned
  rw [if_neg zero]
  simp only [ExtentFits, advertise_state]
  constructor
  · intro within
    refine Or.inr (fun q n returned notNull => ?_)
    exact within q _ ((advertise_returned notNull).mpr ⟨⟨n, returned⟩, rfl⟩) notNull
  · intro within q len returned notNull
    obtain ⟨⟨n, granted⟩, rfl⟩ := (advertise_returned notNull).mp returned
    exact within.resolve_left zero q n granted notNull

/-- A resize that returns a chunk has found a block with a redzone that passes the check. -/
theorem HeapState.resize_checked {q n : Nat} (s : HeapState C) (old : Chunk)
    (pow : isPow2 a = true) (notNull : old.ptr ≠ 0) (positive : 0 < size)
    (returned : (s.resize old size preserve a).2 = .returned ⟨q, n⟩) (some : q ≠ 0)
    : C.rz ≤ (s.locate old.ptr).2.len
      ∧ ((s.locate old.ptr).1.checkRedzone old.ptr ((s.locate old.ptr).2.len - C.rz)).2
        ≠ .halted := by
  rw [resize, if_neg (by simp [pow]), if_neg notNull, if_neg (by omega)] at returned
  simp only at returned
  by_cases known : (s.locate old.ptr).2.len = 0 ∨ (s.locate old.ptr).2.len < C.rz
  · rw [if_pos (by simpa using known), handleBadFree] at returned
    split at returned
    · cases returned
    · cases returned
      exact absurd rfl some
  · refine ⟨by omega, fun halted => ?_⟩
    rw [if_neg (by simpa using known)] at returned
    simp only [andThen, halted] at returned
    cases returned

/-- A block that stays where it is holds what is advertised exactly if it has the length that the
adapter expects.
-/
theorem HeapInv.overreports_iff (h : HeapInv s v held) (known : held old.ptr = some b)
    (positive : 0 < bytes) (redzone : C.rz ≤ b.len)
    (passes : (s.checkRedzone old.ptr ((s.locate old.ptr).2.len - C.rz)).2 ≠ .halted)
    (aligned : a ∣ old.ptr)
    (reaches : s.Reaches old.ptr (bytes + C.rz) (s.locate old.ptr).2 r)
    : s.Overreports old bytes a ↔ C.keptLen (bytes + C.rz) r b.tier < C.expected (bytes + C.rz) a
    := by
  obtain ⟨_, len, tier, live, _⟩ := h.locate_known known
  constructor
  · intro excess
    obtain ⟨r', reaches', short⟩ := excess.short
    rwa [reaches'.unique reaches, tier] at short
  · intro short
    exact ⟨positive, live, by omega, passes, aligned, r, reaches, by rw [tier]; exact short⟩

/-- The chunk that the adapter's resize returns lies in its block exactly if the call does not
leave a block where it is that is shorter than the adapter expects.
-/
theorem HeapInv.containerResize_exact (h : HeapInv s v held) (fits : C.PoolFits)
    (supply : s.Supplied) (pow : isPow2 a = true) (old : Chunk) (bytes preserve : Nat)
    : HeapState.ExtentFits bytes (s.containerResize old bytes preserve a)
      ↔ ¬s.Overreports old bytes a := by
  rw [s.containerResize_fits]
  have stays := fun excess : s.Overreports old bytes a =>
    h.resize_stays fits supply excess pow preserve
  have live := fun excess : s.Overreports old bytes a =>
    (h.locate_live fits supply excess.live).1
  have checked := fun notNull positive => fun {q n : Nat}
      (returned : (s.resize old bytes preserve a).2 = .returned ⟨q, n⟩) =>
    s.resize_checked old pow notNull positive returned
  generalize call : s.resize old bytes preserve a = c at stays checked ⊢
  have outcome : Resizes s v held old bytes preserve a c := by
    rw [← call]
    exact h.resize fits supply old bytes preserve a
  cases outcome with
  | ignored odd _ =>
      rw [pow] at odd
      cases odd
  | allocated null served =>
      refine ⟨fun _ excess => ?_, fun _ => Or.inr ?_⟩
      · have := (h.held_lt (live excess)).1
        omega
      · exact fun q n returned notNull => served.extent_fits returned notNull
  | released zero _ _ _ _ =>
      exact ⟨fun _ excess => absurd zero excess.positive.ne', fun _ => Or.inl zero⟩
  | bad positive short result _ _ =>
      refine ⟨fun _ excess => ?_, fun _ => Or.inr (fun q n returned notNull => ?_)⟩
      · exact absurd (short _ (live excess)) (Nat.not_lt.mpr excess.redzone)
      · rw [returned] at result
        exact absurd (C.refused_null (result.imp id (fun halted => by cases halted))) notNull
  | reshaped positive reshaped =>
      have zero : bytes ≠ 0 := by omega
      cases reshaped with
      | refused result step =>
          have null : ∀ q n, c.2 = .returned ⟨q, n⟩ → q = 0 := by
            intro q n returned
            rw [returned] at result
            rcases result with null | failure | halted
            · exact C.refused_null (Or.inl null)
            · exact C.refused_null (Or.inr failure)
            · cases halted
          refine ⟨fun _ excess => ?_, fun _ => Or.inr (fun q n returned notNull => ?_)⟩
          · obtain ⟨n, returned⟩ := stays excess
            have := (h.held_lt (live excess)).1
            have := null _ _ returned
            omega
          · exact absurd (null q n returned) notNull
      | @inPlace b m v' known chunk aligned enough _ _ _ reach step _ =>
          obtain ⟨r, reaches, rfl⟩ := reach
          obtain ⟨same, len, tier, found, _⟩ := h.locate_known known
          have notNull : old.ptr ≠ 0 := (h.held_lt known).1.ne'
          obtain ⟨redzone, passes⟩ := checked notNull positive chunk notNull
          rw [same] at passes
          have after : Function.update held old.ptr
              (some ⟨C.keptLen (bytes + C.rz) r b.tier, b.tier⟩) old.ptr
              = some ⟨C.keptLen (bytes + C.rz) r b.tier, b.tier⟩ := Function.update_self _ _ _
          rw [h.overreports_iff known positive (by omega) passes aligned reaches, Nat.not_lt,
            ← step.inv.advertised_iff after positive enough]
          refine ⟨fun within => within.resolve_left zero _ _ chunk notNull, fun fits =>
            Or.inr (fun q n returned _ => ?_)⟩
          rw [chunk] at returned
          cases returned
          exact fits
      | @moved b d q v' known chunk notNull _ unused enough fitting step _ =>
          have fits := (step.inv.advertised_iff (p := q) (d := d) (a := a) (by simp) positive
            enough).mpr (fitting.expected_le (by omega))
          refine ⟨fun _ excess => ?_, fun _ => Or.inr (fun q' n returned _ => ?_)⟩
          · obtain ⟨n, returned⟩ := stays excess
            rw [chunk, Exit.returned.injEq, Chunk.mk.injEq] at returned
            rw [← returned.1, unused] at known
            cases known
          · rw [chunk] at returned
            cases returned
            exact fits

end Extents

end Bbmalloc
