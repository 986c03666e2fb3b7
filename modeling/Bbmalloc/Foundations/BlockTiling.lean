import Mathlib

/-! Partitions of an address span into blocks. A partition maps the first address of
each block to a description of the block, from which its size is computed.
-/

namespace Bbmalloc.Foundations

/-- The blocks of `block` are non-empty, lie in `span`, do not overlap and cover `span`. -/
structure Tiled {β : Type} (size : β → Nat) (span : Nat → Prop) (block : Nat → Option β)
    : Prop where
  pos : ∀ {a b}, block a = some b → 0 < size b
  inside : ∀ {a b}, block a = some b → ∀ {x}, a ≤ x → x < a + size b → span x
  apart : ∀ {a b c d}, block a = some b → block c = some d → a < c → a + size b ≤ c
  cover : ∀ {x}, span x → ∃ a b, block a = some b ∧ a ≤ x ∧ x < a + size b

section Tilings

variable {β : Type} {size : β → Nat} {span : Nat → Prop} {block : Nat → Option β}

/-- One address lies in one block only. -/
theorem Tiled.unique (h : Tiled size span block) {a c x : Nat} {b d : β}
    (first : block a = some b) (second : block c = some d)
    (lo : a ≤ x) (hi : x < a + size b) (lo' : c ≤ x) (hi' : x < c + size d)
    : a = c ∧ b = d := by
  rcases Nat.lt_trichotomy a c with before | same | after
  · have := h.apart first second before
    omega
  · subst same
    exact ⟨rfl, Option.some.inj (first.symm.trans second)⟩
  · have := h.apart second first after
    omega

/-- No block starts strictly inside another. -/
theorem Tiled.none_inside (h : Tiled size span block) {a x : Nat} {b : β}
    (known : block a = some b) (lo : a < x) (hi : x < a + size b)
    : block x = none := by
  cases found : block x with
  | none => rfl
  | some d =>
      have := h.apart known found lo
      omega

/-- Distinct blocks are disjoint. -/
theorem Tiled.disjoint (h : Tiled size span block) {a c : Nat} {b d : β}
    (first : block a = some b) (second : block c = some d) (differ : a ≠ c)
    : a + size b ≤ c ∨ c + size d ≤ a := by
  rcases Nat.lt_or_gt_of_ne differ with before | after
  · exact Or.inl (h.apart first second before)
  · exact Or.inr (h.apart second first after)

/-- Some block starts where another ends, if the span goes on there. -/
theorem Tiled.next (h : Tiled size span block) {a : Nat} {b : β}
    (known : block a = some b) (more : span (a + size b))
    : ∃ d, block (a + size b) = some d := by
  obtain ⟨c, d, found, lo, hi⟩ := h.cover more
  rcases Nat.lt_trichotomy c (a + size b) with before | same | after
  · by_cases earlier : c ≤ a
    · have := h.unique known found (x := a) (by omega) (by have := h.pos known; omega) earlier
        (by omega)
      obtain ⟨rfl, rfl⟩ := this
      omega
    · have := h.apart known found (by omega)
      omega
  · exact ⟨d, same ▸ found⟩
  · omega

/-- Some block ends where another starts, if the span begins earlier. -/
theorem Tiled.prev (h : Tiled size span block) {a x : Nat} {b : β}
    (known : block a = some b) (before : x + 1 = a) (more : span x)
    : ∃ c d, block c = some d ∧ c + size d = a := by
  obtain ⟨c, d, found, lo, hi⟩ := h.cover more
  have := h.apart found known (by omega)
  exact ⟨c, d, found, by omega⟩

/-- Changing a block's description but not its size. -/
theorem Tiled.relabel (h : Tiled size span block) {a : Nat} {b d : β}
    (known : block a = some b) (same : size d = size b)
    : Tiled size span (Function.update block a (some d)) := by
  have back : ∀ {x e}, Function.update block a (some d) x = some e →
      ∃ e', block x = some e' ∧ size e' = size e := by
    intro x e found
    rw [Function.update_apply] at found
    split at found
    · rename_i eq
      subst eq
      exact ⟨b, known, by rw [← same, Option.some.inj found]⟩
    · exact ⟨e, found, rfl⟩
  refine ⟨?_, ?_, ?_, ?_⟩
  · intro x e found
    obtain ⟨e', old, eq⟩ := back found
    exact eq ▸ h.pos old
  · intro x e found y lo hi
    obtain ⟨e', old, eq⟩ := back found
    exact h.inside old lo (eq ▸ hi)
  · intro x e y f found found' before
    obtain ⟨e', old, eq⟩ := back found
    obtain ⟨f', old', _⟩ := back found'
    exact eq ▸ h.apart old old' before
  · intro x within
    obtain ⟨c, e, found, lo, hi⟩ := h.cover within
    by_cases eq : c = a
    · subst eq
      obtain rfl := Option.some.inj (found.symm.trans known)
      exact ⟨c, d, by simp, lo, by omega⟩
    · exact ⟨c, e, by simpa [eq] using found, lo, hi⟩

/-- Splitting a block into two adjacent ones. -/
theorem Tiled.split (h : Tiled size span block) {a : Nat} {b : β} (low high : β)
    (known : block a = some b) (whole : size low + size high = size b)
    (lowPos : 0 < size low) (highPos : 0 < size high)
    : Tiled size span
        (Function.update (Function.update block a (some low)) (a + size low) (some high)) := by
  have cases : ∀ {x e},
      Function.update (Function.update block a (some low)) (a + size low) (some high) x = some e →
      (x = a + size low ∧ e = high) ∨ (x = a ∧ e = low) ∨ (x ≠ a ∧ block x = some e) := by
    intro x e found
    simp only [Function.update_apply] at found
    split at found
    · rename_i eq
      exact Or.inl ⟨eq, (Option.some.inj found).symm⟩
    · split at found
      · rename_i eq
        exact Or.inr (Or.inl ⟨eq, (Option.some.inj found).symm⟩)
      · rename_i ne
        exact Or.inr (Or.inr ⟨ne, found⟩)
  refine ⟨?_, ?_, ?_, ?_⟩
  · intro x e found
    rcases cases found with ⟨_, rfl⟩ | ⟨_, rfl⟩ | ⟨_, old⟩
    · exact highPos
    · exact lowPos
    · exact h.pos old
  · intro x e found y lo hi
    rcases cases found with ⟨rfl, rfl⟩ | ⟨rfl, rfl⟩ | ⟨_, old⟩
    · exact h.inside known (by omega) (by omega)
    · exact h.inside known (by omega) (by omega)
    · exact h.inside old lo hi
  · intro x e y f found found' before
    rcases cases found with ⟨rfl, rfl⟩ | ⟨rfl, rfl⟩ | ⟨ne, old⟩ <;>
      rcases cases found' with ⟨rfl, rfl⟩ | ⟨rfl, rfl⟩ | ⟨ne', old'⟩
    · omega
    · omega
    · have := h.apart known old' (by omega)
      omega
    · omega
    · omega
    · have := h.apart known old' (by omega)
      omega
    · rcases Nat.lt_trichotomy x a with earlier | same | later
      · have := h.apart old known earlier
        omega
      · exact (ne same).elim
      · have := h.apart known old later
        omega
    · exact h.apart old known before
    · exact h.apart old old' before
  · intro x within
    obtain ⟨c, e, found, lo, hi⟩ := h.cover within
    by_cases eq : c = a
    · subst eq
      obtain rfl := Option.some.inj (found.symm.trans known)
      by_cases upper : c + size low ≤ x
      · exact ⟨c + size low, high, by simp, upper, by omega⟩
      · refine ⟨c, low, ?_, lo, by omega⟩
        have ne : c ≠ c + size low := by omega
        simp [Function.update_of_ne ne]
    · have ne : c ≠ a + size low := by
        rintro rfl
        have := h.none_inside known (x := a + size low) (by omega) (by omega)
        rw [this] at found
        simp at found
      exact ⟨c, e, by simpa [Function.update_of_ne, eq, ne] using found, lo, hi⟩

/-- Joining two adjacent blocks. -/
theorem Tiled.merge (h : Tiled size span block) {a : Nat} {low high : β} (joined : β)
    (lower : block a = some low) (upper : block (a + size low) = some high)
    (whole : size joined = size low + size high)
    : Tiled size span
        (Function.update (Function.update block (a + size low) none) a (some joined)) := by
  have lowPos := h.pos lower
  have cases : ∀ {x e},
      Function.update (Function.update block (a + size low) none) a (some joined) x = some e →
      (x = a ∧ e = joined) ∨ (x ≠ a ∧ x ≠ a + size low ∧ block x = some e) := by
    intro x e found
    simp only [Function.update_apply] at found
    split at found
    · rename_i eq
      exact Or.inl ⟨eq, (Option.some.inj found).symm⟩
    · split at found
      · simp at found
      · rename_i ne ne'
        exact Or.inr ⟨ne, ne', found⟩
  refine ⟨?_, ?_, ?_, ?_⟩
  · intro x e found
    rcases cases found with ⟨_, rfl⟩ | ⟨_, _, old⟩
    · omega
    · exact h.pos old
  · intro x e found y lo hi
    rcases cases found with ⟨rfl, rfl⟩ | ⟨_, _, old⟩
    · by_cases low' : y < x + size low
      · exact h.inside lower lo low'
      · exact h.inside upper (by omega) (by omega)
    · exact h.inside old lo hi
  · intro x e y f found found' before
    rcases cases found with ⟨rfl, rfl⟩ | ⟨ne, ne', old⟩ <;>
      rcases cases found' with ⟨rfl, rfl⟩ | ⟨other, other', old'⟩
    · omega
    · have first := h.apart lower old' before
      have second := h.apart upper old' (by omega)
      omega
    · exact h.apart old lower before
    · exact h.apart old old' before
  · intro x within
    obtain ⟨c, e, found, lo, hi⟩ := h.cover within
    by_cases eq : c = a
    · subst eq
      obtain rfl := Option.some.inj (found.symm.trans lower)
      exact ⟨c, joined, by simp, lo, by omega⟩
    · by_cases eq' : c = a + size low
      · subst eq'
        obtain rfl := Option.some.inj (found.symm.trans upper)
        exact ⟨a, joined, by simp, by omega, by omega⟩
      · exact ⟨c, e, by simpa [Function.update_of_ne, eq, eq'] using found, lo, hi⟩

/-- Adding a block over a fresh stretch of the span. -/
theorem Tiled.extend (h : Tiled size span block) {span' : Nat → Prop} {a : Nat} {b : β}
    (pos : 0 < size b) (fresh : ∀ x, a ≤ x → x < a + size b → ¬span x)
    (grown : ∀ x, span' x ↔ span x ∨ (a ≤ x ∧ x < a + size b))
    : Tiled size span' (Function.update block a (some b)) := by
  have cases : ∀ {x e}, Function.update block a (some b) x = some e →
      (x = a ∧ e = b) ∨ (x ≠ a ∧ block x = some e) := by
    intro x e found
    rw [Function.update_apply] at found
    split at found
    · rename_i eq
      exact Or.inl ⟨eq, (Option.some.inj found).symm⟩
    · rename_i ne
      exact Or.inr ⟨ne, found⟩
  refine ⟨?_, ?_, ?_, ?_⟩
  · intro x e found
    rcases cases found with ⟨_, rfl⟩ | ⟨_, old⟩
    · exact pos
    · exact h.pos old
  · intro x e found y lo hi
    rcases cases found with ⟨rfl, rfl⟩ | ⟨_, old⟩
    · exact (grown y).mpr (Or.inr ⟨lo, hi⟩)
    · exact (grown y).mpr (Or.inl (h.inside old lo hi))
  · intro x e y f found found' before
    rcases cases found with ⟨rfl, rfl⟩ | ⟨_, old⟩ <;>
      rcases cases found' with ⟨rfl, rfl⟩ | ⟨_, old'⟩
    · omega
    · by_contra overlap
      have := h.pos old'
      exact fresh y (by omega) (by omega) (h.inside old' (Nat.le_refl y) (by omega))
    · by_contra overlap
      exact fresh y (Nat.le_refl y) (by omega) (h.inside old (by omega) (by omega))
    · exact h.apart old old' before
  · intro x within
    rcases (grown x).mp within with old | ⟨lo, hi⟩
    · obtain ⟨c, e, found, lo, hi⟩ := h.cover old
      have ne : c ≠ a := by
        rintro rfl
        exact fresh c (Nat.le_refl c) (by omega)
          (h.inside found (Nat.le_refl c) (by have := h.pos found; omega))
      exact ⟨c, e, by simpa [ne] using found, lo, hi⟩
    · exact ⟨a, b, by simp, lo, hi⟩

/-- Dropping a block together with its stretch of the span. -/
theorem Tiled.drop (h : Tiled size span block) {span' : Nat → Prop} {a : Nat} {b : β}
    (known : block a = some b)
    (shrunk : ∀ x, span' x ↔ span x ∧ ¬(a ≤ x ∧ x < a + size b))
    : Tiled size span' (Function.update block a none) := by
  have cases : ∀ {x e}, Function.update block a none x = some e → x ≠ a ∧ block x = some e := by
    intro x e found
    rw [Function.update_apply] at found
    split at found
    · simp at found
    · rename_i ne
      exact ⟨ne, found⟩
  refine ⟨?_, ?_, ?_, ?_⟩
  · intro x e found
    exact h.pos (cases found).2
  · intro x e found y lo hi
    obtain ⟨ne, old⟩ := cases found
    refine (shrunk y).mpr ⟨h.inside old lo hi, ?_⟩
    rintro ⟨lo', hi'⟩
    exact ne (h.unique old known lo hi lo' hi').1
  · intro x e y f found found' before
    exact h.apart (cases found).2 (cases found').2 before
  · intro x within
    obtain ⟨old, outside⟩ := (shrunk x).mp within
    obtain ⟨c, e, found, lo, hi⟩ := h.cover old
    have ne : c ≠ a := by
      rintro rfl
      obtain rfl := Option.some.inj (found.symm.trans known)
      exact outside ⟨lo, hi⟩
    exact ⟨c, e, by simpa [ne] using found, lo, hi⟩

end Tilings

-----------------------------------------------------------------------------------------
-- Sums over the blocks
-----------------------------------------------------------------------------------------

/-- The sum of `weight` over the blocks that start below `bound`. -/
def blockSum {β : Type} (weight : β → Nat) (bound : Nat) (block : Nat → Option β) : Nat :=
  ∑ a ∈ Finset.range bound, (block a).elim 0 weight

/-- Replacing one block changes the sum by the difference of the weights. -/
theorem blockSum_update {β : Type} (weight : β → Nat) {n a : Nat}
    (block : Nat → Option β) (b : Option β) (within : a < n)
    : blockSum weight n (Function.update block a b) + (block a).elim 0 weight
      = blockSum weight n block + b.elim 0 weight := by
  have member : a ∈ Finset.range n := Finset.mem_range.mpr within
  unfold blockSum
  rw [← Finset.add_sum_erase _ _ member, ← Finset.add_sum_erase _ _ member]
  have rest : ∑ x ∈ (Finset.range n).erase a, (Function.update block a b x).elim 0 weight
      = ∑ x ∈ (Finset.range n).erase a, (block x).elim 0 weight := by
    refine Finset.sum_congr rfl (fun x hx => ?_)
    rw [Function.update_of_ne (Finset.ne_of_mem_erase hx)]
  rw [rest, Function.update_self]
  omega

/-- The sum is zero when no block has weight. -/
theorem blockSum_eq_zero {β : Type} {weight : β → Nat} {bound : Nat} {block : Nat → Option β}
    (light : ∀ a b, block a = some b → weight b = 0)
    : blockSum weight bound block = 0 := by
  refine Finset.sum_eq_zero (fun a _ => ?_)
  cases found : block a with
  | none => rfl
  | some b => exact light a b found

/-- The sum depends on the weights of the blocks only. -/
theorem blockSum_congr {β γ : Type} {weight : β → Nat} {weight' : γ → Nat} {bound : Nat}
    {block : Nat → Option β} {block' : Nat → Option γ}
    (same : ∀ a < bound, (block a).elim 0 weight = (block' a).elim 0 weight')
    : blockSum weight bound block = blockSum weight' bound block' :=
  Finset.sum_congr rfl (fun a ha => same a (Finset.mem_range.mp ha))

/-- Blocks that start `k` later have the same sum, if nothing is lost at either end. -/
theorem blockSum_shift {β γ : Type} {weight : β → Nat} {weight' : γ → Nat} {bound : Nat}
    {block : Nat → Option β} {block' : Nat → Option γ} (k : Nat)
    (front : ∀ a < bound, a < k → (block a).elim 0 weight = 0)
    (same : ∀ a, a + k < bound → (block (a + k)).elim 0 weight = (block' a).elim 0 weight')
    (back : ∀ a < bound, bound ≤ a + k → (block' a).elim 0 weight' = 0)
    : blockSum weight bound block = blockSum weight' bound block' := by
  unfold blockSum
  rcases Nat.lt_or_ge bound k with short | long
  · rw [Finset.sum_eq_zero (fun a ha => ?_), Finset.sum_eq_zero (fun a ha => ?_)]
    · have := Finset.mem_range.mp ha
      exact back a this (by omega)
    · have := Finset.mem_range.mp ha
      exact front a this (by omega)
  · obtain ⟨m, rfl⟩ := Nat.exists_eq_add_of_le long
    rw [Finset.sum_range_add, Finset.sum_eq_zero (fun a ha => ?_), Nat.zero_add,
      Nat.add_comm k m, Finset.sum_range_add,
      Finset.sum_eq_zero (s := Finset.range k) (fun a ha => ?_), Nat.add_zero]
    · refine Finset.sum_congr rfl (fun a ha => ?_)
      have := Finset.mem_range.mp ha
      rw [Nat.add_comm k a]
      exact same a (by omega)
    · have := Finset.mem_range.mp ha
      exact back (m + a) (by omega) (by omega)
    · have := Finset.mem_range.mp ha
      exact front a (by omega) this

/-- Lighter blocks have a smaller sum. -/
theorem blockSum_le {β γ : Type} {weight : β → Nat} {weight' : γ → Nat} {bound : Nat}
    {block : Nat → Option β} {block' : Nat → Option γ}
    (le : ∀ a < bound, (block a).elim 0 weight ≤ (block' a).elim 0 weight')
    : blockSum weight bound block ≤ blockSum weight' bound block' :=
  Finset.sum_le_sum (fun a ha => le a (Finset.mem_range.mp ha))

/-- The sizes of the blocks of a partition of `[0, total)` add up to `total`: every address
is counted in the one block that covers it.
-/
theorem Tiled.blockSum_size {β : Type} {size : β → Nat} {total : Nat} {block : Nat → Option β}
    (h : Tiled size (· < total) block)
    : blockSum size total block = total := by
  have cells : (Finset.range total).biUnion
      (fun a => (block a).elim ∅ (fun b => Finset.Ico a (a + size b))) = Finset.range total := by
    ext x
    simp only [Finset.mem_biUnion, Finset.mem_range]
    constructor
    · rintro ⟨a, _, member⟩
      cases found : block a with
      | none => simp [found] at member
      | some b =>
          simp only [found, Option.elim_some, Finset.mem_Ico] at member
          exact h.inside found member.1 member.2
    · intro inside
      obtain ⟨a, b, found, lo, hi⟩ := h.cover inside
      exact ⟨a, by omega, by simp [found, lo, hi]⟩
  have disjoint : ∀ a ∈ Finset.range total, ∀ c ∈ Finset.range total, a ≠ c →
      Disjoint ((block a).elim ∅ (fun b => Finset.Ico a (a + size b)))
        ((block c).elim ∅ (fun b => Finset.Ico c (c + size b))) := by
    intro a _ c _ ne
    cases first : block a with
    | none => simp
    | some b =>
        cases second : block c with
        | none => simp
        | some d =>
            simp only [Option.elim_some, Finset.disjoint_left, Finset.mem_Ico]
            intro x lo hi
            exact ne (h.unique first second lo.1 lo.2 hi.1 hi.2).1
  have count := Finset.card_biUnion disjoint
  rw [cells, Finset.card_range] at count
  rw [blockSum]
  refine Eq.trans ?_ count.symm
  refine Finset.sum_congr rfl (fun a _ => ?_)
  cases block a <;> simp

/-- Blocks that are apart and lie in a set of addresses have no more bytes than it. -/
theorem blockSum_le_card {β : Type} {w : β → Nat} {n : Nat} {t : Nat → Option β}
    (cells : Finset Nat)
    (apart : ∀ a b c d, t a = some b → t c = some d → a < c → a + w b ≤ c)
    (inside : ∀ a b x, t a = some b → a ≤ x → x < a + w b → x ∈ cells)
    : blockSum w n t ≤ cells.card := by
  have disjoint : ∀ a ∈ Finset.range n, ∀ c ∈ Finset.range n, a ≠ c →
      Disjoint ((t a).elim ∅ (fun b => Finset.Ico a (a + w b)))
        ((t c).elim ∅ (fun b => Finset.Ico c (c + w b))) := by
    intro a _ c _ ne
    cases first : t a with
    | none => simp
    | some b =>
        cases second : t c with
        | none => simp
        | some d =>
            simp only [Option.elim_some, Finset.disjoint_left, Finset.mem_Ico]
            intro x lo hi
            rcases Nat.lt_or_gt_of_ne ne with before | after
            · have := apart a b c d first second before
              omega
            · have := apart c d a b second first after
              omega
  have count := Finset.card_biUnion disjoint
  have sum : blockSum w n t
      = ∑ a ∈ Finset.range n, ((t a).elim ∅ (fun b => Finset.Ico a (a + w b))).card := by
    refine Finset.sum_congr rfl (fun a _ => ?_)
    cases t a <;> simp
  rw [sum, ← count]
  refine Finset.card_le_card (fun x member => ?_)
  obtain ⟨a, _, member⟩ := Finset.mem_biUnion.mp member
  cases found : t a with
  | none => simp [found] at member
  | some b =>
      simp only [found, Option.elim_some, Finset.mem_Ico] at member
      exact inside a b x found member.1 member.2

end Bbmalloc.Foundations
