import Bbmalloc.Buddy.Coalescing

/-! The order cache: released blocks of small orders wait in singly linked lists under the
tag none, and a flush merges them back into the free lists.
-/

namespace Bbmalloc

open Bbmalloc.Foundations

/-- The invariant between operations, the cache counters included. -/
structure BuddyInv {P : BuddyParams} (s : BuddyState P) (v : BuddyView) : Prop
    extends BuddyIdle s v where
  counts : CacheFits s v

-----------------------------------------------------------------------------------------
-- Entering and leaving the cache
-----------------------------------------------------------------------------------------

/-- The held block at `x` becomes the front of the cache list of its order. -/
def BuddyView.cachePush (v : BuddyView) (base x o : Nat) : BuddyView :=
  { v with
    tile := Function.update v.tile x (some (.cached, o))
    cached := Function.update v.cached o ((base + x) :: v.cached o) }

/-- The front block of a cache list is held. -/
def BuddyView.cachePop (v : BuddyView) (x o : Nat) : BuddyView :=
  { v with
    tile := Function.update v.tile x (some (.held, o))
    cached := Function.update v.cached o (v.cached o).tail }

/-- The stores and members that `deallocate_order` changes for a cached block. -/
def BuddyState.cacheFront {P : BuddyParams} (s : BuddyState P) (p o : Nat) : BuddyState P :=
  let s := (s.setNext p (s.cacheHead o)).setPrev p 0
  let s : BuddyState P :=
    { s with
      cacheHead := Function.update s.cacheHead o p
      cacheCount := Function.update s.cacheCount o (s.cacheCount o + 1) }
  s.setTag (s.tagIndex p) tagNone

section Cache

variable {P : BuddyParams} {s : BuddyState P} {v : BuddyView} {x o : Nat}

/-- The front of a cache list is null or a node of it. -/
theorem BuddyRep.cacheFront_mem (h : BuddyRep s v) (o : Nat)
    : s.cacheHead o = 0 ∨ s.cacheHead o ∈ v.cached o := by
  by_cases null : s.cacheHead o = 0
  · exact Or.inl null
  · obtain ⟨rest, eq, _⟩ := (h.cache o).eq_cons null
    exact Or.inr (by simp [eq])

/-- Putting a held block into the cache. -/
theorem BuddyRep.cachePush (h : BuddyRep s v) (known : v.tile x = some (.held, o))
    : BuddyRep (s.cacheFront (s.base + x) o) (v.cachePush s.base x o)
      ∧ Move s v (s.cacheFront (s.base + x) o) (v.cachePush s.base x o) := by
  obtain ⟨_, unit, _, inside, order⟩ := h.block known
  have node := h.node known
  have index := h.geometry.index_lt inside
  have live := (node.bounds h.geometry).1
  have headFits : s.cacheHead o < P.word := by
    rcases h.cacheFront_mem o with null | member
    · have := (node.bounds h.geometry).2.2.2
      omega
    · exact ((h.cached_node member).bounds h.geometry).2.2.2
  have wordPos : 0 < P.word := by
    have := (node.bounds h.geometry).2.2.2
    omega
  have index' : s.tagIndex (s.base + x) < s.tagCount := by rwa [s.tagIndex_base]
  have nexts : ∀ b, s.Node P b → (s.cacheFront (s.base + x) o).next b
      = if b = s.base + x then s.cacheHead o else s.next b := by
    intro b hb
    rw [← BuddyState.next_setNext node hb headFits]
    refine (BuddyState.next_setTag (s := (s.setNext _ _).setPrev _ 0) h.geometry index' hb).trans ?_
    exact BuddyState.next_setPrev (s := s.setNext _ _) node hb
  have prevs : ∀ b, s.Node P b → b ≠ s.base + x →
      (s.cacheFront (s.base + x) o).prev b = s.prev b := by
    intro b hb ne
    refine (BuddyState.prev_setTag (s := (s.setNext _ _).setPrev _ 0) h.geometry index' hb).trans ?_
    refine (BuddyState.prev_setPrev (s := s.setNext _ _) node hb wordPos).trans ?_
    rw [if_neg ne]
    exact BuddyState.prev_setNext node hb
  have tags : ∀ i < s.tagCount, (s.cacheFront (s.base + x) o).tag i
      = if i = x >>> P.log2Min then tagNone else s.tag i := by
    intro i hi
    refine (BuddyState.tag_setTag (s := (s.setNext _ _).setPrev _ 0) (by decide)).trans ?_
    have same := (BuddyState.tag_setPrev (v := 0)
      (s := s.setNext (s.base + x) (s.cacheHead o)) h.geometry node hi).trans
      (BuddyState.tag_setNext h.geometry node hi)
    rw [same]
    congr 2
    exact s.tagIndex_base x
  have heads : (s.cacheFront (s.base + x) o).cacheHead
      = Function.update s.cacheHead o (s.base + x) := rfl
  have apart : ∀ i, s.base + x ∉ v.lists i := fun i => h.not_listed known (by decide) i
  have apart' : ∀ i, s.base + x ∉ v.cached i := fun i => h.not_cached known (by decide) i
  refine ⟨⟨h.geometry, h.tiling.relabel known, ?_, ?_, ?_, ?_, ?_, ?_, ?_⟩, rfl, ?_, ?_⟩
  · refine h.tags.update h.geometry rfl unit ?_ ?_
    · intro i hi ne
      rw [tags i hi, if_neg ne]
    · intro t expected
      rw [tags _ index, if_pos rfl]
      exact Option.some.inj expected
  · intro i
    refine (h.lists i).congr ?_ ?_
    · intro n hn
      rw [nexts n (h.listed_node hn), if_neg (fun eq => apart i (by rwa [← eq]))]
    · intro n hn
      have hn := List.mem_of_mem_tail hn
      exact prevs n (h.listed_node hn) (fun eq => apart i (by rwa [← eq]))
  · exact h.listed.other (fun o' eq => by rw [known] at eq; simp at eq) (by simp)
  · intro i
    simp only [heads, BuddyView.cachePush]
    have rest := (h.cache i).congr (fun n hn =>
      (by rw [nexts n (h.cached_node hn), if_neg (fun eq => apart' i (by rwa [← eq]))]
        : (s.cacheFront (s.base + x) o).next n = s.next n))
    by_cases same : i = o
    · subst same
      rw [Function.update_self, Function.update_self]
      refine ⟨rfl, by omega, ?_⟩
      rw [nexts _ node, if_pos rfl]
      exact rest
    · rw [Function.update_of_ne same, Function.update_of_ne same]
      exact rest
  · intro i
    simp only [BuddyView.cachePush]
    by_cases same : i = o
    · subst same
      rw [Function.update_self]
      exact List.nodup_cons.mpr ⟨apart' i, h.cacheNodup i⟩
    · rw [Function.update_of_ne same]
      exact h.cacheNodup i
  · exact h.inCache.add (fun o' eq => by rw [known] at eq; simp at eq)
  · have := h.counter_update known (some (.cached, o))
    simp only [ownedSize, Option.elim] at this
    exact this.symm
  · exact ownedOf_update_loose (by simp [ownedOf, known, TileKind.isOwned])
      (by simp [TileKind.isOwned])
  · refine within_setTag (s := (s.setNext _ _).setPrev _ 0) ?_ ?_
    · refine within_setPrev (within_setNext (Memory.Within.refl _ _) ?_) ?_
      · exact fun b lo hi => h.loose_node known rfl lo hi
      · exact fun b lo hi => h.loose_node known rfl lo hi
    · exact h.loose_tagIndex known

/-- Taking the front block out of the cache; the guard on its link never fires. -/
theorem BuddyRep.cachePop (h : BuddyRep s v) (live : s.cacheHead o ≠ 0)
    : ∃ x, s.cacheHead o = s.base + x ∧ v.tile x = some (.cached, o)
        ∧ (if s.linkValid (s.next (s.cacheHead o)) then s.next (s.cacheHead o) else 0)
          = s.next (s.cacheHead o)
        ∧ (s.next (s.cacheHead o) = 0 ↔ (v.cached o).tail = [])
        ∧ BuddyRep
          ({ s with
            cacheHead := Function.update s.cacheHead o (s.next (s.cacheHead o)) }
            : BuddyState P)
          (v.cachePop x o)
        ∧ (v.cachePop x o).owned = v.owned := by
  have member := (h.cacheFront_mem o).resolve_left live
  obtain ⟨x, eq, known⟩ := (h.inCache o _).mp member
  obtain ⟨rest, list, tail⟩ := (h.cache o).eq_cons live
  have valid : s.linkValid (s.next (s.cacheHead o)) = true := by
    refine BuddyState.linkValid_of_node ?_
    refine ((h.cache o).next_mem_tail member).imp_right (fun later => ?_)
    exact h.cached_node (List.mem_of_mem_tail later)
  have nodup := h.cacheNodup o
  rw [list] at nodup
  refine ⟨x, eq, known, by rw [if_pos valid], ?_, ?_, ?_⟩
  · rw [list, List.tail_cons]
    exact tail.front_null
  · refine ⟨h.geometry, h.tiling.relabel known, ?_, h.lists, ?_, ?_, ?_, ?_, ?_⟩
    · exact h.tags.update h.geometry rfl (h.block known).2.1 (fun _ _ _ => rfl) (by simp [tileTag])
    · exact h.listed.other (fun o' found => by rw [known] at found; simp at found) (by simp)
    · intro i
      simp only [BuddyView.cachePop]
      by_cases same : i = o
      · subst same
        rw [Function.update_self, Function.update_self, list, List.tail_cons]
        exact tail
      · rw [Function.update_of_ne same, Function.update_of_ne same]
        exact h.cache i
    · intro i
      simp only [BuddyView.cachePop]
      by_cases same : i = o
      · subst same
        rw [Function.update_self, list, List.tail_cons]
        exact (List.nodup_cons.mp nodup).2
      · rw [Function.update_of_ne same]
        exact h.cacheNodup i
    · have removed := h.inCache.remove (b := some (.held, o)) known (h.cacheNodup o) (by simp)
      have front : (v.cached o).erase (s.base + x) = (v.cached o).tail := by
        rw [list, ← eq, List.erase_cons_head, List.tail_cons]
      rw [front] at removed
      exact removed
    · have := h.counter_update known (some (.held, o))
      simp only [ownedSize, Option.elim] at this
      exact this.symm
  · exact ownedOf_update_loose (by simp [ownedOf, known, TileKind.isOwned])
      (by simp [TileKind.isOwned])

/-- The cache counters do not matter for the representation. -/
theorem BuddyRep.setCounts (h : BuddyRep s v) (counts : Nat → Nat)
    : BuddyRep ({ s with cacheCount := counts } : BuddyState P) v :=
  ⟨h.geometry, h.tiling, h.tags, h.lists, h.listed, h.cache, h.cacheNodup, h.inCache, h.counter⟩

theorem BuddyIdle.setCounts (h : BuddyIdle s v) (counts : Nat → Nat)
    : BuddyIdle ({ s with cacheCount := counts } : BuddyState P) v :=
  ⟨h.rep.setCounts counts, h.mask, h.merged, h.settled⟩

/-- No cache list exists for orders from the top on. -/
theorem BuddyRep.cached_high (h : BuddyRep s v) (high : s.maxOrder ≤ o) : v.cached o = [] := by
  rw [List.eq_nil_iff_forall_not_mem]
  intro n member
  obtain ⟨x, _, found⟩ := (h.inCache o n).mp member
  have := (h.block found).2.2.2.2
  omega

end Cache

-----------------------------------------------------------------------------------------
-- Flushing
-----------------------------------------------------------------------------------------

section Flushing

variable {P : BuddyParams}

/-- Flushing one order empties its cache list, by induction on the blocks left. -/
theorem BuddyIdle.flushOrder (fuel : Nat)
    : ∀ {s : BuddyState P} {v : BuddyView} {o : Nat}, BuddyIdle s v →
      (v.cached o).length ≤ fuel →
      ∃ v', BuddyIdle (s.flushOrder o fuel) v' ∧ Move s v (s.flushOrder o fuel) v'
        ∧ v'.cached = Function.update v.cached o []
        ∧ (s.flushOrder o fuel).cacheCount = s.cacheCount := by
  induction fuel with
  | zero =>
      intro s v o h short
      have empty : v.cached o = [] := List.eq_nil_of_length_eq_zero (by omega)
      exact ⟨v, h, Move.refl s v, by rw [← empty, Function.update_eq_self], rfl⟩
  | succ fuel ih =>
      intro s v o h short
      unfold BuddyState.flushOrder
      by_cases live : s.cacheHead o = 0
      · have empty : v.cached o = [] := ((h.rep.cache o).front_null).mp live
        rw [if_neg (by simpa using live)]
        exact ⟨v, h, Move.refl s v, by rw [← empty, Function.update_eq_self], rfl⟩
      · obtain ⟨x, eq, known, guarded, _, popped, owned⟩ := h.rep.cachePop live
        have held : (v.cachePop x o).HeldOnly x := h.settled.update rfl
        have work : BuddyWork
            ({ s with cacheHead := Function.update s.cacheHead o (s.next (s.cacheHead o)) }
              : BuddyState P) (v.cachePop x o) x o :=
          ⟨popped, h.mask, Coalesced.update_other h.merged (by simp), by simp [BuddyView.cachePop],
            held⟩
        obtain ⟨w, idle, move, cached, counts⟩ := work.mergeAndFree
        have first : Move s v
            ({ s with cacheHead := Function.update s.cacheHead o (s.next (s.cacheHead o)) }
              : BuddyState P) (v.cachePop x o) :=
          ⟨rfl, owned, Memory.Within.refl _ _⟩
        have list : w.cached o = (v.cached o).tail := by
          rw [cached]
          simp [BuddyView.cachePop]
        obtain ⟨v', idle', move', cached', counts'⟩ := ih (o := o) idle (by
          rw [list, List.length_tail]
          omega)
        rw [if_pos live]
        simp only [guarded]
        rw [eq] at *
        refine ⟨v', idle', (first.trans move).trans move', ?_, counts'.trans counts⟩
        rw [cached', cached]
        simp [BuddyView.cachePop]

/-- Flushing a range of orders empties their cache lists and counters. -/
theorem BuddyIdle.flushFrom (count : Nat)
    : ∀ {s : BuddyState P} {v : BuddyView} {o : Nat}, BuddyIdle s v →
      (∀ i, (v.cached i).length ≤ 256) →
      ∃ v', BuddyIdle (s.flushFrom count o) v' ∧ Move s v (s.flushFrom count o) v'
        ∧ (∀ i, v'.cached i = if o ≤ i ∧ i < o + count then [] else v.cached i)
        ∧ (∀ i, (s.flushFrom count o).cacheCount i
            = if o ≤ i ∧ i < o + count then 0 else s.cacheCount i) := by
  induction count with
  | zero =>
      intro s v o h short
      refine ⟨v, h, Move.refl s v, fun i => ?_, fun i => ?_⟩
      all_goals
        rw [if_neg (by omega)]
        try rfl
  | succ count ih =>
      intro s v o h short
      obtain ⟨w, idle, move, cached, counts⟩ := h.flushOrder 256 (short o)
      have idle' := idle.setCounts (Function.update (s.flushOrder o 256).cacheCount o 0)
      obtain ⟨v', idle'', move', cached', counts'⟩ := ih (o := o + 1) idle' (by
        intro i
        rw [cached]
        by_cases same : i = o
        · simp [same]
        · simpa [same] using short i)
      have reset : Move (s.flushOrder o 256) w
          ({ s.flushOrder o 256 with
            cacheCount := Function.update (s.flushOrder o 256).cacheCount o 0 }
            : BuddyState P) w :=
        ⟨rfl, rfl, Memory.Within.refl _ _⟩
      rw [BuddyState.flushFrom]
      refine ⟨v', idle'', (move.trans reset).trans move', fun i => ?_, fun i => ?_⟩
      · rw [cached' i, cached]
        by_cases same : i = o
        · subst same
          rw [if_neg (by omega), if_pos (by omega), Function.update_self]
        · rw [Function.update_of_ne same]
          refine if_congr ?_ rfl rfl
          omega
      · rw [counts' i]
        simp only [counts]
        by_cases same : i = o
        · subst same
          rw [if_neg (by omega), if_pos (by omega), Function.update_self]
        · rw [Function.update_of_ne same]
          refine if_congr ?_ rfl rfl
          omega

/-- `flush_cache` leaves the cache empty. -/
theorem BuddyInv.flushCache {s : BuddyState P} {v : BuddyView} (h : BuddyInv s v)
    : ∃ v', BuddyInv s.flushCache v' ∧ Move s v s.flushCache v' ∧ ∀ o, v'.cached o = [] := by
  unfold BuddyState.flushCache
  have short : ∀ i, (v.cached i).length ≤ 256 := by
    intro i
    have := (h.counts i).2
    have := P.cap_range
    omega
  by_cases caching : 0 < P.cacheCap
  · obtain ⟨v', idle, move, cached, counts⟩ := h.toBuddyIdle.flushFrom s.maxOrder (o := 0) short
    have empty : ∀ o, v'.cached o = [] := by
      intro o
      rw [cached o]
      split
      · rfl
      · exact h.rep.cached_high (by omega)
    rw [if_pos caching]
    refine ⟨v', ⟨idle, fun o => ?_⟩, move, empty⟩
    rw [empty o, counts o]
    refine ⟨?_, by simp⟩
    split
    · rfl
    · rw [(h.counts o).1, h.rep.cached_high (by omega)]
  · rw [if_neg caching]
    refine ⟨v, h, Move.refl s v, fun o => ?_⟩
    exact List.eq_nil_of_length_eq_zero (by have := (h.counts o).2; omega)

end Flushing

end Bbmalloc
