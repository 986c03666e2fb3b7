import Bbmalloc.Buddy.Representation

/-! The elementary moves of the buddy list on represented states: linking and unlinking a
block, halving and joining held blocks, handing a block to and from its owner and the
order cache. Each move keeps the representation and stays off the owned blocks.
-/

namespace Bbmalloc

open Bbmalloc.Foundations

-----------------------------------------------------------------------------------------
-- Ownership and footprints
-----------------------------------------------------------------------------------------

/-- Blocks of these kinds belong to a client or to the other tier. -/
def TileKind.isOwned : TileKind → Bool
  | .alloc => true
  | .sheet => true
  | _ => false

/-- The owned blocks of a partition. -/
def ownedOf (tile : Nat → Option Tile) (x : Nat) : Option Tile :=
  (tile x).filter (fun b => b.1.isOwned)

/-- The owned blocks of a view. -/
def BuddyView.owned (v : BuddyView) : Nat → Option Tile := ownedOf v.tile

/-- The addresses the buddy list may write: its tags and the data outside owned blocks. -/
def Loose (P : BuddyParams) (g : BuddyGeometry) (owned : Nat → Option Tile) (a : Nat) : Prop :=
  (g.blockTags ≤ a ∧ a < g.blockTags + g.tagCount)
  ∨ (g.base ≤ a ∧ a < g.base + g.total
      ∧ ∀ x b, owned x = some b → ¬(g.base + x ≤ a ∧ a < g.base + x + P.orderSize b.2))

/-- A move inside the buddy list: set-up data and owned blocks stay, and memory changes
outside the owned blocks only.
-/
structure Move {P : BuddyParams} (s : BuddyState P) (v : BuddyView) (s' : BuddyState P)
    (v' : BuddyView)
    : Prop where
  geometry : s'.toBuddyGeometry = s.toBuddyGeometry
  owned : v'.owned = v.owned
  within : Memory.Within (Loose P s.toBuddyGeometry v.owned) s.mem s'.mem

section Ownership

variable {P : BuddyParams} {s s' s'' : BuddyState P} {v v' v'' : BuddyView} {x o : Nat}
  {k : TileKind}

theorem BuddyState.tagIndex_base (s : BuddyState P) (x : Nat)
    : s.tagIndex (s.base + x) = x >>> P.log2Min := by
  simp [tagIndex]

theorem Move.refl (s : BuddyState P) (v : BuddyView) : Move s v s v :=
  ⟨rfl, rfl, Memory.Within.refl _ _⟩

theorem Move.trans (first : Move s v s' v') (second : Move s' v' s'' v'') : Move s v s'' v'' := by
  refine ⟨second.geometry.trans first.geometry, second.owned.trans first.owned, ?_⟩
  have later := second.within
  rw [first.geometry, first.owned] at later
  exact first.within.trans later

/-- An entry of `owned` is a block of an owned kind. -/
theorem ownedOf_eq_some {tile : Nat → Option Tile} {b : Tile}
    : ownedOf tile x = some b ↔ tile x = some b ∧ b.1.isOwned = true := by
  simp [ownedOf, Option.filter_eq_some_iff]

/-- Replacing one block by another replaces it among the owned ones. -/
theorem ownedOf_update (tile : Nat → Option Tile) (x : Nat) (b : Option Tile)
    : ownedOf (Function.update tile x b)
      = Function.update (ownedOf tile) x (b.filter (fun b => b.1.isOwned)) := by
  funext y
  by_cases same : y = x
  · subst same
    simp [ownedOf]
  · simp [ownedOf, same]

/-- Changing a block that nobody owns into another such block does not change `owned`. -/
theorem ownedOf_update_loose {tile : Nat → Option Tile} {b : Option Tile}
    (before : ownedOf tile x = none) (after : b.filter (fun b => b.1.isOwned) = none)
    : ownedOf (Function.update tile x b) = ownedOf tile := by
  rw [ownedOf_update, after, ← before, Function.update_eq_self]

/-- The whole of a block that nobody owns may be written. -/
theorem BuddyRep.loose (h : BuddyRep s v) (known : v.tile x = some (k, o))
    (free : k.isOwned = false) {a : Nat} (lo : s.base + x ≤ a)
    (hi : a < s.base + x + P.orderSize o)
    : Loose P s.toBuddyGeometry v.owned a := by
  have room := (h.block known).2.2.1
  refine Or.inr ⟨by omega, by omega, ?_⟩
  rintro y ⟨k', o'⟩ found ⟨lo', hi'⟩
  obtain ⟨found, owned⟩ := ownedOf_eq_some.mp found
  have differ : x ≠ y := by
    rintro rfl
    rw [known] at found
    obtain rfl := (Prod.mk.inj (Option.some.inj found)).1
    rw [free] at owned
    exact absurd owned (by decide)
  have apart := h.tiling.tiled.disjoint known found differ
  simp only [← P.orderSize_eq] at apart
  simp only at hi'
  omega

/-- The links of such a block may be written. -/
theorem BuddyRep.loose_node (h : BuddyRep s v) (known : v.tile x = some (k, o))
    (free : k.isOwned = false) {a : Nat} (lo : s.base + x ≤ a) (hi : a < s.base + x + P.minBlock)
    : Loose P s.toBuddyGeometry v.owned a := by
  refine h.loose known free lo ?_
  have := Nat.le_of_dvd (P.orderSize_pos o) (P.minBlock_dvd_orderSize o)
  omega

/-- The links of a listed block may be written. -/
theorem BuddyRep.loose_listed (h : BuddyRep s v) {n : Nat} (member : n ∈ v.lists o) {a : Nat}
    (lo : n ≤ a) (hi : a < n + P.minBlock)
    : Loose P s.toBuddyGeometry v.owned a := by
  obtain ⟨y, rfl, found⟩ := (h.listed o n).mp member
  exact h.loose_node found rfl lo hi

/-- The tag of a block may be written. -/
theorem BuddyRep.loose_tagIndex (h : BuddyRep s v) (known : v.tile x = some (k, o))
    {owned : Nat → Option Tile}
    : Loose P s.toBuddyGeometry owned (s.blockTags + s.tagIndex (s.base + x)) := by
  have index := h.geometry.index_lt (h.block known).2.2.2.1
  rw [s.tagIndex_base]
  exact Or.inl ⟨Nat.le_add_right _ _, Nat.add_lt_add_left index _⟩

/-- A tag may be written. -/
theorem loose_tag {g : BuddyGeometry} {owned : Nat → Option Tile} {i : Nat}
    (inside : i < g.tagCount)
    : Loose P g owned (g.blockTags + i) :=
  Or.inl ⟨by omega, by omega⟩

end Ownership

-----------------------------------------------------------------------------------------
-- Footprints of single stores
-----------------------------------------------------------------------------------------

section Stores

variable {P : BuddyParams} {s : BuddyState P} {writable : Nat → Prop} {m : Memory} {a i w : Nat}

theorem within_setNext (before : Memory.Within writable m s.mem)
    (node : ∀ b, a ≤ b → b < a + P.minBlock → writable b)
    : Memory.Within writable m (s.setNext a w).mem := by
  have links := P.links_fit
  refine before.trans ((Memory.within_storeWord _ _ _ _).mono ?_)
  intro b range
  exact node b range.1 (by omega)

theorem within_setPrev (before : Memory.Within writable m s.mem)
    (node : ∀ b, a ≤ b → b < a + P.minBlock → writable b)
    : Memory.Within writable m (s.setPrev a w).mem := by
  have links := P.links_fit
  refine before.trans ((Memory.within_storeWord _ _ _ _).mono ?_)
  intro b range
  exact node b (by omega) (by omega)

theorem within_setPrevOrScratch (before : Memory.Within writable m s.mem)
    (node : a ≠ 0 → ∀ b, a ≤ b → b < a + P.minBlock → writable b)
    : Memory.Within writable m (s.setPrevOrScratch a w).mem := by
  unfold BuddyState.setPrevOrScratch
  by_cases null : a = 0
  · simpa [null] using before
  · simpa [null] using within_setPrev before (node null)

theorem within_setTag (before : Memory.Within writable m s.mem)
    (tag : writable (s.blockTags + i))
    : Memory.Within writable m (s.setTag i w).mem := by
  intro b outside
  have ne : b ≠ s.blockTags + i := by
    rintro rfl
    exact outside tag
  exact (Memory.store_of_ne _ _ ne).trans (before b outside)

end Stores

-----------------------------------------------------------------------------------------
-- Linking in front
-----------------------------------------------------------------------------------------

/-- The held block at `x` becomes the front of the free list of its order. -/
def BuddyView.push (v : BuddyView) (base x o : Nat) : BuddyView :=
  { v with
    tile := Function.update v.tile x (some (.free, o))
    lists := Function.update v.lists o ((base + x) :: v.lists o) }

namespace BuddyState

variable {P : BuddyParams} {s : BuddyState P} {a b i o x w : Nat} {v : BuddyView}

/-- Links and tags are read from memory. -/
theorem next_of_mem {s' : BuddyState P} (mem : s'.mem = s.mem) : s'.next = s.next := by
  funext b
  simp only [next, mem]

theorem prev_of_mem {s' : BuddyState P} (mem : s'.mem = s.mem) : s'.prev = s.prev := by
  funext b
  simp only [prev, mem]

theorem tag_of_mem {s' : BuddyState P} (mem : s'.mem = s.mem)
    (tags : s'.blockTags = s.blockTags)
    : s'.tag = s.tag := by
  funext i
  simp only [tag, mem, tags]

theorem next_setPrevOrScratch (ha : a = 0 ∨ s.Node P a) (hb : s.Node P b)
    : (s.setPrevOrScratch a w).next b = s.next b := by
  rcases ha with rfl | ha
  · rfl
  · unfold setPrevOrScratch
    by_cases null : a = 0
    · simp [null, next]
    · simpa [null, next] using next_setPrev (v := w) ha hb

theorem prev_setPrevOrScratch (ha : a = 0 ∨ s.Node P a) (hb : s.Node P b) (fits : w < P.word)
    : (s.setPrevOrScratch a w).prev b = if a ≠ 0 ∧ b = a then w else s.prev b := by
  unfold setPrevOrScratch
  by_cases null : a = 0
  · simp [null, prev]
  · simpa [null, prev] using prev_setPrev (ha.resolve_left null) hb fits

theorem tag_setPrevOrScratch (h : s.Sound P) (ha : a = 0 ∨ s.Node P a) (hi : i < s.tagCount)
    : (s.setPrevOrScratch a w).tag i = s.tag i := by
  unfold setPrevOrScratch
  by_cases null : a = 0
  · simp [null, tag]
  · simp only [null, ne_eq, not_false_eq_true, if_true, tag]
    exact tag_setPrev (v := w) h (ha.resolve_left null) hi

@[simp]
theorem linkFront_freeLists (s : BuddyState P) (a o : Nat)
    : (s.linkFront a o).freeLists = Function.update s.freeLists o a :=
  rfl

/-- The links after a node was put in front of a list. -/
theorem linkFront_links (h : s.Sound P) (ha : s.Node P a)
    (head : s.freeLists o = 0 ∨ s.Node P (s.freeLists o)) (hb : s.Node P b)
    : (s.linkFront a o).next b = (if b = a then s.freeLists o else s.next b)
      ∧ (s.linkFront a o).prev b
        = (if s.freeLists o ≠ 0 ∧ b = s.freeLists o then a else if b = a then 0 else s.prev b) := by
  have index : s.tagIndex a < s.tagCount := by
    obtain ⟨y, rfl, unit, inside⟩ := ha
    simpa [tagIndex] using h.index_lt inside
  have aFits := (ha.bounds h).2.2.2
  have headFits : s.freeLists o < P.word := by
    rcases head with null | node
    · rw [null]
      omega
    · exact (node.bounds h).2.2.2
  have wordPos : 0 < P.word := by omega
  constructor
  · rw [← next_setNext ha hb headFits]
    refine (next_setTag (s := (((s.setNext a (s.freeLists o)).setPrev a 0).setPrevOrScratch
      (s.freeLists o) a)) h index hb).trans ?_
    refine (next_setPrevOrScratch (s := (s.setNext a (s.freeLists o)).setPrev a 0) head hb).trans ?_
    exact next_setPrev (s := s.setNext a (s.freeLists o)) ha hb
  · refine (prev_setTag (s := (((s.setNext a (s.freeLists o)).setPrev a 0).setPrevOrScratch
      (s.freeLists o) a)) h index hb).trans ?_
    refine (prev_setPrevOrScratch (s := (s.setNext a (s.freeLists o)).setPrev a 0) head hb
      aFits).trans ?_
    congr 1
    refine (prev_setPrev (s := s.setNext a (s.freeLists o)) ha hb wordPos).trans ?_
    congr 1
    exact prev_setNext ha hb

/-- The tags after a node was put in front of a list. -/
theorem linkFront_tag (h : s.Sound P) (ha : s.Node P a)
    (head : s.freeLists o = 0 ∨ s.Node P (s.freeLists o)) (order : o < 64) (hi : i < s.tagCount)
    : (s.linkFront a o).tag i = if i = s.tagIndex a then tagFree ||| o else s.tag i := by
  refine (tag_setTag (s := (((s.setNext a (s.freeLists o)).setPrev a 0).setPrevOrScratch
    (s.freeLists o) a)) (tag_lt_256 o order).1).trans ?_
  congr 1
  refine (tag_setPrevOrScratch (s := (s.setNext a (s.freeLists o)).setPrev a 0) h head hi).trans ?_
  exact (tag_setPrev (s := s.setNext a (s.freeLists o)) h ha hi).trans (tag_setNext h ha hi)

end BuddyState

section Moves

variable {P : BuddyParams} {s : BuddyState P} {v : BuddyView} {x o : Nat}

/-- The front of a free list is null or a node. -/
theorem BuddyRep.front_node (h : BuddyRep s v) (o : Nat)
    : s.freeLists o = 0 ∨ s.Node P (s.freeLists o) :=
  (h.front o).imp_right h.listed_node

/-- `__link_front` puts a held block in front of its free list. -/
theorem BuddyRep.linkFront (h : BuddyRep s v) (known : v.tile x = some (.held, o))
    : BuddyRep (s.linkFront (s.base + x) o) (v.push s.base x o)
      ∧ Move s v (s.linkFront (s.base + x) o) (v.push s.base x o) := by
  obtain ⟨_, unit, _, inside, order⟩ := h.block known
  have node := h.node known
  have head := h.front_node o
  have order64 := h.order_lt_64 order
  have links := fun {b : Nat} => BuddyState.linkFront_links (b := b) h.geometry node head
  have live : s.base + x ≠ 0 := by
    have := (node.bounds h.geometry).1
    omega
  have fresh := fun i => h.not_listed known (by decide) i
  constructor
  · refine ⟨h.geometry, h.tiling.relabel known, ?_, ?_, ?_, ?_, h.cacheNodup, ?_, ?_⟩
    · refine h.tags.update h.geometry rfl unit ?_ ?_
      · intro i hi ne
        rw [BuddyState.linkFront_tag h.geometry node head order64 hi, s.tagIndex_base, if_neg ne]
      · intro t expected
        rw [BuddyState.linkFront_tag h.geometry node head order64 (h.geometry.index_lt inside),
          s.tagIndex_base, if_pos rfl]
        exact Option.some.inj expected
    · intro i
      simp only [BuddyState.linkFront_freeLists, BuddyView.push]
      by_cases same : i = o
      · subst same
        rw [Function.update_self, Function.update_self]
        refine (h.lists i).push (fresh i) live ?_ ?_ ?_ ?_
        · rw [(links node).1, if_pos rfl]
        · intro n member
          have ne : n ≠ s.base + x := fun eq => fresh i (eq ▸ member)
          rw [(links (h.listed_node member)).1, if_neg ne]
        · intro nonnull
          rw [(links (head.resolve_left nonnull)).2, if_pos ⟨nonnull, rfl⟩]
        · intro n member
          have member' := List.mem_of_mem_tail member
          have ne : n ≠ s.base + x := fun eq => fresh i (eq ▸ member')
          have notFront : n ≠ s.freeLists i := by
            rintro rfl
            obtain ⟨rest, eq, _⟩ := (h.lists i).chain.eq_cons ((h.lists i).chain.ne_null member')
            rw [eq] at member
            have nodup := (h.lists i).nodup
            rw [eq] at nodup
            exact (List.nodup_cons.mp nodup).1 member
          rw [(links (h.listed_node member')).2, if_neg (fun both => notFront both.2), if_neg ne]
      · rw [Function.update_of_ne same, Function.update_of_ne same]
        refine (h.lists i).congr ?_ ?_
        · intro n member
          have ne : n ≠ s.base + x := fun eq => fresh i (eq ▸ member)
          rw [(links (h.listed_node member)).1, if_neg ne]
        · intro n member
          have member := List.mem_of_mem_tail member
          have ne : n ≠ s.base + x := fun eq => fresh i (eq ▸ member)
          have notFront : ¬(s.freeLists o ≠ 0 ∧ n = s.freeLists o) := by
            rintro ⟨nonnull, rfl⟩
            exact same (h.listed_unique member ((h.front o).resolve_left nonnull))
          rw [(links (h.listed_node member)).2, if_neg notFront, if_neg ne]
    · exact h.listed.add (fun o' eq => by rw [known] at eq; simp at eq)
    · intro i
      refine (h.cache i).congr ?_
      intro n member
      have ne : n ≠ s.base + x := fun eq => h.not_cached known (by decide) i (eq ▸ member)
      rw [(links (h.cached_node member)).1, if_neg ne]
    · exact h.inCache.other (fun o' eq => by rw [known] at eq; simp at eq) (by simp)
    · have := h.counter_update known (some (.free, o))
      simp only [ownedSize, Option.elim] at this
      exact this.symm
  · refine ⟨rfl, ownedOf_update_loose (by simp [ownedOf, known, TileKind.isOwned])
      (by simp [TileKind.isOwned]), ?_⟩
    refine within_setTag (s := ((s.setNext _ _).setPrev _ 0).setPrevOrScratch _ _) ?_ ?_
    · refine within_setPrevOrScratch (within_setPrev (within_setNext (Memory.Within.refl _ _) ?_)
        ?_) ?_
      · exact fun b lo hi => h.loose_node known rfl lo hi
      · exact fun b lo hi => h.loose_node known rfl lo hi
      · intro nonnull b lo hi
        exact h.loose_listed ((h.front o).resolve_left nonnull) lo hi
    · exact h.loose_tagIndex known

end Moves

-----------------------------------------------------------------------------------------
-- Unlinking
-----------------------------------------------------------------------------------------

/-- The free block at `x` leaves the free list of its order and is held. -/
def BuddyView.take (v : BuddyView) (base x o : Nat) : BuddyView :=
  { v with
    tile := Function.update v.tile x (some (.held, o))
    lists := Function.update v.lists o ((v.lists o).erase (base + x)) }

section Unlinking

variable {P : BuddyParams} {s s' : BuddyState P} {v : BuddyView} {x o : Nat}

/-- A free block is a listed node, and a listed node is a free block. -/
theorem BuddyRep.mem_lists (h : BuddyRep s v)
    : s.base + x ∈ v.lists o ↔ v.tile x = some (.free, o) := by
  rw [h.listed o]
  constructor
  · rintro ⟨y, eq, found⟩
    have : x = y := by omega
    exact this ▸ found
  · exact fun found => ⟨x, rfl, found⟩

/-- What a state has to satisfy to be the result of unlinking a free block. -/
theorem BuddyRep.take (h : BuddyRep s v) (known : v.tile x = some (.free, o))
    (geometry : s'.toBuddyGeometry = s.toBuddyGeometry)
    (tags : ∀ i < s.tagCount, s'.tag i = s.tag i)
    (counter : s'.allocatedBytes = s.allocatedBytes)
    (list : Linked 0 s'.next s'.prev (s'.freeLists o) ((v.lists o).erase (s.base + x)))
    (others : ∀ i ≠ o, Linked 0 s'.next s'.prev (s'.freeLists i) (v.lists i))
    (cache : ∀ i, Chain 0 s'.next (s'.cacheHead i) (v.cached i))
    : BuddyRep s' (v.take s.base x o) := by
  have total : s'.total = s.total := congrArg BuddyGeometry.total geometry
  have base : s'.base = s.base := congrArg BuddyGeometry.base geometry
  have maxOrder : s'.maxOrder = s.maxOrder := congrArg BuddyGeometry.maxOrder geometry
  refine ⟨geometry ▸ h.geometry, ?_, ?_, ?_, ?_, cache, h.cacheNodup, ?_, ?_⟩
  · rw [maxOrder, total]
    exact h.tiling.relabel known
  · refine h.tags.update h.geometry total (h.block known).2.1 (fun i hi _ => tags i hi) ?_
    simp [tileTag]
  · intro i
    simp only [BuddyView.take]
    by_cases same : i = o
    · subst same
      rw [Function.update_self]
      exact list
    · rw [Function.update_of_ne same]
      exact others i same
  · rw [base]
    exact h.listed.remove known (h.lists o).nodup (by simp)
  · rw [base]
    exact h.inCache.other (fun o' eq => by rw [known] at eq; simp at eq) (by simp)
  · have := h.counter_update known (some (.held, o))
    simp only [ownedSize, Option.elim] at this
    rw [counter, total]
    exact this.symm

theorem BuddyView.take_owned {base : Nat} (known : v.tile x = some (.free, o))
    : (v.take base x o).owned = v.owned :=
  ownedOf_update_loose (by simp [ownedOf, known, TileKind.isOwned]) (by simp [TileKind.isOwned])

/-- Popping the front block of a free list. -/
theorem BuddyRep.popFront (h : BuddyRep s v) (front : s.freeLists o = s.base + x)
    (known : v.tile x = some (.free, o))
    : BuddyRep
        ({ s with freeLists := Function.update s.freeLists o (s.next (s.base + x)) }
          : BuddyState P)
        (v.take s.base x o) := by
  have member := h.mem_lists.mpr known
  refine h.take known rfl (fun _ _ => rfl) rfl ?_ ?_ h.cache
  · have := (h.lists o).erase_front (front ▸ member) (fun _ _ _ => rfl) (fun _ _ _ => rfl)
    simp only [Function.update_self]
    rw [front] at this
    exact this
  · intro i ne
    simp only [Function.update_of_ne ne]
    exact h.lists i

/-- The successor of a listed node is null or listed. -/
theorem BuddyRep.next_listed (h : BuddyRep s v) {n : Nat} (member : n ∈ v.lists o)
    : s.next n = 0 ∨ s.next n ∈ v.lists o :=
  ((h.lists o).chain.next_mem_tail member).imp_right List.mem_of_mem_tail

/-- What unlinking a node behind the front stores: its neighbours are joined. -/
theorem BuddyState.unlinkDo_inner {n : Nat} (inner : s.freeLists o ≠ n) (before : s.prev n ≠ 0)
    : (s.unlinkDo n o).freeLists = s.freeLists
      ∧ (s.unlinkDo n o).mem
        = ((s.setNext (s.prev n) (s.next n)).setPrevOrScratch (s.next n) (s.prev n)).mem := by
  have isHead : (s.freeLists o == n) = false := by simpa using inner
  refine ⟨by simp [unlinkDo, isHead, setPrevOrScratch], ?_⟩
  by_cases last : s.next n = 0
  · simp [unlinkDo, isHead, before, last, setPrevOrScratch]
  · simp [unlinkDo, isHead, before, last, setPrevOrScratch, setPrev]

/-- Links and tags after joining the neighbours of a node. -/
theorem BuddyState.join_links {t : BuddyState P} {n : Nat} (h : s.Sound P)
    (before : s.Node P (s.prev n))
    (after : s.next n = 0 ∨ s.Node P (s.next n))
    (geometry : t.toBuddyGeometry = s.toBuddyGeometry)
    (mem : t.mem
      = ((s.setNext (s.prev n) (s.next n)).setPrevOrScratch (s.next n) (s.prev n)).mem)
    : (∀ b, s.Node P b →
          t.next b = (if b = s.prev n then s.next n else s.next b)
          ∧ t.prev b = (if s.next n ≠ 0 ∧ b = s.next n then s.prev n else s.prev b))
      ∧ (∀ i < s.tagCount, t.tag i = s.tag i) := by
  have nextFits := s.next_lt n
  have prevFits := s.prev_lt n
  rw [next_of_mem mem, prev_of_mem mem,
    tag_of_mem (s := (s.setNext (s.prev n) (s.next n)).setPrevOrScratch (s.next n) (s.prev n)) mem
      (congrArg BuddyGeometry.blockTags geometry)]
  refine ⟨fun b hb => ⟨?_, ?_⟩, fun i hi => ?_⟩
  · rw [← next_setNext before hb nextFits]
    exact next_setPrevOrScratch (s := s.setNext (s.prev n) (s.next n)) after hb
  · rw [← prev_setNext (v := s.next n) before hb]
    exact prev_setPrevOrScratch (s := s.setNext (s.prev n) (s.next n)) after hb prevFits
  · refine Eq.trans ?_ (tag_setNext (v := s.next n) h before hi)
    exact tag_setPrevOrScratch (s := s.setNext (s.prev n) (s.next n)) h after hi

/-- `__unlink_do` takes a free block out of its list. -/
theorem BuddyRep.unlinkDo (h : BuddyRep s v) (known : v.tile x = some (.free, o))
    : BuddyRep (s.unlinkDo (s.base + x) o) (v.take s.base x o)
      ∧ Move s v (s.unlinkDo (s.base + x) o) (v.take s.base x o) := by
  have member := h.mem_lists.mpr known
  by_cases front : s.freeLists o = s.base + x
  · have popped := h.popFront front known
    have isHead : (s.freeLists o == s.base + x) = true := by simpa using front
    have mem : (s.unlinkDo (s.base + x) o).mem = s.mem := by
      simp [BuddyState.unlinkDo, isHead, BuddyState.setPrevOrScratch]
    have lists : (s.unlinkDo (s.base + x) o).freeLists
        = Function.update s.freeLists o (s.next (s.base + x)) := by
      simp [BuddyState.unlinkDo, isHead, BuddyState.setPrevOrScratch]
    refine ⟨?_, rfl, BuddyView.take_owned known, ?_⟩
    · refine h.take known rfl ?_ rfl ?_ ?_ ?_
      · intro i _
        rw [BuddyState.tag_of_mem mem rfl]
      · rw [BuddyState.next_of_mem mem, BuddyState.prev_of_mem mem, lists]
        have list := popped.lists o
        simp only [BuddyView.take, Function.update_self] at list ⊢
        exact list
      · intro i ne
        rw [BuddyState.next_of_mem mem, BuddyState.prev_of_mem mem, lists]
        have list := popped.lists i
        simp only [BuddyView.take, Function.update_of_ne ne] at list ⊢
        exact list
      · intro i
        rw [BuddyState.next_of_mem mem]
        exact h.cache i
    · rw [mem]
      exact Memory.Within.refl _ _
  · obtain ⟨prevMember, prevNext⟩ := (h.lists o).prev_mem member (Ne.symm front)
    have before := h.listed_node prevMember
    have after := (h.next_listed member).imp_right h.listed_node
    have nonnull : s.prev (s.base + x) ≠ 0 := (h.lists o).chain.ne_null prevMember
    obtain ⟨lists, mem⟩ := BuddyState.unlinkDo_inner front nonnull
    obtain ⟨links, tags⟩ := BuddyState.join_links h.geometry before after
      (t := s.unlinkDo (s.base + x) o) rfl mem
    refine ⟨?_, rfl, BuddyView.take_owned known, ?_⟩
    · refine h.take known rfl tags rfl ?_ ?_ ?_
      · rw [lists]
        refine (h.lists o).erase_inner member (Ne.symm front) ?_ ?_
        · exact fun n hn _ => (links n (h.listed_node hn)).1
        · intro n hn _
          have hn := List.mem_of_mem_tail hn
          have live := (h.lists o).chain.ne_null hn
          rw [(links n (h.listed_node hn)).2]
          by_cases same : n = s.next (s.base + x)
          · rw [if_pos ⟨same ▸ live, same⟩, if_pos same]
          · rw [if_neg (fun both => same both.2), if_neg same]
      · intro i ne
        rw [lists]
        have foreign : ∀ n ∈ v.lists i, n ∉ v.lists o :=
          fun n hn hn' => ne (h.listed_unique hn hn')
        refine (h.lists i).congr ?_ ?_
        · intro n hn
          rw [(links n (h.listed_node hn)).1, if_neg]
          rintro rfl
          exact foreign _ hn prevMember
        · intro n hn
          have hn := List.mem_of_mem_tail hn
          rw [(links n (h.listed_node hn)).2, if_neg]
          rintro ⟨live, rfl⟩
          exact foreign _ hn ((h.next_listed member).resolve_left live)
      · intro i
        refine (h.cache i).congr (fun n hn => ?_)
        rw [(links n (h.cached_node hn)).1, if_neg]
        rintro rfl
        obtain ⟨y, eq, found⟩ := (h.inCache i _).mp hn
        rw [eq] at prevMember
        exact h.not_listed found (by decide) o prevMember
    · rw [mem]
      refine within_setPrevOrScratch (within_setNext (Memory.Within.refl _ _) ?_) ?_
      · exact fun b lo hi => h.loose_listed prevMember lo hi
      · intro live b lo hi
        exact h.loose_listed ((h.next_listed member).resolve_left live) lo hi

/-- The link check accepts every free block of a represented state. -/
theorem BuddyRep.unlinkCheck (h : BuddyRep s v) (known : v.tile x = some (.free, o))
    : s.unlinkCheck (s.base + x) o = true := by
  have member := h.mem_lists.mpr known
  have after := h.next_listed member
  have nextValid : s.linkValid (s.next (s.base + x)) = true :=
    BuddyState.linkValid_of_node (after.imp_right h.listed_node)
  have nextBack : s.next (s.base + x) = 0 ∨ s.prev (s.next (s.base + x)) = s.base + x :=
    (h.lists o).prev_next member
  unfold BuddyState.unlinkCheck
  by_cases checked : P.checkLinks = true
  · by_cases front : s.freeLists o = s.base + x
    · have isHead : (s.freeLists o == s.base + x) = true := by simpa using front
      rcases nextBack with last | back
      · simp [isHead, last, BuddyState.linkValid]
      · have nullValid : s.linkValid 0 = true := by simp [BuddyState.linkValid]
        simp [isHead, nextValid, back, nullValid]
        omega
    · obtain ⟨prevMember, prevNext⟩ := (h.lists o).prev_mem member (Ne.symm front)
      have isHead : (s.freeLists o == s.base + x) = false := by simpa using front
      have prevValid : s.linkValid (s.prev (s.base + x)) = true :=
        BuddyState.linkValid_of_node (Or.inr (h.listed_node prevMember))
      have nonnull : s.prev (s.base + x) ≠ 0 := (h.lists o).chain.ne_null prevMember
      rcases nextBack with last | back
      · have nullValid : s.linkValid 0 = true := by simp [BuddyState.linkValid]
        simp [isHead, last, nullValid, prevValid, nonnull, prevNext]
      · simp [isHead, nextValid, prevValid, nonnull, prevNext, back]
        omega
  · simp [checked]

end Unlinking

-----------------------------------------------------------------------------------------
-- Owners
-----------------------------------------------------------------------------------------

/-- The block at `x` changes its kind. -/
def BuddyView.setKind (v : BuddyView) (x : Nat) (k : TileKind) (o : Nat) : BuddyView :=
  { v with tile := Function.update v.tile x (some (k, o)) }

/-- Blocks of these kinds are in one of the lists. -/
def TileKind.isListed : TileKind → Bool
  | .free => true
  | .cached => true
  | _ => false

section Owners

variable {P : BuddyParams} {s s' : BuddyState P} {v : BuddyView} {x o c t : Nat}
  {k k' : TileKind}

/-- Changing between kinds that no list holds: lists and links stay. -/
theorem BuddyRep.setKind {j : TileKind} {u : BuddyState P} (h : BuddyRep s v)
    (known : v.tile x = some (k, o))
    (before : k.isListed = false) (after : j.isListed = false)
    (geometry : u.toBuddyGeometry = s.toBuddyGeometry)
    (lists : u.freeLists = s.freeLists) (heads : u.cacheHead = s.cacheHead)
    (nexts : ∀ b, s.Node P b → u.next b = s.next b)
    (prevs : ∀ b, s.Node P b → u.prev b = s.prev b)
    (others : ∀ i < s.tagCount, i ≠ x >>> P.log2Min → u.tag i = s.tag i)
    (here : ∀ t, tileTag (some (j, o)) = some t → u.tag (x >>> P.log2Min) = t)
    (counter : u.allocatedBytes + ownedSize P (k, o) = s.allocatedBytes + ownedSize P (j, o))
    : BuddyRep u (v.setKind x j o) := by
  have total : u.total = s.total := congrArg BuddyGeometry.total geometry
  have base : u.base = s.base := congrArg BuddyGeometry.base geometry
  have maxOrder : u.maxOrder = s.maxOrder := congrArg BuddyGeometry.maxOrder geometry
  have unlike : ∀ l : TileKind, l.isListed = true →
      (∀ o', v.tile x ≠ some (l, o')) ∧ ∀ o', some (j, o) ≠ some (l, o') := by
    intro l listed
    refine ⟨?_, ?_⟩
    · intro o' eq
      rw [known] at eq
      obtain rfl := (Prod.mk.inj (Option.some.inj eq)).1
      rw [before] at listed
      exact absurd listed (by decide)
    · intro o' eq
      obtain rfl := (Prod.mk.inj (Option.some.inj eq)).1
      rw [after] at listed
      exact absurd listed (by decide)
  refine ⟨geometry ▸ h.geometry, ?_, ?_, ?_, ?_, ?_, h.cacheNodup, ?_, ?_⟩
  · rw [maxOrder, total]
    exact h.tiling.relabel known
  · exact h.tags.update h.geometry total (h.block known).2.1 others here
  · intro i
    rw [lists]
    refine (h.lists i).congr ?_ ?_
    · exact fun n hn => nexts n (h.listed_node hn)
    · exact fun n hn => prevs n (h.listed_node (List.mem_of_mem_tail hn))
  · rw [base]
    exact h.listed.other (unlike .free rfl).1 (unlike .free rfl).2
  · intro i
    rw [heads]
    exact (h.cache i).congr (fun n hn => nexts n (h.cached_node hn))
  · rw [base]
    exact h.inCache.other (unlike .cached rfl).1 (unlike .cached rfl).2
  · have := h.counter_update known (some (j, o))
    simp only [Option.elim] at this
    rw [total]
    simp only [BuddyView.setKind]
    omega

/-- Writing the tag of a block that changes its kind. -/
theorem BuddyRep.retag {j : TileKind} (h : BuddyRep s v) (known : v.tile x = some (k, o))
    (before : k.isListed = false) (after : j.isListed = false)
    (tag : tileTag (some (j, o)) = some t) (fits : t < 256)
    (counter : c + ownedSize P (k, o) = s.allocatedBytes + ownedSize P (j, o))
    : BuddyRep ({ s.setTag (s.tagIndex (s.base + x)) t with allocatedBytes := c } : BuddyState P)
        (v.setKind x j o) := by
  have index := h.geometry.index_lt (h.block known).2.2.2.1
  rw [s.tagIndex_base]
  refine h.setKind known before after rfl rfl rfl ?_ ?_ ?_ ?_ counter
  · exact fun b hb => BuddyState.next_setTag h.geometry index hb
  · exact fun b hb => BuddyState.prev_setTag h.geometry index hb
  · intro i _ ne
    exact (BuddyState.tag_setTag fits).trans (if_neg ne)
  · intro t' expected
    rw [tag] at expected
    obtain rfl := Option.some.inj expected
    exact (BuddyState.tag_setTag fits).trans (if_pos rfl)

/-- Taking a block back from its owner: only the counter changes. -/
theorem BuddyRep.release (h : BuddyRep s v) (known : v.tile x = some (k, o))
    (before : k.isListed = false)
    (counter : c + ownedSize P (k, o) = s.allocatedBytes)
    : BuddyRep ({ s with allocatedBytes := c } : BuddyState P) (v.setKind x .held o) := by
  refine h.setKind known before rfl rfl rfl rfl (fun _ _ => rfl) (fun _ _ => rfl)
    (fun _ _ _ => rfl) ?_ counter
  simp [tileTag]

/-- A retagged block is the only change outside the owned blocks. -/
theorem BuddyRep.within_retag (h : BuddyRep s v) (known : v.tile x = some (k, o))
    (owned : Nat → Option Tile)
    : Memory.Within (Loose P s.toBuddyGeometry owned) s.mem
        (s.setTag (s.tagIndex (s.base + x)) t).mem :=
  within_setTag (Memory.Within.refl _ _) (h.loose_tagIndex known)

end Owners

-----------------------------------------------------------------------------------------
-- Halving and joining
-----------------------------------------------------------------------------------------

/-- The held block at `x` of order `o + 1` becomes two held blocks of order `o`. -/
def BuddyView.halve (P : BuddyParams) (v : BuddyView) (x o : Nat) : BuddyView :=
  { v with
    tile := Function.update (Function.update v.tile x (some (.held, o))) (x + P.orderSize o)
      (some (.held, o)) }

/-- The held blocks of order `o` at `x` and behind it become one block of order `o + 1`. -/
def BuddyView.join (P : BuddyParams) (v : BuddyView) (x o : Nat) : BuddyView :=
  { v with
    tile := Function.update (Function.update v.tile (x + P.orderSize o) none) x
      (some (.held, o + 1)) }

section Halves

variable {P : BuddyParams} {s : BuddyState P} {v : BuddyView} {x o : Nat}

theorem BuddyParams.orderSize_succ (P : BuddyParams) (o : Nat)
    : P.orderSize (o + 1) = P.orderSize o + P.orderSize o := by
  rw [P.orderSize_eq, P.orderSize_eq, ← Nat.add_assoc, pow_succ]
  ring

/-- The upper half of a held block does not start another block. -/
theorem BuddyRep.upper_none (h : BuddyRep s v) {k : TileKind}
    (known : v.tile x = some (k, o + 1))
    : v.tile (x + P.orderSize o) = none := by
  have positive := P.orderSize_pos o
  refine h.tiling.tiled.none_inside known (by omega) ?_
  simp only [← P.orderSize_eq, P.orderSize_succ]
  omega

/-- Halving a held block changes the view only. -/
theorem BuddyRep.halve (h : BuddyRep s v) (known : v.tile x = some (.held, o + 1))
    : BuddyRep s (v.halve P x o) ∧ Move s v s (v.halve P x o) := by
  obtain ⟨_, unit, last, inside, _⟩ := h.block known
  have upper := h.upper_none known
  have positive := P.orderSize_pos o
  have double := P.orderSize_succ o
  have differ : x + P.orderSize o ≠ x := by omega
  have upper' : Function.update v.tile x (some (TileKind.held, o)) (x + P.orderSize o) = none := by
    rw [Function.update_of_ne differ, upper]
  have unit' : P.minBlock ∣ x + P.orderSize o := Nat.dvd_add unit (P.minBlock_dvd_orderSize o)
  have tilingEq := h.tiling.split (k := .held) (j := .held) known
  rw [← P.orderSize_eq] at tilingEq
  refine ⟨⟨h.geometry, tilingEq, ?_, h.lists, ?_, h.cache, h.cacheNodup, ?_, ?_⟩, rfl, ?_,
    Memory.Within.refl _ _⟩
  · have first := h.tags.update (u := s) h.geometry rfl unit (fun _ _ _ => rfl)
      (b := some (.held, o)) (by simp [tileTag])
    exact first.update h.geometry rfl unit' (fun _ _ _ => rfl) (by simp [tileTag])
  · have first := h.listed.other (x := x) (b := some (.held, o))
      (fun o' eq => by rw [known] at eq; simp at eq) (by simp)
    exact first.other (fun o' eq => by rw [upper'] at eq; simp at eq) (by simp)
  · have first := h.inCache.other (x := x) (b := some (.held, o))
      (fun o' eq => by rw [known] at eq; simp at eq) (by simp)
    exact first.other (fun o' eq => by rw [upper'] at eq; simp at eq) (by simp)
  · have first := h.counter_update known (some (.held, o))
    have second := blockSum_update (ownedSize P)
      (Function.update v.tile x (some (.held, o))) (some (.held, o))
      (show x + P.orderSize o < s.total by omega)
    rw [upper'] at second
    simp only [ownedSize, Option.elim] at first second
    simp only [BuddyView.halve]
    omega
  · refine (ownedOf_update_loose (by simp [ownedOf, upper']) (by simp [TileKind.isOwned])).trans ?_
    exact ownedOf_update_loose (by simp [ownedOf, known, TileKind.isOwned])
      (by simp [TileKind.isOwned])

/-- Joining two held buddies clears the tag of the upper one. -/
theorem BuddyRep.join (h : BuddyRep s v) (lower : v.tile x = some (.held, o))
    (upper : v.tile (x + P.orderSize o) = some (.held, o)) (aligned : P.orderSize (o + 1) ∣ x)
    (order : o + 1 < s.maxOrder)
    : BuddyRep (s.setTag ((x + P.orderSize o) >>> P.log2Min) tagNone) (v.join P x o)
      ∧ Move s v (s.setTag ((x + P.orderSize o) >>> P.log2Min) tagNone) (v.join P x o) := by
  obtain ⟨_, unit, _, inside, _⟩ := h.block lower
  obtain ⟨_, unit', _, inside', _⟩ := h.block upper
  have index := h.geometry.index_lt inside'
  have positive := P.orderSize_pos o
  have differ : x ≠ x + P.orderSize o := by omega
  have lower' : Function.update v.tile (x + P.orderSize o) none x = some (TileKind.held, o) := by
    rw [Function.update_of_ne differ, lower]
  have tilingEq : DyadicTiling P.log2Min s.maxOrder s.total (v.join P x o).tile := by
    rw [P.orderSize_eq] at upper aligned
    have := h.tiling.merge (j := .held) lower upper (by rwa [Nat.add_assoc]) order
    rwa [← P.orderSize_eq] at this
  refine ⟨⟨h.geometry, tilingEq, ?_, ?_, ?_, ?_, h.cacheNodup, ?_, ?_⟩, rfl, ?_, ?_⟩
  · have first := h.tags.update (b := none)
      (u := s.setTag ((x + P.orderSize o) >>> P.log2Min) tagNone) h.geometry rfl unit'
      (fun i _ ne => (BuddyState.tag_setTag (by decide)).trans (if_neg ne))
      (fun t expected => by
        obtain rfl := Option.some.inj expected
        exact (BuddyState.tag_setTag (by decide)).trans (if_pos rfl))
    exact first.update h.geometry rfl unit (fun _ _ _ => rfl) (by simp [tileTag])
  · intro i
    refine (h.lists i).congr ?_ ?_
    · exact fun n hn => BuddyState.next_setTag h.geometry index (h.listed_node hn)
    · exact fun n hn => BuddyState.prev_setTag h.geometry index
        (h.listed_node (List.mem_of_mem_tail hn))
  · have first := h.listed.other (x := x + P.orderSize o) (b := none)
      (fun o' eq => by rw [upper] at eq; simp at eq) (by simp)
    exact first.other (fun o' eq => by rw [lower'] at eq; simp at eq) (by simp)
  · intro i
    exact (h.cache i).congr
      (fun n hn => BuddyState.next_setTag h.geometry index (h.cached_node hn))
  · have first := h.inCache.other (x := x + P.orderSize o) (b := none)
      (fun o' eq => by rw [upper] at eq; simp at eq) (by simp)
    exact first.other (fun o' eq => by rw [lower'] at eq; simp at eq) (by simp)
  · have first := h.counter_update upper none
    have second := blockSum_update (ownedSize P)
      (Function.update v.tile (x + P.orderSize o) none) (some (.held, o + 1)) inside
    rw [lower'] at second
    simp only [ownedSize, Option.elim] at first second
    have counter : (s.setTag ((x + P.orderSize o) >>> P.log2Min) tagNone).allocatedBytes
        = s.allocatedBytes := rfl
    simp only [BuddyView.join]
    rw [counter]
    exact first.symm.trans second.symm
  · refine (ownedOf_update_loose (by simp [ownedOf, lower', TileKind.isOwned])
      (by simp [TileKind.isOwned])).trans ?_
    exact ownedOf_update_loose (by simp [ownedOf, upper, TileKind.isOwned]) rfl
  · refine within_setTag (Memory.Within.refl _ _) ?_
    exact Or.inl ⟨Nat.le_add_right _ _, Nat.add_lt_add_left index _⟩

end Halves

end Bbmalloc
