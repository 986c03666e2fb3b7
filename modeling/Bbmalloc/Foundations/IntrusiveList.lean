import Mathlib

/-! Intrusive doubly linked lists, given by two link functions. The back link of the
front node is left unspecified: a list may keep a stale word there.
-/

namespace Bbmalloc.Foundations

/-- Following `next` from `front` visits exactly `nodes` and then `null`. -/
def Chain (null : Nat) (next : Nat → Nat) : Nat → List Nat → Prop
  | front, [] => front = null
  | front, node :: rest => front = node ∧ node ≠ null ∧ Chain null next (next node) rest

/-- Every node but the front one points back at its predecessor. -/
def BackLinked (prev : Nat → Nat) : List Nat → Prop
  | first :: second :: rest => prev second = first ∧ BackLinked prev (second :: rest)
  | _ => True

/-- `nodes` is the list that starts at `front`, each node once. -/
structure Linked (null : Nat) (next prev : Nat → Nat) (front : Nat) (nodes : List Nat)
    : Prop where
  chain : Chain null next front nodes
  back : BackLinked prev nodes
  nodup : nodes.Nodup

/-- The nodes that following `next` from `front` reaches. -/
inductive Follows (null : Nat) (next : Nat → Nat) : Nat → Nat → Prop
  | here {node : Nat} (live : node ≠ null) : Follows null next node node
  | there {node target : Nat} (live : node ≠ null)
      (later : Follows null next (next node) target) : Follows null next node target

-----------------------------------------------------------------------------------------
-- Singly linked chains
-----------------------------------------------------------------------------------------

section Chains

variable {null : Nat} {next next' : Nat → Nat} {front : Nat} {nodes : List Nat}

/-- A chain reads only the forward links of its own nodes. -/
theorem Chain.congr (h : Chain null next front nodes)
    (same : ∀ x ∈ nodes, next' x = next x)
    : Chain null next' front nodes := by
  induction nodes generalizing front with
  | nil => exact h
  | cons node rest ih =>
      obtain ⟨rfl, live, tail⟩ := h
      refine ⟨rfl, live, ?_⟩
      rw [same front (by simp)]
      exact ih tail (fun x hx => same x (by simp [hx]))

/-- The front link is null exactly for the empty chain. -/
theorem Chain.front_null (h : Chain null next front nodes) : front = null ↔ nodes = [] := by
  cases nodes with
  | nil => exact ⟨fun _ => rfl, fun _ => h⟩
  | cons node rest =>
      obtain ⟨rfl, live, _⟩ := h
      simp [live]

/-- The front of a chain is determined by its nodes. -/
theorem Chain.front_eq {front' : Nat} (first : Chain null next front nodes)
    (second : Chain null next' front' nodes)
    : front = front' := by
  cases nodes with
  | nil => exact first.trans second.symm
  | cons a rest => exact first.1.trans second.1.symm

/-- A chain with a non-null front starts with that node. -/
theorem Chain.eq_cons (h : Chain null next front nodes) (live : front ≠ null)
    : ∃ rest, nodes = front :: rest ∧ Chain null next (next front) rest := by
  cases nodes with
  | nil => exact (live h).elim
  | cons node rest =>
      obtain ⟨rfl, _, tail⟩ := h
      exact ⟨rest, rfl, tail⟩

/-- Null is never a node. -/
theorem Chain.ne_null (h : Chain null next front nodes) {x : Nat} (hx : x ∈ nodes)
    : x ≠ null := by
  induction nodes generalizing front with
  | nil => simp at hx
  | cons node rest ih =>
      obtain ⟨rfl, live, tail⟩ := h
      rcases List.mem_cons.mp hx with rfl | hx
      · exact live
      · exact ih tail hx

/-- The successor of a node is null or a later node, so never the front one. -/
theorem Chain.next_mem_tail (h : Chain null next front nodes) {x : Nat} (hx : x ∈ nodes)
    : next x = null ∨ next x ∈ nodes.tail := by
  induction nodes generalizing front with
  | nil => simp at hx
  | cons node rest ih =>
      obtain ⟨rfl, live, tail⟩ := h
      rcases List.mem_cons.mp hx with rfl | hx
      · cases rest with
        | nil => exact Or.inl tail
        | cons second rest =>
            obtain ⟨eq, _, _⟩ := tail
            exact Or.inr (by simp [eq])
      · exact (ih tail hx).imp_right List.mem_of_mem_tail

/-- Following the links reaches exactly the listed nodes, by induction on the path. -/
theorem Chain.mem_iff_follows (h : Chain null next front nodes) (target : Nat)
    : target ∈ nodes ↔ Follows null next front target := by
  constructor
  · intro member
    induction nodes generalizing front with
    | nil => simp at member
    | cons node rest ih =>
        obtain ⟨rfl, live, tail⟩ := h
        rcases List.mem_cons.mp member with rfl | member
        · exact .here live
        · exact .there live (ih tail member)
  · intro path
    induction path generalizing nodes with
    | here live =>
        obtain ⟨rest, rfl, _⟩ := h.eq_cons live
        simp
    | there live _ ih =>
        obtain ⟨rest, rfl, tail⟩ := h.eq_cons live
        simp [ih tail]

end Chains

-----------------------------------------------------------------------------------------
-- Doubly linked lists
-----------------------------------------------------------------------------------------

section Lists

variable {null : Nat} {next prev next' prev' : Nat → Nat} {front : Nat} {nodes : List Nat}

/-- Back links of the nodes after the front one are all that counts. -/
theorem BackLinked.congr (h : BackLinked prev nodes)
    (same : ∀ x ∈ nodes.tail, prev' x = prev x)
    : BackLinked prev' nodes := by
  induction nodes with
  | nil => trivial
  | cons first rest ih =>
      cases rest with
      | nil => trivial
      | cons second rest =>
          refine ⟨?_, ih h.2 (fun x hx => same x (by simp at hx ⊢; simp [hx]))⟩
          rw [same second (by simp)]
          exact h.1

/-- The empty list. -/
theorem Linked.nil (null : Nat) (next prev : Nat → Nat) : Linked null next prev null [] :=
  ⟨rfl, trivial, List.nodup_nil⟩

/-- A list reads only the links of its own nodes. -/
theorem Linked.congr (h : Linked null next prev front nodes)
    (sameNext : ∀ x ∈ nodes, next' x = next x)
    (samePrev : ∀ x ∈ nodes.tail, prev' x = prev x)
    : Linked null next' prev' front nodes :=
  ⟨h.chain.congr sameNext, h.back.congr samePrev, h.nodup⟩

/-- The tail of a list is a list; the back link of its new front is not examined. -/
theorem Linked.pop {node : Nat} {rest : List Nat}
    (h : Linked null next prev front (node :: rest))
    : Linked null next prev (next node) rest := by
  refine ⟨h.chain.2.2, ?_, (List.nodup_cons.mp h.nodup).2⟩
  cases rest with
  | nil => trivial
  | cons second rest => exact h.back.2

/-- Linking a new node in front: it points at the old front, which points back. -/
theorem Linked.push (h : Linked null next prev front nodes) {node : Nat}
    (fresh : node ∉ nodes) (live : node ≠ null)
    (forward : next' node = front)
    (sameNext : ∀ x ∈ nodes, next' x = next x)
    (backward : front ≠ null → prev' front = node)
    (samePrev : ∀ x ∈ nodes.tail, prev' x = prev x)
    : Linked null next' prev' node (node :: nodes) := by
  refine ⟨⟨rfl, live, ?_⟩, ?_, List.nodup_cons.mpr ⟨fresh, h.nodup⟩⟩
  · rw [forward]
    exact h.chain.congr sameNext
  · cases nodes with
    | nil => trivial
    | cons first rest =>
        obtain ⟨rfl, firstLive, _⟩ := h.chain
        exact ⟨backward firstLive, h.back.congr samePrev⟩

/-- Dropping the front node of a longer list leaves a list that starts at the second. -/
theorem Linked.tail {node second : Nat} {rest : List Nat}
    (h : Linked null next prev front (node :: second :: rest))
    : front = node ∧ next node = second ∧ prev second = node
      ∧ Linked null next prev second (second :: rest) := by
  have shorter := h.pop
  obtain ⟨rfl, _, nextEq, _, _⟩ := h.chain
  exact ⟨rfl, nextEq, h.back.1, nextEq ▸ shorter⟩

/-- A node that is not in front has its predecessor in the list. -/
theorem Linked.prev_mem (h : Linked null next prev front nodes) {node : Nat}
    (member : node ∈ nodes) (inner : node ≠ front)
    : prev node ∈ nodes ∧ next (prev node) = node := by
  induction nodes generalizing front with
  | nil => simp at member
  | cons first rest ih =>
      have same : front = first := h.chain.1
      subst same
      have member : node ∈ rest := by simpa [inner] using member
      cases rest with
      | nil => simp at member
      | cons second rest =>
          obtain ⟨_, nextEq, prevEq, shorter⟩ := h.tail
          by_cases same : node = second
          · subst same
            rw [prevEq]
            exact ⟨by simp, nextEq⟩
          · have later := ih shorter member same
            exact ⟨List.mem_cons_of_mem _ later.1, later.2⟩

/-- The successor of a node is null or points back at it. -/
theorem Linked.prev_next (h : Linked null next prev front nodes) {node : Nat}
    (member : node ∈ nodes)
    : next node = null ∨ prev (next node) = node := by
  induction nodes generalizing front with
  | nil => simp at member
  | cons first rest ih =>
      rcases List.mem_cons.mp member with rfl | member
      · cases rest with
        | nil => exact Or.inl h.chain.2.2
        | cons second rest =>
            obtain ⟨_, nextEq, prevEq, _⟩ := h.tail
            exact Or.inr (by rw [nextEq, prevEq])
      · exact ih h.pop member

/-- Unlinking the front node: the list starts at its successor. -/
theorem Linked.erase_front (h : Linked null next prev front nodes) (member : front ∈ nodes)
    (sameNext : ∀ x ∈ nodes, x ≠ front → next' x = next x)
    (samePrev : ∀ x ∈ nodes.tail, x ≠ front → prev' x = prev x)
    : Linked null next' prev' (next front) (nodes.erase front) := by
  obtain ⟨rest, rfl, _⟩ := h.chain.eq_cons (h.chain.ne_null member)
  have apart : ∀ x ∈ rest, x ≠ front := by
    rintro x hx rfl
    exact (List.nodup_cons.mp h.nodup).1 hx
  rw [List.erase_cons_head]
  refine h.pop.congr ?_ ?_
  · intro x hx
    exact sameNext x (by simp [hx]) (apart x hx)
  · intro x hx
    have hx := List.mem_of_mem_tail hx
    exact samePrev x hx (apart x hx)

/-- Unlinking a node behind the front: its predecessor and successor are joined and all
other links stay. By induction along the list; the step at the predecessor does the work.
-/
theorem Linked.erase_inner (h : Linked null next prev front nodes) {node : Nat}
    (member : node ∈ nodes) (inner : node ≠ front)
    (nextLinks : ∀ x ∈ nodes, x ≠ node →
      next' x = if x = prev node then next node else next x)
    (prevLinks : ∀ x ∈ nodes.tail, x ≠ node →
      prev' x = if x = next node then prev node else prev x)
    : Linked null next' prev' front (nodes.erase node) := by
  induction nodes generalizing front with
  | nil => simp at member
  | cons first rest ih =>
      have same : front = first := h.chain.1
      subst same
      have member : node ∈ rest := by simpa [inner] using member
      obtain ⟨fresh, restNodup⟩ := List.nodup_cons.mp h.nodup
      have live : front ≠ null := h.chain.2.1
      rw [List.erase_cons_tail (by simpa using inner.symm)]
      cases rest with
      | nil => simp at member
      | cons second rest =>
          obtain ⟨_, nextEq, prevEq, shorter⟩ := h.tail
          by_cases same : second = node
          · subst same
            have laterFresh := (List.nodup_cons.mp restNodup).1
            have apart : ∀ x ∈ rest, x ≠ second := by
              rintro x hx rfl
              exact laterFresh hx
            have later := shorter.pop
            rw [List.erase_cons_head]
            rw [prevEq] at nextLinks prevLinks
            refine ⟨⟨rfl, live, ?_⟩, ?_, ?_⟩
            · rw [nextLinks front (by simp) inner.symm, if_pos rfl]
              refine later.chain.congr (fun x hx => ?_)
              have notFront : x ≠ front := by
                rintro rfl
                exact fresh (by simp [hx])
              rw [nextLinks x (by simp [hx]) (apart x hx), if_neg notFront]
            · cases rest with
              | nil => trivial
              | cons third rest =>
                  have thirdEq : next second = third := later.chain.1
                  refine ⟨?_, later.back.congr (fun x hx => ?_)⟩
                  · rw [prevLinks third (by simp) (apart third (by simp)), if_pos thirdEq.symm]
                  · have hx : x ∈ rest := by simpa using hx
                    have notThird : x ≠ next second := by
                      rw [thirdEq]
                      rintro rfl
                      exact (List.nodup_cons.mp later.nodup).1 hx
                    rw [prevLinks x (by simp [hx]) (apart x (by simp [hx])), if_neg notThird]
            · exact List.nodup_cons.mpr ⟨fun hx => fresh (by simp [hx]), later.nodup⟩
          · have before := (shorter.prev_mem member (Ne.symm same)).1
            have frontNext : next' front = second := by
              rw [nextLinks front (by simp) inner.symm, if_neg, nextEq]
              rintro rfl
              exact fresh before
            have notNext : second ≠ next node := by
              intro eq
              rcases shorter.chain.next_mem_tail member with nil | later
              · exact shorter.chain.2.1 (eq.trans nil)
              · exact (List.nodup_cons.mp restNodup).1 (eq ▸ later)
            have joined := ih shorter member (Ne.symm same)
              (fun x hx => nextLinks x (List.mem_cons_of_mem _ hx))
              (fun x hx => prevLinks x (List.mem_of_mem_tail hx))
            refine ⟨⟨rfl, live, frontNext ▸ joined.chain⟩, ?_, ?_⟩
            · rw [List.erase_cons_tail (by simpa using same)] at joined ⊢
              refine ⟨?_, joined.back⟩
              rw [prevLinks second (by simp) same, if_neg notNext]
              exact prevEq
            · exact List.nodup_cons.mpr
                ⟨fun hx => fresh (List.mem_of_mem_erase hx), joined.nodup⟩

end Lists

/-- Lists without repetition that hold the same elements, at most one, are equal. -/
theorem eq_of_same_members {α : Type} {l l' : List α} (nodup : l.Nodup) (nodup' : l'.Nodup)
    (same : ∀ a, a ∈ l ↔ a ∈ l') (one : ∀ a ∈ l', ∀ b ∈ l', a = b)
    : l = l' := by
  have perm := (List.perm_ext_iff_of_nodup nodup nodup').mpr same
  match l' with
  | [] => exact perm.eq_nil
  | [a] => exact List.perm_singleton.mp perm
  | a :: b :: rest =>
      have differ : a ≠ b := by
        rintro rfl
        simp at nodup'
      exact absurd (one a (by simp) b (by simp)) differ

end Bbmalloc.Foundations
