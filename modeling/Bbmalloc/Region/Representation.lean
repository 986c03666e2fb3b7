import Bbmalloc.Buddy.Runs
import Bbmalloc.Model.Malloc
import Bbmalloc.Tlsf.Payloads
import Bbmalloc.Tlsf.Runs

/-! The two tiers of a region together. A sheet is one buddy block to the buddy list and the
whole memory of the small-block allocator, so each tier writes only where the other one
reads nothing. `RegionInv` adds the rule for the spare sheet.
-/

namespace Bbmalloc

open Bbmalloc.Foundations

-----------------------------------------------------------------------------------------
-- Live blocks and footprints
-----------------------------------------------------------------------------------------

/-- The abstract state of a region. -/
structure RegionView where
  buddy : BuddyView
  tlsf : TlsfView

/-- The blocks that the clients of a region hold: the orders of the buddy blocks and the
sizes of the small blocks, header included, by offset.
-/
@[ext]
structure Live where
  large : Nat → Option Nat
  small : Nat → Option Nat

/-- The order of a block that a client holds. -/
def clientOrder : Option Tile → Option Nat
  | some (.alloc, o) => some o
  | _ => none

/-- The blocks that clients hold, from the owned buddy blocks and the granted small blocks. -/
def Live.of (owned : Nat → Option Tile) (granted : Nat → Option Nat) : Live where
  large x := clientOrder (owned x)
  small := granted

/-- The blocks that clients hold in a view. -/
def RegionView.live (v : RegionView) : Live := Live.of v.buddy.owned v.tlsf.granted

/-- No live block. -/
def Live.none : Live := ⟨fun _ => Option.none, fun _ => Option.none⟩

/-- Buddy block `x` changed. -/
def Live.setLarge (l : Live) (x : Nat) (o : Option Nat) : Live :=
  { l with large := Function.update l.large x o }

/-- Small block `x` changed. -/
def Live.setSmall (l : Live) (x : Nat) (n : Option Nat) : Live :=
  { l with small := Function.update l.small x n }

/-- Every block of `l` is a block of `l'`. -/
def Live.Sub (l l' : Live) : Prop :=
  (∀ x o, l.large x = some o → l'.large x = some o)
  ∧ ∀ x n, l.small x = some n → l'.small x = some n

/-- An address inside the usable bytes of a live block. -/
def Live.Covers (P : BuddyParams) (base : Nat) (l : Live) (a : Nat) : Prop :=
  (∃ x o, l.large x = some o ∧ base + x ≤ a ∧ a < base + x + P.orderSize o)
  ∨ ∃ x n, l.small x = some n ∧ base + x + headerSize ≤ a ∧ a < base + x + n

/-- The tag array and the data area of a region. -/
def Footprint (g : BuddyGeometry) (a : Nat) : Prop :=
  (g.blockTags ≤ a ∧ a < g.blockTags + g.tagCount) ∨ (g.base ≤ a ∧ a < g.base + g.total)

/-- The addresses a region may write: its footprint without the usable bytes of the blocks
in `kept`.
-/
def RegionLoose (P : BuddyParams) (g : BuddyGeometry) (kept : Live) (a : Nat) : Prop :=
  Footprint g a ∧ ¬kept.Covers P g.base a

-----------------------------------------------------------------------------------------
-- Invariants
-----------------------------------------------------------------------------------------

/-- The order of a sheet. -/
def Config.sheetOrder (C : Config) : Nat := C.tlsf.log2Sheet - C.buddy.log2Min

/-- No client holds a block in the sheet. -/
def TlsfView.EmptySheet (T : TlsfParams) (v : TlsfView) (sh : Nat) : Prop :=
  ∀ x n, v.granted x = some n → ¬(sh ≤ x ∧ x < sh + T.sheet)

/-- The tiers represent a view and agree on the sheets; no sheet was ever given back or kept
because the other tier refused it.
-/
structure RegionCore {C : Config} (r : RegionState C) (v : RegionView) : Prop where
  live : r.live = true
  buddy : BuddyInv r.buddyState v.buddy
  tlsf : TlsfInv r.buddy.total r.tlsfState v.tlsf
  base : r.tlsf.rbase = r.buddy.base
  sheets : ∀ x o, v.buddy.owned x = some (.sheet, o) ↔ x ∈ r.tlsf.sheets ∧ o = C.sheetOrder
  noRollback : r.rollbacks = 0

/-- Between calls, the spare is null or a sheet, and a sheet without live blocks is the
spare.
-/
structure RegionInv {C : Config} (r : RegionState C) (v : RegionView) : Prop
    extends RegionCore r v where
  spareSheet : r.spare = nullOff ∨ r.spare ∈ r.tlsf.sheets
  onlySpare : ∀ sh ∈ r.tlsf.sheets, v.tlsf.EmptySheet C.tlsf sh → r.spare = sh

/-- What a part of an operation does: the blocks that clients hold afterwards are `live`, and
it writes outside the usable bytes of `kept` only.
-/
structure CoreStep {C : Config} (r r' : RegionState C) (v' : RegionView) (kept live : Live)
    : Prop where
  core : RegionCore r' v'
  geometry : r'.buddy.toBuddyGeometry = r.buddy.toBuddyGeometry
  live_eq : v'.live = live
  within : Memory.Within (RegionLoose C.buddy r.buddy.toBuddyGeometry kept) r.mem r'.mem

/-- What a whole operation on a region does. -/
structure RegionStep {C : Config} (r r' : RegionState C) (v' : RegionView) (kept live : Live)
    : Prop where
  inv : RegionInv r' v'
  geometry : r'.buddy.toBuddyGeometry = r.buddy.toBuddyGeometry
  live_eq : v'.live = live
  within : Memory.Within (RegionLoose C.buddy r.buddy.toBuddyGeometry kept) r.mem r'.mem

-----------------------------------------------------------------------------------------
-- Sets of live blocks
-----------------------------------------------------------------------------------------

section LiveBlocks

variable {P : BuddyParams} {g : BuddyGeometry} {l l' : Live} {x a base : Nat}

theorem Live.Sub.refl (l : Live) : l.Sub l := ⟨fun _ _ h => h, fun _ _ h => h⟩

theorem Live.Sub.covers (h : l.Sub l') (covered : l.Covers P base a) : l'.Covers P base a := by
  rcases covered with ⟨x, o, found, lo, hi⟩ | ⟨x, n, found, lo, hi⟩
  · exact Or.inl ⟨x, o, h.1 x o found, lo, hi⟩
  · exact Or.inr ⟨x, n, h.2 x n found, lo, hi⟩

/-- Fewer kept blocks leave more to write. -/
theorem RegionLoose.mono (h : l.Sub l') (loose : RegionLoose P g l' a) : RegionLoose P g l a :=
  ⟨loose.1, fun covered => loose.2 (h.covers covered)⟩

end LiveBlocks

-----------------------------------------------------------------------------------------
-- The footprints of the tiers
-----------------------------------------------------------------------------------------

section Tiers

variable {C : Config} {b : BuddyState C.buddy} {t : TlsfState C.tlsf} {v : BuddyView}
  {w : TlsfView} {g : BuddyGeometry} {l : Live} {x y limit a sh : Nat}
  {owned : Nat → Option Tile} {kept : Nat → Option Nat} {sheets : List Nat}

theorem Config.minBlock_large (C : Config) : 16 ≤ C.buddy.minBlock :=
  Nat.pow_le_pow_right (show 2 > 0 by decide) C.min_block_large

/-- A region at the cap has room for eight blocks. -/
theorem Config.blocks_fit (C : Config) : 8 * C.buddy.minBlock ≤ C.maxRegionBytes := by
  have orders := C.orders
  have range := C.orders_range
  have some : C.maxRegionBytes / C.buddy.minBlock ≠ 0 := by
    intro zero
    simp [zero, bitLength] at orders
    omega
  rw [bitLength, if_neg some] at orders
  have eight : 2 ^ 3 ≤ C.maxRegionBytes / C.buddy.minBlock :=
    (Nat.le_log2 some).mp (by omega)
  exact (Nat.le_div_iff_mul_le C.buddy.minBlock_pos).mp eight

/-- A sheet is at most half of the range of 32-bit offsets. -/
theorem Config.sheet_le (C : Config) : C.tlsf.sheet ≤ 2 ^ 31 :=
  Nat.pow_le_pow_right (by decide) (Nat.le_of_lt_succ C.sheet_narrow)

/-- A sheet is a buddy block of its order. -/
theorem Config.orderSize_sheet (C : Config) : C.buddy.orderSize C.sheetOrder = C.tlsf.sheet := by
  have le := C.sheet_of_blocks
  rw [C.buddy.orderSize_eq, Config.sheetOrder, TlsfShape.sheet, Nat.add_sub_cancel' le]

/-- The buddy tier serves a request for a sheet at that order. -/
theorem Config.orderForSize_sheet (C : Config)
    : C.buddy.orderForSize C.tlsf.sheet = C.sheetOrder := by
  rw [← C.orderSize_sheet, BuddyParams.orderForSize_orderSize]

/-- Owned blocks end within the data area. -/
theorem BuddyInv.owned_le (h : BuddyInv b v) {c : Tile} (known : v.owned x = some c)
    : C.buddy.orderSize c.2 ∣ x ∧ x + C.buddy.orderSize c.2 ≤ b.total := by
  obtain ⟨k, o⟩ := c
  have tile := (ownedOf_eq_some.mp known).1
  exact ⟨(h.rep.block tile).1, (h.rep.block tile).2.2.1⟩

/-- Distinct owned blocks are apart. -/
theorem BuddyInv.owned_apart (h : BuddyInv b v) {c d : Tile} (first : v.owned x = some c)
    (second : v.owned y = some d) (differ : x ≠ y)
    : x + C.buddy.orderSize c.2 ≤ y ∨ y + C.buddy.orderSize d.2 ≤ x := by
  have apart := h.rep.tiling.tiled.disjoint (ownedOf_eq_some.mp first).1
    (ownedOf_eq_some.mp second).1 differ
  simpa only [C.buddy.orderSize_eq] using apart

/-- An address of a sheet that the buddy list counts as owned is none of its own. -/
theorem Loose.not_sheet (sound : g.Sound C.buddy) (loose : Loose C.buddy g owned a)
    {k : TileKind} (known : owned sh = some (k, C.sheetOrder)) (fits : sh + C.tlsf.sheet ≤ g.total)
    : ¬(g.base + sh ≤ a ∧ a < g.base + sh + C.tlsf.sheet) := by
  have apart := sound.tags_apart
  rintro ⟨lo, hi⟩
  rcases loose with tags | ⟨_, _, outside⟩
  · omega
  · exact outside sh _ known ⟨lo, by rw [C.orderSize_sheet]; exact hi⟩

/-- What the buddy list may write is loose for the region, if it counts the sheets and the
kept blocks as owned.
-/
theorem Loose.region (sound : g.Sound C.buddy)
    (inside : ∀ x c, owned x = some c → x + C.buddy.orderSize c.2 ≤ g.total)
    (large : ∀ x o, l.large x = some o → owned x = some (.alloc, o))
    (small : ∀ x n, l.small x = some n → ∃ sh k, owned sh = some (k, C.sheetOrder)
      ∧ sh ≤ x ∧ x + n ≤ sh + C.tlsf.sheet)
    (loose : Loose C.buddy g owned a)
    : RegionLoose C.buddy g l a := by
  refine ⟨loose.imp id (fun data => ⟨data.1, data.2.1⟩), ?_⟩
  rintro (⟨x, o, found, lo, hi⟩ | ⟨x, n, found, lo, hi⟩)
  · have known := large x o found
    have fits : x + C.buddy.orderSize o ≤ g.total := inside x _ known
    have apart := sound.tags_apart
    rcases loose with tags | ⟨_, _, outside⟩
    · omega
    · exact outside x _ known ⟨lo, hi⟩
  · obtain ⟨sh, k, known, start, stop⟩ := small x n found
    have fits := inside sh _ known
    simp only [C.orderSize_sheet] at fits
    exact loose.not_sheet sound known fits ⟨by omega, by omega⟩

/-- What the small-block allocator may write is loose for the region, if it keeps the small
blocks and its sheets are no client's.
-/
theorem TlsfLoose.region {base : Nat} (same : base = g.base)
    (inside : ∀ sh ∈ sheets, sh + C.tlsf.sheet ≤ g.total)
    (large : ∀ x o, l.large x = some o → ∀ sh ∈ sheets,
      x + C.buddy.orderSize o ≤ sh ∨ sh + C.tlsf.sheet ≤ x)
    (small : ∀ x n, l.small x = some n → kept x = some n)
    (loose : TlsfLoose C.tlsf base sheets kept a)
    : RegionLoose C.buddy g l a := by
  subst same
  obtain ⟨⟨sh, member, lo, hi⟩, outside⟩ := loose
  have fits := inside sh member
  refine ⟨Or.inr ⟨by omega, by omega⟩, ?_⟩
  rintro (⟨x, o, found, start, stop⟩ | ⟨x, n, found, start, stop⟩)
  · have := large x o found sh member
    omega
  · exact outside x n (small x n found) ⟨start, stop⟩

/-- The small-block allocator keeps its invariant when the buddy list writes, as long as the
buddy list counts the sheets as owned.
-/
theorem TlsfInv.buddy_write (h : TlsfInv limit t w) {m : Memory} (sound : g.Sound C.buddy)
    (base : t.rbase = g.base) (fits : limit = g.total)
    (sheets : ∀ sh ∈ t.sheets, ∃ k, owned sh = some (k, C.sheetOrder))
    (within : Memory.Within (Loose C.buddy g owned) t.mem m)
    : TlsfInv limit ({ t with mem := m } : TlsfState C.tlsf) w := by
  refine h.congr (fun a loose => congrArg Cell.byte (within a (fun written => ?_)))
  obtain ⟨⟨sh, member, lo, hi⟩, _⟩ := loose
  obtain ⟨k, known⟩ := sheets sh member
  rw [base] at lo hi
  exact written.not_sheet sound known (fits ▸ h.fit.end_le sh member) ⟨lo, hi⟩

/-- The buddy list keeps its invariant when the small-block allocator writes into sheets
that it counts as owned.
-/
theorem BuddyInv.tlsf_write (h : BuddyInv b v) {m : Memory} {base : Nat} (same : base = b.base)
    (owned : ∀ sh ∈ sheets, ∃ k, v.owned sh = some (k, C.sheetOrder))
    (within : Memory.Within (TlsfLoose C.tlsf base sheets kept) b.mem m)
    : BuddyInv ({ b with mem := m } : BuddyState C.buddy) v := by
  refine h.congr (fun a loose => congrArg Cell.byte (within a (fun written => ?_)))
  obtain ⟨⟨sh, member, lo, hi⟩, _⟩ := written
  obtain ⟨k, known⟩ := owned sh member
  have fits := (h.owned_le known).2
  simp only [C.orderSize_sheet] at fits
  rw [same] at lo hi
  exact loose.not_sheet h.rep.geometry known fits ⟨lo, hi⟩

end Tiers

-----------------------------------------------------------------------------------------
-- Reading and replacing a tier
-----------------------------------------------------------------------------------------

namespace RegionState

variable {C : Config} (r : RegionState C) (b b' : BuddyState C.buddy) (t : TlsfState C.tlsf)

@[simp]
theorem setBuddy_buddyState : (r.setBuddy b).buddyState = b := rfl

@[simp]
theorem setBuddy_setBuddy : (r.setBuddy b).setBuddy b' = r.setBuddy b' := rfl

@[simp]
theorem setTlsf_tlsfState : (r.setTlsf t).tlsfState = t := rfl

@[simp]
theorem setBuddy_base : (r.setBuddy b).buddy.base = b.base := rfl

@[simp]
theorem setTlsf_buddy : (r.setTlsf t).buddy = r.buddy := rfl

end RegionState

-----------------------------------------------------------------------------------------
-- Steps of one tier
-----------------------------------------------------------------------------------------

section Steps

variable {C : Config} {r r' r'' : RegionState C} {v v' v'' : RegionView} {b : BuddyState C.buddy}
  {t : TlsfState C.tlsf} {l l' k k' : Live} {x n o sh : Nat} {kept owned : Nat → Option Tile}
  {small granted : Nat → Option Nat}

@[simp]
theorem Live.of_large : (Live.of owned granted).large x = some o ↔ owned x = some (.alloc, o) := by
  simp only [of]
  cases found : owned x with
  | none => simp [clientOrder]
  | some b =>
      obtain ⟨kind, i⟩ := b
      cases kind <;> simp [clientOrder]

@[simp]
theorem Live.of_small : (Live.of owned granted).small = granted := rfl

theorem Live.of_alloc (owned : Nat → Option Tile) (granted : Nat → Option Nat) (x o : Nat)
    : Live.of (Function.update owned x (some (.alloc, o))) granted
      = (Live.of owned granted).setLarge x (some o) := by
  ext1
  · funext y
    by_cases same : y = x
    · subst same
      simp [of, setLarge, clientOrder]
    · simp [of, setLarge, same]
  · rfl

theorem Live.of_none (owned : Nat → Option Tile) (granted : Nat → Option Nat) (x : Nat)
    : Live.of (Function.update owned x Option.none) granted
      = (Live.of owned granted).setLarge x Option.none := by
  ext1
  · funext y
    by_cases same : y = x
    · subst same
      simp [of, setLarge, clientOrder]
    · simp [of, setLarge, same]
  · rfl

/-- A change between a sheet and no client's block leaves the live blocks alone. -/
theorem Live.of_other (owned : Nat → Option Tile) (granted : Nat → Option Nat) (x : Nat)
    {b : Option Tile} (before : clientOrder (owned x) = Option.none)
    (after : clientOrder b = Option.none)
    : Live.of (Function.update owned x b) granted = Live.of owned granted := by
  ext1
  · funext y
    by_cases same : y = x
    · subst same
      simp [of, before, after]
    · simp [of, same]
  · rfl

theorem RegionCore.sheet_owned (h : RegionCore r v) (member : sh ∈ r.tlsf.sheets)
    : v.buddy.owned sh = some (.sheet, C.sheetOrder) :=
  (h.sheets sh _).mpr ⟨member, rfl⟩

/-- A change of a block that is no sheet, into none, keeps the sheets. -/
theorem RegionCore.sheets_update (h : RegionCore r v) {c : Option Tile}
    (before : ∀ i, v.buddy.owned x ≠ some (.sheet, i)) (after : ∀ i, c ≠ some (.sheet, i))
    : (∀ y i, Function.update v.buddy.owned x c y = some (.sheet, i)
        ↔ y ∈ r.tlsf.sheets ∧ i = C.sheetOrder)
      ∧ ∀ d, ∀ sh ∈ r.tlsf.sheets,
        Function.update v.buddy.owned x d sh = some (.sheet, C.sheetOrder) := by
  constructor
  · intro y i
    rw [← h.sheets y i]
    by_cases here : y = x
    · subst here
      simp [before, after]
    · rw [Function.update_of_ne here]
  · intro d sh member
    have here : sh ≠ x := by
      rintro rfl
      exact before _ (h.sheet_owned member)
    rw [Function.update_of_ne here]
    exact h.sheet_owned member

/-- A small block lies in a sheet. -/
theorem RegionCore.small_inside (h : RegionCore r v) (known : v.tlsf.granted x = some n)
    : ∃ sh ∈ r.tlsf.sheets, sh + C.tlsf.dataOff ≤ x ∧ x + n + 16 ≤ sh + C.tlsf.sheet := by
  obtain ⟨_, _, _, _, sh, member, lo, hi⟩ := h.tlsf.granted_block known
  have parts := C.tlsf.sheet_parts
  exact ⟨sh, member, lo, by omega⟩

/-- A step of the buddy list is a step of the region, if it keeps the sheets. -/
theorem RegionCore.buddyStep (h : RegionCore r v) {w : BuddyView}
    (step : BuddyStep r.buddyState b w kept owned)
    (sub : ∀ x c, kept x = some c → v.buddy.owned x = some c)
    (keeps : ∀ sh ∈ r.tlsf.sheets, kept sh = some (.sheet, C.sheetOrder))
    (sheets : ∀ x o, owned x = some (.sheet, o) ↔ x ∈ r.tlsf.sheets ∧ o = C.sheetOrder)
    : CoreStep r (r.setBuddy b) ⟨w, v.tlsf⟩ (Live.of kept v.tlsf.granted)
        (Live.of owned v.tlsf.granted) := by
  have geometry : b.toBuddyGeometry = r.buddy.toBuddyGeometry := step.geometry
  have total : b.total = r.buddy.total := congrArg BuddyGeometry.total geometry
  have base : b.base = r.buddy.base := congrArg BuddyGeometry.base geometry
  have tlsf := h.tlsf.buddy_write h.buddy.rep.geometry h.base rfl
    (fun sh member => ⟨_, keeps sh member⟩) step.within
  refine ⟨⟨h.live, step.inv, ?_, h.base.trans base.symm, ?_, h.noRollback⟩, geometry, ?_, ?_⟩
  · exact total.symm ▸ tlsf
  · intro x o
    rw [show (RegionView.mk w v.tlsf).buddy.owned = owned from step.owned_eq]
    exact sheets x o
  · exact congrArg (Live.of · v.tlsf.granted) step.owned_eq
  · refine step.within.mono (fun a loose => loose.region h.buddy.rep.geometry
      (fun x c known => (h.buddy.owned_le (sub x c known)).2) ?_ ?_)
    · exact fun x o known => Live.of_large.mp known
    · intro x n known
      obtain ⟨sh, member, lo, hi⟩ := h.small_inside known
      exact ⟨sh, _, keeps sh member, by omega, by omega⟩

/-- A step of the small-block allocator is a step of the region. -/
theorem RegionCore.tlsfStep (h : RegionCore r v) {w : TlsfView}
    (step : TlsfStep r.buddy.total r.tlsfState t w small granted)
    : CoreStep r (r.setTlsf t) ⟨v.buddy, w⟩ (Live.of v.buddy.owned small)
        (Live.of v.buddy.owned granted) := by
  have buddy := h.buddy.tlsf_write h.base (fun sh member => ⟨_, h.sheet_owned member⟩) step.within
  refine ⟨⟨h.live, buddy, step.inv, step.base.trans h.base, ?_, h.noRollback⟩, rfl, ?_, ?_⟩
  · intro x o
    rw [show (r.setTlsf t).tlsf.sheets = r.tlsf.sheets from step.sheets]
    exact h.sheets x o
  · exact congrArg (Live.of v.buddy.owned) step.granted_eq
  · refine step.within.mono (fun a loose => loose.region h.base h.tlsf.fit.end_le ?_
      (fun x n known => known))
    intro x o known sh member
    have apart := h.buddy.owned_apart (Live.of_large.mp known) (h.sheet_owned member)
      (fun same => by
        have known := Live.of_large.mp known
        rw [same, h.sheet_owned member] at known
        simp at known)
    simpa only [C.orderSize_sheet] using apart

/-- Steps in a row, the second of which keeps the blocks that matter. -/
theorem CoreStep.trans (first : CoreStep r r' v' k l) (second : CoreStep r' r'' v'' k' l')
    (sub : k.Sub k')
    : CoreStep r r'' v'' k l' := by
  refine ⟨second.core, second.geometry.trans first.geometry, second.live_eq, ?_⟩
  have later := second.within
  rw [first.geometry] at later
  exact first.within.trans (later.mono (fun _ loose => loose.mono sub))

/-- An operation is a core step after which the rule for the spare holds. -/
theorem CoreStep.settle (step : CoreStep r r' v' k l)
    (spareSheet : r'.spare = nullOff ∨ r'.spare ∈ r'.tlsf.sheets)
    (onlySpare : ∀ sh ∈ r'.tlsf.sheets, v'.tlsf.EmptySheet C.tlsf sh → r'.spare = sh)
    : RegionStep r r' v' k l :=
  ⟨⟨step.core, spareSheet, onlySpare⟩, step.geometry, step.live_eq, step.within⟩

theorem RegionStep.coreStep (step : RegionStep r r' v' k l) : CoreStep r r' v' k l :=
  ⟨step.inv.toRegionCore, step.geometry, step.live_eq, step.within⟩

theorem RegionStep.trans (first : RegionStep r r' v' k l) (second : RegionStep r' r'' v'' k' l')
    (sub : k.Sub k')
    : RegionStep r r'' v'' k l' :=
  (first.coreStep.trans second.coreStep sub).settle second.inv.spareSheet second.inv.onlySpare

/-- Doing nothing. -/
theorem RegionInv.refl (h : RegionInv r v) (kept : Live) : RegionStep r r v kept v.live :=
  ⟨h, rfl, rfl, Memory.Within.refl _ _⟩

end Steps

end Bbmalloc
