import Mathlib.Data.Nat.Digits.Defs

/-! Numbers in texts: positional numerals over any alphabet of digits, lines, and records of
labelled numbers, each with a reader that takes back what was written.
-/

namespace Bbmalloc.Foundations

-----------------------------------------------------------------------------------------
-- Numerals
-----------------------------------------------------------------------------------------

section Numerals

variable {α : Type} {b : Nat} {digit : Nat → α} {value : α → Option Nat} {c : α}
  {text rest : List α} {n k d : Nat}

/-- The number that digits of base `b` stand for, most significant first; none if one of them
is no digit.
-/
def readNumeral (b : Nat) (value : α → Option Nat) (text : List α) : Option Nat :=
  text.foldl (fun n c => n.bind (fun n => (value c).map (fun d => n * b + d))) (some 0)

/-- The numeral of `n` without leading zeros. -/
def numeral (b : Nat) (digit : Nat → α) (n : Nat) : List α :=
  if n = 0 then [digit 0] else ((Nat.digits b n).map digit).reverse

/-- The last `k` digits of `n`. -/
def fixedNumeral (b : Nat) (digit : Nat → α) : (k n : Nat) → List α
  | 0, _ => []
  | k + 1, n => fixedNumeral b digit k (n / b) ++ [digit (n % b)]

theorem readNumeral_concat (text : List α) (c : α)
    : readNumeral b value (text ++ [c])
      = (readNumeral b value text).bind (fun n => (value c).map (fun d => n * b + d)) := by
  simp [readNumeral, List.foldl_append]

/-- The last digit of a numeral, and the numeral in front of it. -/
theorem numeral_step (base : 1 < b) (n : Nat)
    : numeral b digit n
      = (if n / b = 0 then [] else numeral b digit (n / b)) ++ [digit (n % b)] := by
  rcases Nat.eq_zero_or_pos n with rfl | positive
  · simp [numeral]
  · rw [numeral, if_neg positive.ne', Nat.digits_def' base positive]
    simp only [List.map_cons, List.reverse_cons, numeral]
    split
    · rename_i zero
      simp [zero]
    · rfl

theorem readNumeral_numeral (base : 1 < b) (law : ∀ d < b, value (digit d) = some d) (n : Nat)
    : readNumeral b value (numeral b digit n) = some n := by
  induction n using Nat.strong_induction_on with
  | _ n ih =>
      have last := law (n % b) (Nat.mod_lt n (by omega))
      have sum := Nat.div_add_mod' n b
      rw [numeral_step base, readNumeral_concat, last]
      split
      · rename_i zero
        rw [zero] at sum
        simpa [readNumeral] using sum
      · rename_i some
        have below : n / b < n := Nat.div_lt_self (by
          by_contra none
          exact some (by simp [show n = 0 by omega])) base
        rw [ih _ below]
        simpa using sum

theorem readNumeral_fixed (base : 0 < b) (law : ∀ d < b, value (digit d) = some d) (k n : Nat)
    : readNumeral b value (fixedNumeral b digit k n) = some (n % b ^ k) := by
  induction k generalizing n with
  | zero => simp [fixedNumeral, readNumeral, Nat.mod_one]
  | succ k ih =>
      rw [fixedNumeral, readNumeral_concat, ih, law _ (Nat.mod_lt n base)]
      simp only [Option.bind_some, Option.map_some, Option.some.injEq]
      rw [Nat.pow_succ', Nat.mod_mul, Nat.mul_comm, Nat.add_comm]

@[simp] theorem fixedNumeral_length (k n : Nat) : (fixedNumeral b digit k n).length = k := by
  induction k generalizing n with
  | zero => rfl
  | succ k ih => simp [fixedNumeral, ih]

/-- Numerals consist of digits. -/
theorem mem_numeral (base : 1 < b) (mem : c ∈ numeral b digit n) : ∃ d < b, c = digit d := by
  rw [numeral] at mem
  split at mem
  · exact ⟨0, by omega, by simpa using mem⟩
  · obtain ⟨d, member, rfl⟩ := List.mem_map.mp (List.mem_reverse.mp mem)
    exact ⟨d, Nat.digits_lt_base base member, rfl⟩

theorem mem_fixedNumeral (base : 0 < b) (mem : c ∈ fixedNumeral b digit k n)
    : ∃ d < b, c = digit d := by
  induction k generalizing n with
  | zero => cases mem
  | succ k ih =>
      rcases List.mem_append.mp mem with front | last
      · exact ih front
      · exact ⟨n % b, Nat.mod_lt n base, by simpa using last⟩

/-- A loop that puts the digits of `n` in front of a text, from the last one on, and gives up when
it would leave a buffer of `k` characters.
-/
def fillNumeral (b : Nat) (digit : Nat → α) : (k n : Nat) → List α → Option (List α)
  | 0, _, _ => none
  | k + 1, n, text =>
      if n / b = 0 then some (digit (n % b) :: text)
      else fillNumeral b digit k (n / b) (digit (n % b) :: text)

/-- A buffer of `k` characters is enough for the numbers below `b ^ k`. -/
theorem fillNumeral_eq (base : 1 < b) (some : 0 < k) (below : n < b ^ k) (text : List α)
    : fillNumeral b digit k n text = .some (numeral b digit n ++ text) := by
  induction k generalizing n text with
  | zero => omega
  | succ k ih =>
      rw [fillNumeral, numeral_step base]
      split
      · simp
      · rename_i more
        rw [pow_succ] at below
        have less : n / b < b ^ k := Nat.div_lt_of_lt_mul (by rwa [Nat.mul_comm])
        have room : 0 < k := by
          rcases Nat.eq_zero_or_pos k with rfl | room
          · simp only [pow_zero, Nat.lt_one_iff] at less
            exact absurd less more
          · exact room
        rw [ih room less]
        simp

end Numerals

-----------------------------------------------------------------------------------------
-- Lines
-----------------------------------------------------------------------------------------

section Lines

variable {α : Type} [DecidableEq α] {stop : α} {lines : List (List α)}

/-- Lines, each with its end. -/
def writeLines (stop : α) (lines : List (List α)) : List α := lines.flatMap (fun l => l ++ [stop])

/-- The lines of a text, if its last line has an end. -/
def readLines (stop : α) (text : List α) : Option (List (List α)) :=
  let parts := text.splitOn stop
  if parts.getLast? = some [] then some parts.dropLast else none

omit [DecidableEq α] in
theorem writeLines_eq (stop : α) (lines : List (List α))
    : writeLines stop lines = [stop].intercalate (lines ++ [[]]) := by
  induction lines with
  | nil => rfl
  | cons l lines ih =>
      rw [writeLines, List.flatMap_cons, ← writeLines, ih]
      cases lines <;> simp [List.intercalate, List.intersperse]

/-- Lines are read back, if no line holds the end of a line. -/
theorem readLines_writeLines (clear : ∀ l ∈ lines, stop ∉ l)
    : readLines stop (writeLines stop lines) = some lines := by
  have parts : (writeLines stop lines).splitOn stop = lines ++ [[]] := by
    rw [writeLines_eq, List.splitOn_intercalate]
    · intro l mem
      rcases List.mem_append.mp mem with line | last
      · exact clear l line
      · simp [List.mem_singleton.mp last]
    · simp
  simp [readLines, parts]

end Lines

-----------------------------------------------------------------------------------------
-- Records
-----------------------------------------------------------------------------------------

section Records

variable {α : Type} [DecidableEq α] {b : Nat} {digit : Nat → α} {value : α → Option Nat}
  {fields : List (List α × Nat)}

/-- Numbers in base `b`, each behind its label. -/
def writeRecord (b : Nat) (digit : Nat → α) (fields : List (List α × Nat)) : List α :=
  fields.flatMap (fun f => f.1 ++ numeral b digit f.2)

/-- The numbers behind the given labels, if the text holds nothing else. -/
def readRecord (b : Nat) (value : α → Option Nat)
    : (labels : List (List α)) → List α → Option (List Nat)
  | [], text => if text = [] then some [] else none
  | label :: labels, text =>
      if label.isPrefixOf text then
        let digits := (text.drop label.length).takeWhile (fun c => (value c).isSome)
        let rest := (text.drop label.length).dropWhile (fun c => (value c).isSome)
        (readNumeral b value digits).bind (fun n => (readRecord b value labels rest).map (n :: ·))
      else none

/-- A label that cannot be taken for the end of a number. -/
def IsLabel (value : α → Option Nat) (label : List α) : Prop :=
  ∃ c rest, label = c :: rest ∧ value c = none

/-- A record is read back. -/
theorem readRecord_writeRecord (base : 1 < b) (law : ∀ d < b, value (digit d) = some d)
    (labels : ∀ f ∈ fields, IsLabel value f.1)
    : readRecord b value (fields.map Prod.fst) (writeRecord b digit fields)
      = some (fields.map Prod.snd) := by
  induction fields with
  | nil => rfl
  | cons f fields ih =>
      set p : α → Bool := fun c => (value c).isSome with pEq
      have digits : ∀ c ∈ numeral b digit f.2, p c := by
        intro c mem
        obtain ⟨d, below, rfl⟩ := mem_numeral base mem
        simp [pEq, law d below]
      -- What follows a number is a label or the end, so its digits stop where it was written.
      have rest : writeRecord b digit fields = [] ∨ ∃ c t, writeRecord b digit fields = c :: t
          ∧ ¬p c := by
        cases fields with
        | nil => exact Or.inl rfl
        | cons g fields =>
            obtain ⟨c, t, label, none⟩ := labels g (by simp)
            exact Or.inr ⟨c, t ++ numeral b digit g.2 ++ writeRecord b digit fields,
              by simp [writeRecord, label], by simp [pEq, none]⟩
      have taken : (numeral b digit f.2 ++ writeRecord b digit fields).takeWhile p
            = numeral b digit f.2
          ∧ (numeral b digit f.2 ++ writeRecord b digit fields).dropWhile p
            = writeRecord b digit fields := by
        rw [List.takeWhile_append_of_pos digits, List.dropWhile_append_of_pos digits]
        rcases rest with none | ⟨c, t, same, other⟩
        · simp [none]
        · simp [same, other]
      have whole : writeRecord b digit (f :: fields)
          = f.1 ++ (numeral b digit f.2 ++ writeRecord b digit fields) := by
        simp [writeRecord]
      rw [whole, List.map_cons, readRecord, if_pos (by simp), List.drop_left]
      simp only [← pEq, taken.1, taken.2, readNumeral_numeral base law,
        ih (fun g mem => labels g (List.mem_cons_of_mem _ mem))]
      simp

end Records

end Bbmalloc.Foundations
