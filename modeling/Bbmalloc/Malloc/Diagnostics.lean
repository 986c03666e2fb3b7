import Bbmalloc.Malloc.Redzones
import Bbmalloc.Model.Diagnostics

/-! What the printed lines say. Every line that a call writes stands for one event, and the
events can be read back from the text.
-/

namespace Bbmalloc

open Bbmalloc.Foundations

-----------------------------------------------------------------------------------------
-- Digits
-----------------------------------------------------------------------------------------

def decimalValue (c : Char) : Option Nat :=
  if '0' ≤ c ∧ c ≤ '9' then some (c.toNat - '0'.toNat) else none

def hexValue (c : Char) : Option Nat :=
  if 'a' ≤ c ∧ c ≤ 'f' then some (c.toNat - 'a'.toNat + 10) else decimalValue c

theorem decimalValue_digit : ∀ d < 10, decimalValue (decimalDigit d) = some d := by
  decide

theorem hexValue_digit : ∀ d < 16, hexValue (hexDigit d) = some d := by
  decide

/-- The buffer of `__print_unsigned` holds every word of 64 bits. -/
theorem printUnsigned_eq {v : Nat} (word : v < 2 ^ 64)
    : printUnsigned v = some (numeral 10 decimalDigit v) := by
  have below : v < 10 ^ 24 := lt_of_lt_of_le word (by norm_num)
  rw [printUnsigned, fillNumeral_eq (by decide) (by decide) below, List.append_nil]

theorem ptrDigits_eq (k v : Nat) (buf : List Char)
    : ptrDigits k v buf = fixedNumeral 16 hexDigit k v ++ buf := by
  induction k generalizing v buf with
  | zero => rfl
  | succ k ih =>
      have low : v &&& 0xF = v % 16 := and_low v 4
      have high : v >>> 4 = v / 16 := Nat.shiftRight_eq_div_pow v 4
      rw [ptrDigits, ih, fixedNumeral, low, high]
      simp

-----------------------------------------------------------------------------------------
-- The report
-----------------------------------------------------------------------------------------

/-- What `which` tells about one region. -/
structure Row where
  region : Nat
  sheets : Nat
  tlsfUsed : Nat
  buddyUsed : Nat
  deriving DecidableEq, Repr

/-- What `which` tells. -/
structure Report where
  regions : Nat
  capacity : Nat
  used : Nat
  available : Nat
  largest : Nat
  rows : List Row
  deriving DecidableEq, Repr

/-- Labels and numbers of the lines. -/
def Row.fields (r : Row) : List (String × Nat) :=
  [("  region ", r.region), (" sheets ", r.sheets), (" tlsf used ", r.tlsfUsed),
    (" buddy used ", r.buddyUsed)]

def Report.fields (r : Report) : List (String × Nat) :=
  [("bbmalloc: regions ", r.regions), (" capacity ", r.capacity), (" used ", r.used),
    (" available ", r.available), (" largest ", r.largest)]

def labels (fields : List (String × Nat)) : List (List Char) := fields.map (fun f => f.1.toList)

def fieldLine (fields : List (String × Nat)) : List Char :=
  writeRecord 10 decimalDigit (fields.map (fun f => (f.1.toList, f.2)))

/-- The row of a line. -/
def Row.read (line : List Char) : Option Row :=
  (readRecord 10 decimalValue (labels (Row.mk 0 0 0 0).fields) line).bind (fun
    | [region, sheets, tlsfUsed, buddyUsed] => some ⟨region, sheets, tlsfUsed, buddyUsed⟩
    | _ => none)

/-- The report of a text. -/
def readReport (text : List Char) : Option Report :=
  (readLines '\n' text).bind (fun
    | [] => none
    | head :: rows =>
        (readRecord 10 decimalValue (labels (Report.mk 0 0 0 0 0 []).fields) head).bind (fun
          | [regions, capacity, used, available, largest] =>
              (rows.mapM Row.read).map (⟨regions, capacity, used, available, largest, ·⟩)
          | _ => none))

section Reports

variable {C : Config} {fields : List (String × Nat)} {r : Report} {row : Row}

theorem HeapState.writeAll_eq (words : ∀ f ∈ fields, f.2 < 2 ^ 64)
    : writeAll fields = some (fieldLine fields) := by
  have each : fields.mapM (fun f => (printUnsigned f.2).map (f.1.toList ++ ·))
      = some (fields.map (fun f => f.1.toList ++ numeral 10 decimalDigit f.2)) := by
    induction fields with
    | nil => rfl
    | cons f fields ih =>
        rw [List.mapM_cons, printUnsigned_eq (words f (by simp)),
          ih (fun g mem => words g (List.mem_cons_of_mem _ mem))]
        rfl
  rw [writeAll, each, fieldLine, writeRecord, List.flatMap_map, Option.map_some, List.flatMap_def]

/-- Labels begin with a letter or a space. -/
theorem readRecord_fieldLine (letters : ∀ f ∈ fields, IsLabel decimalValue f.1.toList)
    : readRecord 10 decimalValue (labels fields) (fieldLine fields)
      = some (fields.map Prod.snd) := by
  set pairs := fields.map (fun f => (f.1.toList, f.2)) with pairsEq
  have known : ∀ f ∈ pairs, IsLabel decimalValue f.1 := by
    intro f mem
    obtain ⟨g, member, rfl⟩ := List.mem_map.mp mem
    exact letters g member
  have back := readRecord_writeRecord (by decide) decimalValue_digit known
  simpa [labels, fieldLine, pairsEq, Function.comp_def] using back

theorem Row.read_fieldLine (row : Row) : Row.read (fieldLine row.fields) = some row := by
  have same : labels (Row.mk 0 0 0 0).fields = labels row.fields := rfl
  rw [Row.read, same, readRecord_fieldLine]
  · rfl
  · simp [Row.fields, IsLabel]
    decide

theorem Report.letters (r : Report) : ∀ f ∈ r.fields, IsLabel decimalValue f.1.toList := by
  simp [Report.fields, IsLabel]
  decide

/-- The text of a report. -/
def Report.text (r : Report) : List Char :=
  writeLines '\n' (fieldLine r.fields :: r.rows.map (fun row => fieldLine row.fields))

theorem newline_not_fieldLine (clear : ∀ f ∈ fields, '\n' ∉ f.1.toList)
    : '\n' ∉ fieldLine fields := by
  have decimal : ∀ d < 10, decimalDigit d ≠ '\n' := by decide
  intro mem
  rw [fieldLine, writeRecord, List.flatMap_map] at mem
  obtain ⟨f, member, here⟩ := List.mem_flatMap.mp mem
  rcases List.mem_append.mp here with label | digits
  · exact clear f member label
  · obtain ⟨d, below, same⟩ := mem_numeral (by decide) digits
    exact decimal d below same.symm

/-- A report is read back from its text. -/
theorem readReport_text (r : Report) : readReport r.text = some r := by
  have clear : ∀ l ∈ fieldLine r.fields :: r.rows.map (fun row => fieldLine row.fields),
      '\n' ∉ l := by
    intro l mem
    rcases List.mem_cons.mp mem with rfl | mem
    · exact newline_not_fieldLine (by simp [Report.fields])
    · obtain ⟨row, _, rfl⟩ := List.mem_map.mp mem
      exact newline_not_fieldLine (by simp [Row.fields])
  have same : labels (Report.mk 0 0 0 0 0 []).fields = labels r.fields := rfl
  have rows : (r.rows.map (fun row => fieldLine row.fields)).mapM Row.read = some r.rows := by
    induction r.rows with
    | nil => rfl
    | cons row rows ih =>
        rw [List.map_cons, List.mapM_cons, row.read_fieldLine, ih]
        rfl
  have head := readRecord_fieldLine r.letters
  rw [readReport, Report.text, readLines_writeLines clear]
  simp only [Option.bind_some, same, head, rows]
  rfl

end Reports

-----------------------------------------------------------------------------------------
-- Events
-----------------------------------------------------------------------------------------

/-- What a line tells: a pointer that is no block, a damaged redzone, an allocation that ended
the program, or the gauges of the heap and the counters of a region, which `which` reports.
-/
inductive Event
  | badFree (p : Nat)
  | overrun (p : Nat)
  | failed (n : Nat)
  | heap (regions capacity used available largest : Nat)
  | region (row : Row)
  deriving DecidableEq, Repr

/-- The lines of a report. -/
def Report.events (r : Report) : List Event :=
  .heap r.regions r.capacity r.used r.available r.largest :: r.rows.map .region

namespace Event

def message : Event → String
  | badFree _ => "bbmalloc: bad or double free at 0x"
  | overrun _ => "bbmalloc: redzone overrun at 0x"
  | failed _ => "bbmalloc: allocation failed for "
  | heap .. => ""
  | region _ => ""

/-- What all lines of a kind begin with. Those of a report have labels throughout. -/
def header (e : Event) : List Char := e.message.toList

def digits (C : Config) : Event → List Char
  | badFree p => fixedNumeral 16 hexDigit (C.buddy.ptrBytes * 2) p
  | overrun p => fixedNumeral 16 hexDigit (C.buddy.ptrBytes * 2) p
  | failed n => numeral 10 decimalDigit n
  | heap regions capacity used available largest =>
      fieldLine (Report.mk regions capacity used available largest []).fields
  | region row => fieldLine row.fields

/-- The line of an event. -/
def line (C : Config) (e : Event) : List Char := e.header ++ e.digits C

/-- The number of an incident is a word. -/
def Word (C : Config) : Event → Prop
  | badFree p => p < C.buddy.word
  | overrun p => p < C.buddy.word
  | failed n => n < C.buddy.word
  | _ => True

/-- The gauges of a line. -/
def readHeap (line : List Char) : Option Event :=
  (readRecord 10 decimalValue (labels (Report.mk 0 0 0 0 0 []).fields) line).bind (fun
    | [regions, capacity, used, available, largest] =>
        some (heap regions capacity used available largest)
    | _ => none)

/-- The event of a line. -/
def read (line : List Char) : Option Event :=
  if (badFree 0).header.isPrefixOf line then
    (readNumeral 16 hexValue (line.drop (badFree 0).header.length)).map badFree
  else if (overrun 0).header.isPrefixOf line then
    (readNumeral 16 hexValue (line.drop (overrun 0).header.length)).map overrun
  else if (failed 0).header.isPrefixOf line then
    (readNumeral 10 decimalValue (line.drop (failed 0).header.length)).map failed
  else (readHeap line).or ((Row.read line).map region)

variable {C : Config} {e : Event} {es : List Event} {p n : Nat}

/-- The digits of a pointer are enough for every address. -/
theorem readNumeral_ptr (word : p < C.buddy.word)
    : readNumeral 16 hexValue (fixedNumeral 16 hexDigit (C.buddy.ptrBytes * 2) p) = some p := by
  have width : 16 ^ (C.buddy.ptrBytes * 2) = C.buddy.word := by
    rcases C.buddy.wordBits_ok with bits | bits <;>
      simp [BuddyParams.ptrBytes, BuddyParams.word, bits]
  rw [readNumeral_fixed (by decide) hexValue_digit, width, Nat.mod_eq_of_lt word]

/-- The gauges are read back from their line. -/
theorem read_report (r : Report)
    : read (fieldLine r.fields)
      = some (heap r.regions r.capacity r.used r.available r.largest) := by
  have other : (badFree 0).header.isPrefixOf (fieldLine r.fields) = false
      ∧ (overrun 0).header.isPrefixOf (fieldLine r.fields) = false
      ∧ (failed 0).header.isPrefixOf (fieldLine r.fields) = false := by
    simp [header, message, fieldLine, writeRecord, Report.fields, List.isPrefixOf]
  have same : labels (Report.mk 0 0 0 0 0 []).fields = labels r.fields := rfl
  have known : readHeap (fieldLine r.fields)
      = some (heap r.regions r.capacity r.used r.available r.largest) := by
    rw [readHeap, same, readRecord_fieldLine r.letters]
    rfl
  simp [read, other, known]

theorem read_row (row : Row) : read (fieldLine row.fields) = some (region row) := by
  have other : (badFree 0).header.isPrefixOf (fieldLine row.fields) = false
      ∧ (overrun 0).header.isPrefixOf (fieldLine row.fields) = false
      ∧ (failed 0).header.isPrefixOf (fieldLine row.fields) = false := by
    simp [header, message, fieldLine, writeRecord, Row.fields, List.isPrefixOf]
  have gauges : readHeap (fieldLine row.fields) = none := by
    simp [readHeap, labels, Report.fields, readRecord, fieldLine, writeRecord, Row.fields,
      List.isPrefixOf]
  simp [read, other, gauges, row.read_fieldLine]

/-- A line is not of another kind, since the messages differ in a letter. -/
theorem read_line (word : e.Word C) : read (e.line C) = some e := by
  cases e with
  | badFree p =>
      have known := readNumeral_ptr (C := C) word
      simp [read, line, header, message, digits, known]
  | overrun p =>
      have known := readNumeral_ptr (C := C) word
      simp [read, line, header, message, digits, known, List.isPrefixOf]
  | failed n =>
      have known := readNumeral_numeral (by decide) decimalValue_digit n
      simp [read, line, header, message, digits, known, List.isPrefixOf]
  | heap regions capacity used available largest =>
      exact read_report ⟨regions, capacity, used, available, largest, []⟩
  | region row => exact read_row row

end Event

/-- The text of some events, a line for each. -/
def eventText (C : Config) (es : List Event) : List Char := writeLines '\n' (es.map (Event.line C))

/-- The events of a text. -/
def readLog (text : List Char) : Option (List Event) :=
  (readLines '\n' text).bind (fun lines => lines.mapM Event.read)

section Logs

variable {C : Config} {es : List Event} {e : Event} {p n : Nat}

@[simp] theorem eventText_nil (C : Config) : eventText C [] = [] := rfl

theorem eventText_append (C : Config) (es fs : List Event)
    : eventText C (es ++ fs) = eventText C es ++ eventText C fs := by
  simp [eventText, writeLines]

/-- The text of a report is that of its events. -/
theorem Report.text_eq (C : Config) (r : Report) : r.text = eventText C r.events := by
  rw [text, eventText, events, List.map_cons, List.map_map]
  rfl

theorem Report.events_word (C : Config) (r : Report) : ∀ e ∈ r.events, e.Word C := by
  intro e mem
  rcases List.mem_cons.mp mem with rfl | mem
  · trivial
  · obtain ⟨row, _, rfl⟩ := List.mem_map.mp mem
    trivial

/-- No line holds the end of a line. -/
theorem newline_not_mem (e : Event) : '\n' ∉ e.line C := by
  have decimal : ∀ d < 10, decimalDigit d ≠ '\n' := by decide
  have hex : ∀ d < 16, hexDigit d ≠ '\n' := by decide
  intro mem
  rcases List.mem_append.mp mem with front | back
  · cases e <;> simp [Event.header, Event.message] at front
  · cases e with
    | badFree p =>
        obtain ⟨d, below, same⟩ := mem_fixedNumeral (by decide) back
        exact hex d below same.symm
    | overrun p =>
        obtain ⟨d, below, same⟩ := mem_fixedNumeral (by decide) back
        exact hex d below same.symm
    | failed n =>
        obtain ⟨d, below, same⟩ := mem_numeral (by decide) back
        exact decimal d below same.symm
    | heap regions capacity used available largest =>
        exact newline_not_fieldLine (by simp [Report.fields]) back
    | region row => exact newline_not_fieldLine (by simp [Row.fields]) back

/-- The events are read back from the text. -/
theorem readLog_eventText (words : ∀ e ∈ es, e.Word C) : readLog (eventText C es) = some es := by
  rw [readLog, eventText, readLines_writeLines (by simp [newline_not_mem])]
  simp only [Option.bind_some, List.mapM_map]
  induction es with
  | nil => rfl
  | cons e es ih =>
      have first := Event.read_line (words e (by simp))
      have rest := ih (fun e mem => words e (List.mem_cons_of_mem _ mem))
      rw [List.mapM_cons, Function.comp_apply, first, rest]
      rfl

end Logs

-----------------------------------------------------------------------------------------
-- The text of each call
-----------------------------------------------------------------------------------------

/-- What a call finds out about the pointer that it is given. -/
inductive Verdict
  | stray
  | damaged
  | sound
  deriving DecidableEq, Repr

/-- The event that a verdict is reported as. -/
def Verdict.events (C : Config) (p : Nat) : Verdict → List Event
  | stray => if C.doubleFreeAction = .ignore then [] else [.badFree p]
  | damaged => if C.redzoneAction = .ignore then [] else [.overrun p]
  | sound => []

/-- A verdict that ends the call. -/
def Verdict.ends (C : Config) : Verdict → Bool
  | stray => true
  | damaged => C.redzoneAction = .halt
  | sound => false

instance {C : Config} (s : HeapState C) (p len : Nat) : Decidable (s.Fenced p len) :=
  inferInstanceAs (Decidable (∀ i < C.rz, (s.mem (p + len + i)).byte = HeapState.redzoneByte))

/-- A block of the clients with its redzone intact or not, or no block. -/
def HeapState.verdict {C : Config} (s : HeapState C) (held : Nat → Option Block) (p : Nat)
    : Verdict :=
  match held p with
  | none => .stray
  | some b => if s.Fenced p (b.len - C.rz) then .sound else .damaged

/-- The event of a request for `n` bytes that ended the program. -/
def failure {α : Type} (notices : Bool) (n : Nat) : Exit α → List Event
  | .halted => if notices then [.failed n] else []
  | _ => []

section Texts

variable {C : Config} {s : HeapState C} {v : Nat → RegionView} {held : Nat → Option Block}
  {notices : Bool} {n a p : Nat} {b : Block} {l : Located}

theorem report_eq (C : Config) (e : Event) (msg : String) (p : Nat)
    (header : e.header = "bbmalloc: ".toList ++ msg.toList ++ " at 0x".toList)
    (digits : e.digits C = fixedNumeral 16 hexDigit (C.buddy.ptrBytes * 2) p)
    : report C msg p = eventText C [e] := by
  unfold report
  simp [eventText, writeLines, Event.line, header, digits, printPtr, ptrDigits_eq]

theorem badFreeText_eq (C : Config) (p : Nat)
    : badFreeText C p = eventText C (Verdict.stray.events C p) := by
  rw [badFreeText, Verdict.events]
  split
  · rfl
  · exact report_eq C (.badFree p) _ p (by simp [Event.header, Event.message]) rfl

theorem redzoneTripText_eq (C : Config) (p : Nat)
    : redzoneTripText C p = eventText C (Verdict.damaged.events C p) := by
  rw [redzoneTripText, Verdict.events]
  split
  · rfl
  · exact report_eq C (.overrun p) _ p (by simp [Event.header, Event.message]) rfl

theorem failText_eq (s : HeapState C) (word : n < C.buddy.word)
    : failText C notices n = some (eventText C (failure notices n (s.fail n).2)) := by
  have small : n < 2 ^ 64 := by
    have most : C.buddy.word ≤ 2 ^ 64 := by
      rcases C.buddy.wordBits_ok with bits | bits <;> simp [BuddyParams.word, bits]
    omega
  rw [failText, HeapState.fail]
  cases C.failResult with
  | null => simp [failure]
  | throw => simp [failure]
  | halt =>
      cases notices with
      | false => simp [notice, failure]
      | true =>
          simp [notice, failure, printUnsigned_eq small, eventText, writeLines,
            Event.line, Event.header, Event.message, Event.digits]

/-- An allocation writes a line only if it fails, and then as its failure does. -/
theorem concludeText_eq (c : HeapState C × Chunk) (word : n < C.buddy.word)
    : (if c.2.ptr = 0 then failText C notices n else some [])
      = some (eventText C (failure notices n (HeapState.conclude c n).2)) := by
  rw [HeapState.conclude]
  split
  · exact failText_eq c.1 word
  · rfl

theorem HeapState.ballocText_eq (s : HeapState C) (word : n < C.buddy.word)
    : s.ballocText notices n = some (eventText C (failure notices n (s.balloc n).2)) := by
  rw [ballocText, balloc]
  split
  · rfl
  · cases checkAddOverflow C n C.rz with
    | none => exact failText_eq s word
    | some want => exact concludeText_eq (s.alloc want) word

theorem HeapState.alignedBallocText_eq (s : HeapState C) (a : Nat) (word : n < C.buddy.word)
    : s.alignedBallocText notices a n
      = some (eventText C (failure notices n (s.alignedBalloc a n).2)) := by
  rw [alignedBallocText, alignedBalloc]
  split
  · rfl
  split
  · exact s.ballocText_eq word
  · cases checkAddOverflow C n C.rz with
    | none => exact failText_eq s word
    | some want => exact concludeText_eq (s.allocAligned want a) word

theorem HeapState.allocForText_eq (s : HeapState C) (a : Nat) (word : n < C.buddy.word)
    : s.allocForText notices n a = some (eventText C (failure notices n (s.allocFor n a).2)) := by
  rw [allocForText, allocFor]
  split
  · exact s.ballocText_eq word
  · exact s.alignedBallocText_eq a word

/-- A call that ends as another one has the same event. -/
theorem failure_congr {α β : Type} (notices : Bool) (n : Nat) {x : Exit α} {y : Exit β}
    (same : x = .halted ↔ y = .halted)
    : failure notices n x = failure notices n y := by
  cases x <;> cases y <;> simp_all [failure]

theorem HeapState.zalloc_halted (s : HeapState C) (n : Nat)
    : (s.zalloc n).2 = .halted ↔ (s.balloc n).2 = .halted := by
  rw [zalloc]
  rcases outcome : (s.balloc n).2 with c | _ | _ <;> simp [andThen, outcome]

theorem HeapState.create_halted (s : HeapState C) (positive : n ≠ 0)
    : (s.create n a).2 = .halted ↔ (s.allocFor n a).2 = .halted := by
  rw [create, if_neg positive]
  rcases outcome : (s.allocFor n a).2 with c | _ | _
  · simp only [andThen, outcome, advertise]
    split <;> simp
  · simp [andThen, outcome]
  · simp [andThen, outcome]

theorem HeapState.resizeMove_halted (s : HeapState C) (l : Located) (old : Chunk)
    (preserve : Nat)
    : (s.resizeMove l old n preserve a).2 = .halted ↔ (s.allocFor n a).2 = .halted := by
  rw [resizeMove]
  rcases outcome : (s.allocFor n a).2 with c | _ | _
  · simp only [andThen, outcome]
    split <;> simp
  · simp [andThen, outcome]
  · simp [andThen, outcome]

/-- What `bb::dealloc` and `bb::resize` find at a pointer, and what they write about it. -/
theorem HeapInv.verdict (h : HeapInv s v held) (found : LocatedAt s v held p l)
    (padded : ∀ p b, held p = some b → C.rz ≤ b.len)
    : (l.len = 0 ∨ l.len < C.rz ↔ s.verdict held p = .stray)
      ∧ (s.verdict held p ≠ .stray →
        s.checkRedzoneText p (l.len - C.rz) = eventText C ((s.verdict held p).events C p)
          ∧ (if (s.verdict held p).ends C then s.checkRedzone p (l.len - C.rz) = (s, .halted)
            else ∃ ok, s.checkRedzone p (l.len - C.rz) = (s, .returned ok))) := by
  cases known : held p with
  | none =>
      have stray : s.verdict held p = .stray := by simp [HeapState.verdict, known]
      have len : l.len = 0 := by
        by_contra live
        have := (found.held_iff h (b := ⟨l.len, l.t⟩)).mpr ⟨live, rfl⟩
        rw [known] at this
        cases this
      exact ⟨by simp [stray, len], fun other => absurd stray other⟩
  | some b =>
      obtain ⟨len, live, _⟩ := found.held_len h known
      have room := padded p b known
      rw [len]
      have value : s.verdict held p
          = if s.verifyRedzone p (b.len - C.rz) = true then .sound else .damaged := by
        simp only [HeapState.verdict, known, HeapState.verifyRedzone_iff]
      rw [value, HeapState.checkRedzoneText, HeapState.checkRedzone]
      refine ⟨⟨fun short => by omega, fun wrong => ?_⟩, fun _ => ?_⟩
      · split at wrong <;> cases wrong
      · cases s.verifyRedzone p (b.len - C.rz) with
        | true => simp [Verdict.events, Verdict.ends]
        | false =>
            simp only [Bool.not_false, if_true, Bool.false_eq_true, if_false,
              redzoneTripText_eq, HeapState.handleRedzoneTrip, Verdict.ends, true_and]
            by_cases halt : C.redzoneAction = .halt <;> simp [halt]

/-- The verdict of a call is that of the heap in front of it. -/
theorem HeapInv.located (h : HeapInv s v held) (fits : C.PoolFits) (supply : s.Supplied)
    (p : Nat)
    : ∃ w, HeapInv (s.locate p).1 w held
      ∧ LocatedAt (s.locate p).1 w held p (s.locate p).2
      ∧ (s.locate p).1.verdict held p = s.verdict held p := by
  obtain ⟨w, step, ready, found, same⟩ := h.locate_ready fits (fun _ => supply.now) p
  refine ⟨w, step.inv, found, ?_⟩
  cases inited : s.inited with
  | true => rw [same, HeapState.ensure_ready inited]
  | false =>
      have none : held p = none := by
        by_contra some
        obtain ⟨b, known⟩ := Option.ne_none_iff_exists'.mp some
        obtain ⟨i, less, _⟩ := h.held_inside known
        have := h.ready inited
        omega
      simp [HeapState.verdict, none]

/-- `bb::dealloc` writes what it finds. -/
theorem HeapInv.bbDeallocText_eq (h : HeapInv s v held) (fits : C.PoolFits) (supply : s.Supplied)
    (padded : ∀ p b, held p = some b → C.rz ≤ b.len) (notNull : p ≠ 0)
    : s.bbDeallocText p = eventText C ((s.verdict held p).events C p) := by
  obtain ⟨w, inv, found, same⟩ := h.located fits supply p
  obtain ⟨short, sound⟩ := inv.verdict found padded
  rw [same] at short sound
  rw [HeapState.bbDeallocText, if_neg notNull]
  simp only [Bool.or_eq_true, decide_eq_true_eq, short]
  split
  · rename_i stray
    rw [badFreeText_eq, stray]
  · rename_i known
    exact (sound known).1

/-- The end of `bb::resize`: the block has grown, or it moves. -/
theorem moveText_eq (es : List Event) (c : HeapState C × Chunk) (l : Located) (old : Chunk)
    {preserve : Nat} (word : n < C.buddy.word)
    : (if c.2.ptr ≠ 0 then some (eventText C es)
        else (c.1.allocForText notices n a).map (eventText C es ++ ·))
      = some (eventText C (es ++ failure notices n
          (if c.2.ptr ≠ 0 then (c.1, .returned c.2)
            else c.1.resizeMove l old n preserve a).2)) := by
  by_cases grown : c.2.ptr ≠ 0
  · rw [if_pos grown, if_pos grown]
    simp [failure]
  · rw [if_neg grown, if_neg grown, HeapState.allocForText_eq _ a word, Option.map_some,
      eventText_append, failure_congr notices n (c.1.resizeMove_halted l old preserve)]

/-- `bb::resize` writes what it finds, and after that what the move to a new block writes. -/
theorem HeapInv.resizeText_eq {old : Chunk} (h : HeapInv s v held) (fits : C.PoolFits)
    (supply : s.Supplied) (padded : ∀ p b, held p = some b → C.rz ≤ b.len)
    (pow : isPow2 a = true) (notNull : old.ptr ≠ 0) (positive : n ≠ 0) (word : n < C.buddy.word)
    (preserve : Nat)
    : s.resizeText notices old n a
      = some (eventText C ((s.verdict held old.ptr).events C old.ptr
        ++ if (s.verdict held old.ptr).ends C then []
          else failure notices n (s.resize old n preserve a).2)) := by
  obtain ⟨w, inv, found, same⟩ := h.located fits supply old.ptr
  obtain ⟨short, sound⟩ := inv.verdict found padded
  rw [same] at short sound
  simp only [HeapState.resizeText, HeapState.resize, pow, Bool.not_true, Bool.false_eq_true,
    if_false, if_neg notNull, if_neg positive, Bool.or_eq_true, decide_eq_true_eq, short]
  by_cases stray : s.verdict held old.ptr = .stray
  · rw [if_pos stray, stray, badFreeText_eq]
    simp [Verdict.ends]
  obtain ⟨text, check⟩ := sound stray
  rw [if_neg stray, if_neg stray, text]
  cases ends : (s.verdict held old.ptr).ends C with
  | true =>
      rw [if_pos ends] at check
      simp [check]
  | false =>
      rw [if_neg (by simp [ends])] at check
      obtain ⟨ok, check⟩ := check
      simp only [check, HeapState.andThen, Bool.false_eq_true, if_false]
      split
      · simp [failure]
      · exact moveText_eq _ _ _ old word

end Texts

end Bbmalloc
