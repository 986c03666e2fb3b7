import Bbmalloc.Foundations.Numerals
import Bbmalloc.Model.Malloc

/-! What the allocator prints: the numbers and messages of its diagnostics, the lines that each
call writes in a build with diagnostics, the report of `which`, and the fragmentation gauge.
`notices` stands for `__default_debug_notices`.
-/

namespace Bbmalloc

open Bbmalloc.Foundations

-----------------------------------------------------------------------------------------
-- Printing
-----------------------------------------------------------------------------------------

/-- `'0' + d`. -/
def decimalDigit (d : Nat) : Char := Char.ofNat ('0'.toNat + d)

def hexDigit (d : Nat) : Char :=
  if d < 10 then Char.ofNat ('0'.toNat + d) else Char.ofNat ('a'.toNat + d - 10)

/-- `__print_unsigned`, with its buffer of 24 characters. -/
def printUnsigned (v : Nat) : Option (List Char) := fillNumeral 10 decimalDigit 24 v []

/-- The digit loop of `__print_ptr`. -/
def ptrDigits : (count v : Nat) → List Char → List Char
  | 0, _, buf => buf
  | k + 1, v, buf => ptrDigits k (v >>> 4) (hexDigit (v &&& 0xF) :: buf)

/-- `__print_ptr`. -/
def printPtr (C : Config) (p : Nat) : List Char :=
  "0x".toList ++ ptrDigits (C.buddy.ptrBytes * 2) p []

/-- `__report`. -/
def report (C : Config) (msg : String) (p : Nat) : List Char :=
  "bbmalloc: ".toList ++ msg.toList ++ " at ".toList ++ printPtr C p ++ "\n".toList

/-- `__notice`. -/
def notice (notices : Bool) (msg : String) (v : Nat) : Option (List Char) :=
  if notices then
    (printUnsigned v).map (fun n =>
      "bbmalloc: ".toList ++ msg.toList ++ " ".toList ++ n ++ "\n".toList)
  else some []

/-- The text of `__fail`. -/
def failText (C : Config) (notices : Bool) (n : Nat) : Option (List Char) :=
  if C.failResult = .halt then notice notices "allocation failed for" n else some []

/-- The text of `handle_bad_free`. -/
def badFreeText (C : Config) (p : Nat) : List Char :=
  if C.doubleFreeAction = .ignore then [] else report C "bad or double free" p

/-- The text of `handle_redzone_trip`. -/
def redzoneTripText (C : Config) (p : Nat) : List Char :=
  if C.redzoneAction = .ignore then [] else report C "redzone overrun" p

namespace HeapState

variable {C : Config}

-----------------------------------------------------------------------------------------
-- The text of each call
-----------------------------------------------------------------------------------------

/-- The text of the redzone check in front of a release or a resize. -/
def checkRedzoneText (h : HeapState C) (p user : Nat) : List Char :=
  if !h.verifyRedzone p user then redzoneTripText C p else []

def ballocText (notices : Bool) (h : HeapState C) (size : Nat) : Option (List Char) :=
  if size = 0 then some []
  else
    match checkAddOverflow C size C.rz with
    | none => failText C notices size
    | some want => if (h.alloc want).2.ptr = 0 then failText C notices size else some []

def alignedBallocText (notices : Bool) (h : HeapState C) (alignment size : Nat)
    : Option (List Char) :=
  if size = 0 || !isPow2 alignment then some []
  else if alignment ≤ nativeAlignment then h.ballocText notices size
  else
    match checkAddOverflow C size C.rz with
    | none => failText C notices size
    | some want =>
        if (h.allocAligned want alignment).2.ptr = 0 then failText C notices size else some []

def allocForText (notices : Bool) (h : HeapState C) (size alignment : Nat)
    : Option (List Char) :=
  if alignment ≤ nativeAlignment then h.ballocText notices size
  else h.alignedBallocText notices alignment size

def bbDeallocText (h : HeapState C) (p : Nat) : List Char :=
  if p = 0 then []
  else
    let l := h.locate p
    if l.2.len = 0 || l.2.len < C.rz then badFreeText C p
    else l.1.checkRedzoneText p (l.2.len - C.rz)

def resizeText (notices : Bool) (h : HeapState C) (old : Chunk) (size alignment : Nat)
    : Option (List Char) :=
  if !isPow2 alignment then some []
  else if old.ptr = 0 then h.allocForText notices size alignment
  else if size = 0 then some (h.bbDeallocText old.ptr)
  else
    let l := h.locate old.ptr
    if l.2.len = 0 || l.2.len < C.rz then some (badFreeText C old.ptr)
    else
      let usable := l.2.len - C.rz
      let text := l.1.checkRedzoneText old.ptr usable
      match (l.1.checkRedzone old.ptr usable).2 with
      | .returned _ =>
          let placed : Bool := old.ptr &&& (alignment - 1) = 0
          let want := checkAddOverflow C size C.rz
          if size ≤ usable && placed then some text
          else
            let c :=
              match placed, want with
              | true, some want => l.1.resizeUp l.2 old.ptr want
              | _, _ => (l.1, .null)
            if c.2.ptr ≠ 0 then some text
            else (c.1.allocForText notices size alignment).map (text ++ ·)
      | _ => some text

def createText (notices : Bool) (h : HeapState C) (bytes alignment : Nat)
    : Option (List Char) :=
  if bytes = 0 then some [] else h.allocForText notices bytes alignment

def destroyText (h : HeapState C) (p : Nat) : List Char :=
  if p ≠ 0 then h.bbDeallocText p else []

def containerResizeText (notices : Bool) (h : HeapState C) (old : Chunk) (bytes alignment : Nat)
    : Option (List Char) :=
  if bytes = 0 then some (h.destroyText old.ptr) else h.resizeText notices old bytes alignment

-----------------------------------------------------------------------------------------
-- Reports
-----------------------------------------------------------------------------------------

/-- `fragmentation_permille`, in words of 64 bits. -/
def fragmentationPermille (h : HeapState C) : HeapState C × Nat :=
  let avail := h.available
  if avail.2 = 0 then (avail.1, 0)
  else
    let largest := avail.1.largestFree
    if largest.2 ≥ avail.2 then (largest.1, 0)
    else
      let taken := largest.2 * 1000 % 2 ^ 64 / avail.2
      (largest.1, (1000 + (2 ^ 64 - taken)) % 2 ^ 64 % 2 ^ 32)

/-- `region_count`. -/
def regionCount (h : HeapState C) : HeapState C × Nat :=
  let h := h.ensure.1
  (h, h.count)

/-- Messages and numbers in turn. -/
def writeAll (fields : List (String × Nat)) : Option (List Char) :=
  (fields.mapM (fun f => (printUnsigned f.2).map (f.1.toList ++ ·))).map List.flatten

/-- The line that `which` writes for region `i`. -/
def whichRow (h : HeapState C) (i : Nat) : Option (List Char) :=
  let r := h.regions i
  (writeAll [("  region ", i), (" sheets ", r.tlsf.count),
      (" tlsf used ", r.tlsf.allocatedBytes), (" buddy used ", r.buddy.allocatedBytes)]).map
    (· ++ "\n".toList)

/-- `which`. -/
def which (h : HeapState C) : HeapState C × Option (List Char) :=
  let regions := h.regionCount
  let capacity := regions.1.total
  let used := capacity.1.used
  let avail := used.1.available
  let largest := avail.1.largestFree
  let head := writeAll [("bbmalloc: regions ", regions.2), (" capacity ", capacity.2),
      (" used ", used.2), (" available ", avail.2), (" largest ", largest.2)]
  let rows := (List.range largest.1.count).mapM largest.1.whichRow
  (largest.1, head.bind (fun head => rows.map (fun rows => head ++ "\n".toList ++ rows.flatten)))

end HeapState

end Bbmalloc
