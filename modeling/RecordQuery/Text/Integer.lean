import RecordQuery.Text.Digits
import RecordQuery.Word
/-!
# Reading integers

`Integer.read` reads an optional sign and decimal digits into a range. Characters are taken from the
left, so a number that leaves the range is reported before a bad character further right.
-/

namespace RecordQuery.Text.Integer

/-- Why a text is not an integer of the range. -/
inductive Fault where
  | empty
  | badDigit
  | tooLarge
  | tooSmall
  deriving DecidableEq

/-- The wording of a fault. -/
def Fault.message : Fault → String
  | .empty => "cannot parse integer from empty string"
  | .badDigit => "invalid digit found in string"
  | .tooLarge => "number too large to fit in target type"
  | .tooSmall => "number too small to fit in target type"

/-- The value of a decimal digit. -/
def digit? (c : Char) : Option Nat :=
  if c.isDigit then some (digitValue c) else none

/-- Reads digits onto `acc`, refusing to pass `bound`. -/
def readMagnitude (bound : Nat) (past : Fault) : Nat → List Char → Except Fault Nat
  | acc, [] => .ok acc
  | acc, c :: cs =>
    match digit? c with
    | none => .error .badDigit
    | some d => if acc * 10 + d ≤ bound then readMagnitude bound past (acc * 10 + d) cs
        else .error past

/-- Reads an integer between `lo` and `hi`; a minus sign is read only if `lo` is negative. -/
def read (lo hi : Int) : List Char → Except Fault Int
  | [] => .error .empty
  | ['+'] => .error .badDigit
  | ['-'] => .error .badDigit
  | '+' :: cs => (readMagnitude hi.toNat .tooLarge 0 cs).map Int.ofNat
  | '-' :: cs =>
    if lo < 0 then (readMagnitude (-lo).toNat .tooSmall 0 cs).map fun n => -Int.ofNat n
    else .error .badDigit
  | cs => (readMagnitude hi.toNat .tooLarge 0 cs).map Int.ofNat

/-- Reads a signed 64-bit integer. -/
def readInt64 (cs : List Char) : Except Fault Int64 :=
  (read Word.least Word.greatest cs).map Int64.ofInt

/-- Reads an unsigned 64-bit integer. -/
def readIndex (cs : List Char) : Except Fault Nat :=
  (read 0 Word.greatestUnsigned cs).map Int.toNat

/-- The signed 64-bit integer that a text spells, if it spells one. -/
def int64? (cs : List Char) : Option Int64 :=
  (readInt64 cs).toOption

/-- The unsigned 64-bit integer that a text spells, if it spells one. -/
def index? (cs : List Char) : Option Nat :=
  (readIndex cs).toOption

end RecordQuery.Text.Integer
