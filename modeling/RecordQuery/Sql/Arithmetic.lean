import RecordQuery.Sql.Cell
import RecordQuery.Text.Bytes
/-!
# Arithmetic on cells

The operations of expressions on cells. A text counts as the number that it begins with. Integers stay
integers where the result fits and become doubles where it does not, and null, a division by zero and a
result that is no number give null.
-/

namespace RecordQuery.Sql

/-- The value as a double. -/
def Numeral.Value.binary64 : Numeral.Value → Binary64
  | .integer i => Binary64.ofInt i.toInt
  | .real x => x

/-- The truth value as a cell. -/
def Truth.cell : Truth → Cell
  | .no => .integer 0
  | .unknown => .null
  | .yes => .integer 1

namespace Cell

/-- The number that a cell counts as; null counts as none. -/
def number? : Cell → Option Numeral.Value
  | .null => none
  | .integer i => some (.integer i)
  | .real x => some (.real x)
  | .text s => some (Numeral.leading s)
  | .blob bytes => some (Numeral.leading (leadingText bytes))

/-- A cell as a condition: numbers but zero are true. -/
def truth : Cell → Truth
  | .integer i => .ofBool (i != 0)
  | cell => .ofBool? (cell.asReal?.map fun x => !x.isZero)

/-- A double as a cell, null if there is none. -/
def ofReal? : Option Binary64 → Cell
  | some x => .real x
  | none => .null

/-- An integer as a cell, unless it does not fit. -/
def ofInt? (i : Int) : Option Cell :=
  if Word.fits i then some (.integer (Int64.ofInt i)) else none

/-- Combines the numbers of two cells, exactly if both are integers and the result is one that fits. -/
def combine (exact : Int → Int → Int) (rounded : Binary64 → Binary64 → Option Binary64)
    (a b : Cell) : Cell :=
  match a.number?, b.number? with
  | some x, some y =>
    let real := ofReal? (rounded x.binary64 y.binary64)
    match x, y with
    | .integer i, .integer j => (ofInt? (exact i.toInt j.toInt)).getD real
    | _, _ => real
  | _, _ => .null

/-- The sum. -/
def add : Cell → Cell → Cell := combine (· + ·) Binary64.sum?

/-- The difference. -/
def subtract : Cell → Cell → Cell := combine (· - ·) fun x y => x.sum? y.neg

/-- The product. -/
def multiply : Cell → Cell → Cell := combine (· * ·) Binary64.product?

/-- Whether a cell counts as zero. -/
def isZero (cell : Cell) : Bool :=
  (cell.number?.map fun v => v.binary64.isZero).getD false

/-- The quotient; that of integers is cut off. -/
def divide (a b : Cell) : Cell :=
  if b.isZero then .null else combine Int.tdiv Binary64.quotient? a b

/-- What a division of the integer parts leaves, with the sign of the dividend. -/
def remainder (a b : Cell) : Cell :=
  match a.number?, b.number?, a.asInteger?, b.asInteger? with
  | some x, some y, some i, some j =>
    if j = 0 then .null
    else
      let r := Int.tmod i.toInt j.toInt
      match x, y with
      | .integer _, .integer _ => .integer (Int64.ofInt r)
      | _, _ => .real (Binary64.ofInt r)
  | _, _, _, _ => .null

/-- The opposite number. -/
def negate (cell : Cell) : Cell := subtract (.integer 0) cell

/-- Combines the integer parts of two cells. -/
def combineWords (f : Int64 → Int64 → Int64) (a b : Cell) : Cell :=
  match a.asInteger?, b.asInteger? with
  | some i, some j => .integer (f i j)
  | _, _ => .null

/-- A word moved to the left, or to the right if the distance is negative; the sign fills in from the
left. -/
def shifted (i : Int64) (distance : Int) : Int64 :=
  if 0 ≤ distance then (if 64 ≤ distance then 0 else i <<< Int64.ofInt distance)
  else if distance ≤ -64 then (if i < 0 then -1 else 0)
  else i >>> Int64.ofInt (-distance)

/-- The bits that both have. -/
def bitAnd : Cell → Cell → Cell := combineWords (· &&& ·)

/-- The bits that one of them has. -/
def bitOr : Cell → Cell → Cell := combineWords (· ||| ·)

/-- The bits moved to the left. -/
def shiftLeft : Cell → Cell → Cell := combineWords fun i j => shifted i j.toInt

/-- The bits moved to the right. -/
def shiftRight : Cell → Cell → Cell := combineWords fun i j => shifted i (-j.toInt)

/-- The bits that it does not have. -/
def complement (cell : Cell) : Cell :=
  match cell.asInteger? with
  | some i => .integer (~~~i)
  | none => .null

/-! ## Text -/

/-- The bytes of a cell as text. Null has none. -/
def bytes (cell : Cell) : List UInt8 :=
  match cell.toText with
  | .text s => s.toUTF8.toList
  | .blob bytes => bytes
  | _ => []

/-- Bytes as text, or as they are if they encode none. -/
def ofBytes (bytes : List UInt8) : Cell :=
  match decode? bytes with
  | some s => .text s
  | none => .blob bytes

/-- The characters of a cell as text. -/
def characters (cell : Cell) : List Char := Text.Bytes.characters cell.bytes

/-- One text behind the other. -/
def concatenate (a b : Cell) : Cell :=
  if a.isNull || b.isNull then .null else ofBytes (a.bytes ++ b.bytes)

end Cell

end RecordQuery.Sql
