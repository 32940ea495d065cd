import RecordQuery.Decimal.Extended
import RecordQuery.Decimal.Layout
import RecordQuery.Sql.Collation
import RecordQuery.Sql.Numeral
import RecordQuery.Sql.Truth
import RecordQuery.Value
/-!
# Cells

A `Cell` is what a table holds. A column prefers a type, its `Affinity`, and `Affinity.store` turns a
cell into that type where nothing is lost. Cells are ordered with null first, then numbers by value,
then texts by a collation, then bytes; `Cell.compare?` leaves the order of null undecided.
-/

namespace RecordQuery.Sql

/-- The content of one column of one row. -/
inductive Cell where
  | null
  | integer (i : Int64)
  | real (x : Binary64)
  | text (s : String)
  | blob (bytes : List UInt8)
  deriving DecidableEq

/-- The type that a column prefers; `none` leaves every cell as it is. -/
inductive Affinity where
  | integer
  | real
  | text
  | none
  deriving DecidableEq

/-- Whether a column prefers numbers. -/
def Affinity.isNumeric : Affinity → Bool
  | .integer => true
  | .real => true
  | _ => false

/-- Numbers that become text have fifteen digits and always a point; exponents from -4 to 14 are
written positionally. -/
def realLayout : Layout := ⟨some (-4, 14), true, true, 2, false⟩

namespace Cell

/-- Whether the cell is null. -/
def isNull : Cell → Bool
  | .null => true
  | _ => false

/-- Whether the cell holds bytes. -/
def isBlob : Cell → Bool
  | .blob _ => true
  | _ => false

/-- A double as text. -/
def realText (x : Binary64) : String :=
  if x.isFinite then realLayout.write (Decimal.leadingDigits 15) x
  else if x.isNegative then "-Inf" else "Inf"

/-- A number as text; other cells stay. -/
def toText : Cell → Cell
  | .integer i => .text (toString i.toInt)
  | .real x => .text (realText x)
  | cell => cell

/-- A text that is a number as that number; other cells stay. -/
def toNumber : Cell → Cell
  | .text s =>
    match Numeral.read? s with
    | some (.integer i) => .integer i
    | some (.real x) => .real x
    | none => .text s
  | cell => cell

/-- A whole double as an integer, if it lies strictly within the signed 64-bit range. -/
def toInteger : Cell → Cell
  | .real x =>
    match x.integer? with
    | some i => if Word.least < i && i < Word.greatest then .integer (Int64.ofInt i) else .real x
    | none => .real x
  | cell => cell

/-- An integer as a double. A zero has no sign. -/
def toReal : Cell → Cell
  | .integer i => .real (Binary64.ofInt i.toInt)
  | .real x => .real (if x.isZero then .zero false else x)
  | cell => cell

/-! ## Order -/

/-- The order of cells, null first. -/
def compareKnown (collation : Collation) : Cell → Cell → Ordering
  | .integer i, .integer j => order i.toInt j.toInt
  | .integer i, .real y => order (Binary64.rankOfInt i.toInt) y.rank
  | .real x, .integer j => order x.rank (Binary64.rankOfInt j.toInt)
  | .real x, .real y => order x.rank y.rank
  | .text s, .text t => collation.compare s t
  | .blob bs, .blob cs => order bs cs
  | .null, .null => .eq
  | .null, _ => .lt
  | _, .null => .gt
  | .blob _, _ => .gt
  | _, .blob _ => .lt
  | .text _, _ => .gt
  | _, .text _ => .lt

/-- The order of two cells, undecided if one is null. -/
def compare? (collation : Collation) (a b : Cell) : Option Ordering :=
  if a.isNull || b.isNull then none else some (compareKnown collation a b)

/-! ## Content as numbers and text -/

/-- Bytes as text up to the first one that belongs to none. -/
def leadingText (bytes : List UInt8) : String :=
  String.ofList ((bytes.takeWhile (· < 0x80)).map fun b => Char.ofNat b.toNat)

/-- The content as an integer: a double without its fraction, held within the range, and the number
that a text begins with. Null has none. -/
def asInteger? : Cell → Option Int64
  | .null => none
  | .integer i => some i
  | .real x => some (Word.clamp x.truncate)
  | .text s => some (Numeral.leadingInteger s)
  | .blob bytes => some (Numeral.leadingInteger (leadingText bytes))

/-- The content as a double. -/
def asReal? : Cell → Option Binary64
  | .null => none
  | .integer i => some (Binary64.ofInt i.toInt)
  | .real x => some x
  | .text s => some (Numeral.leadingReal s)
  | .blob bytes => some (Numeral.leadingReal (leadingText bytes))

/-- The text that bytes encode, if they encode one. -/
def decode? (bytes : List UInt8) : Option String := String.fromUTF8? ⟨bytes.toArray⟩

/-- Whether the content can be read as text: bytes have to encode one. -/
def isReadable : Cell → Bool
  | .blob bytes => (decode? bytes).isSome
  | _ => true

/-- The content as text. -/
def asText? (cell : Cell) : Option String :=
  match cell.toText with
  | .text s => some s
  | .blob bytes => decode? bytes
  | _ => none

end Cell

namespace Affinity

/-- A cell as a column of this affinity stores it. -/
def store : Affinity → Cell → Cell
  | .text, cell => cell.toText
  | .integer, cell => cell.toNumber.toInteger
  | .real, cell => cell.toNumber.toReal
  | .none, cell => cell

/-- A cell as it is compared with a column of this affinity. -/
def comparand : Affinity → Cell → Cell
  | .integer, cell => cell.toNumber
  | .real, cell => cell.toNumber
  | .text, cell => cell.toText
  | .none, cell => cell

end Affinity

/-! ## Bound values -/

/-- A value bound to a statement. -/
inductive Param where
  | null
  | bool (b : Bool)
  | integer (i : Int64)
  | real (x : Binary64)
  | text (s : String)
  deriving DecidableEq

namespace Param

/-- The cell that a bound value is; truth is 1 and falsehood 0. -/
def cell : Param → Cell
  | .null => .null
  | .bool b => .integer (if b then 1 else 0)
  | .integer i => .integer i
  | .real x => .real x
  | .text s => .text s

/-- A scalar as a bound value; a date is bound as its stored text. -/
def ofScalar : Scalar → Param
  | .null => .null
  | .bool b => .bool b
  | .int i => .integer i
  | .real x => .real x
  | .text s => .text s
  | .date t => .text t.text

/-- A JSON leaf as a bound value. -/
def ofJson? : Json → Option Param
  | .null => some .null
  | .bool b => some (.bool b)
  | .number n =>
    match n.int64? with
    | some i => some (.integer i)
    | none => some (.real n.binary64)
  | .string s => some (.text s)
  | _ => none

end Param

end RecordQuery.Sql
