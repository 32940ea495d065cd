import RecordQuery.Sql.Arithmetic
/-!
# Column types

The name of a type decides its class by the words that occur in it (`ColumnType.ofName`). A column of the
class prefers cells of it (`affinity`), and a cast makes them (`cast`).
-/

namespace RecordQuery.Sql

/-- A class of type names. -/
inductive ColumnType where
  | integer
  | real
  | text
  | blob
  | numeric
  deriving DecidableEq

namespace ColumnType

/-- Whether a word occurs in a text. -/
def occurs (word : String) : List Char → Bool
  | [] => false
  | c :: cs => word.toList.isPrefixOf (c :: cs) || occurs word cs

/-- The class of a name: that of the integers if it tells of them, else texts, else bytes, else doubles. -/
def ofName (name : String) : ColumnType :=
  let cs := (Text.Ascii.lower name).toList
  let tells (words : List String) : Bool := words.any (occurs · cs)
  if tells ["int"] then .integer
  else if tells ["char", "clob", "text"] then .text
  else if tells ["blob"] then .blob
  else if tells ["real", "floa", "doub"] then .real
  else .numeric

/-- The number of a type whose name tells the length of its texts. -/
def lengthOf (name : String) : Nat :=
  Text.digitsValue ((name.toList.dropWhile fun c => !c.isDigit).takeWhile Char.isDigit)

/-- How much wider a column of a type is than an integer, as far as the name tells. -/
def width (name : String) : Nat :=
  match ofName name with
  | .text =>
    if occurs "char" (Text.Ascii.lower name).toList then min 255 (lengthOf name / 4 + 1) else 5
  | .blob => 5
  | _ => 1

/-- What a column of the type prefers. -/
def affinity : ColumnType → Affinity
  | .integer => .integer
  | .real => .real
  | .text => .text
  | .blob => .none
  | .numeric => .integer

/-- The whole doubles below this size become integers in a cast. -/
def wholeLimit : Int := 2251799813685248

/-- The number that a text begins with, as an integer if it is whole. -/
def toNumeric : Cell → Cell
  | .text s =>
    match Numeral.leading s with
    | .integer i => .integer i
    | .real x =>
      match x.integer? with
      | some i => if -wholeLimit ≤ i && i < wholeLimit then .integer (Int64.ofInt i) else .real x
      | none => .real x
  | cell => cell

/-- A cell made one of the type. -/
def cast (type : ColumnType) (cell : Cell) : Cell :=
  if cell.isNull then .null
  else
    match type with
    | .integer => (cell.asInteger?.map Cell.integer).getD .null
    | .real => Cell.ofReal? cell.asReal?
    | .text => Cell.ofBytes cell.bytes
    | .blob => .blob cell.bytes
    | .numeric =>
      match cell with
      | .blob bytes => toNumeric (.text (Cell.leadingText bytes))
      | cell => toNumeric cell

end ColumnType

end RecordQuery.Sql
