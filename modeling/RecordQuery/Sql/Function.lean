import RecordQuery.Sql.Arithmetic
import RecordQuery.Text.Glob
/-!
# Functions

The functions that expressions may call. `Function.accepts` says which there are and how many arguments
they take, `Function.value?` gives their value, which a few of them do not have for all arguments.
Functions that look at one argument after another, such as `coalesce`, are evaluated elsewhere.
-/

namespace RecordQuery.Sql.Function

open Text

/-- Whether there is a function of a name, in lower case, for a number of arguments. -/
def accepts (name : String) (count : Nat) : Bool :=
  match name with
  | "char" => true
  | "coalesce" | "max" | "min" | "concat_ws" => 2 ≤ count
  | "concat" => 1 ≤ count
  | "glob" | "ifnull" | "instr" | "nullif" => count = 2
  | "iif" | "replace" => count = 3
  | "like" => count = 2 || count = 3
  | "abs" | "hex" | "length" | "likely" | "lower" | "octet_length" | "quote" | "sign" | "typeof"
  | "unicode" | "unlikely" | "upper" | "zeroblob" => count = 1
  | "ltrim" | "rtrim" | "round" | "trim" | "unhex" => count = 1 || count = 2
  | "substr" | "substring" => count = 2 || count = 3
  | _ => false

/-! ## Text -/

/-- A text as a cell. -/
def text (cs : List Char) : Cell := .text (String.ofList cs)

/-- The greatest length that a text may have. -/
def maxLength : Int := 1000000000

/-- The stretch of a list from a position that counts from one, or from the end if it is negative. A
negative length is that of the stretch before it. -/
def stretch {α : Type} (start : Int) (length : Option Int) (xs : List α) : List α :=
  let size := Int.ofNat xs.length
  let isBefore := length.getD 0 < 0
  let count := (length.map fun n => Int.ofNat n.natAbs).getD maxLength
  let (first, count) :=
    if start < 0 then
      if start + size < 0 then (0, max 0 (count + (start + size))) else (start + size, count)
    else if 0 < start then (start - 1, count)
    else (0, if 0 < count then count - 1 else 0)
  let (first, count) :=
    if isBefore then
      if first - count < 0 then (0, count + (first - count)) else (first - count, count)
    else (first, count)
  (xs.drop first.toNat).take count.toNat

/-- The low half of the integer that a cell counts as. -/
def short (cell : Cell) : Int := ((cell.asInteger?.getD 0).toInt).bmod 4294967296

/-- A stretch of a cell: of its bytes or of its characters. -/
def part (cell : Cell) (start : Cell) (length : Option Cell) : Cell :=
  let cut {α : Type} (xs : List α) : List α := stretch (short start) (length.map short) xs
  match cell with
  | .blob [] => .null
  | .blob bytes => .blob (cut bytes)
  | cell => Cell.ofBytes (cut (Bytes.letters (Bytes.beforeNull cell.bytes))).flatten

/-- The number of characters of a text before a null character, or of bytes. -/
def length : Cell → Cell
  | .null => .null
  | .blob bytes => .integer (Int64.ofNat bytes.length)
  | cell => .integer (Int64.ofNat (Bytes.letters (Bytes.beforeNull cell.bytes)).length)

/-- Characters of a set taken off the front, off the end, or off both. -/
def trimmed (front back : Bool) (cell : Cell) (set : List UInt8) : Cell :=
  let set := Bytes.letters (Bytes.beforeNull set)
  let bytes := cell.bytes
  let bytes := if front then Bytes.stripFront set bytes else bytes
  Cell.ofBytes (if back then Bytes.stripBack set bytes else bytes)

/-- The blank as a set of characters. -/
def blank : List UInt8 := [0x20]

/-- The place of a cell in another, counted in bytes if both are bytes. -/
def placeOf (part cell : Cell) : Cell :=
  let isText := !(part.isBlob && cell.isBlob)
  .integer (Int64.ofNat
    (if part.bytes.isEmpty then 1 else Bytes.place isText part.bytes 0 cell.bytes))

/-- A cell with a part replaced wherever it occurs, unless the part is empty. -/
def replace (cell part other : Cell) : Cell :=
  if (Bytes.beforeNull part.bytes).isEmpty then cell
  else Cell.ofBytes (Bytes.replaced part.bytes other.bytes cell.bytes.length cell.bytes)

/-- The hexadecimal digit of a value. -/
def hexDigit (n : Nat) : Char := (Nat.digitChar n).toUpper

/-- Bytes as hexadecimal digits. -/
def hex (bytes : List UInt8) : List Char :=
  bytes.flatMap fun b => [hexDigit (b.toNat / 16), hexDigit (b.toNat % 16)]

/-- The value of a hexadecimal digit. -/
def hexValue? (c : Char) : Option Nat :=
  if c.isDigit then some (c.toNat - '0'.toNat)
  else if 'a' ≤ c.toLower && c.toLower ≤ 'f' then some (c.toLower.toNat - 'a'.toNat + 10)
  else none

/-- The bytes of pairs of hexadecimal digits, between which characters of a set may stand. -/
def unhex? (ignored : List Char) : List Char → Option (List UInt8)
  | [] => some []
  | [c] => if ignored.contains c && (hexValue? c).isNone then some [] else none
  | c :: d :: cs =>
    match hexValue? c with
    | none => if ignored.contains c then unhex? ignored (d :: cs) else none
    | some high =>
      match hexValue? d with
      | none => none
      | some low => (unhex? ignored cs).map (UInt8.ofNat (high * 16 + low) :: ·)

/-- The bytes of the pairs of hexadecimal digits of a cell, null if it has others. -/
def unhexed (ignored : List Char) (cell : Cell) : Cell :=
  ((unhex? ignored (Bytes.characters (Bytes.beforeNull cell.bytes))).map Cell.blob).getD .null

/-- A cell as it is written in a statement. -/
def quoted : Cell → Cell
  | .null => .text "NULL"
  | .text s => text ('\'' :: (s.toList.flatMap fun c => if c = '\'' then [c, c] else [c]) ++ ['\''])
  | .blob bytes => text ('X' :: '\'' :: hex bytes ++ ['\''])
  | .real x =>
    .text (if x.isFinite then Cell.realText x
      else if x.isNegative then "-9.0e+999" else "9.0e+999")
  | cell => cell.toText

/-- The bytes of the character of a code; a replacement stands for what is none. -/
def encoded (cell : Cell) : List UInt8 :=
  let code := (cell.asInteger?.getD 0).toInt
  Bytes.ofCode (if code < 0 || 0x10ffff < code then 0xfffd else code.toNat)

/-! ## Numbers -/

/-- The value without its sign; the least integer has none. -/
def absolute? : Cell → Option Cell
  | .null => some .null
  | .integer i => if i = Int64.minValue then none else some (.integer (if i < 0 then -i else i))
  | cell =>
    some (Cell.ofReal? (cell.asReal?.map fun x => if x.isNegative && !x.isZero then x.neg else x))

/-- The sign of a number. -/
def sign (cell : Cell) : Cell :=
  match cell.toNumber with
  | .integer i => .integer (if i < 0 then -1 else if 0 < i then 1 else 0)
  | .real x => .integer (if x.isZero then 0 else if x.isNegative then -1 else 1)
  | _ => .null

/-- A double beyond which every one is whole. -/
def wholeSize : Int := 4503599627370496

/-- The greatest number of places that are kept in rounding. -/
def maxPlaces : Int := 30

/-- The units of the place `10 ^ -places` in a number, rounded on its decimal digits, a half away from
zero. -/
def unitsOf (places : Nat) (x : Binary64) : Nat :=
  let (y, exponent) := Decimal.settle (Extended.ofBinary64 x)
  let count := Int.ofNat (Nat.toDigits 10 y.floor).length
  let kept := count + exponent + Int.ofNat places
  if kept < 0 then 0
  else if kept < count then (y.floor / tenTo (count - kept - 1).toNat + 5) / 10
  else y.floor * tenTo (kept - count).toNat

/-- A number rounded to decimal places. -/
def rounded (x : Binary64) (places : Int) : Binary64 :=
  let places := (max 0 (min maxPlaces places)).toNat
  if x.isZero || !x.isFinite || wholeSize < x.truncate || x.truncate < -wholeSize then x
  else if places = 0 then
    let half := Binary64.ofDecimal x.isNegative 5 (-1)
    Binary64.ofInt (((x.sum? half).getD x).truncate)
  else
    let units := unitsOf places x
    let ds := Instant.padded (places + 1) units
    let cut := ds.length - places
    (Literal.mk x.isNegative (ds.take cut) (ds.drop cut) 0).stepwise

/-! ## Calls -/

/-- The greatest number of zero bytes that are made. -/
def maxZeros : Nat := 1000000

/-- The name of what a cell holds. -/
def typeName : Cell → String
  | .null => "null"
  | .integer _ => "integer"
  | .real _ => "real"
  | .text _ => "text"
  | .blob _ => "blob"

/-- The last of the cells that comes before none of the others, or the first that comes after all. -/
def extreme (collation : Collation) (greatest : Bool) (first : Cell) (rest : List Cell) : Cell :=
  if (first :: rest).any Cell.isNull then .null
  else
    rest.foldl (fun best cell =>
      let o := Cell.compareKnown collation best cell
      if (if greatest then o.isLT else !o.isLT) then cell else best) first

/-- Whether a cell matches a pattern. -/
def matching (test : List Char → List Char → Bool) (pattern cell : Cell) : Cell :=
  if pattern.isNull || cell.isNull then .null
  else
    (Truth.ofBool (test (Bytes.characters (Bytes.beforeNull pattern.bytes))
      (Bytes.characters (Bytes.beforeNull cell.bytes)))).cell

/-- The value of a function on its arguments, the first of which is not null. -/
def valueOn? (name : String) (x : Cell) (rest : List Cell) : Option Cell :=
  match name, rest with
  | "abs", _ => absolute? x
  | "hex", _ => some (text (hex x.bytes))
  | "instr", [y] => some (placeOf y x)
  | "length", _ => some (length x)
  | "lower", _ => some (Cell.ofBytes (x.bytes.map Bytes.lower))
  | "upper", _ => some (Cell.ofBytes (x.bytes.map Bytes.upper))
  | "ltrim", [] => some (trimmed true false x blank)
  | "ltrim", [y] => some (trimmed true false x y.bytes)
  | "rtrim", [] => some (trimmed false true x blank)
  | "rtrim", [y] => some (trimmed false true x y.bytes)
  | "trim", [] => some (trimmed true true x blank)
  | "trim", [y] => some (trimmed true true x y.bytes)
  | "octet_length", _ => some (.integer (Int64.ofNat x.bytes.length))
  | "replace", [y, z] => some (replace x y z)
  | "round", [] => some (Cell.ofReal? (x.asReal?.map (rounded · 0)))
  | "round", [y] => some (Cell.ofReal? (x.asReal?.map (rounded · (short y))))
  | "sign", _ => some (sign x)
  | "substr", [y] | "substring", [y] => some (part x y none)
  | "substr", [y, z] | "substring", [y, z] => some (part x y (some z))
  | "unhex", [] => some (unhexed [] x)
  | "unhex", [y] => some (unhexed y.characters x)
  | "unicode", _ =>
    some (((Bytes.characters (Bytes.beforeNull x.bytes)).head?.map fun c =>
      Cell.integer (Int64.ofNat c.toNat)).getD .null)
  | _, _ => none

/-- The value of a function; texts are compared by the collation. -/
def value? (collation : Collation) (name : String) (arguments : List Cell) : Option Cell :=
  match name, arguments with
  | "char", cells => some (Cell.ofBytes (cells.flatMap encoded))
  | "concat", cells => some (Cell.ofBytes (cells.flatMap Cell.bytes))
  | "concat_ws", separator :: cells =>
    if separator.isNull then some .null
    else
      let parts := (cells.map Cell.bytes).filter (!·.isEmpty)
      some (Cell.ofBytes (parts.intersperse separator.bytes).flatten)
  | "glob", [pattern, x] => some (matching Glob.isGlob pattern x)
  | "hex", [.null] => some (.text "")
  | "like", [pattern, x] => some (matching (Glob.isLike none) pattern x)
  | "like", [pattern, x, .null] => if pattern.isNull || x.isNull then some .null else some .null
  | "like", [pattern, x, escape] =>
    match escape.characters with
    | [c] => some (matching (Glob.isLike (some c)) pattern x)
    | _ => none
  | "likely", [x] => some x
  | "unlikely", [x] => some x
  | "max", x :: xs => some (extreme collation true x xs)
  | "min", x :: xs => some (extreme collation false x xs)
  | "nullif", [x, y] =>
    some (if (Cell.compare? collation x y).any Ordering.isEq then .null else x)
  | "quote", [x] => some (quoted x)
  | "typeof", [x] => some (.text (typeName x))
  | "zeroblob", [x] =>
    let size := (x.asInteger?.getD 0).toInt.toNat
    if size ≤ maxZeros then some (.blob (List.replicate size 0)) else none
  | name, x :: rest =>
    if x.isNull || rest.any Cell.isNull then some .null else valueOn? name x rest
  | _, [] => none

end RecordQuery.Sql.Function
