import RecordQuery.Decimal.Extended
import RecordQuery.Word
/-!
# Numbers in stored text

A text is a number if it holds a decimal literal and nothing else but blanks around it (`Numeral.read?`).
Where a number is wanted and the text is none, its beginning counts (`leadingInteger`, `leadingReal`):
what follows the longest beginning that reads as a number is passed over.
-/

namespace RecordQuery.Sql

/-- The blanks that may stand around a number. -/
def isPadding (c : Char) : Bool :=
  c = ' ' || ('\t' ≤ c && c ≤ '\r')

namespace Numeral

/-- The number a text is, with or without an exact integer value. -/
inductive Value where
  | integer (i : Int64)
  | real (x : Binary64)
  deriving DecidableEq

/-- A text without the blanks at its front. -/
def unpadded (s : String) : List Char := s.toList.dropWhile isPadding

/-- The number that a text is: an integer if it is written as one that fits, else a double. -/
def read? (s : String) : Option Value :=
  let cs := ((unpadded s).reverse.dropWhile isPadding).reverse
  let (negative, ds) := Literal.takeSign cs
  let i := Literal.signed negative ds
  if !ds.isEmpty && ds.all Char.isDigit && Word.fits i then some (.integer (Int64.ofInt i))
  else (Literal.read? cs).map fun l => .real l.stepwise

/-- The integer that a text begins with, held within the signed 64-bit range; zero if there is none. -/
def leadingInteger (s : String) : Int64 :=
  let (negative, ds) := Literal.takeSign (unpadded s)
  Word.clamp (Literal.signed negative (ds.takeWhile Char.isDigit))

/-- The double that a text begins with; zero, with the sign that stands there, if there is none. -/
def leadingReal (s : String) : Binary64 :=
  (Literal.leading (unpadded s)).stepwise

/-- The number that a text counts as in arithmetic: what it begins with, an integer unless that has a point
or an exponent, or does not fit. -/
def leading (s : String) : Value :=
  let (negative, cs) := Literal.takeSign (unpadded s)
  let (whole, rest) := cs.span Char.isDigit
  let (fraction, hasPoint, rest) := match rest with
    | '.' :: rest => (rest.takeWhile Char.isDigit, true, rest.dropWhile Char.isDigit)
    | rest => ([], false, rest)
  let hasExponent := match rest with
    | c :: rest =>
      Literal.isExponentMark c && (((Literal.takeSign rest).2.head?.map Char.isDigit).getD false)
    | [] => false
  let i := Literal.signed negative whole
  if (hasPoint || hasExponent) && !(whole.isEmpty && fraction.isEmpty) || !Word.fits i then
    .real (leadingReal s)
  else .integer (Int64.ofInt i)

end Numeral

end RecordQuery.Sql
