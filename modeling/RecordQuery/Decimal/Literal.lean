import RecordQuery.Decimal.Binary64
import RecordQuery.Text.Digits
/-!
# Decimal literals

A literal is a sign, digits around a point, and an exponent: `Literal.read?` reads a whole text as
one, `Literal.leading` takes as much of one as stands at the front. `Literal.nearest` is its value,
rounded once.
-/

namespace RecordQuery

open Text (digitsValue)

/-- A decimal literal. -/
structure Literal where
  negative : Bool
  /-- The digits before the point. -/
  whole : List Char
  /-- The digits after the point. -/
  fraction : List Char
  /-- The written exponent. -/
  exponent : Int

namespace Literal

/-- Digits with a sign. -/
def signed (negative : Bool) (ds : List Char) : Int :=
  let n := Int.ofNat (digitsValue ds)
  if negative then -n else n

/-- Takes a sign off the front. -/
def takeSign : List Char → Bool × List Char
  | '-' :: cs => (true, cs)
  | '+' :: cs => (false, cs)
  | cs => (false, cs)

/-- Takes the digits around a point off the front: those before it, those after it, and the rest. -/
def takeDigits (cs : List Char) : List Char × List Char × List Char :=
  let (whole, rest) := cs.span Char.isDigit
  match rest with
  | '.' :: rest =>
    let (fraction, rest) := rest.span Char.isDigit
    (whole, fraction, rest)
  | rest => (whole, [], rest)

/-- Whether a character begins an exponent. -/
def isExponentMark (c : Char) : Bool := c = 'e' || c = 'E'

/-- The exponent that a literal ends in: none, or a sign and at least one digit. -/
def exponent? : List Char → Option Int
  | [] => some 0
  | c :: cs =>
    let (negative, ds) := takeSign cs
    if isExponentMark c && !ds.isEmpty && ds.all Char.isDigit then some (signed negative ds)
    else none

/-- The exponent at the front of a text; zero if none is complete. -/
def leadingExponent : List Char → Int
  | c :: cs =>
    let (negative, ds) := takeSign cs
    if isExponentMark c then signed negative (ds.takeWhile Char.isDigit) else 0
  | [] => 0

/-- Reads a literal. There may be digits on one side of the point only. -/
def read? (cs : List Char) : Option Literal := do
  let (negative, cs) := takeSign cs
  let (whole, fraction, rest) := takeDigits cs
  if whole.isEmpty && fraction.isEmpty then none
  else
    let exponent ← exponent? rest
    some ⟨negative, whole, fraction, exponent⟩

/-- The literal at the front of a text; without digits it is zero. -/
def leading (cs : List Char) : Literal :=
  let (negative, cs) := takeSign cs
  let (whole, fraction, rest) := takeDigits cs
  ⟨negative, whole, fraction, leadingExponent rest⟩

/-- The double nearest to the literal. -/
def nearest (l : Literal) : Binary64 :=
  Binary64.ofDecimal l.negative (digitsValue (l.whole ++ l.fraction))
    (l.exponent - Int.ofNat l.fraction.length)

end Literal

end RecordQuery
