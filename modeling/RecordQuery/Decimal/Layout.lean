import RecordQuery.Decimal.Shortest
/-!
# Writing decimals

A `Layout` says which numbers are written positionally and which with an exponent, and how a whole
number, the exponent and a negative zero look. `Layout.write` lays out a number by it.
-/

namespace RecordQuery

/-- The look of a number's text. -/
structure Layout where
  /-- The exponents of the first digit that are written positionally; all of them if there is no
  range. -/
  positional : Option (Int × Int)
  /-- Whether a whole number ends in `.0`. -/
  pointZero : Bool
  /-- Whether the digits before an exponent have a point even if there is one digit only. -/
  pointBeforeExponent : Bool
  /-- The least number of exponent digits. -/
  exponentWidth : Nat
  /-- Whether a negative zero keeps its sign. -/
  signedZero : Bool

namespace Layout

/-- The digits of a natural without the zeros at the end. -/
def significant (n : Nat) : List Char :=
  let ds := Nat.toDigits 10 n
  match (ds.reverse.dropWhile (· == '0')).reverse with
  | [] => ['0']
  | ds => ds

/-- Digits with a point, where `e` is the exponent of the first digit. -/
def positionally (layout : Layout) (ds : List Char) (e : Int) : List Char :=
  if e < 0 then '0' :: '.' :: List.replicate (-e - 1).toNat '0' ++ ds
  else
    let whole := e.toNat + 1
    if ds.length ≤ whole then
      ds ++ List.replicate (whole - ds.length) '0' ++ (if layout.pointZero then ['.', '0'] else [])
    else ds.take whole ++ '.' :: ds.drop whole

/-- Digits with an exponent. -/
def withExponent (layout : Layout) (ds : List Char) (e : Int) : List Char :=
  let digits := Nat.toDigits 10 e.natAbs
  let fraction := match ds.drop 1 with
    | [] => if layout.pointBeforeExponent then ['.', '0'] else []
    | rest => '.' :: rest
  ds.take 1 ++ fraction ++ 'e' :: (if e < 0 then '-' else '+') ::
    List.replicate (layout.exponentWidth - digits.length) '0' ++ digits

/-- A decimal, laid out. -/
def decimal (layout : Layout) (d : Decimal) : List Char :=
  let ds := significant d.digits
  let e := if d.digits = 0 then 0
    else d.exponent + Int.ofNat (Nat.toDigits 10 d.digits).length - 1
  match layout.positional with
  | some (low, high) =>
    if low ≤ e && e ≤ high then layout.positionally ds e else layout.withExponent ds e
  | none => layout.positionally ds e

/-- A finite number with the digits that `choose` picks. -/
def write (layout : Layout) (choose : Binary64 → Decimal) (x : Binary64) : String :=
  let sign := if x.isNegative && (layout.signedZero || !x.isZero) then ['-'] else []
  String.ofList (sign ++ layout.decimal (choose x))

end Layout

/-- Plain text has the shortest digits, no exponent and no point in a whole number; a tie goes up. -/
def Layout.plain : Layout := ⟨none, false, false, 1, true⟩

namespace Binary64

/-- The number as plain text. -/
def text (x : Binary64) : String :=
  if x.isFinite then Layout.plain.write (Decimal.shortest .upper) x
  else if x.magnitudeBits != infinityBits then "NaN"
  else if x.isNegative then "-inf" else "inf"

end Binary64

end RecordQuery
