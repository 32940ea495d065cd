import RecordQuery.Decimal.Binary64
/-!
# Decimal digits of a double-precision number

A number lies on the decimal grid with step `10 ^ k` between two neighbours (`below`). `shortest` is
the coarsest grid on which a neighbour reads back as the number, and of two such neighbours the
nearer one, or the one that a `Tie` goes to. All of it is exact arithmetic on the significand and the
exponent.
-/

namespace RecordQuery

/-- The decimal `digits * 10 ^ exponent`. -/
structure Decimal where
  digits : Nat
  exponent : Int
  deriving DecidableEq

namespace Decimal

/-- Brings a quarter of the number's last place and the grid's step to one denominator: the number is
`4 * m` of the first where a grid point is `d` of the second. -/
def units (q k : Int) : Nat × Nat :=
  (twoTo (q - 2).toNat * tenTo (-k).toNat, tenTo k.toNat * twoTo (2 - q).toNat)

/-- The greatest point, counted in steps, that does not pass the number. -/
def below (m : Nat) (q k : Int) : Nat :=
  let (quarter, step) := units q k
  4 * m * quarter / step

/-- Whether the grid point `d` reads back as the number: it is within half a place of it, where the
place is half as wide on the lower side of a power of two, and the ends belong to an even
significand. -/
def readsBack (m : Nat) (q k : Int) (d : Nat) : Bool :=
  let (quarter, step) := units q k
  let low := (if m = Binary64.block && -1074 < q then 4 * m - 1 else 4 * m - 2) * quarter
  let high := (4 * m + 2) * quarter
  let point := d * step
  if m % 2 = 0 then low ≤ point && point ≤ high else low < point && point < high

/-- Which of two equally near neighbours is taken. -/
inductive Tie where
  | even
  | upper
  deriving DecidableEq

/-- The one of `d` and `d + 1` that a tie goes to. -/
def Tie.choose : Tie → Nat → Nat
  | .even, d => d + d % 2
  | .upper, d => d + 1

/-- Which of the two neighbours is nearer. -/
def nearer (tie : Tie) (m : Nat) (q k : Int) (d : Nat) : Nat :=
  let (quarter, step) := units q k
  let twice := 8 * m * quarter
  let middle := (2 * d + 1) * step
  if twice < middle then d else if middle < twice then d + 1 else tie.choose d

/-- The neighbour on the grid that reads back, if one does. -/
def hit? (tie : Tie) (m : Nat) (q k : Int) : Option Nat :=
  let d := below m q k
  match d != 0 && readsBack m q k d, readsBack m q k (d + 1) with
  | true, true => some (nearer tie m q k d)
  | true, false => some d
  | false, true => some (d + 1)
  | false, false => none

/-- The first grid with a hit, from `k` to finer ones. -/
def search (tie : Tie) (m : Nat) (q : Int) : Nat → Int → Decimal
  | 0, k => ⟨below m q k, k⟩
  | n + 1, k =>
    match hit? tie m q k with
    | some d => ⟨d, k⟩
    | none => search tie m q n (k - 1)

/-- The greatest `k` from the given one down with `10 ^ k ≤ m * 2 ^ q`. -/
def leading (m : Nat) (q : Int) : Nat → Int → Int
  | 0, k => k
  | n + 1, k => if below m q k = 0 then leading m q n (k - 1) else k

/-- The exponent of the number's first decimal digit. The logarithm of two brings the start of the
search within three of it. -/
def leadingExponent (m : Nat) (q : Int) : Int :=
  leading m q 4 (Int.fdiv ((Int.ofNat m.log2 + q + 1) * 30103) 100000 + 1)

/-- The shortest decimal that reads back as the number. -/
def shortest (tie : Tie) (x : Binary64) : Decimal :=
  let (m, q) := x.parts
  if m = 0 then ⟨0, 0⟩ else search tie m q 17 (leadingExponent m q)

end Decimal

end RecordQuery
