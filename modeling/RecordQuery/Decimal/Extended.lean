import RecordQuery.Decimal.Literal
import RecordQuery.Decimal.Shortest
/-!
# Decimal conversion through 64-bit significands

An `Extended` is a positive number that keeps its 64 most significant bits, eleven more than a double.
Stored numbers become text, and text stored numbers, through it: a significand of up to twenty digits
is multiplied by powers of ten, and each product is rounded (`mul`). `Literal.stepwise` is the double
that a literal comes to, `Decimal.leadingDigits` are the first digits of a double. With few steps and
bits to spare nearly every result is the nearest one, yet not all are: a literal a little above the
greatest double is already infinite.
-/

namespace RecordQuery

/-- The number `significand * 2 ^ exponent`. -/
structure Extended where
  significand : Nat
  exponent : Int
  deriving DecidableEq

namespace Extended

/-- The number of bits that a significand keeps. -/
def width : Nat := 64

/-- A natural times a power of two, rounded to the width. -/
def ofParts (m : Nat) (q : Int) : Extended :=
  let excess := m.log2 + 1 - width
  ⟨Binary64.roundDiv m (twoTo excess), q + Int.ofNat excess⟩

/-- The magnitude of a finite double. -/
def ofBinary64 (x : Binary64) : Extended := ⟨x.parts.1, x.parts.2⟩

/-- The product, rounded. -/
def mul (x y : Extended) : Extended :=
  ofParts (x.significand * y.significand) (x.exponent + y.exponent)

/-- The number nearest to `1 / n`. -/
def reciprocal (n : Nat) : Extended :=
  let shift := n.log2 + width
  ⟨Binary64.roundDiv (twoTo shift) n, -Int.ofNat shift⟩

/-- The number nearest to a power of ten. -/
def powerOfTen (k : Int) : Extended :=
  if 0 ≤ k then ofParts (tenTo k.toNat) 0 else reciprocal (tenTo (-k).toNat)

/-- Whether the number does not pass another. -/
def atMost (x y : Extended) : Bool :=
  let (n, d) := Binary64.scaled x.significand y.significand (x.exponent - y.exponent)
  n ≤ d

/-- The integer part. -/
def floor (x : Extended) : Nat :=
  let (n, d) := Binary64.scaled x.significand 1 x.exponent
  n / d

/-- The greatest finite double. -/
def greatest : Extended := ofBinary64 (Binary64.ofMagnitude false (Binary64.infinityBits - 1))

/-- The double nearest to the number, which is infinite beyond the greatest one. -/
def toBinary64 (negative : Bool) (x : Extended) : Binary64 :=
  if x.atMost greatest then
    let (n, d) := Binary64.scaled x.significand 1 x.exponent
    Binary64.round negative n d
  else Binary64.infinity negative

/-- A number multiplied `n` times. -/
def mulTimes (factor : Extended) : Nat → Extended → Extended
  | 0, x => x
  | n + 1, x => mulTimes factor n (x.mul factor)

/-- A number times `10 ^ k`, by hundreds, by tens and by ones. -/
def scale (k : Nat) (x : Extended) : Extended :=
  mulTimes (powerOfTen 1) (k % 10) <| mulTimes (powerOfTen 10) (k / 10 % 10) <|
    mulTimes (powerOfTen 100) (k / 100) x

/-- A number divided by `10 ^ k`, by hundreds, by tens and by ones. -/
def unscale (k : Nat) (x : Extended) : Extended :=
  mulTimes (powerOfTen (-1)) (k % 10) <| mulTimes (powerOfTen (-10)) (k / 10 % 10) <|
    mulTimes (powerOfTen (-100)) (k / 100) x

end Extended

/-! ## From literals -/

namespace Literal

open Text (digitValue)

/-- The least significand that takes no further digit. -/
def full : Nat := 1844674407370955160

/-- Takes digits into a significand until it is full, and counts the ones that were taken. -/
def collect : Nat → List Char → Nat × Nat
  | m, [] => (m, 0)
  | m, c :: cs =>
    if m < full then
      let (m, taken) := collect (m * 10 + digitValue c) cs
      (m, taken + 1)
    else (m, 0)

/-- Moves a positive exponent into the significand as long as the significand stays a word. -/
def fill : Nat → Nat → Nat × Nat
  | m, 0 => (m, 0)
  | m, k + 1 => if m ≤ full then fill (m * 10) k else (m, k + 1)

/-- Takes zeros off the end of the significand against a negative exponent. -/
def reduce : Nat → Nat → Nat × Nat
  | m, 0 => (m, 0)
  | m, k + 1 => if m % 10 = 0 then reduce (m / 10) k else (m, k + 1)

/-- An exponent beyond every double, at which larger ones are held. -/
def farExponent : Int := 100000

/-- The double that a literal comes to when its significand is scaled step by step. -/
def stepwise (l : Literal) : Binary64 :=
  let (m, takenWhole) := collect 0 l.whole
  let (m, takenFraction) := collect m l.fraction
  let written := max (-farExponent) (min farExponent l.exponent)
  let exponent := written + Int.ofNat (l.whole.length - takenWhole) - Int.ofNat takenFraction
  if m = 0 then Binary64.zero l.negative
  else if 0 ≤ exponent then
    let (m, k) := fill m exponent.toNat
    (Extended.scale k ⟨m, 0⟩).toBinary64 l.negative
  else
    let (m, k) := reduce m (-exponent).toNat
    (Extended.unscale k ⟨m, 0⟩).toBinary64 l.negative

end Literal

/-! ## To digits -/

namespace Decimal

open Extended

/-- Multiplies by `10 ^ -k` while a test holds, at most `n` times, and adds up the exponents taken out. -/
def takeOut (again : Extended → Bool) (k : Int) : Nat → Extended × Int → Extended × Int
  | 0, state => state
  | n + 1, (x, e) => if again x then takeOut again k n (x.mul (powerOfTen (-k)), e + k) else (x, e)

/-- A number between `10 ^ 17` and `10 ^ 19` and the power of ten that leads back to the double. -/
def settle (x : Extended) : Extended × Int :=
  let atLeast (k : Int) (x : Extended) := (powerOfTen k).atMost x
  let under (k : Int) (x : Extended) := !atLeast k x
  if atLeast 19 x then
    takeOut (atLeast 19) 1 12 <| takeOut (atLeast 29) 10 12 <| takeOut (atLeast 119) 100 4 (x, 0)
  else
    takeOut (under 17) (-1) 12 <| takeOut (under 7) (-10) 12 <| takeOut (under (-97)) (-100) 4 (x, 0)

/-- The first digits of a finite double, fewer than seventeen, rounded by the digit that follows. -/
def leadingDigits (count : Nat) (x : Binary64) : Decimal :=
  if x.isZero then ⟨0, 0⟩
  else
    let (y, exponent) := settle (ofBinary64 x)
    let dropped := (Nat.toDigits 10 y.floor).length - count
    ⟨(y.floor / tenTo (dropped - 1) + 5) / 10, exponent + Int.ofNat dropped⟩

end Decimal

end RecordQuery
