import RecordQuery.Decimal.Power
/-!
# Double-precision numbers as words

`Binary64` is the 64-bit interchange word of a double-precision number, so that two numbers are equal
exactly if their words are, and every operation is exact integer arithmetic: `round` gives the number
nearest to a quotient of naturals (`roundBits`), and products, quotients, integers and decimals are
rounded through it once. `rank` places numbers and integers on one scale, on which they are compared.
-/

namespace RecordQuery

/-- The interchange word of a double-precision number. -/
structure Binary64 where
  bits : UInt64
  deriving DecidableEq

namespace Binary64

/-- The number of words with one exponent, which is also the least significand of a normal number. -/
def block : Nat := 0x10000000000000

/-- The bit of the sign, one past the words without it. -/
def signBit : Nat := 0x8000000000000000

/-- The word of infinity, one past the words of the finite magnitudes. -/
def infinityBits : Nat := 2047 * block

/-- The word without its sign. -/
def magnitudeBits (x : Binary64) : Nat := x.bits.toNat % signBit

/-- Whether the sign bit is set. -/
def isNegative (x : Binary64) : Bool := signBit ≤ x.bits.toNat

/-- Neither an infinity nor a NaN. -/
def isFinite (x : Binary64) : Bool := x.magnitudeBits < infinityBits

/-- Zero of either sign. -/
def isZero (x : Binary64) : Bool := x.magnitudeBits = 0

/-- The significand `m` and the exponent `q` of the magnitude `m * 2 ^ q`. -/
def parts (x : Binary64) : Nat × Int :=
  let e := x.magnitudeBits / block
  let f := x.magnitudeBits % block
  if e = 0 then (f, -1074) else (block + f, Int.ofNat e - 1075)

/-- The number with the given sign and magnitude word. -/
def ofMagnitude (negative : Bool) (magnitude : Nat) : Binary64 :=
  ⟨UInt64.ofNat (if negative then signBit + magnitude else magnitude)⟩

/-- Zero with a sign. -/
def zero (negative : Bool) : Binary64 := ofMagnitude negative 0

/-- Infinity with a sign. -/
def infinity (negative : Bool) : Binary64 := ofMagnitude negative infinityBits

/-- The other sign. -/
def neg (x : Binary64) : Binary64 := ofMagnitude (!x.isNegative) x.magnitudeBits

/-! ## Rounding -/

/-- The quotient rounded to the nearest natural, a half going to the even neighbour. -/
def roundDiv (num den : Nat) : Nat :=
  let floor := num / den
  let twice := 2 * (num % den)
  if twice < den then floor
  else if den < twice then floor + 1
  else floor + floor % 2

/-- `num * 2 ^ e / den`, the power moved into whichever side keeps it natural. -/
def scaled (num den : Nat) (e : Int) : Nat × Nat :=
  if 0 ≤ e then (num * twoTo e.toNat, den) else (num, den * twoTo (-e).toNat)

/-- The magnitude word nearest to `num / den`: with the exponent `q` that leaves 53 significant bits,
or the least exponent if there are fewer, the word is the significand on top of the exponent's block,
where a significand that rounds up to 54 bits carries into the next block. -/
def roundBits (num den : Nat) : Nat :=
  if num = 0 then 0
  else
    let guess := max (-1074) (Int.ofNat num.log2 - Int.ofNat den.log2 - 53)
    let (n, d) := scaled num den (-guess)
    let q := if 2 * block ≤ n / d then guess + 1 else guess
    let (n, d) := scaled num den (-q)
    min infinityBits ((q + 1074).toNat * block + roundDiv n d)

/-- The number nearest to `num / den`. -/
def round (negative : Bool) (num den : Nat) : Binary64 :=
  ofMagnitude negative (roundBits num den)

/-- The number nearest to an integer. -/
def ofInt (i : Int) : Binary64 := round (i < 0) i.natAbs 1

/-- The number nearest to `digits * 10 ^ exponent`. Exponents outside the range of double precision
are settled without the power. -/
def ofDecimal (negative : Bool) (digits : Nat) (exponent : Int) : Binary64 :=
  if digits = 0 then zero negative
  else if 310 < exponent then infinity negative
  else if Int.ofNat digits.log2 + 1 + 3 * exponent < -1080 then zero negative
  else if 0 ≤ exponent then round negative (digits * tenTo exponent.toNat) 1
  else round negative digits (tenTo (-exponent).toNat)

/-- The product of two finite numbers. -/
def mul (x y : Binary64) : Binary64 :=
  let (m, p) := x.parts
  let (n, q) := y.parts
  let (num, den) := scaled (m * n) 1 (p + q)
  round (x.isNegative != y.isNegative) num den

/-- The quotient of two finite numbers, the second of which is not zero. -/
def div (x y : Binary64) : Binary64 :=
  let (m, p) := x.parts
  let (n, q) := y.parts
  let (num, den) := scaled m n (p - q)
  round (x.isNegative != y.isNegative) num den

/-! ## Order and conversion to integers -/

/-- The value in units of the least positive number; an infinity lies beyond every finite number. -/
def rank (x : Binary64) : Int :=
  let (m, q) := x.parts
  let magnitude := Int.ofNat (m * twoTo (q + 1074).toNat)
  if x.isNegative then -magnitude else magnitude

/-- An integer in the units of `rank`. -/
def rankOfInt (i : Int) : Int := i * twoTo 1074

/-- The integer part of a finite number. -/
def truncate (x : Binary64) : Int :=
  let (m, q) := x.parts
  let (num, den) := scaled m 1 q
  let magnitude := Int.ofNat (num / den)
  if x.isNegative then -magnitude else magnitude

/-- The integer that a number equals, if it is whole. -/
def integer? (x : Binary64) : Option Int :=
  if x.isFinite && x.rank == rankOfInt x.truncate then some x.truncate else none

/-! ## Arithmetic with infinities

There is no result where an infinity meets its opposite, a zero that it is multiplied by, or another
infinity that it is divided by. -/

/-- The sum. -/
def sum? (x y : Binary64) : Option Binary64 :=
  match x.isFinite, y.isFinite with
  | true, true =>
    let s := x.rank + y.rank
    some (if s = 0 then zero (x.isNegative && y.isNegative) else round (s < 0) s.natAbs (twoTo 1074))
  | true, false => some y
  | false, true => some x
  | false, false => if x = y then some x else none

/-- The product. -/
def product? (x y : Binary64) : Option Binary64 :=
  if x.isFinite && y.isFinite then some (x.mul y)
  else if x.isZero || y.isZero then none
  else some (infinity (x.isNegative != y.isNegative))

/-- The quotient of two numbers, the second of which is not zero. -/
def quotient? (x y : Binary64) : Option Binary64 :=
  match x.isFinite, y.isFinite with
  | true, true => some (x.div y)
  | true, false => some (zero (x.isNegative != y.isNegative))
  | false, true => some (infinity (x.isNegative != y.isNegative))
  | false, false => none

/-- The sixteen hexadecimal digits of the word. -/
def hex (x : Binary64) : String :=
  let digits := Nat.toDigits 16 x.bits.toNat
  String.ofList (List.replicate (16 - digits.length) '0' ++ digits)

end Binary64

end RecordQuery
