import RecordQuery.Decimal.Power
/-!
# Estimates

A number of rows and a cost are estimated by ten times their binary logarithm, cut off to a whole number.
So a product is the sum of two estimates (`+`), and the sum of two is looked up in a table
(`Estimate.plus`).
-/

namespace RecordQuery.Sql

/-- Ten times the binary logarithm of a number. -/
abbrev Estimate := Int

namespace Estimate

/-- The estimates of the eighths between a power of two and the next. -/
def eighth : Nat → Estimate
  | 0 => 0
  | 1 => 2
  | 2 => 3
  | 3 => 5
  | 4 => 6
  | 5 => 7
  | 6 => 8
  | _ => 9

/-- The estimate of a number, which is cut off to its first four bits. -/
def ofNat (n : Nat) : Estimate :=
  if n < 2 then 0
  else if n < 8 then
    let shift := 3 - n.log2
    eighth (n * twoTo shift % 8) + 30 - 10 * Int.ofNat shift
  else
    let shift := n.log2 - 3
    eighth (n / twoTo shift % 8) + 30 + 10 * Int.ofNat shift

/-- What the smaller of two numbers adds to the estimate of the greater, from the difference of theirs. -/
def gain (difference : Nat) : Estimate :=
  if difference ≤ 1 then 10
  else if difference ≤ 3 then 9
  else if difference ≤ 5 then 8
  else if difference ≤ 8 then 7
  else if difference ≤ 11 then 6
  else if difference ≤ 14 then 5
  else if difference ≤ 18 then 4
  else if difference ≤ 24 then 3
  else if difference ≤ 31 then 2
  else if difference ≤ 49 then 1
  else 0

/-- The estimate of the sum of two numbers. -/
def plus (a b : Estimate) : Estimate := max a b + gain (a - b).natAbs

/-- The estimate of the logarithm of a number. -/
def log (a : Estimate) : Estimate := if a ≤ 10 then 0 else ofNat a.toNat - 33

theorem plus_comm (a b : Estimate) : plus a b = plus b a := by
  unfold plus
  rw [Int.max_comm a b, show (a - b).natAbs = (b - a).natAbs by omega]

theorem gain_nonneg (n : Nat) : 0 ≤ gain n := by
  unfold gain
  split
  · decide
  repeat' split
  all_goals decide

/-- A sum is no less than either number. -/
theorem le_plus_left (a b : Estimate) : a ≤ plus a b :=
  Int.le_trans (Int.le_max_left a b) (Int.le_add_of_nonneg_right (gain_nonneg _))

end Estimate

end RecordQuery.Sql
