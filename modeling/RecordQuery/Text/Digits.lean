/-!
# Decimal digits

The values of a digit and of a string of digits.
-/

namespace RecordQuery.Text

/-- The value of a decimal digit. -/
def digitValue (c : Char) : Nat := c.toNat - '0'.toNat

/-- The value of decimal digits. -/
def digitsValue (ds : List Char) : Nat :=
  ds.foldl (fun n c => n * 10 + digitValue c) 0

end RecordQuery.Text
