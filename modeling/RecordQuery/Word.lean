/-!
# Ranges of machine words

The integers that a signed 64-bit word holds lie between `least` and `greatest`. `fits` tells them
from the others, and `clamp` takes the nearest one. The sums, differences and quotients of words wrap
around; `saturatingMul` is the product that does not.
-/

namespace RecordQuery.Word

/-- The least signed 64-bit integer. -/
def least : Int := -9223372036854775808

/-- The greatest signed 64-bit integer. -/
def greatest : Int := 9223372036854775807

/-- The greatest unsigned 64-bit integer. -/
def greatestUnsigned : Nat := 18446744073709551615

/-- The unsigned word whose only bit is that of the sign. -/
def signBit : Nat := 9223372036854775808

/-- Whether an integer is a signed 64-bit one. -/
def fits (i : Int) : Bool := least ≤ i && i ≤ greatest

/-- The signed 64-bit integer nearest to an integer. -/
def clamp (i : Int) : Int64 := Int64.ofInt (max least (min greatest i))

/-- The signed 64-bit integer nearest to a product. -/
def saturatingMul (a b : Int64) : Int64 := clamp (a.toInt * b.toInt)

/-- The word between two bounds that is nearest to `a`. There is none if the bounds are crossed. -/
def between? (low high a : Int64) : Option Int64 :=
  if low ≤ high then some (if a < low then low else if high < a then high else a) else none

theorem fits_iff {i : Int} : fits i = true ↔ least ≤ i ∧ i ≤ greatest := by
  simp [fits]

theorem toInt_ofInt_of_fits {i : Int} (h : fits i = true) : (Int64.ofInt i).toInt = i := by
  obtain ⟨hl, hg⟩ := fits_iff.1 h
  unfold least at hl
  unfold greatest at hg
  exact Int64.toInt_ofInt_of_le (by omega) (by omega)

theorem toInt_clamp (i : Int) : (clamp i).toInt = max least (min greatest i) := by
  refine toInt_ofInt_of_fits (fits_iff.2 ?_)
  unfold least greatest
  omega

theorem toInt_max (a b : Int64) : (max a b).toInt = max a.toInt b.toInt := by
  have hmax : max a b = if a ≤ b then b else a := rfl
  rw [hmax]
  split
  next h => exact (Int.max_eq_right (Int64.le_iff_toInt_le.1 h)).symm
  next h => exact (Int.max_eq_left (Int.le_of_not_le (mt Int64.le_iff_toInt_le.2 h))).symm

theorem le_max_left (a b : Int64) : a ≤ max a b := by
  rw [Int64.le_iff_toInt_le, toInt_max]
  exact Int.le_max_left _ _

theorem le_max_right (a b : Int64) : b ≤ max a b := by
  rw [Int64.le_iff_toInt_le, toInt_max]
  exact Int.le_max_right _ _

theorem between?_of_le {low high : Int64} (h : low ≤ high) (a : Int64) :
    ∃ b, between? low high a = some b ∧ b.toInt = max low.toInt (min high.toInt a.toInt) := by
  refine ⟨_, if_pos h, ?_⟩
  have hbounds := Int64.le_iff_toInt_le.1 h
  split
  next hlow =>
    have hlow := Int64.lt_iff_toInt_lt.1 hlow
    omega
  next hlow =>
    have hlow := mt Int64.lt_iff_toInt_lt.2 hlow
    split
    next hhigh =>
      have hhigh := Int64.lt_iff_toInt_lt.1 hhigh
      omega
    next hhigh =>
      have hhigh := mt Int64.lt_iff_toInt_lt.2 hhigh
      omega

end RecordQuery.Word
