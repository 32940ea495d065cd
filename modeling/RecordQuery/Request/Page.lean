import RecordQuery.Word
/-!
# Pages

A page is a number, counted from one, and a size within limits. All counts are signed 64-bit
integers; the number of rows before a page stays at the greatest of them where it would pass it.
-/

namespace RecordQuery

/-- The size of a page that names none, and the greatest size. -/
structure PageLimits where
  standard : Int64 := 10
  greatest : Int64 := 100
  deriving DecidableEq

/-- A page. -/
structure Page where
  number : Int64
  size : Int64
  deriving DecidableEq

/-- What a listing says about its page. -/
structure PageSummary where
  total : Int64
  pageCount : Int64
  page : Int64
  deriving DecidableEq

namespace Page

/-- The page that is asked for: the first one unless a number is given, and at least one row. There
would be none if the bounds of its size were crossed, which they never are (`isSome_within?`). -/
def within? (limits : PageLimits) (number size : Option Int64) : Option Page :=
  (Word.between? 1 (max 1 limits.greatest) (size.getD limits.standard)).map fun size =>
    { number := max 1 (number.getD 1), size }

theorem exists_within?_eq (limits : PageLimits) (number size : Option Int64) :
    ∃ p, within? limits number size = some p ∧ p.number = max 1 (number.getD 1) ∧
      p.size.toInt = max 1 (min (max 1 limits.greatest.toInt) (size.getD limits.standard).toInt) := by
  obtain ⟨size, hbetween, hsize⟩ :=
    Word.between?_of_le (Word.le_max_left 1 limits.greatest) (size.getD limits.standard)
  rw [Word.toInt_max] at hsize
  exact ⟨_, by rw [within?, hbetween, Option.map_some], rfl, hsize⟩

theorem isSome_within? (limits : PageLimits) (number size : Option Int64) :
    (within? limits number size).isSome := by
  obtain ⟨p, hp, -⟩ := exists_within?_eq limits number size
  rw [hp, Option.isSome_some]

/-- The page that is asked for. -/
def within (limits : PageLimits) (number size : Option Int64) : Page :=
  (within? limits number size).get (isSome_within? limits number size)

/-- The number of rows before the page. -/
def skip (p : Page) : Int64 := Word.saturatingMul (p.number - 1) p.size

/-- The number of rows of the page. -/
def take (p : Page) : Int64 := p.size

/-- The number of pages that `total` rows fill, none of them for no rows. -/
def count (total size : Int64) : Int64 :=
  if total ≤ 0 || size ≤ 0 then 0 else (total + size - 1) / size

/-- What a listing of `total` rows says about the page. -/
def summary (p : Page) (total : Int64) : PageSummary :=
  ⟨total, count total p.size, p.number⟩

end Page

end RecordQuery
