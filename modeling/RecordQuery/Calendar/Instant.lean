/-!
# Calendar dates and instants

A `Date` is a day of the Gregorian calendar, which is extended to all years, and an `Instant` is a
day with a time of day in UTC down to nanoseconds. Second 60 is a leap second. The fields are kept
within their ranges by the types, so instants are compared and written field by field.
-/

namespace RecordQuery

/-- Whether a year has a 29 February. -/
def isLeapYear (year : Int) : Bool :=
  year % 4 = 0 && (year % 100 ≠ 0 || year % 400 = 0)

/-- The number of days in a month. -/
def monthLength (year : Int) (month : Nat) : Nat :=
  match month with
  | 2 => if isLeapYear year then 29 else 28
  | 4 | 6 | 9 | 11 => 30
  | _ => 31

theorem monthLength_pos (year : Int) (month : Nat) : 1 ≤ monthLength year month := by
  unfold monthLength
  split <;> (try split) <;> decide

theorem monthLength_le (year : Int) (month : Nat) : monthLength year month ≤ 31 := by
  unfold monthLength
  split <;> (try split) <;> decide

/-- A day of the calendar. -/
structure Date where
  year : Int
  month : Nat
  day : Nat
  month_pos : 1 ≤ month
  month_le : month ≤ 12
  day_pos : 1 ≤ day
  day_le : day ≤ monthLength year month
  deriving DecidableEq

namespace Date

/-- The day with the given fields, if there is one. -/
def of? (year : Int) (month day : Nat) : Option Date :=
  if h : (1 ≤ month ∧ month ≤ 12) ∧ 1 ≤ day ∧ day ≤ monthLength year month then
    some ⟨year, month, day, h.1.1, h.1.2, h.2.1, h.2.2⟩
  else none

/-- The day after. -/
def next (d : Date) : Date :=
  if hd : d.day < monthLength d.year d.month then
    ⟨d.year, d.month, d.day + 1, d.month_pos, d.month_le, by omega, hd⟩
  else if hm : d.month < 12 then
    ⟨d.year, d.month + 1, 1, by omega, hm, by omega, monthLength_pos _ _⟩
  else ⟨d.year + 1, 1, 1, by omega, by omega, by omega, monthLength_pos _ _⟩

/-- The day before. -/
def previous (d : Date) : Date :=
  if hd : 1 < d.day then
    ⟨d.year, d.month, d.day - 1, d.month_pos, d.month_le, by omega,
      Nat.le_trans (Nat.sub_le _ _) d.day_le⟩
  else if hm : 1 < d.month then
    ⟨d.year, d.month - 1, monthLength d.year (d.month - 1), by omega,
      Nat.le_trans (Nat.sub_le _ _) d.month_le, monthLength_pos _ _, Nat.le_refl _⟩
  else ⟨d.year - 1, 12, 31, by omega, by omega, by omega, by simp [monthLength]⟩

end Date

/-- A moment in UTC. -/
structure Instant where
  date : Date
  hour : Nat
  minute : Nat
  second : Nat
  nano : Nat
  hour_lt : hour < 24
  minute_lt : minute < 60
  second_le : second ≤ 60
  nano_lt : nano < 1000000000
  deriving DecidableEq

namespace Instant

/-- The moment with the given day and time of day, if the time is one. -/
def of? (date : Date) (hour minute second nano : Nat) : Option Instant :=
  if h : (hour < 24 ∧ minute < 60) ∧ second ≤ 60 ∧ nano < 1000000000 then
    some ⟨date, hour, minute, second, nano, h.1.1, h.1.2, h.2.1, h.2.2⟩
  else none

/-- The moment that a clock shows which is `offset` minutes ahead of UTC. An offset is less than a
day, so the day moves by one at most. -/
def ofLocal (clock : Instant) (offset : Int) : Instant :=
  let minutes := Int.ofNat (clock.hour * 60 + clock.minute) - offset
  let date := if minutes < 0 then clock.date.previous
    else if 1440 ≤ minutes then clock.date.next else clock.date
  let minuteOfDay := (minutes % 1440).toNat
  { clock with
    date
    hour := minuteOfDay / 60
    minute := minuteOfDay % 60
    hour_lt := by omega
    minute_lt := by omega }

/-- The first day of the count of seconds that clocks keep. -/
def epochDate : Date := ⟨1970, 1, 1, by decide, by decide, by decide, by decide⟩

/-- The moment that lies a number of seconds and nanoseconds behind the start of the count. -/
def ofEpoch (seconds nanos : Nat) : Instant where
  date := Nat.repeat Date.next (seconds / 86400) epochDate
  hour := seconds % 86400 / 3600
  minute := seconds % 3600 / 60
  second := seconds % 60
  nano := nanos % 1000000000
  hour_lt := by omega
  minute_lt := by omega
  second_le := by omega
  nano_lt := Nat.mod_lt _ (by decide)

/-! ## Text -/

/-- A number with zeros in front up to a width. -/
def padded (width n : Nat) : List Char :=
  let ds := Nat.toDigits 10 n
  List.replicate (width - ds.length) '0' ++ ds

/-- Four digits for the years from 0 to 9999; other years carry a sign. -/
def yearText (year : Int) : List Char :=
  if 0 ≤ year && year ≤ 9999 then padded 4 year.toNat
  else (if year < 0 then '-' else '+') :: padded 4 year.natAbs

/-- The fields down to the second. -/
def secondsText (t : Instant) : List Char :=
  yearText t.date.year ++ '-' :: padded 2 t.date.month ++ '-' :: padded 2 t.date.day ++
    'T' :: padded 2 t.hour ++ ':' :: padded 2 t.minute ++ ':' :: padded 2 t.second

/-- The stored form of a moment: UTC with three decimals of the second, the rest cut off, and `Z`.
Within the years from 0 to 9999 all these texts are equally long, so they sort by time. -/
def text (t : Instant) : String :=
  String.ofList (secondsText t ++ '.' :: padded 3 (t.nano / 1000000) ++ ['Z'])

/-- The form with a numeric offset and as many groups of three decimals as the moment needs. -/
def offsetText (t : Instant) : String :=
  let fraction :=
    if t.nano = 0 then []
    else if t.nano % 1000000 = 0 then '.' :: padded 3 (t.nano / 1000000)
    else if t.nano % 1000 = 0 then '.' :: padded 6 (t.nano / 1000)
    else '.' :: padded 9 t.nano
  String.ofList (secondsText t ++ fraction ++ "+00:00".toList)

/-- The moment without what is finer than a millisecond. -/
def truncated (t : Instant) : Instant :=
  { t with
    nano := t.nano / 1000000 * 1000000
    nano_lt := Nat.lt_of_le_of_lt (Nat.div_mul_le_self _ _) t.nano_lt }

end Instant

end RecordQuery
