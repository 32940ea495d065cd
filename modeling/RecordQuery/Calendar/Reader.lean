import RecordQuery.Calendar.Instant
import RecordQuery.Decimal.Power
import RecordQuery.Text.Blank
import RecordQuery.Text.Digits
/-!
# Reading dates and times

`Instant.ofRfc3339?` reads a date, a time and an offset, all with fixed widths. `Instant.read?` also
takes a date and a time without offset, which is then UTC, and a date alone, which is its midnight;
there the fields of the time have one or two digits with blanks before them, and the seconds may be
missing after a `T`.
-/

namespace RecordQuery.Instant

open Text (digitsValue trimStart)

/-- Takes exactly `width` digits. -/
def fixed? (width : Nat) (cs : List Char) : Option (Nat × List Char) :=
  let ds := cs.take width
  if ds.length = width && ds.all Char.isDigit then some (digitsValue ds, cs.drop width) else none

/-- Takes a character. -/
def char? (c : Char) : List Char → Option (List Char)
  | [] => none
  | d :: cs => if d = c then some cs else none

/-- Takes one or two digits after blanks. -/
def field? (cs : List Char) : Option (Nat × List Char) :=
  match trimStart cs with
  | a :: b :: cs =>
    if a.isDigit then
      if b.isDigit then some (digitsValue [a, b], cs) else some (digitsValue [a], b :: cs)
    else none
  | [a] => if a.isDigit then some (digitsValue [a], []) else none
  | [] => none

/-- Takes a fraction of a second, if there is a point; digits after the ninth are dropped. -/
def fraction? : List Char → Option (Nat × List Char)
  | '.' :: cs =>
    let (ds, rest) := cs.span Char.isDigit
    let kept := ds.take 9
    if ds.isEmpty then none else some (digitsValue kept * tenTo (9 - kept.length), rest)
  | cs => some (0, cs)

/-- Takes a date of fixed width. -/
def date? (cs : List Char) : Option (Date × List Char) := do
  let (year, cs) ← fixed? 4 cs
  let cs ← char? '-' cs
  let (month, cs) ← fixed? 2 cs
  let cs ← char? '-' cs
  let (day, cs) ← fixed? 2 cs
  let date ← Date.of? year month day
  some (date, cs)

/-- Reads an offset from UTC in minutes, up to the end. The sign may be the typographic minus. -/
def offset? : List Char → Option Int
  | ['Z'] => some 0
  | ['z'] => some 0
  | sign :: cs => do
    let (hours, cs) ← fixed? 2 cs
    let cs ← char? ':' cs
    let (minutes, cs) ← fixed? 2 cs
    if cs.isEmpty && hours < 24 && minutes < 60 then
      if sign = '+' then some (Int.ofNat (hours * 60 + minutes))
      else if sign = '-' || sign = '\u2212' then some (-Int.ofNat (hours * 60 + minutes))
      else none
    else none
  | [] => none

/-- Reads what follows the date of a moment with an offset. -/
def zonedTime? (date : Date) : List Char → Option Instant
  | [] => none
  | mark :: cs => do
    if mark = 'T' || mark = 't' || mark = ' ' then
      let (hour, cs) ← fixed? 2 cs
      let cs ← char? ':' cs
      let (minute, cs) ← fixed? 2 cs
      let cs ← char? ':' cs
      let (second, cs) ← fixed? 2 cs
      let (nano, cs) ← fraction? cs
      let offset ← offset? cs
      let clock ← of? date hour minute second nano
      some (clock.ofLocal offset)
    else none

/-- Reads an hour, a minute, a second and an optional fraction, up to the end. -/
def fullTime? (date : Date) (cs : List Char) : Option Instant := do
  let (hour, cs) ← field? cs
  let cs ← char? ':' cs
  let (minute, cs) ← field? cs
  let cs ← char? ':' cs
  let (second, cs) ← field? cs
  let (nano, cs) ← fraction? cs
  if cs.isEmpty then of? date hour minute second nano else none

/-- Reads an hour and a minute, up to the end. -/
def shortTime? (date : Date) (cs : List Char) : Option Instant := do
  let (hour, cs) ← field? cs
  let cs ← char? ':' cs
  let (minute, cs) ← field? cs
  if cs.isEmpty then of? date hour minute 0 0 else none

/-- Reads what follows the date of a moment without an offset. Blanks may stand for the `T` if there
are seconds. -/
def plainTime? (date : Date) : List Char → Option Instant
  | [] => of? date 0 0 0 0
  | 'T' :: cs => fullTime? date cs <|> shortTime? date cs
  | cs => fullTime? date cs

/-- The moment that a text in the format of RFC 3339 gives. -/
def ofRfc3339? (s : String) : Option Instant := do
  let (date, cs) ← date? s.toList
  zonedTime? date cs

/-- The moment that a text gives which starts with a date. -/
def read? (s : String) : Option Instant := do
  let (date, cs) ← date? s.toList
  zonedTime? date cs <|> plainTime? date cs

end RecordQuery.Instant
