import RecordQuery.Decimal.Binary64
import RecordQuery.Json.Basic
import RecordQuery.Text.Digits
import RecordQuery.Word
/-!
# Reading JSON text

`Json.read?` accepts exactly one value between blanks. Nesting is bounded: `maxDepth` containers may
stand inside each other. A number with a point or an exponent, a negative zero and an integer beyond
64 bits become doubles. Their digits are collected while they fit an unsigned word, and the word is
multiplied or divided by a power of ten in double precision, so a long literal may miss the nearest
double; a number beyond the doubles is refused.
-/

namespace RecordQuery.Json

open Text (digitValue digitsValue)

/-- How deep containers may be nested. -/
def maxDepth : Nat := 127

/-- A reader takes a value off the front of a text. -/
abbrev Reader (α : Type) := List Char → Option (α × List Char)

/-- The blanks of JSON. -/
def isSpace (c : Char) : Bool :=
  c = ' ' || c = '\n' || c = '\t' || c = '\r'

/-- Drops blanks. -/
def skip (cs : List Char) : List Char := cs.dropWhile isSpace

/-- Drops a literal word. -/
def word? : List Char → List Char → Option (List Char)
  | [], cs => some cs
  | w :: ws, c :: cs => if c = w then word? ws cs else none
  | _ :: _, [] => none

/-! ## Numbers -/

/-- Collects digits while they fit a word: the word, how many were collected, and how many further
digits were left out. -/
def collect : Nat → List Char → Nat × Nat × Nat
  | acc, [] => (acc, 0, 0)
  | acc, c :: cs =>
    let next := acc * 10 + digitValue c
    if next ≤ Word.greatestUnsigned then
      let (word, taken, dropped) := collect next cs
      (word, taken + 1, dropped)
    else (acc, 0, cs.length + 1)

/-- A word times a power of ten in double precision. Powers beyond `10 ^ 308` are reached by repeated
division and are refused upwards. -/
def scale (x : Binary64) (e : Int) : Option Binary64 :=
  if e.natAbs ≤ 308 then
    let power := Binary64.ofDecimal false 1 e.natAbs
    if 0 ≤ e then
      let y := x.mul power
      if y.isFinite then some y else none
    else some (x.div power)
  else if x.isZero then some x
  else if 0 ≤ e then none
  else scale (x.div (Binary64.ofDecimal false 1 308)) (e + 308)
termination_by e.natAbs
decreasing_by omega

/-- The double that a word and a decimal exponent give. -/
def realOf (negative : Bool) (word : Nat) (e : Int) : Option Number :=
  (scale (Binary64.ofInt word) e).map fun x => .real (if negative then x.neg else x)

/-- The bounds of a 32-bit exponent. -/
def clampExponent (e : Int) : Int := max (-2147483648) (min 2147483647 e)

/-- The double that digits with an exponent give. An exponent of more than 32 bits is settled by its
sign. -/
def exponential (negative : Bool) (word : Nat) (e : Int) (negativeExponent : Bool)
    (digits : List Char) : Option Number :=
  let value := digitsValue digits
  if value ≤ 2147483647 then
    realOf negative word (clampExponent (if negativeExponent then e - value else e + value))
  else if word ≠ 0 && !negativeExponent then none
  else some (.real (Binary64.zero negative))

/-- The number that an integer without point or exponent gives. -/
def whole (negative : Bool) (word : Nat) : Number :=
  if negative then
    if word = 0 then .real (Binary64.zero true)
    else if Word.fits (-Int.ofNat word) then .integer (Int64.ofInt (-Int.ofNat word))
    else .real (Binary64.ofInt word).neg
  else if Word.fits word then .integer (Int64.ofNat word)
  else .large (UInt64.ofNat word)

/-- The rest of a number after its digits: an optional exponent. -/
def readExponent (negative : Bool) (word : Nat) (e : Int) : Reader Number
  | c :: cs =>
    if c = 'e' || c = 'E' then
      let (negativeExponent, cs) := match cs with
        | '+' :: cs => (false, cs)
        | '-' :: cs => (true, cs)
        | cs => (false, cs)
      let (digits, rest) := cs.span Char.isDigit
      if digits.isEmpty then none
      else (exponential negative word e negativeExponent digits).map (·, rest)
    else (realOf negative word e).map (·, c :: cs)
  | [] => (realOf negative word e).map (·, [])

/-- The rest of a number after its whole digits: an optional fraction and an optional exponent. -/
def readFraction (negative : Bool) (word : Nat) (dropped : Nat) : Reader Number
  | '.' :: cs =>
    let (digits, rest) := cs.span Char.isDigit
    if digits.isEmpty then none
    else
      let (word, taken, _) := collect word digits
      readExponent negative word (Int.ofNat dropped - taken) rest
  | 'e' :: cs => readExponent negative word dropped ('e' :: cs)
  | 'E' :: cs => readExponent negative word dropped ('E' :: cs)
  | cs =>
    if dropped = 0 then some (whole negative word, cs)
    else (realOf negative word dropped).map (·, cs)

/-- Reads a number. -/
def readNumber (cs : List Char) : Option (Number × List Char) :=
  let (negative, cs) := match cs with
    | '-' :: cs => (true, cs)
    | cs => (false, cs)
  let (digits, rest) := cs.span Char.isDigit
  match digits with
  | [] => none
  | '0' :: _ :: _ => none
  | digits =>
    let (word, _, dropped) := collect 0 digits
    readFraction negative word dropped rest

/-! ## Texts -/

/-- A hexadecimal digit's value. -/
def hexValue? (c : Char) : Option Nat :=
  if c.isDigit then some (digitValue c)
  else if 'a' ≤ c && c ≤ 'f' then some (c.toNat - 'a'.toNat + 10)
  else if 'A' ≤ c && c ≤ 'F' then some (c.toNat - 'A'.toNat + 10)
  else none

/-- Reads four hexadecimal digits. -/
def readUnit : Reader Nat
  | a :: b :: c :: d :: cs => do
    let a ← hexValue? a
    let b ← hexValue? b
    let c ← hexValue? c
    let d ← hexValue? d
    some (((a * 16 + b) * 16 + c) * 16 + d, cs)
  | _ => none

/-- The character after a backslash. A character beyond the first plane takes a pair of units; a
unit of a pair alone is refused. -/
def readEscape : Reader Char
  | '"' :: cs => some ('"', cs)
  | '\\' :: cs => some ('\\', cs)
  | '/' :: cs => some ('/', cs)
  | 'b' :: cs => some ('\x08', cs)
  | 'f' :: cs => some ('\x0c', cs)
  | 'n' :: cs => some ('\n', cs)
  | 'r' :: cs => some ('\r', cs)
  | 't' :: cs => some ('\t', cs)
  | 'u' :: cs => do
    let (high, cs) ← readUnit cs
    if 0xd800 ≤ high && high ≤ 0xdbff then
      match cs with
      | '\\' :: 'u' :: cs => do
        let (low, cs) ← readUnit cs
        if 0xdc00 ≤ low && low ≤ 0xdfff then
          some (Char.ofNat (0x10000 + (high - 0xd800) * 0x400 + (low - 0xdc00)), cs)
        else none
      | _ => none
    else if 0xdc00 ≤ high && high ≤ 0xdfff then none
    else some (Char.ofNat high, cs)
  | _ => none

/-- Reads the characters up to the closing quote. The first argument bounds their number. -/
def readChars : Nat → Reader (List Char)
  | 0, _ => none
  | _ + 1, [] => none
  | n + 1, c :: cs =>
    if c = '"' then some ([], cs)
    else if c = '\\' then do
      let (d, cs) ← readEscape cs
      let (ds, cs) ← readChars n cs
      some (d :: ds, cs)
    else if c.toNat < 0x20 then none
    else do
      let (ds, cs) ← readChars n cs
      some (c :: ds, cs)

/-- Reads a text, its opening quote already taken. -/
def readText (cs : List Char) : Option (String × List Char) :=
  (readChars cs.length cs).map fun (ds, cs) => (String.ofList ds, cs)

/-! ## Values -/

/-- Reads items and commas up to a closing bracket. The first argument bounds the number of items. -/
def readItems {α : Type} (item : Reader α) (close : Char) : Nat → Reader (List α)
  | 0, _ => none
  | n + 1, cs => do
    let (a, cs) ← item (skip cs)
    match skip cs with
    | [] => none
    | c :: cs =>
      if c = ',' then do
        let (as, cs) ← readItems item close n cs
        some (a :: as, cs)
      else if c = close then some ([a], cs)
      else none

/-- Reads the items of a container, its opening bracket already taken. -/
def readContainer {α : Type} (item : Reader α) (close : Char) (cs : List Char) :
    Option (List α × List Char) :=
  match skip cs with
  | [] => none
  | c :: rest => if c = close then some ([], rest) else readItems item close cs.length cs

/-- Reads a key, a colon and a value. -/
def readMember (value : Reader Json) : Reader (String × Json)
  | '"' :: cs => do
    let (key, cs) ← readText cs
    match skip cs with
    | ':' :: cs => do
      let (v, cs) ← value (skip cs)
      some ((key, v), cs)
    | _ => none
  | _ => none

/-- Reads a value, inside which `depth` containers may be nested. -/
def readValue (depth : Nat) : Reader Json
  | [] => none
  | c :: cs =>
    match c with
    | '"' => (readText cs).map fun (s, cs) => (.string s, cs)
    | '[' =>
      match depth with
      | 0 => none
      | depth + 1 => (readContainer (readValue depth) ']' cs).map fun (xs, cs) => (.array xs, cs)
    | '\x7b' =>
      match depth with
      | 0 => none
      | depth + 1 => (readContainer (readMember (readValue depth)) '\x7d' cs).map
          fun (ms, cs) => (.object (Members.ofList ms), cs)
    | 't' => (word? ['r', 'u', 'e'] cs).map fun cs => (.bool true, cs)
    | 'f' => (word? ['a', 'l', 's', 'e'] cs).map fun cs => (.bool false, cs)
    | 'n' => (word? ['u', 'l', 'l'] cs).map fun cs => (.null, cs)
    | c => (readNumber (c :: cs)).map fun (n, cs) => (.number n, cs)

/-- Reads a text that holds one value and blanks around it. -/
def read? (text : String) : Option Json := do
  let (value, rest) ← readValue maxDepth (skip text.toList)
  if (skip rest).isEmpty then some value else none

end RecordQuery.Json
