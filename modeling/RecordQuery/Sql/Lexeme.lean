import RecordQuery.Decimal.Extended
import RecordQuery.Text.Ascii
/-!
# Lexemes of SQL text

The words of a statement as they are read, blanks and comments left out. `Lexeme.take?` takes one off
the front of a text and `Lexeme.read` takes all. Where a text ends inside quotes, or a character stands
that no lexeme begins with, the rest is unreadable.
-/

namespace RecordQuery.Sql

open Text (digitsValue)

/-- One word of a statement. -/
inductive Lexeme where
  /-- A keyword or a bare name. -/
  | word (s : String)
  /-- A name in double quotes, which may also stand for a text. -/
  | quoted (s : String)
  /-- A name in other quotes or in square brackets. -/
  | bracketed (s : String)
  /-- A text in single quotes. -/
  | text (s : String)
  | blob (bytes : List UInt8)
  /-- A decimal integer without its sign, however large. -/
  | integer (digits : List Char)
  /-- A hexadecimal integer. -/
  | hexadecimal (digits : List Char)
  /-- A decimal number with a point or an exponent. -/
  | real (literal : Literal)
  /-- A place for a bound value. -/
  | parameter
  /-- An operator or a mark. -/
  | mark (s : String)
  /-- What cannot be read; nothing follows it. -/
  | unreadable

namespace Lexeme

/-! ## Characters -/

/-- The characters between lexemes. -/
def isSpace (c : Char) : Bool :=
  c = ' ' || c = '\t' || c = '\n' || c = '\r' || c = '\x0c'

/-- The characters that a bare name may begin with. -/
def isNameStart (c : Char) : Bool := c.isAlpha || c = '_' || 0x80 ≤ c.toNat

/-- The characters of bare names. -/
def isNamePart (c : Char) : Bool := isNameStart c || c.isDigit || c = '$'

/-- The digits of hexadecimal numbers. -/
def isHexDigit (c : Char) : Bool :=
  c.isDigit || ('a' ≤ c.toLower && c.toLower ≤ 'f')

/-- The value of a hexadecimal digit. -/
def hexValue (c : Char) : Nat :=
  if c.isDigit then c.toNat - '0'.toNat else c.toLower.toNat - 'a'.toNat + 10

/-- The character that separates groups of digits. -/
def separator : Char := '_'

/-! ## Parts -/

/-- Takes a text up to a closing quote, where a doubled quote is a single one. -/
def takeQuoted? (quote : Char) : List Char → Option (List Char × List Char)
  | [] => none
  | [c] => if c = quote then some ([], []) else none
  | c :: d :: cs =>
    if c = quote then
      if d = quote then (takeQuoted? quote cs).map fun (s, rest) => (quote :: s, rest)
      else some ([], d :: cs)
    else (takeQuoted? quote (d :: cs)).map fun (s, rest) => (c :: s, rest)

/-- Takes a text up to a closing bracket. -/
def takeBracketed? : List Char → Option (List Char × List Char)
  | [] => none
  | c :: cs =>
    if c = ']' then some ([], cs) else (takeBracketed? cs).map fun (s, rest) => (c :: s, rest)

/-- What follows a comment, which may also end with the text. -/
def afterComment : List Char → List Char
  | '*' :: '/' :: cs => cs
  | _ :: cs => afterComment cs
  | [] => []

/-- Whether each separator stands between two digits. -/
def isGrouped (isDigit : Char → Bool) : List Char → Bool
  | c :: d :: cs =>
    (c != separator || isDigit d) && (d != separator || isDigit c) && isGrouped isDigit (d :: cs)
  | [c] => c != separator
  | [] => true

/-- Takes digits and separators. -/
def takeGroup (isDigit : Char → Bool) (cs : List Char) : List Char × List Char :=
  cs.span fun c => isDigit c || c = separator

/-- Digits without separators. -/
def digitsOf (cs : List Char) : List Char := cs.filter (· != separator)

/-- Takes an exponent, if a complete one stands at the front. -/
def takeExponent : List Char → Option (Int × List Char × List Char)
  | c :: cs =>
    let (negative, ds) := Literal.takeSign cs
    let (group, rest) := takeGroup Char.isDigit ds
    if Literal.isExponentMark c && (group.head?.map Char.isDigit).getD false then
      some (Literal.signed negative (digitsOf group), group, rest)
    else none
  | [] => none

/-- A lexeme, unless a name goes on right behind it. -/
def closed (lexeme : Lexeme) (rest : List Char) : Option (Lexeme × List Char) :=
  if (rest.head?.map isNamePart).getD false then none else some (lexeme, rest)

/-- Takes a number. -/
def takeNumber? (cs : List Char) : Option (Lexeme × List Char) :=
  let decimal : Option (Lexeme × List Char) :=
    let (whole, rest) := takeGroup Char.isDigit cs
    let (fraction, hasPoint, rest) := match rest with
      | '.' :: rest =>
        let (fraction, rest) := takeGroup Char.isDigit rest
        (fraction, true, rest)
      | rest => ([], false, rest)
    let (exponent, group, hasExponent, rest) := match takeExponent rest with
      | some (e, group, rest) => (e, group, true, rest)
      | none => (0, [], false, rest)
    if !(isGrouped Char.isDigit whole && isGrouped Char.isDigit fraction &&
        isGrouped Char.isDigit group) then none
    else if hasPoint || hasExponent then
      closed (.real ⟨false, digitsOf whole, digitsOf fraction, exponent⟩) rest
    else closed (.integer (digitsOf whole)) rest
  match cs with
  | '0' :: x :: d :: rest =>
    if (x = 'x' || x = 'X') && isHexDigit d then
      let (group, rest) := takeGroup isHexDigit (d :: rest)
      if isGrouped isHexDigit group then closed (.hexadecimal (digitsOf group)) rest else none
    else decimal
  | _ => decimal

/-- The bytes that pairs of hexadecimal digits stand for. -/
def bytes? : List Char → Option (List UInt8)
  | [] => some []
  | c :: d :: cs =>
    if isHexDigit c && isHexDigit d then
      (bytes? cs).map (UInt8.ofNat (hexValue c * 16 + hexValue d) :: ·)
    else none
  | [_] => none

/-- The marks of two and three characters, longer ones first. -/
def longMarks : List String :=
  ["->>", "->", "||", "==", "<=", "<>", "<<", ">=", ">>", "!="]

/-- The marks of one character. -/
def shortMarks : List Char :=
  ['(', ')', ',', ';', '.', '+', '-', '*', '/', '%', '=', '<', '>', '|', '&', '~']

/-- Takes a mark. -/
def takeMark? (cs : List Char) : Option (Lexeme × List Char) :=
  match longMarks.find? fun m => m.toList.isPrefixOf cs with
  | some m => some (.mark m, cs.drop m.length)
  | none =>
    match cs with
    | c :: rest => if shortMarks.contains c then some (.mark (String.singleton c), rest) else none
    | [] => none

/-! ## Lexemes -/

/-- Takes one lexeme off the front of a text that does not begin with a space or a comment. -/
def take? : List Char → Option (Lexeme × List Char)
  | [] => none
  | '\'' :: cs => (takeQuoted? '\'' cs).map fun (s, rest) => (.text (String.ofList s), rest)
  | '"' :: cs => (takeQuoted? '"' cs).map fun (s, rest) => (.quoted (String.ofList s), rest)
  | '\x60' :: cs => (takeQuoted? '\x60' cs).map fun (s, rest) => (.bracketed (String.ofList s), rest)
  | '[' :: cs => (takeBracketed? cs).map fun (s, rest) => (.bracketed (String.ofList s), rest)
  | '?' :: cs => some (.parameter, cs.dropWhile Char.isDigit)
  | c :: cs =>
    if [':', '@', '$', '#'].contains c then
      if (cs.head?.map isNamePart).getD false then some (.parameter, cs.dropWhile isNamePart)
      else none
    else if c.isDigit || (c = '.' && (cs.head?.map Char.isDigit).getD false) then
      takeNumber? (c :: cs)
    else if isNameStart c then
      match cs with
      | '\'' :: rest =>
        if c = 'x' || c = 'X' then do
          let (digits, rest) ← takeQuoted? '\'' rest
          let bytes ← bytes? digits
          some (.blob bytes, rest)
        else some (.word (String.singleton c), cs)
      | cs =>
        let (name, rest) := (c :: cs).span isNamePart
        some (.word (String.ofList name), rest)
    else takeMark? (c :: cs)

/-- A text without spaces and comments at its front; `n` bounds their number. -/
def skip : Nat → List Char → List Char
  | 0, cs => cs
  | n + 1, cs =>
    match cs with
    | '-' :: '-' :: rest => skip n (rest.dropWhile (· != '\n'))
    | '/' :: '*' :: c :: rest => skip n (afterComment (c :: rest))
    | '\ufeff' :: rest => skip n rest
    | c :: rest =>
      if isSpace c then skip n (rest.dropWhile fun c => isSpace c || c = '\x0b') else c :: rest
    | [] => []

/-- The lexemes of a text; `n` bounds their number. -/
def readAll : Nat → List Char → List Lexeme
  | 0, _ => [.unreadable]
  | n + 1, cs =>
    match skip cs.length cs with
    | [] => []
    | cs =>
      match take? cs with
      | some (lexeme, rest) => lexeme :: readAll n rest
      | none => [.unreadable]

/-- The lexemes of a text, which a null character ends. -/
def read (s : String) : List Lexeme :=
  let cs := s.toList.takeWhile (· != '\x00')
  readAll (cs.length + 1) cs

/-- Whether a lexeme is a keyword. -/
def isKeyword (keyword : String) : Lexeme → Bool
  | .word s => Text.Ascii.upper s == keyword
  | _ => false

/-- Whether a lexeme is a mark. -/
def isMark (mark : String) : Lexeme → Bool
  | .mark s => s == mark
  | _ => false

end Lexeme

end RecordQuery.Sql
