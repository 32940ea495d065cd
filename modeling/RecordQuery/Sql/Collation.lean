import RecordQuery.Text.Ascii
/-!
# Collations

A collation is an order of texts: by their characters (`binary`), by their characters with ASCII letters
in lower case (`noCase`), or by what is left without blanks at the end (`trimmed`).
-/

namespace RecordQuery.Sql

/-- The order of two naturally ordered values. -/
def order {α : Type} [LT α] [DecidableLT α] [DecidableEq α] (a b : α) : Ordering :=
  compareOfLessAndEq a b

/-- An order of texts. -/
inductive Collation where
  | binary
  | noCase
  | trimmed
  deriving DecidableEq

namespace Collation

/-- The collation of a name. -/
def named? (name : String) : Option Collation :=
  match Text.Ascii.lower name with
  | "binary" => some .binary
  | "nocase" => some .noCase
  | "rtrim" => some .trimmed
  | _ => none

/-- The number of bytes of characters. -/
def byteSize (cs : List Char) : Nat := cs.foldr (fun c size => c.utf8Size + size) 0

/-- The order of characters without regard to case. A null character ends the comparison, after which
the longer text is greater. -/
def compareFolded : List Char → List Char → Ordering
  | c :: cs, d :: ds =>
    if c.toLower = d.toLower then
      if c = '\x00' then order (byteSize cs) (byteSize ds) else compareFolded cs ds
    else order c.toLower d.toLower
  | cs, ds => order (byteSize cs) (byteSize ds)

/-- A text without blanks at the end. -/
def withoutEnd (s : String) : String :=
  String.ofList (s.toList.reverse.dropWhile (· == ' ')).reverse

/-- The order of two texts. -/
def compare : Collation → String → String → Ordering
  | .binary, s, t => order s t
  | .noCase, s, t => compareFolded s.toList t.toList
  | .trimmed, s, t => order (withoutEnd s) (withoutEnd t)

end Collation

end RecordQuery.Sql
