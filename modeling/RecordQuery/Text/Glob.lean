import RecordQuery.Text.Wildcard
/-!
# Patterns of SQL operators

The operator `LIKE` has the wildcards `%` and `_`, of which an escape character takes the meaning, and
passes over the case of ASCII letters. The operator `GLOB` has `*`, `?` and sets of characters in square
brackets. Both read a pattern as pieces (`Glob.likePieces?`, `Glob.pieces?`), which `Glob.accepts` matches
with a text.
-/

namespace RecordQuery.Text

/-- One piece of a pattern. -/
inductive Glob where
  | run
  /-- One character that a test admits. -/
  | one (admits : Char → Bool)

namespace Glob

/-- Whether the pieces cover the ends of the text, for each end from the whole text to the empty one. -/
def covers : List Glob → List Char → List Bool
  | [], cs => cs.map (fun _ => false) ++ [true]
  | .run :: ps, cs => Wildcard.fromLater (covers ps cs)
  | .one admits :: ps, cs => Wildcard.afterOne admits cs (covers ps cs).tail

/-- Whether the pieces cover the text from end to end. -/
def accepts (ps : List Glob) (cs : List Char) : Bool := (covers ps cs).headD false

/-- A character in either case. -/
def eitherCase (c : Char) : Glob := .one fun d => d.toLower == c.toLower

/-- The pieces of a `LIKE` pattern; the escape character must not stand at the end. -/
def likePieces? (escape : Option Char) : List Char → Option (List Glob)
  | [] => some []
  | c :: cs =>
    if some c = escape then
      match cs with
      | [] => none
      | d :: cs => (likePieces? escape cs).map (eitherCase d :: ·)
    else
      let piece : Glob := if c = '%' then .run else if c = '_' then .one fun _ => true else eitherCase c
      (likePieces? escape cs).map (piece :: ·)

/-- Whether a hyphen behind a member begins a range, from what follows it. -/
def opensRange (cs : List Char) : Bool := (cs.head?.map (· != ']')).getD false

/-- The ranges of a set up to its closing bracket, and what follows it. A hyphen behind a member (`before`)
opens the range from it (`low`) to the next character. -/
def ranges? : Option Char → Option Char → List Char → Option (List (Char × Char) × List Char)
  | _, _, [] => none
  | _, some low, c :: cs => (ranges? none none cs).map fun (rs, rest) => ((low, c) :: rs, rest)
  | before, none, c :: cs =>
    if c = ']' then some ([], cs)
    else
      match before, c == '-' && opensRange cs with
      | some low, true => ranges? none (some low) cs
      | _, _ => (ranges? (some c) none cs).map fun (rs, rest) => ((c, c) :: rs, rest)

/-- The test of a set behind its opening bracket, where a bracket in the first place is a member. -/
def set? (cs : List Char) : Option ((Char → Bool) × List Char) :=
  let (inverted, cs) := if cs.head? = some '^' then (true, cs.tail) else (false, cs)
  let (first, cs) : List (Char × Char) × List Char :=
    if cs.head? = some ']' then ([(']', ']')], cs.tail) else ([], cs)
  (ranges? none none cs).map fun (rs, rest) =>
    (fun d => ((first ++ rs).any fun (low, high) => low ≤ d && d ≤ high) != inverted, rest)

/-- The pieces of a `GLOB` pattern; `n` bounds their number. -/
def pieces? : Nat → List Char → Option (List Glob)
  | _, [] => some []
  | 0, _ => none
  | n + 1, c :: cs =>
    if c = '[' then do
      let (test, rest) ← set? cs
      let pieces ← pieces? n rest
      some (.one test :: pieces)
    else
      let piece : Glob :=
        if c = '*' then .run else if c = '?' then .one fun _ => true else .one (c == ·)
      (pieces? n cs).map (piece :: ·)

/-- Whether a text matches a `LIKE` pattern. -/
def isLike (escape : Option Char) (pattern text : List Char) : Bool :=
  ((likePieces? escape pattern).map (accepts · text)).getD false

/-- Whether a text matches a `GLOB` pattern. -/
def isGlob (pattern text : List Char) : Bool :=
  ((pieces? pattern.length pattern).map (accepts · text)).getD false

end Glob

end RecordQuery.Text
