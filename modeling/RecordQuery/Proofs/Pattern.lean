import Mathlib.Data.List.Basic
import RecordQuery.Text.Wildcard
/-!
# Reading the regular expression of a pattern

The expressions that patterns are written as are read back (`Wildcard.ofExpression?`): case is ignored, a
dot is any character, a star behind it makes it a run, and a character with a meaning of its own stands for
itself behind a backslash. Other expressions are not read.
-/

namespace RecordQuery.Text.Wildcard

/-- The pieces of an expression behind its beginning. -/
def readBody? : List Char → Option (List Wildcard)
  | ['$'] => some []
  | '.' :: '*' :: cs => (readBody? cs).map (.run :: ·)
  | '.' :: cs => (readBody? cs).map (.one :: ·)
  | '\\' :: c :: cs => if c ∈ special then (readBody? cs).map (.letter c :: ·) else none
  | c :: cs => if c ∈ special then none else (readBody? cs).map (.letter c :: ·)
  | [] => none

/-- The pieces of an expression for whole texts in which case is ignored and a dot stands for line breaks
too. -/
def ofExpression? (e : String) : Option (List Wildcard) :=
  ("(?is)^".toList.isPrefixOf? e.toList).bind readBody?

theorem readBody?_one {cs : List Char} (h : cs.head? ≠ some '*') :
    readBody? ('.' :: cs) = (readBody? cs).map (.one :: ·) := by
  rcases cs with _ | ⟨c, cs⟩
  · simp [readBody?]
  · by_cases hc : c = '*'
    · simp [hc] at h
    · simp [readBody?, hc]

theorem readBody?_letter {c : Char} (hc : c ∉ special) (cs : List Char) :
    readBody? (c :: cs) = (readBody? cs).map (.letter c :: ·) := by
  have h : ∀ d ∈ special, c ≠ d := fun d hd e => hc (e ▸ hd)
  have hdot : c ≠ '.' := h '.' (by decide)
  have hslash : c ≠ '\\' := h '\\' (by decide)
  have hend : c ≠ '$' := h '$' (by decide)
  simp [readBody?, hdot, hslash, hend, hc]

/-- What pieces are written as does not begin with a star. -/
theorem head?_pieces_ne (ps : List Wildcard) :
    (ps.flatMap pieceExpression ++ ['$']).head? ≠ some '*' := by
  rcases ps with _ | ⟨p, ps⟩
  · decide
  · cases p with
    | run => simp [pieceExpression]
    | one => simp [pieceExpression]
    | letter c =>
      by_cases hc : c ∈ special
      · simp [pieceExpression, hc]
      · have h : c ≠ '*' := fun e => hc (e ▸ by decide)
        simp [pieceExpression, hc, h]

/-- The body of an expression is read as the pieces that it was written from. -/
theorem readBody?_pieces (ps : List Wildcard) :
    readBody? (ps.flatMap pieceExpression ++ ['$']) = some ps := by
  induction ps with
  | nil => rfl
  | cons p ps ih =>
    rw [List.flatMap_cons, List.append_assoc]
    cases p with
    | run => simp [pieceExpression, readBody?, ih]
    | one => simp [pieceExpression, readBody?_one (head?_pieces_ne ps), ih]
    | letter c =>
      by_cases hc : c ∈ special
      · simp [pieceExpression, hc, readBody?, ih]
      · simp [pieceExpression, hc, readBody?_letter hc, ih]

/-- An expression is read as the pieces that it was written from. -/
theorem ofExpression?_expression (ps : List Wildcard) : ofExpression? (expression ps) = some ps := by
  simpa [ofExpression?, expression, List.isPrefixOf?] using readBody?_pieces ps

end RecordQuery.Text.Wildcard
