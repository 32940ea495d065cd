import RecordQuery.Text.Fold
/-!
# Wildcard patterns

In a pattern `%` stands for any run of characters and `_` for any one character; every other
character stands for itself in either case. `Wildcard.read` gives the pieces of a pattern,
`Wildcard.accepts` decides whether they cover a text, and `Wildcard.expression` writes them as an
anchored regular expression, in which every character with a meaning of its own is escaped.
-/

namespace RecordQuery.Text

/-- One piece of a pattern. -/
inductive Wildcard where
  | run
  | one
  | letter (c : Char)
  deriving DecidableEq

namespace Wildcard

/-- The piece that a character of a pattern stands for. -/
def ofChar (c : Char) : Wildcard :=
  if c = '%' then .run else if c = '_' then .one else .letter c

/-- The pieces of a pattern, one per character. -/
def read (pattern : String) : List Wildcard :=
  pattern.toList.map ofChar

/-- A piece with its letter folded. -/
def folded : Wildcard → Wildcard
  | .letter c => .letter (fold c)
  | piece => piece

/-- The answers for the ends of a text, where a run may also begin at any later end. -/
def fromLater : List Bool → List Bool
  | [] => []
  | b :: bs =>
    let later := fromLater bs
    (b || later.headD false) :: later

/-- The answers for the ends of a text that begin with a character, from the answers for the ends after
it. -/
def afterOne (admits : Char → Bool) : List Char → List Bool → List Bool
  | c :: cs, b :: bs => (admits c && b) :: afterOne admits cs bs
  | _, _ => [false]

/-- Whether the pieces cover the ends of the text, for each end from the whole text to the empty one. -/
def covers : List Wildcard → List Char → List Bool
  | [], cs => cs.map (fun _ => false) ++ [true]
  | .run :: ps, cs => fromLater (covers ps cs)
  | .one :: ps, cs => afterOne (fun _ => true) cs (covers ps cs).tail
  | .letter p :: ps, cs => afterOne (p == ·) cs (covers ps cs).tail

/-- Whether the pieces cover the text from end to end. -/
def accepts (ps : List Wildcard) (cs : List Char) : Bool :=
  (covers (ps.map folded) (cs.map fold)).headD false

/-! ## One piece at a time -/

@[simp] theorem length_fromLater (bs : List Bool) : (fromLater bs).length = bs.length := by
  induction bs with
  | nil => rfl
  | cons b bs ih => simp [fromLater, ih]

@[simp] theorem length_afterOne (admits : Char → Bool) (cs : List Char) (bs : List Bool) :
    (afterOne admits cs bs).length = min cs.length bs.length + 1 := by
  induction cs generalizing bs with
  | nil => simp [afterOne]
  | cons c cs ih => cases bs with
    | nil => simp [afterOne]
    | cons b bs => simp [afterOne, ih]

/-- There is one answer for each end of the text. -/
@[simp] theorem length_covers (ps : List Wildcard) (cs : List Char) :
    (covers ps cs).length = cs.length + 1 := by
  induction ps with
  | nil => simp [covers]
  | cons p ps ih => cases p <;> simp [covers, ih]

theorem covers_eq_cons (ps : List Wildcard) (cs : List Char) :
    ∃ b bs, covers ps cs = b :: bs :=
  List.exists_cons_of_length_pos (by simp)

/-- The answers for the ends of a text are those for each end as a text of its own. -/
theorem tail_covers_cons (ps : List Wildcard) (c : Char) (cs : List Char) :
    (covers ps (c :: cs)).tail = covers ps cs := by
  induction ps with
  | nil => simp [covers]
  | cons p ps ih =>
    obtain ⟨b, bs, h⟩ := covers_eq_cons ps cs
    cases p with
    | run =>
      simp only [covers]
      rw [← ih]
      cases covers ps (c :: cs) <;> rfl
    | one => simp only [covers, ih, h]; rfl
    | letter p => simp only [covers, ih, h]; rfl

/-- No piece covers the empty text only. -/
theorem accepts_nil (cs : List Char) : accepts [] cs = cs.isEmpty := by
  cases cs <;> simp [accepts, covers]

theorem accepts_run_nil (ps : List Wildcard) : accepts (.run :: ps) [] = accepts ps [] := by
  obtain ⟨b, hb⟩ : ∃ b, covers (ps.map folded) [] = [b] := List.length_eq_one_iff.1 (by simp)
  simp [accepts, folded, covers, hb, fromLater]

/-- A run covers what the pieces after it cover, and one character more than itself. -/
theorem accepts_run_cons (ps : List Wildcard) (c : Char) (cs : List Char) :
    accepts (.run :: ps) (c :: cs) = (accepts ps (c :: cs) || accepts (.run :: ps) cs) := by
  obtain ⟨b, bs, h⟩ := covers_eq_cons (ps.map folded) (fold c :: cs.map fold)
  have ht : covers (ps.map folded) (cs.map fold) = bs := by
    rw [← tail_covers_cons (ps.map folded) (fold c), h, List.tail_cons]
  simp [accepts, folded, covers, h, ht, fromLater]

theorem accepts_one_nil (ps : List Wildcard) : accepts (.one :: ps) [] = false := by
  simp [accepts, folded, covers, afterOne]

/-- A single character is taken whatever it is. -/
theorem accepts_one_cons (ps : List Wildcard) (c : Char) (cs : List Char) :
    accepts (.one :: ps) (c :: cs) = accepts ps cs := by
  obtain ⟨b, bs, h⟩ := covers_eq_cons (ps.map folded) (cs.map fold)
  simp [accepts, folded, covers, tail_covers_cons, h, afterOne]

theorem accepts_letter_nil (p : Char) (ps : List Wildcard) :
    accepts (.letter p :: ps) [] = false := by
  simp [accepts, folded, covers, afterOne]

/-- A letter takes one character that is the same up to case. -/
theorem accepts_letter_cons (p : Char) (ps : List Wildcard) (c : Char) (cs : List Char) :
    accepts (.letter p :: ps) (c :: cs) = (sameLetter p c && accepts ps cs) := by
  have hs : sameLetter p c = (fold p == fold c) :=
    Bool.eq_iff_iff.2 (by rw [sameLetter_iff, beq_iff_eq])
  obtain ⟨b, bs, h⟩ := covers_eq_cons (ps.map folded) (cs.map fold)
  simp [accepts, folded, covers, tail_covers_cons, h, afterOne, hs]

/-! ## As a regular expression -/

/-- The characters that regular expressions give a meaning to. -/
def special : List Char :=
  ['\\', '.', '+', '*', '?', '(', ')', '|', '[', ']', '\x7b', '\x7d', '^', '$', '#', '&', '-', '~']

/-- A piece as a regular expression. -/
def pieceExpression : Wildcard → List Char
  | .run => ['.', '*']
  | .one => ['.']
  | .letter c => if c ∈ special then ['\\', c] else [c]

/-- The pieces as a regular expression for whole texts, in which case is ignored and a dot stands
for line breaks too. -/
def expression (ps : List Wildcard) : String :=
  "(?is)^" ++ String.ofList (ps.flatMap pieceExpression) ++ "$"

end Wildcard

end RecordQuery.Text
