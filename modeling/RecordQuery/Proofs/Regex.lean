import RecordQuery.Text.Fold
/-!
# Regular expressions

As much of regular expressions as searching for whole texts takes: anchors, dots, literal characters, stars and
sequences, under two flags. `Regex.Takes` says which piece of a text an expression takes, from what stands before the
piece and after it. An expression matches a text if it takes some piece of it (`Regex.IsMatch`). `Regex.ofText?` reads
an expression from its text, and it reads no text in which a character has a meaning that is not among these.
-/

namespace RecordQuery.Text

/-- A regular expression. -/
inductive Regex where
  | start
  | stop
  | dot
  | letter (c : Char)
  | star (r : Regex)
  | empty
  | seq (r s : Regex)
  deriving DecidableEq

namespace Regex

/-- What the flags of an expression say: `i` ignores case, and with `s` a dot is a line break, too. -/
structure Flags where
  ignoresCase : Bool := false
  dotIsBreak : Bool := false
  deriving DecidableEq

/-! ## What an expression takes -/

/-- An expression takes a piece of a text, between what is before it and after it. The anchors are met at the ends of
the text only. -/
inductive Takes (flags : Flags) : Regex → List Char → List Char → List Char → Prop
  | start (after : List Char) : Takes flags .start [] [] after
  | stop (before : List Char) : Takes flags .stop before [] []
  | dot {c : Char} (before after : List Char) (h : c = '\n' → flags.dotIsBreak = true) :
    Takes flags .dot before [c] after
  | letter {c d : Char} (before after : List Char) (h : c = d ∨ flags.ignoresCase = true ∧ sameLetter c d = true) :
    Takes flags (.letter c) before [d] after
  | starNone (r : Regex) (before after : List Char) : Takes flags (.star r) before [] after
  | starMore {r : Regex} {before ds es after : List Char} (hfirst : Takes flags r before ds (es ++ after))
    (hrest : Takes flags (.star r) (before ++ ds) es after) : Takes flags (.star r) before (ds ++ es) after
  | empty (before after : List Char) : Takes flags .empty before [] after
  | seq {r s : Regex} {before ds es after : List Char} (hfirst : Takes flags r before ds (es ++ after))
    (hrest : Takes flags s (before ++ ds) es after) : Takes flags (.seq r s) before (ds ++ es) after

/-- An expression with its flags matches a text if it takes a piece of it. -/
def IsMatch (e : Flags × Regex) (text : List Char) : Prop :=
  ∃ before piece after, text = before ++ piece ++ after ∧ Takes e.1 e.2 before piece after

section takes

variable {flags : Flags} {r s : Regex} {c : Char} {before cs after : List Char}

theorem takes_start_iff : Takes flags .start before cs after ↔ before = [] ∧ cs = [] := by
  constructor
  · rintro ⟨⟩
    exact ⟨rfl, rfl⟩
  · rintro ⟨rfl, rfl⟩
    exact .start after

theorem takes_stop_iff : Takes flags .stop before cs after ↔ cs = [] ∧ after = [] := by
  constructor
  · rintro ⟨⟩
    exact ⟨rfl, rfl⟩
  · rintro ⟨rfl, rfl⟩
    exact .stop before

theorem takes_empty_iff : Takes flags .empty before cs after ↔ cs = [] := by
  constructor
  · rintro ⟨⟩
    rfl
  · rintro rfl
    exact .empty before after

theorem takes_dot_iff : Takes flags .dot before cs after ↔
    ∃ d, cs = [d] ∧ (d = '\n' → flags.dotIsBreak = true) := by
  constructor
  · rintro ⟨⟩
    exact ⟨_, rfl, ‹_›⟩
  · rintro ⟨d, rfl, h⟩
    exact .dot before after h

theorem takes_letter_iff : Takes flags (.letter c) before cs after ↔
    ∃ d, cs = [d] ∧ (c = d ∨ flags.ignoresCase = true ∧ sameLetter c d = true) := by
  constructor
  · rintro ⟨⟩
    exact ⟨_, rfl, ‹_›⟩
  · rintro ⟨d, rfl, h⟩
    exact .letter before after h

/-- A sequence takes what its parts take one after the other. -/
theorem takes_seq_iff : Takes flags (.seq r s) before cs after ↔
    ∃ ds es, cs = ds ++ es ∧ Takes flags r before ds (es ++ after) ∧ Takes flags s (before ++ ds) es after := by
  constructor
  · rintro ⟨⟩
    exact ⟨_, _, rfl, ‹_›, ‹_›⟩
  · rintro ⟨ds, es, rfl, hfirst, hrest⟩
    exact .seq hfirst hrest

/-- Where a dot is any character, any number of dots is any run of characters. -/
theorem takes_star_dot (h : flags.dotIsBreak = true) (before cs after : List Char) :
    Takes flags (.star .dot) before cs after := by
  induction cs generalizing before with
  | nil => exact .starNone .dot before after
  | cons c cs ih => exact .starMore (.dot before (cs ++ after) fun _ => h) (ih (before ++ [c]))

end takes

/-! ## Reading an expression -/

/-- A part of an expression's text: something to take, or the star behind it. -/
inductive Token where
  | atom (r : Regex)
  | star
  deriving DecidableEq

/-- Whether a character stands for itself behind a backslash. -/
def isEscapable (c : Char) : Bool := c.toNat < 128 && !c.isAlphanum && c != '<' && c != '>'

/-- What a character stands for. -/
def token? (c : Char) : Option Token :=
  if c = '^' then some (.atom .start)
  else if c = '$' then some (.atom .stop)
  else if c = '.' then some (.atom .dot)
  else if c = '*' then some .star
  else if c ∈ ['\\', '+', '?', '(', ')', '|', '[', '\x7b'] then none
  else some (.atom (.letter c))

/-- The parts of an expression's text. -/
def tokens? : List Char → Option (List Token)
  | [] => some []
  | '\\' :: c :: cs => if isEscapable c then (tokens? cs).map (.atom (.letter c) :: ·) else none
  | c :: cs => (token? c).bind fun token => (tokens? cs).map (token :: ·)

/-- The expression of the parts, where a star has something before it. -/
def ofTokens? : List Token → Option Regex
  | [] => some .empty
  | .atom r :: .star :: tokens => (ofTokens? tokens).map (.seq (.star r))
  | .atom r :: tokens => (ofTokens? tokens).map (.seq r)
  | .star :: _ => none

/-- Reads flags up to a closing bracket. -/
def flags? (flags : Flags) : List Char → Option (Flags × List Char)
  | ')' :: cs => some (flags, cs)
  | 'i' :: cs => flags? { flags with ignoresCase := true } cs
  | 's' :: cs => flags? { flags with dotIsBreak := true } cs
  | _ => none

/-- Reads an expression, with the flags that may stand at its front. -/
def ofText? (text : String) : Option (Flags × Regex) :=
  match text.toList with
  | '(' :: '?' :: cs => (flags? {} cs).bind fun (flags, cs) => ((tokens? cs).bind ofTokens?).map (flags, ·)
  | cs => ((tokens? cs).bind ofTokens?).map ({}, ·)

theorem tokens?_cons {c : Char} (h : c ≠ '\\') (cs : List Char) :
    tokens? (c :: cs) = (token? c).bind fun token => (tokens? cs).map (token :: ·) := by
  rw [tokens?]
  rintro c' cs' rfl
  exact absurd rfl h

theorem tokens?_escaped {c : Char} (h : isEscapable c = true) (cs : List Char) :
    tokens? ('\\' :: c :: cs) = (tokens? cs).map (.atom (.letter c) :: ·) := by
  rw [tokens?, if_pos h]

/-- What stands before no star is one part of a sequence. -/
theorem ofTokens?_atom {tokens : List Token} (h : tokens.head? ≠ some .star) (r : Regex) :
    ofTokens? (.atom r :: tokens) = (ofTokens? tokens).map (.seq r) := by
  rw [ofTokens?]
  rintro tokens' rfl
  exact absurd rfl h

end Regex

end RecordQuery.Text
