import Mathlib.Data.List.Forall2
import RecordQuery.Proofs.Form.Patterns
import RecordQuery.Proofs.Membership
import RecordQuery.Proofs.Regex
/-!
# What patterns match

A pattern matches a text that can be cut into pieces, one for each character of the pattern (`Text.IsCut`). The
regular expression that a pattern is written as matches just these texts (`Wildcard.isMatch_expression_iff`), and so
does the pattern itself (`Wildcard.accepts_iff`). Then the operators that look for a text find the texts that hold it,
start with it or end with it in either case, if it has no wildcard of its own (`TextOperator.isCut_pattern_iff`).
`TextOperator.finds_by_expression` puts both together.
-/

namespace RecordQuery

namespace Text

/-! ## Texts cut into pieces -/

/-- Whether a character of a pattern takes a piece of a text. -/
def Taken (c : Char) (piece : List Char) : Prop :=
  if c = '%' then True
  else if c = '_' then ∃ d, piece = [d]
  else ∃ d, piece = [d] ∧ fold c = fold d

/-- Whether a text can be cut into pieces, one for each character of a pattern. -/
def IsCut (pattern text : List Char) : Prop := ∃ pieces, List.Forall₂ Taken pattern pieces ∧ pieces.flatten = text

/-- Whether two texts are the same up to case. -/
def SameText (u v : List Char) : Prop := List.Forall₂ (fun c d => fold c = fold d) u v

variable {c : Char} {pattern more text piece u : List Char}

theorem taken_one_iff : Taken '_' piece ↔ ∃ d, piece = [d] := Iff.rfl

theorem taken_letter_iff (hrun : c ≠ '%') (hone : c ≠ '_') :
    Taken c piece ↔ ∃ d, piece = [d] ∧ fold c = fold d := by
  rw [Taken, if_neg hrun, if_neg hone]

theorem isCut_nil_iff : IsCut [] text ↔ text = [] := by
  constructor
  · rintro ⟨pieces, hpieces, rfl⟩
    cases hpieces
    rfl
  · rintro rfl
    exact ⟨[], .nil, rfl⟩

/-- The first character takes a piece at the front, and the others take the rest. -/
theorem isCut_cons_iff : IsCut (c :: pattern) text ↔
    ∃ piece rest, text = piece ++ rest ∧ Taken c piece ∧ IsCut pattern rest := by
  constructor
  · rintro ⟨_, hpieces, rfl⟩
    obtain ⟨piece, pieces, hpiece, hrest, rfl⟩ := List.forall₂_cons_left_iff.1 hpieces
    exact ⟨piece, pieces.flatten, rfl, hpiece, pieces, hrest, rfl⟩
  · rintro ⟨piece, _, rfl, hpiece, pieces, hpieces, rfl⟩
    exact ⟨piece :: pieces, .cons hpiece hpieces, rfl⟩

theorem isCut_append_iff : IsCut (pattern ++ more) text ↔
    ∃ front rest, text = front ++ rest ∧ IsCut pattern front ∧ IsCut more rest := by
  induction pattern generalizing text with
  | nil => simp [isCut_nil_iff]
  | cons c pattern ih =>
    simp only [List.cons_append, isCut_cons_iff, ih]
    constructor
    · rintro ⟨piece, _, rfl, hpiece, front, rest, rfl, hfront, hrest⟩
      exact ⟨piece ++ front, rest, (List.append_assoc ..).symm, ⟨piece, front, rfl, hpiece, hfront⟩, hrest⟩
    · rintro ⟨_, rest, rfl, ⟨piece, front, rfl, hpiece, hfront⟩, hrest⟩
      exact ⟨piece, front ++ rest, List.append_assoc .., hpiece, front, rest, rfl, hfront, hrest⟩

/-- A run takes any text. -/
theorem isCut_run (text : List Char) : IsCut ['%'] text :=
  ⟨[text], .cons (by simp [Taken]) .nil, by simp⟩

/-- A pattern without wildcards takes what is the same text up to case. -/
theorem isCut_iff_sameText (h : ∀ c ∈ u, c ≠ '%' ∧ c ≠ '_') : IsCut u text ↔ SameText u text := by
  induction u generalizing text with
  | nil => rw [isCut_nil_iff, SameText, List.forall₂_nil_left_iff]
  | cons c u ih =>
    obtain ⟨⟨hrun, hone⟩, hrest⟩ := List.forall_mem_cons.1 h
    simp only [isCut_cons_iff, taken_letter_iff hrun hone, ih hrest, SameText, List.forall₂_cons_left_iff]
    constructor
    · rintro ⟨_, rest, rfl, ⟨d, rfl, hfold⟩, hsame⟩
      exact ⟨d, rest, hfold, hsame, rfl⟩
    · rintro ⟨d, rest, hfold, hsame, rfl⟩
      exact ⟨[d], rest, rfl, ⟨d, rfl, hfold⟩, hsame⟩

/-! ## The expression of a pattern -/

namespace Wildcard

open Regex (Flags Token Takes)

/-- What a piece of a pattern is as a regular expression. -/
def toRegex : Wildcard → Regex
  | .run => .star .dot
  | .one => .dot
  | .letter c => .letter c

/-- The pieces up to the end of the text. -/
def toRegexes (ps : List Wildcard) : Regex := ps.foldr (fun p r => .seq p.toRegex r) (.seq .stop .empty)

/-- The parts that a piece is written as. -/
def toTokens : Wildcard → List Token
  | .run => [.atom .dot, .star]
  | .one => [.atom .dot]
  | .letter c => [.atom (.letter c)]

/-- A character with a meaning of its own can be escaped. -/
theorem isEscapable_of_mem (h : c ∈ special) : Regex.isEscapable c = true :=
  List.all_eq_true.1 (by decide : special.all Regex.isEscapable = true) c h

/-- A character without a meaning of its own stands for itself. -/
theorem token?_letter (h : c ∉ special) : Regex.token? c = some (.atom (.letter c)) := by
  have hne : ∀ d ∈ special, c ≠ d := fun d hd heq => h (heq ▸ hd)
  have hbare : c ∉ ['\\', '+', '?', '(', ')', '|', '[', '\x7b'] := fun hmem =>
    h ((by decide : ['\\', '+', '?', '(', ')', '|', '[', '\x7b'] ⊆ special) hmem)
  rw [Regex.token?, if_neg (hne '^' (by decide)), if_neg (hne '$' (by decide)), if_neg (hne '.' (by decide)),
    if_neg (hne '*' (by decide)), if_neg hbare]

theorem tokens?_piece (p : Wildcard) (cs : List Char) :
    Regex.tokens? (pieceExpression p ++ cs) = (Regex.tokens? cs).map (p.toTokens ++ ·) := by
  cases p with
  | run =>
    simp only [pieceExpression, List.cons_append, List.nil_append, Regex.tokens?_cons (c := '.') (by decide),
      Regex.tokens?_cons (c := '*') (by decide)]
    exact Option.map_map ..
  | one => exact Regex.tokens?_cons (c := '.') (by decide) cs
  | letter c =>
    by_cases h : c ∈ special
    · simp only [pieceExpression, if_pos h]
      exact Regex.tokens?_escaped (isEscapable_of_mem h) cs
    · have hslash : c ≠ '\\' := fun heq => h (heq ▸ by decide)
      simp only [pieceExpression, if_neg h, List.cons_append, List.nil_append, Regex.tokens?_cons hslash,
        token?_letter h]
      rfl

/-- The parts of a pattern's expression are those of its pieces and the anchor at the end. -/
theorem tokens?_pieces (ps : List Wildcard) :
    Regex.tokens? (ps.flatMap pieceExpression ++ ['$']) = some (ps.flatMap toTokens ++ [.atom .stop]) := by
  induction ps with
  | nil => rfl
  | cons p ps ih =>
    rw [List.flatMap_cons, List.append_assoc, tokens?_piece, ih, List.flatMap_cons, List.append_assoc]
    rfl

/-- No pattern begins with a star of the expression. -/
theorem head?_tokens_ne (ps : List Wildcard) : (ps.flatMap toTokens ++ [Token.atom .stop]).head? ≠ some .star := by
  cases ps with
  | nil => decide
  | cons p ps => cases p <;> simp [toTokens]

theorem ofTokens?_pieces (ps : List Wildcard) :
    Regex.ofTokens? (ps.flatMap toTokens ++ [.atom .stop]) = some (toRegexes ps) := by
  induction ps with
  | nil => rfl
  | cons p ps ih =>
    rw [List.flatMap_cons, List.append_assoc]
    cases p with
    | run =>
      simp only [toTokens, List.cons_append, List.nil_append, Regex.ofTokens?, ih]
      rfl
    | one =>
      rw [toTokens, List.singleton_append, Regex.ofTokens?_atom (head?_tokens_ne ps), ih]
      rfl
    | letter c =>
      rw [toTokens, List.singleton_append, Regex.ofTokens?_atom (head?_tokens_ne ps), ih]
      rfl

/-- The flags of the expressions of patterns: case is ignored, and a dot is a line break, too. -/
def flags : Flags := ⟨true, true⟩

/-- The expression of a pattern is read as its pieces between the anchors. -/
theorem ofText?_expression (ps : List Wildcard) :
    Regex.ofText? (expression ps) = some (flags, .seq .start (toRegexes ps)) := by
  have htext : (expression ps).toList =
      '(' :: '?' :: 'i' :: 's' :: ')' :: '^' :: (ps.flatMap pieceExpression ++ ['$']) := by
    simp [expression]
  have htokens : Regex.tokens? ('^' :: (ps.flatMap pieceExpression ++ ['$'])) =
      some (.atom .start :: (ps.flatMap toTokens ++ [.atom .stop])) := by
    rw [Regex.tokens?_cons (c := '^') (by decide), tokens?_pieces]
    rfl
  rw [Regex.ofText?, htext]
  simp only [Regex.flags?, Option.bind_some, htokens, Regex.ofTokens?_atom (head?_tokens_ne ps), ofTokens?_pieces]
  rfl

/-- A piece of a pattern takes as an expression what its character takes. -/
theorem takes_toRegex_iff {before after : List Char} :
    Takes flags (ofChar c).toRegex before piece after ↔ Taken c piece := by
  by_cases hrun : c = '%'
  · subst hrun
    exact ⟨fun _ => True.intro, fun _ => Regex.takes_star_dot rfl ..⟩
  by_cases hone : c = '_'
  · subst hone
    simp [ofChar, toRegex, Regex.takes_dot_iff, taken_one_iff, flags]
  · have hsame (d : Char) : (c = d ∨ flags.ignoresCase = true ∧ sameLetter c d = true) ↔ fold c = fold d :=
      ⟨fun h => h.elim (congrArg fold) fun h => sameLetter_iff.1 h.2, fun h => .inr ⟨rfl, sameLetter_iff.2 h⟩⟩
    simp only [ofChar, if_neg hrun, if_neg hone, toRegex, Regex.takes_letter_iff, taken_letter_iff hrun hone, hsame]

/-- The expression of a pattern takes what is cut as the pattern says, up to the end of the text. -/
theorem takes_toRegexes_iff {before after : List Char} :
    Takes flags (toRegexes (pattern.map ofChar)) before text after ↔ after = [] ∧ IsCut pattern text := by
  induction pattern generalizing before text with
  | nil =>
    simp only [List.map_nil, toRegexes, List.foldr_nil, Regex.takes_seq_iff, Regex.takes_stop_iff,
      Regex.takes_empty_iff, isCut_nil_iff]
    constructor
    · rintro ⟨_, _, rfl, ⟨rfl, hafter⟩, rfl⟩
      exact ⟨hafter, rfl⟩
    · rintro ⟨rfl, rfl⟩
      exact ⟨[], [], rfl, ⟨rfl, rfl⟩, rfl⟩
  | cons c pattern ih =>
    rw [toRegexes] at ih
    simp only [List.map_cons, toRegexes, List.foldr_cons, Regex.takes_seq_iff, takes_toRegex_iff, ih, isCut_cons_iff]
    constructor
    · rintro ⟨piece, rest, rfl, hpiece, rfl, hrest⟩
      exact ⟨rfl, piece, rest, rfl, hpiece, hrest⟩
    · rintro ⟨rfl, piece, rest, rfl, hpiece, hrest⟩
      exact ⟨piece, rest, rfl, hpiece, rfl, hrest⟩

/-- The expression of a pattern matches the texts that are cut as the pattern says. -/
theorem isMatch_expression_iff :
    Regex.IsMatch (flags, .seq .start (toRegexes (pattern.map ofChar))) text ↔ IsCut pattern text := by
  simp only [Regex.IsMatch, Regex.takes_seq_iff, Regex.takes_start_iff, takes_toRegexes_iff]
  constructor
  · rintro ⟨_, _, _, rfl, _, piece, rfl, ⟨rfl, rfl⟩, rfl, hcut⟩
    simpa using hcut
  · intro hcut
    exact ⟨[], text, [], by simp, [], text, rfl, ⟨rfl, rfl⟩, rfl, hcut⟩

/-! ## The pattern itself -/

/-- A run takes the text up to some end, and the pieces behind it cover the rest. -/
theorem accepts_run_iff {ps : List Wildcard} :
    accepts (.run :: ps) text = true ↔ ∃ piece rest, text = piece ++ rest ∧ accepts ps rest = true := by
  induction text with
  | nil => simp [accepts_run_nil]
  | cons c text ih =>
    rw [accepts_run_cons, Bool.or_eq_true, ih]
    constructor
    · rintro (h | ⟨piece, rest, rfl, h⟩)
      · exact ⟨[], c :: text, rfl, h⟩
      · exact ⟨c :: piece, rest, rfl, h⟩
    · rintro ⟨piece, rest, htext, h⟩
      cases piece with
      | nil => exact .inl (htext ▸ h)
      | cons d piece =>
        obtain ⟨rfl, rfl⟩ := List.cons.inj htext
        exact .inr ⟨piece, rest, rfl, h⟩

/-- A pattern covers the texts that are cut as it says. -/
theorem accepts_iff : accepts (pattern.map ofChar) text = true ↔ IsCut pattern text := by
  induction pattern generalizing text with
  | nil => simp [accepts_nil, isCut_nil_iff]
  | cons c pattern ih =>
    rw [List.map_cons, isCut_cons_iff]
    by_cases hrun : c = '%'
    · subst hrun
      simp [ofChar, accepts_run_iff, Taken, ih]
    by_cases hone : c = '_'
    · subst hone
      cases text with
      | nil => simp [ofChar, accepts_one_nil, taken_one_iff]
      | cons d text => simp [ofChar, accepts_one_cons, taken_one_iff, ih]
    · cases text with
      | nil => simp [ofChar, hrun, hone, accepts_letter_nil, taken_letter_iff]
      | cons d text => simp [ofChar, hrun, hone, accepts_letter_cons, sameLetter_iff, taken_letter_iff, ih]

end Wildcard

end Text

/-! ## Operators that look for a text -/

open Sql
open Text (IsCut Regex SameText Wildcard)

/-- A pattern is found in a column that holds a text which is cut as the pattern says. -/
theorem Sql.Operand.matched_eq_yes_iff {a : Operand} {pattern : String} :
    a.matched pattern = .yes ↔ ∃ text, a.cell = .text text ∧ IsCut pattern.toList text.toList := by
  cases hcell : a.cell with
  | text text =>
    simp only [matched, hcell, Cell.text.injEq, exists_eq_left', ← Wildcard.accepts_iff, Wildcard.read]
    cases Wildcard.accepts (pattern.toList.map Wildcard.ofChar) text.toList <;> simp [Truth.ofBool]
  | _ => simp [matched, hcell]

namespace TextOperator

variable {ι : Type} {catalog : Catalog ι} {s : Schema ι} {field : String} {op : TextOperator} {spec : Operators}
  {x : Scalar} {u : String} {text : List Char}

/-- What the operator asks of a text, up to case: that it holds another one, starts with it or ends with it. -/
def Finds (u text : List Char) : TextOperator → Prop
  | like => ∃ before piece after, text = before ++ piece ++ after ∧ SameText u piece
  | startsWith => ∃ piece after, text = piece ++ after ∧ SameText u piece
  | endsWith => ∃ before piece, text = before ++ piece ∧ SameText u piece

/-- The pattern of a text without wildcards is for the texts that the operator asks for. -/
theorem isCut_pattern_iff (h : ∀ c ∈ u.toList, c ≠ '%' ∧ c ≠ '_') :
    IsCut (op.pattern u).toList text ↔ op.Finds u.toList text := by
  have hrun (cs : List Char) : IsCut "%".toList cs := Text.isCut_run cs
  cases op with
  | like =>
    simp only [pattern, String.toList_append, Text.isCut_append_iff, Text.isCut_iff_sameText h, hrun, Finds]
    constructor
    · rintro ⟨_, after, rfl, ⟨before, piece, rfl, -, hsame⟩, -⟩
      exact ⟨before, piece, after, rfl, hsame⟩
    · rintro ⟨before, piece, after, rfl, hsame⟩
      exact ⟨before ++ piece, after, rfl, ⟨before, piece, rfl, True.intro, hsame⟩, True.intro⟩
  | startsWith =>
    simp only [pattern, String.toList_append, Text.isCut_append_iff, Text.isCut_iff_sameText h, hrun, Finds, and_true]
  | endsWith =>
    simp only [pattern, String.toList_append, Text.isCut_append_iff, Text.isCut_iff_sameText h, hrun, Finds, true_and]

/-- Whether the operator is the one that operators of a field stand for: a range would come first, and then the
operators that look for a text, each before the next. -/
def IsFirst (spec : Operators) (x : Scalar) (op : TextOperator) : Prop :=
  Operators.range? spec.lowerBound spec.upperBound = none ∧
  match op with
  | like => spec.like = some x
  | startsWith => spec.like = none ∧ spec.startsWith = some x
  | endsWith => spec.like = none ∧ spec.startsWith = none ∧ spec.endsWith = some x

theorem test?_of_isFirst (h : op.IsFirst spec x) : spec.test? = some (.like (op.pattern x.display)) := by
  obtain ⟨hrange, h⟩ := h
  cases op with
  | like => simp [Operators.test?, Operators.rules, hrange, show spec.like = some x from h, pattern]
  | startsWith => simp [Operators.test?, Operators.rules, hrange, h.1, h.2, pattern]
  | endsWith => simp [Operators.test?, Operators.rules, hrange, h.1, h.2.1, h.2.2, pattern]

/-- The expression that a pattern is written as matches exactly the texts that are cut as the pattern says, and the
store finds what it matches. So a filter by an operator that looks for a text without wildcards asks for the rows
without a deletion mark with a text that holds it, starts with it or ends with it in either case. -/
theorem finds_by_expression (catalog : Catalog ι) (hcolumn : s.hasColumn field) :
    (∀ pattern text : String, ∃ e, Regex.ofText? (Wildcard.expression (Wildcard.read pattern)) = some e ∧
      (Regex.IsMatch e text.toList ↔ IsCut pattern.toList text.toList) ∧
      ∀ a : Operand, a.cell = .text text →
        (a.regexp (.text (Wildcard.expression (Wildcard.read pattern))) = .yes ↔ Regex.IsMatch e text.toList)) ∧
    ∀ (op : TextOperator) (spec : Operators) (x : Scalar), op.IsFirst spec x →
      (∀ c ∈ x.display.toList, c ≠ '%' ∧ c ≠ '_') →
      ∃ clause, (Filter.fields [(field, .operators spec)]).Asks catalog s clause ∧
        ∀ (rows : String → List Scope) (row : Scope) (around : List Scope),
          clause.eval rows (row :: around) = .yes ↔
            Condition.evalAll rows (row :: around) (Condition.unmarked s) = .yes ∧
              ∃ text, (Scope.resolve (row :: around) field).cell = .text text ∧
                op.Finds x.display.toList text.toList := by
  constructor
  · intro pattern text
    refine ⟨_, Wildcard.ofText?_expression _, Wildcard.isMatch_expression_iff, fun a hcell => ?_⟩
    rw [Clause.regexp_expression, Operand.matched_eq_yes_iff, hcell, Wildcard.read, Wildcard.isMatch_expression_iff]
    simp
  · intro op spec x hfirst hplain
    have hfilter : Predicate.ofFilter (.fields [(field, .operators spec)]) =
        .ok (.all [(field, .test (.like (op.pattern x.display)))] []) := by
      simp only [Predicate.ofFilter, Predicate.ofFields, Predicate.ofCondition, test?_of_isFirst hfirst]
      rfl
    obtain ⟨clause, hasks, heval⟩ := Filter.exists_asks hfilter rfl
      (Condition.ofPredicate_test catalog hcolumn (.like (op.pattern x.display)))
    refine ⟨clause, hasks, fun rows row around => ?_⟩
    rw [heval, Truth.and_eq_yes_iff, Condition.eval_test]
    simp only [Test.truth, Operand.matched_eq_yes_iff, isCut_pattern_iff hplain]

/-- The products with a name that holds a text in which every character but the digits has a meaning of its own. -/
theorem finds_by_expression_shop :
    let s := Demo.Shop.productSchema
    let x : Scalar := .text "(50+.*)"
    let spec : Operators := { like := some x, startsWith := some (.int 5), gt := some (.int 1) }
    s.hasColumn "name" ∧
    (∀ pattern text : String, ∃ e, Regex.ofText? (Wildcard.expression (Wildcard.read pattern)) = some e ∧
      (Regex.IsMatch e text.toList ↔ IsCut pattern.toList text.toList) ∧
      ∀ a : Operand, a.cell = .text text →
        (a.regexp (.text (Wildcard.expression (Wildcard.read pattern))) = .yes ↔ Regex.IsMatch e text.toList)) ∧
    ∃ clause, (Filter.fields [("name", .operators spec)]).Asks Demo.Shop.catalog s clause ∧
      ∀ (rows : String → List Scope) (row : Scope) (around : List Scope),
        clause.eval rows (row :: around) = .yes ↔
          Condition.evalAll rows (row :: around) (Condition.unmarked s) = .yes ∧
            ∃ text, (Scope.resolve (row :: around) "name").cell = .text text ∧
              like.Finds "(50+.*)".toList text.toList := by
  intro s x spec
  have hcolumn : s.hasColumn "name" := by decide
  obtain ⟨hexpression, hfilter⟩ := finds_by_expression Demo.Shop.catalog hcolumn
  have hplain : ∀ c ∈ x.display.toList, c ≠ '%' ∧ c ≠ '_' := by simp [x, Scalar.display]
  exact ⟨hcolumn, hexpression, hfilter like spec x ⟨rfl, rfl⟩ hplain⟩

end TextOperator

end RecordQuery
