import RecordQuery.Sql.Expression.Basic
import RecordQuery.Sql.Keyword
/-!
# Reading expressions

An expression is read by the strength of its operators: `readTail?` goes on behind an operand as long as
the operators are at least as strong as a level. Every step takes a lexeme, so their number bounds the
steps. Nested queries, which table definitions may not have, are not read.
-/

namespace RecordQuery.Sql.Expression

open Lexeme (takeKeyword? takeKeywords? takeThis?)

/-- The strength of the operators that are marks, with what they do. -/
def operatorOf? : String → Option (Nat × BinaryOperator)
  | "=" => some (4, .equal)
  | "==" => some (4, .equal)
  | "<>" => some (4, .unequal)
  | "!=" => some (4, .unequal)
  | "<" => some (5, .less)
  | "<=" => some (5, .atMost)
  | ">" => some (5, .greater)
  | ">=" => some (5, .atLeast)
  | "&" => some (7, .bitAnd)
  | "|" => some (7, .bitOr)
  | "<<" => some (7, .shiftLeft)
  | ">>" => some (7, .shiftRight)
  | "+" => some (8, .add)
  | "-" => some (8, .subtract)
  | "*" => some (9, .multiply)
  | "/" => some (9, .divide)
  | "%" => some (9, .remainder)
  | "||" => some (10, .concatenate)
  | _ => none

/-- The operators that are marks in front of their operand. -/
def unaryOf? : String → Option UnaryOperator
  | "-" => some .negative
  | "+" => some .positive
  | "~" => some .complement
  | _ => none

/-- The strength of an operator in front of its operand. -/
def unaryLevel : Nat := 12

/-- The strength of a written collation. -/
def collateLevel : Nat := 11

/-- The strength of equality and of the operators that are words. -/
def equalityLevel : Nat := 4

/-- The strength of a negation in front of its operand or of an operator that is a word. -/
def notLevel : Nat := 3

/-- The strength of a conjunction. -/
def andLevel : Nat := 2

/-- The strength of a disjunction. -/
def orLevel : Nat := 1

/-- The functions behind the operators that match patterns. -/
def patternFunction? (word : String) : Option String :=
  match Text.Ascii.upper word with
  | "LIKE" => some "like"
  | "GLOB" => some "glob"
  | "REGEXP" => some "regexp"
  | "MATCH" => some "match"
  | _ => none

/-- The part of the clock that a word is. -/
def clockPart? (word : String) : Option ClockPart :=
  match Text.Ascii.upper word with
  | "CURRENT_DATE" => some .date
  | "CURRENT_TIME" => some .time
  | "CURRENT_TIMESTAMP" => some .moment
  | _ => none

/-- A lexeme that is an expression on its own: a number, a text, bytes or a place for a value. -/
def ofLexeme? : Lexeme → Option Expression
  | .text s => some (.literal (.text s))
  | .blob bytes => some (.literal (.blob bytes))
  | .integer digits => some (.integer digits)
  | .hexadecimal digits =>
    some (.hexadecimal (digits.foldl (fun n c => n * 16 + Lexeme.hexValue c) 0))
  | .real l => some (.literal (.real l.stepwise))
  | .parameter => some .parameter
  | .word s =>
    if Text.Ascii.upper s == "NULL" then some null else (clockPart? s).map .clock
  | _ => none

/-- A call, where a choice that is written like one is a choice. -/
def ofCall (function : String) (arguments : List Expression) : Expression :=
  match Text.Ascii.lower function, arguments with
  | "iif", [c, a, b] => .choice c a b
  | _, arguments => .call function arguments

/-- A negation, if one is wanted. -/
def negatedIf (negated : Bool) (e : Expression) : Expression :=
  if negated then .unary .not e else e

/-- Takes a number with or without a sign. -/
def takeSigned? : List Lexeme → Option (List Lexeme)
  | .mark "-" :: ts => takeNumber? ts
  | .mark "+" :: ts => takeNumber? ts
  | ts => takeNumber? ts
where
  /-- Takes a number. -/
  takeNumber? : List Lexeme → Option (List Lexeme)
    | .integer _ :: ts => some ts
    | .real _ :: ts => some ts
    | _ => none

/-- Takes the words of a type name, up to the word that begins a generated column. -/
def takeWords : List Lexeme → List String × List Lexeme
  | t :: ts =>
    if t.isKeyword "GENERATED" then ([], t :: ts)
    else
      match t.plainName? with
      | some s =>
        let (words, rest) := takeWords ts
        (s :: words, rest)
      | none => ([], t :: ts)
  | [] => ([], [])

/-- Takes a type: its name, which may be empty, and sizes in brackets. -/
def takeType? (ts : List Lexeme) : Option (String × List Lexeme) :=
  let (words, rest) := takeWords ts
  let name := " ".intercalate words
  match words, takeThis? "(" rest with
  | _ :: _, some rest => do
    let rest ← takeSigned? rest
    let rest ← match takeThis? "," rest with
      | some rest => takeSigned? rest
      | none => some rest
    let rest ← takeThis? ")" rest
    some (name, rest)
  | _, _ => some (name, rest)

mutual

/-- Reads an expression of operators that are at least as strong as a level. -/
def read? : Nat → Nat → List Lexeme → Option (Expression × List Lexeme)
  | 0, _, _ => none
  | n + 1, level, ts => do
    let (e, rest) ← readOperand? n ts
    readTail? n level e rest

/-- Reads an operand with the operators in front of it. -/
def readOperand? : Nat → List Lexeme → Option (Expression × List Lexeme)
  | 0, _ => none
  | _, [] => none
  | n + 1, t :: ts =>
    match ofLexeme? t with
    | some e => some (e, ts)
    | none =>
      match t with
      | .mark "(" => do
        let (e, rest) ← read? n orLevel ts
        let rest ← takeThis? ")" rest
        some (e, rest)
      | .mark m => do
        let operator ← unaryOf? m
        let (e, rest) ← read? n unaryLevel ts
        some (.unary operator e, rest)
      | .word s =>
        match Text.Ascii.upper s with
        | "NOT" => do
          let (e, rest) ← read? n notLevel ts
          some (.unary .not e, rest)
        | "CASE" => do
          let (base, rest) ← match takeKeyword? "WHEN" ts with
            | some _ => some (none, ts)
            | none => (read? n orLevel ts).map fun (e, rest) => (some e, rest)
          let rest ← takeKeyword? "WHEN" rest
          readCases? n base rest
        | "CAST" => do
          let rest ← takeThis? "(" ts
          let (e, rest) ← read? n orLevel rest
          let rest ← takeKeyword? "AS" rest
          let (type, rest) ← takeType? rest
          let rest ← takeThis? ")" rest
          some (.cast e (.ofName type), rest)
        | "RAISE" => none
        | _ => if isReserved s then none else readName? n s false false ts
      | .quoted s => readName? n s true true ts
      | .bracketed s => readName? n s true false ts
      | _ => none

/-- Reads what follows a name: arguments, or the column that it qualifies. -/
def readName? : Nat → String → Bool → Bool → List Lexeme → Option (Expression × List Lexeme)
  | 0, _, _, _, _ => none
  | n + 1, s, isQuoted, mayBeText, ts =>
    match ts with
    | .mark "(" :: .mark ")" :: rest => some (ofCall s [], rest)
    | .mark "(" :: .mark "*" :: .mark ")" :: rest => some (ofCall s [], rest)
    | .mark "(" :: rest => do
      let rest := (takeKeyword? "ALL" rest).getD rest
      let (arguments, rest) ← readList? n rest
      let rest ← takeThis? ")" rest
      some (ofCall s arguments, rest)
    | .mark "." :: t :: .mark "." :: u :: rest => do
      let table ← t.name?
      let column ← u.name?
      some (.name [s, table] column true false, rest)
    | .mark "." :: t :: rest => do
      let column ← t.name?
      some (.name [s] column true false, rest)
    | ts => some (.name [] s isQuoted mayBeText, ts)

/-- Reads expressions between commas. -/
def readList? : Nat → List Lexeme → Option (List Expression × List Lexeme)
  | 0, _ => none
  | n + 1, ts => do
    let (e, rest) ← read? n orLevel ts
    match takeThis? "," rest with
    | some rest => do
      let (es, rest) ← readList? n rest
      some (e :: es, rest)
    | none => some ([e], rest)

/-- Reads the cases of a choice behind the word that begins the first one. -/
def readCases? : Nat → Option Expression → List Lexeme → Option (Expression × List Lexeme)
  | 0, _, _ => none
  | n + 1, base, ts => do
    let (e, rest) ← read? n orLevel ts
    let rest ← takeKeyword? "THEN" rest
    let (result, rest) ← read? n orLevel rest
    let condition := match base with
      | some base => .binary .equal base e
      | none => e
    match rest with
    | .word s :: rest =>
      match Text.Ascii.upper s with
      | "WHEN" => do
        let (otherwise, rest) ← readCases? n base rest
        some (.choice condition result otherwise, rest)
      | "ELSE" => do
        let (otherwise, rest) ← read? n orLevel rest
        let rest ← takeKeyword? "END" rest
        some (.choice condition result otherwise, rest)
      | "END" => some (.choice condition result null, rest)
      | _ => none
    | _ => none

/-- Goes on behind an operand with operators that are at least as strong as a level. -/
def readTail? : Nat → Nat → Expression → List Lexeme → Option (Expression × List Lexeme)
  | 0, _, _, _ => none
  | _, _, e, [] => some (e, [])
  | n + 1, level, e, t :: ts =>
    match t with
    | .mark m =>
      match operatorOf? m with
      | some (strength, operator) =>
        if strength < level then some (e, t :: ts)
        else do
          let (b, rest) ← read? n (strength + 1) ts
          readTail? n level (.binary operator e b) rest
      | none => some (e, t :: ts)
    | .word s =>
      let word := Text.Ascii.upper s
      let chain (strength : Nat) (operator : BinaryOperator) :
          Option (Expression × List Lexeme) :=
        if strength < level then some (e, t :: ts)
        else do
          let (b, rest) ← read? n (strength + 1) ts
          readTail? n level (.binary operator e b) rest
      match word with
      | "OR" => chain orLevel .or
      | "AND" => chain andLevel .and
      | "COLLATE" =>
        if collateLevel < level then some (e, t :: ts)
        else
          match ts with
          | u :: rest => do
            let collation ← u.plainName?
            readTail? n level (.collate e collation) rest
          | [] => none
      | "NOT" =>
        if notLevel < level then some (e, t :: ts)
        else
          match takeKeyword? "NULL" ts with
          | some rest => readTail? n level (.binary .different e null) rest
          | none => do
            let (e, rest) ← readWordOperator? n true e ts
            readTail? n level e rest
      | _ =>
        if equalityLevel < level then some (e, t :: ts)
        else
          match word with
          | "ISNULL" => readTail? n level (.binary .same e null) ts
          | "NOTNULL" => readTail? n level (.binary .different e null) ts
          | "IS" => do
            let (operator, rest) :=
              match takeKeywords? ["NOT", "DISTINCT", "FROM"] ts,
                takeKeywords? ["DISTINCT", "FROM"] ts, takeKeyword? "NOT" ts with
              | some rest, _, _ => (BinaryOperator.same, rest)
              | none, some rest, _ => (.different, rest)
              | none, none, some rest => (.different, rest)
              | none, none, none => (.same, ts)
            let (b, rest) ← read? n (equalityLevel + 1) rest
            readTail? n level (.binary operator e b) rest
          | _ =>
            if ["IN", "BETWEEN"].contains word || (patternFunction? word).isSome then do
              let (e, rest) ← readWordOperator? n false e (t :: ts)
              readTail? n level e rest
            else some (e, t :: ts)
    | _ => some (e, t :: ts)

/-- Reads an operator that is a word, with its operands behind it. Nothing is in an empty list, whatever
is looked for. -/
def readWordOperator? : Nat → Bool → Expression → List Lexeme →
    Option (Expression × List Lexeme)
  | 0, _, _, _ => none
  | n + 1, negated, e, .word s :: ts =>
    match Text.Ascii.upper s with
    | "BETWEEN" => do
      let (low, rest) ← read? n (andLevel + 1) ts
      let rest ← takeKeyword? "AND" rest
      let (high, rest) ← read? n (equalityLevel + 1) rest
      some (negatedIf negated (.between e low high), rest)
    | "IN" =>
      match ts with
      | .mark "(" :: .mark ")" :: rest =>
        some (.name [] (if negated then "true" else "false") false false, rest)
      | .mark "(" :: rest => do
        let (values, rest) ← readList? n rest
        let rest ← takeThis? ")" rest
        some (negatedIf negated (.oneOf e values), rest)
      | _ => none
    | _ => do
      let function ← patternFunction? s
      let (pattern, rest) ← read? n (equalityLevel + 1) ts
      match takeKeyword? "ESCAPE" rest with
      | some rest => do
        let (escape, rest) ← read? n (equalityLevel + 1) rest
        some (negatedIf negated (.call function [pattern, e, escape]), rest)
      | none => some (negatedIf negated (.call function [pattern, e]), rest)
  | _, _, _, _ => none

end

/-- Reads the expression at the front of a text. -/
def leading? (ts : List Lexeme) : Option (Expression × List Lexeme) :=
  read? (4 * ts.length + 4) orLevel ts

end RecordQuery.Sql.Expression
