import RecordQuery.Sql.Cell
/-!
# Tokens of a statement

The parts of a statement between its blanks. A bound value is a token of its own, which is written as
the number of its place: values are numbered from left to right (`Token.render`), so the list of
values to bind is the list of the tokens that hold one (`Token.params`).
-/

namespace RecordQuery.Sql

/-- A name in double quotes, in which a quote is written twice. -/
def quote (name : String) : String :=
  "\"" ++ String.ofList (name.toList.flatMap fun c => if c = '"' then ['"', '"'] else [c]) ++ "\""

/-- One part of a statement. -/
inductive Token where
  /-- A keyword, an operator or a literal number. -/
  | word (s : String)
  /-- A quoted name. -/
  | name (s : String)
  | param (p : Param)
  | opening
  | closing
  | comma
  deriving DecidableEq

namespace Token

/-- The text of a token; `n` is the number of the next bound value. -/
def text (n : Nat) : Token → String
  | .word s => s
  | .name s => quote s
  | .param _ => "?" ++ toString n
  | .opening => "("
  | .closing => ")"
  | .comma => ","

/-- The value that a token binds. -/
def param? : Token → Option Param
  | .param p => some p
  | _ => none

/-- The values that tokens bind, in their order. -/
def params (ts : List Token) : List Param :=
  ts.filterMap param?

/-- No blank stands inside brackets or before a comma. -/
def touches : Token → Token → Bool
  | .opening, _ => true
  | _, .closing => true
  | _, .comma => true
  | _, _ => false

/-- The text of tokens; `n` is the number of the first bound value. -/
def render (n : Nat) : List Token → String
  | [] => ""
  | [t] => t.text n
  | t :: u :: ts =>
    let next := if t.param?.isSome then n + 1 else n
    t.text n ++ (if t.touches u then "" else " ") ++ render next (u :: ts)

/-- Tokens in brackets. -/
def bracketed (ts : List Token) : List Token :=
  .opening :: ts ++ [.closing]

/-- Lists of tokens with a separator between neighbours. -/
def separated (separator : Token) : List (List Token) → List Token
  | [] => []
  | [ts] => ts
  | ts :: tss => ts ++ separator :: separated separator tss

end Token

end RecordQuery.Sql
