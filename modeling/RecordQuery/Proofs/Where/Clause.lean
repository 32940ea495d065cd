import RecordQuery.Proofs.Pattern
import RecordQuery.Proofs.Where.Text
import RecordQuery.Sql.Evaluation
/-!
# Reading a WHERE clause

A `Clause` is the tree of a condition as SQL reads it from a text. `NOT` binds tighter than `AND`, and
`AND` tighter than `OR` (`Connective.level`); a range with its two ends is one operator. `Clause.read?`
goes by the strength of the connectives, as long as they are at least as strong as a level, and
`Clause.eval` is the three-valued truth of a clause, in which a bare name means the innermost table that
knows it. `Clause.ofCondition` is the clause that a condition should be read as.
-/

namespace RecordQuery.Sql

open Text (Wildcard)

/-- What stands between two clauses. -/
inductive Connective where
  | or
  | and
  deriving DecidableEq

namespace Connective

/-- The keyword. -/
def word : Connective → String
  | .or => "OR"
  | .and => "AND"

/-- The connective of a keyword. -/
def ofWord? (s : String) : Option Connective :=
  if s = "OR" then some .or else if s = "AND" then some .and else none

/-- How tight a connective binds. -/
def level : Connective → Nat
  | .or => 1
  | .and => 2

/-- What no parts are written as. -/
def noTokens : Connective → List Token
  | .or => Condition.falseTokens
  | .and => Condition.trueTokens

/-- Kleene's connective. -/
def apply : Connective → Truth → Truth → Truth
  | .or => .or
  | .and => .and

/-- The truth of parts under a connective. -/
def fold : Connective → List Truth → Truth
  | .or => .any
  | .and => .all

end Connective

/-- How tight a negation binds. -/
def negationLevel : Nat := 3

/-- A comparison by its operator. -/
def Comparison.ofOperator? (s : String) : Option Comparison :=
  [.eq, .ne, .gt, .gte, .lt, .lte].find? fun comparison => comparison.operator = s

namespace Operand

/-- Whether an operand is text that a regular expression matches; undecided if it is no text, or if the
expression is none that patterns are written as. -/
def regexp (a : Operand) (expression : Param) : Truth :=
  match a.cell, expression with
  | .text s, .text e => .ofBool? ((Wildcard.ofExpression? e).map (Wildcard.accepts · s.toList))
  | _, _ => .unknown

end Operand

/-- A condition as it is read. -/
inductive Clause where
  /-- A comparison of literal numbers. -/
  | literals (m n : Nat)
  | isNull (column : String)
  | isNotNull (column : String)
  | compare (column : String) (comparison : Comparison) (value : Param)
  | between (column : String) (low high : Param)
  | oneOf (column : String) (values : List Param)
  | regexp (column : String) (expression : Param)
  /-- A column is among the keys of all rows of a table. -/
  | amongAll (column key table : String)
  /-- A column is among the keys of the rows of a table that satisfy a clause. -/
  | among (column key table : String) (inner : Clause)
  | join (connective : Connective) (left right : Clause)
  | not (inner : Clause)
  deriving DecidableEq

namespace Clause

/-! ## Reading -/

/-- Reads bound values between commas up to the closing bracket. -/
def readValues? : List Token → Option (List Param × List Token)
  | .param p :: .closing :: ts => some ([p], ts)
  | .param p :: .comma :: ts => (readValues? ts).map fun (ps, rest) => (p :: ps, rest)
  | _ => none

/-- What follows a closing bracket. -/
def takeClosing? : List Token → Option (List Token)
  | .closing :: ts => some ts
  | _ => none

mutual

/-- Reads a clause of connectives that bind at least as tight as a level. -/
def read? : Nat → Nat → List Token → Option (Clause × List Token)
  | 0, _, _ => none
  | n + 1, level, ts => do
    let (c, rest) ← readOperand? n ts
    readTail? n level c rest

/-- Reads a clause without connectives, or one in brackets. -/
def readOperand? : Nat → List Token → Option (Clause × List Token)
  | n + 1, .opening :: ts => do
    let (c, rest) ← read? n Connective.or.level ts
    let rest ← takeClosing? rest
    some (c, rest)
  | n + 1, .name column :: ts => readPredicate? n column ts
  | n + 1, .word s :: ts =>
    if s = "NOT" then do
      let (c, rest) ← read? n negationLevel ts
      some (.not c, rest)
    else
      match ts with
      | .word e :: .word t :: rest =>
        if e = "=" then
          s.toNat?.bind fun a => t.toNat?.map fun b => (.literals a b, rest)
        else none
      | _ => none
  | _, _ => none

/-- Reads what is said of a column. -/
def readPredicate? : Nat → String → List Token → Option (Clause × List Token)
  | n + 1, column, .word s :: ts =>
    if s = "IS" then
      match ts with
      | .word "NULL" :: rest => some (.isNull column, rest)
      | .word "NOT" :: .word "NULL" :: rest => some (.isNotNull column, rest)
      | _ => none
    else if s = "BETWEEN" then
      match ts with
      | .param low :: .word "AND" :: .param high :: rest => some (.between column low high, rest)
      | _ => none
    else if s = "REGEXP" then
      match ts with
      | .param p :: rest => some (.regexp column p, rest)
      | _ => none
    else if s = "IN" then
      match ts with
      | .opening :: .word "SELECT" :: .name key :: .word "FROM" :: .name table :: .word "WHERE" :: rest =>
        do
          let (c, rest) ← read? n Connective.or.level rest
          let rest ← takeClosing? rest
          some (.among column key table c, rest)
      | .opening :: .word "SELECT" :: .name key :: .word "FROM" :: .name table :: .closing :: rest =>
        some (.amongAll column key table, rest)
      | .opening :: rest => (readValues? rest).map fun (values, rest) => (.oneOf column values, rest)
      | _ => none
    else
      match ts with
      | .param p :: rest =>
        (Comparison.ofOperator? s).map fun comparison => (.compare column comparison p, rest)
      | _ => none
  | _, _, _ => none

/-- Goes on behind a clause with connectives that bind at least as tight as a level. -/
def readTail? : Nat → Nat → Clause → List Token → Option (Clause × List Token)
  | 0, _, _, _ => none
  | n + 1, level, c, ts =>
    match ts with
    | .word s :: more =>
      match Connective.ofWord? s with
      | some k =>
        if k.level < level then some (c, ts)
        else do
          let (d, rest) ← read? n (k.level + 1) more
          readTail? n level (.join k c d) rest
      | none => some (c, ts)
    | _ => some (c, ts)

end

/-- The clause of tokens, if all of them belong to it. Every token takes three steps at most. -/
def ofTokens? (ts : List Token) : Option Clause :=
  match read? (3 * ts.length) Connective.or.level ts with
  | some (c, []) => some c
  | _ => none

/-- The clause of the text behind WHERE, under bound values. An empty text asks for nothing. -/
def ofText? (values : List Param) (text : String) : Option Clause :=
  match Token.read? values text with
  | some [] => some (.literals 1 1)
  | some (.word "WHERE" :: ts) => ofTokens? ts
  | _ => none

/-! ## The truth of a clause -/

/-- The truth of a clause, where `rows` gives the rows of a table. A name means the innermost row that
knows it. -/
def eval (rows : String → List Scope) (scopes : List Scope) : Clause → Truth
  | .literals m n => .ofBool (m == n)
  | .isNull column => .ofBool (Scope.resolve scopes column).cell.isNull
  | .isNotNull column => .ofBool (!(Scope.resolve scopes column).cell.isNull)
  | .compare column comparison value => (Scope.resolve scopes column).compare comparison value
  | .between column low high =>
    ((Scope.resolve scopes column).compare .gte low).and
      ((Scope.resolve scopes column).compare .lte high)
  | .oneOf column values => .any (values.map ((Scope.resolve scopes column).compare .eq))
  | .regexp column expression => (Scope.resolve scopes column).regexp expression
  | .amongAll column key table =>
    .any ((rows table).map fun row =>
      (Scope.resolve scopes column).equals (Scope.resolve (row :: scopes) key))
  | .among column key table inner =>
    .any (((rows table).filter fun row => (inner.eval rows (row :: scopes)).holds).map fun row =>
      (Scope.resolve scopes column).equals (Scope.resolve (row :: scopes) key))
  | .join k left right => k.apply (left.eval rows scopes) (right.eval rows scopes)
  | .not inner => (inner.eval rows scopes).not

/-! ## The clause of a condition -/

/-- The clause of no parts under a connective. -/
def unit : Connective → Clause
  | .or => .literals 1 0
  | .and => .literals 1 1

/-- Clauses under one connective, the first two together first. -/
def chain (k : Connective) : List Clause → Clause
  | [] => unit k
  | c :: cs => cs.foldl (.join k) c

mutual

/-- The clause that a condition is written as. -/
def ofCondition : Condition → Clause
  | .isNull column => .isNull column
  | .isNotNull column => .isNotNull column
  | .compare column comparison value => .compare column comparison value
  | .between column low high => .between column low high
  | .oneOf _ [] => unit .or
  | .oneOf column values => .oneOf column values
  | .matching column pattern => .regexp column (.text (Wildcard.expression (Wildcard.read pattern)))
  | .among column key table [] => .amongAll column key table
  | .among column key table conditions =>
    .among column key table (chain .and (ofConditions conditions))
  | .all parts => chain .and (ofConditions parts)
  | .any parts => chain .or (ofConditions parts)
  | .not inner => .not (ofCondition inner)

/-- The clauses that conditions are written as. -/
def ofConditions : List Condition → List Clause
  | [] => []
  | condition :: conditions => ofCondition condition :: ofConditions conditions

end

end Clause

end RecordQuery.Sql
