import RecordQuery.Sql.Token
import RecordQuery.Text.Wildcard
/-!
# Conditions

A `Condition` is the tree of a WHERE clause, with bound values at its leaves. `Condition.tokens` writes
it down: a list of one part stands bare, the parts of a longer one are bracketed, and an empty list is
a comparison of literals. So no operator ever stands beside another without brackets.
-/

namespace RecordQuery.Sql

/-- How a column is compared with a value. -/
inductive Comparison where
  | eq
  | ne
  | gt
  | gte
  | lt
  | lte
  deriving DecidableEq

namespace Comparison

/-- The operator. -/
def operator : Comparison → String
  | .eq => "="
  | .ne => "<>"
  | .gt => ">"
  | .gte => ">="
  | .lt => "<"
  | .lte => "<="

/-- Whether an order of two cells is as the comparison wants it. -/
def admits : Comparison → Ordering → Bool
  | .eq, o => o.isEq
  | .ne, o => !o.isEq
  | .gt, o => o.isGT
  | .gte, o => !o.isLT
  | .lt, o => o.isLT
  | .lte, o => !o.isGT

end Comparison

/-- A condition on the rows of a table. Column names stand bare and mean the innermost table. -/
inductive Condition where
  | isNull (column : String)
  | isNotNull (column : String)
  | compare (column : String) (comparison : Comparison) (value : Param)
  | between (column : String) (low high : Param)
  | oneOf (column : String) (values : List Param)
  /-- The text of a column is matched by a wildcard pattern. -/
  | matching (column pattern : String)
  /-- A column is among the keys of the rows of a table that satisfy conditions. -/
  | among (column key table : String) (conditions : List Condition)
  | all (parts : List Condition)
  | any (parts : List Condition)
  | not (inner : Condition)

namespace Condition

open Token

/-- A comparison of literals that is true. -/
def trueTokens : List Token := [.word "1", .word "=", .word "1"]

/-- A comparison of literals that is false. -/
def falseTokens : List Token := [.word "1", .word "=", .word "0"]

/-- Parts under one connective: `empty` for no part, a single part as it is, and several in
brackets. -/
def joined (connective : String) (empty : List Token) : List (List Token) → List Token
  | [] => empty
  | [part] => part
  | parts => separated (.word connective) (parts.map bracketed)

mutual

/-- A condition, written down. -/
def tokens : Condition → List Token
  | .isNull column => [.name column, .word "IS", .word "NULL"]
  | .isNotNull column => [.name column, .word "IS", .word "NOT", .word "NULL"]
  | .compare column comparison value => [.name column, .word comparison.operator, .param value]
  | .between column low high =>
    [.name column, .word "BETWEEN", .param low, .word "AND", .param high]
  | .oneOf _ [] => falseTokens
  | .oneOf column values =>
    .name column :: .word "IN" :: bracketed (separated .comma (values.map fun v => [.param v]))
  | .matching column pattern =>
    [.name column, .word "REGEXP",
      .param (.text (Text.Wildcard.expression (Text.Wildcard.read pattern)))]
  | .among column key table conditions =>
    .name column :: .word "IN" :: bracketed
      (.word "SELECT" :: .name key :: .word "FROM" :: .name table ::
        match listTokens conditions with
        | [] => []
        | parts => .word "WHERE" :: joined "AND" trueTokens parts)
  | .all parts => joined "AND" trueTokens (listTokens parts)
  | .any parts => joined "OR" falseTokens (listTokens parts)
  | .not inner => .word "NOT" :: bracketed inner.tokens

/-- Conditions, each written down. -/
def listTokens : List Condition → List (List Token)
  | [] => []
  | condition :: conditions => condition.tokens :: listTokens conditions

end

mutual

/-- The tables that a condition reads. -/
def tables : Condition → List String
  | .among _ _ table conditions => table :: listTables conditions
  | .all parts => listTables parts
  | .any parts => listTables parts
  | .not inner => inner.tables
  | _ => []

/-- The tables that conditions read. -/
def listTables : List Condition → List String
  | [] => []
  | condition :: conditions => condition.tables ++ listTables conditions

end

end Condition

end RecordQuery.Sql
