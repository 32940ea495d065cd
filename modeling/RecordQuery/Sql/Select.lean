import RecordQuery.Request.SortKeys
import RecordQuery.Sql.Condition
/-!
# SELECT statements

A `Select` reads the rows of one table, called `t0` in it, that satisfy all of a list of conditions. It
sorts them by columns, or by a column of the one row that a local key leads to, and keeps a stretch of
them. `Select.text` is the statement for given columns and `Select.countText` counts the rows instead;
both bind `Select.params`.
-/

namespace RecordQuery.Sql

/-- The name of the table that is read. -/
def rootName : String := "t0"

/-- What rows are sorted by. -/
inductive SortTerm where
  | column (name : String)
  /-- A column of the row of another table, named by a number, whose key equals a local column; a row
  with a deletion mark is not found. -/
  | related (number : Nat) (table key column localKey : String) (mark : Option String)
  deriving DecidableEq

/-- A SELECT statement but for its columns. -/
structure Select where
  table : String
  conditions : List Condition := []
  order : List (SortTerm × Direction) := []
  limit : Option Int64 := none
  offset : Option Int64 := none

/-- A column of the table that is read. -/
def rootColumn (name : String) : String := rootName ++ "." ++ quote name

namespace SortTerm

/-- Whether the term is a column of another table. -/
def isRelated : SortTerm → Bool
  | .column _ => false
  | .related .. => true

/-- The text of a term. -/
def text : SortTerm → String
  | .column name => rootColumn name
  | .related number table key field localKey mark =>
    let name := "s" ++ toString number
    "(SELECT " ++ name ++ "." ++ quote field ++ " FROM " ++ quote table ++ " AS " ++ name ++
      " WHERE " ++ name ++ "." ++ quote key ++ " = " ++ rootColumn localKey ++
      (match mark with
        | some mark => " AND " ++ name ++ "." ++ quote mark ++ " IS NULL"
        | none => "") ++ ")"

end SortTerm

namespace Select

/-- The WHERE clause, if there are conditions. -/
def whereTokens (q : Select) : List Token :=
  match q.conditions with
  | [] => []
  | conditions => .word "WHERE" :: (Condition.all conditions).tokens

/-- The values to bind. -/
def params (q : Select) : List Param := Token.params q.whereTokens

/-- The text of the WHERE clause, empty if there are no conditions. -/
def whereText (q : Select) : String := Token.render 1 q.whereTokens

/-- The table and the WHERE clause. -/
def fromText (q : Select) : String :=
  " FROM " ++ quote q.table ++ " AS " ++ rootName ++
    (if q.whereTokens.isEmpty then "" else " " ++ q.whereText)

/-- The statement for the given columns. -/
def text (q : Select) (columns : List String) : String :=
  "SELECT " ++ ", ".intercalate (columns.map rootColumn) ++ q.fromText ++
    (if q.order.isEmpty then ""
      else " ORDER BY " ++
        ", ".intercalate (q.order.map fun (term, d) => term.text ++ " " ++ d.keyword)) ++
    (match q.limit with
      | some n => " LIMIT " ++ toString n.toInt
      | none => "") ++
    (match q.offset with
      | some n => if 0 < n then " OFFSET " ++ toString n.toInt else ""
      | none => "")

/-- The statement that counts the rows, whatever their order and stretch. -/
def countText (q : Select) : String :=
  "SELECT COUNT(*)" ++ q.fromText

end Select

end RecordQuery.Sql
