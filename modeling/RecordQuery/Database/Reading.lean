import RecordQuery.Database.Basic
import RecordQuery.Database.Visit
import RecordQuery.Sql.Depth
/-!
# Reading statements

`select` gives the cells of the rows that satisfy the conditions of a statement, in its order, and `count`
gives their number. Rows that the order does not tell apart come as they are met.
-/

namespace RecordQuery.Database

open Sql

/-- Whether a row satisfies all conditions. -/
def satisfies (db : Database) (conditions : List Condition) (row : Scope) : Bool :=
  (Condition.evalAll db.scopes [row] conditions).holds

/-- Refuses conditions on tables that are not there. -/
def requireTables (db : Database) (conditions : List Condition) : Except Fault Unit :=
  (Condition.listTables conditions).forM fun name => (db.table name).map fun _ => ()

/-- Refuses a sort term with a table or column that is not there. -/
def requireTerm (db : Database) (t : Table) : SortTerm → Except Fault Unit
  | .column name => t.requireName name
  | .related _ table key column localKey mark => do
    let target ← db.table table
    t.requireName localKey
    ([key, column] ++ mark.toList).forM target.requireName

/-- The cell of a column in a row. -/
def cellOf (row : Scope) (name : String) : Cell :=
  (Scope.resolve [row] name).cell

/-- The cell that a row is sorted by. -/
def sortCell (db : Database) (row : Scope) : SortTerm → Cell
  | .column name => cellOf row name
  | .related _ table key column localKey mark =>
    let found := (db.scopes table).find? fun other =>
      ((Scope.resolve [other] key).equals (Scope.resolve [row] localKey)).holds &&
        mark.all fun mark => (cellOf other mark).isNull
    match found with
    | some other => cellOf other column
    | none => .null

/-- The collation that texts are sorted by: that of the table's own column. -/
def sortCollation (t : Table) : SortTerm → Collation
  | .column name => ((t.field? name).map Field.collation).getD .binary
  | .related .. => .binary

/-- Whether the first list of cells comes before the second, or is level with it. -/
def inOrder : List (Collation × Direction) → List Cell → List Cell → Bool
  | (collation, d) :: ds, a :: as, b :: bs =>
    match d, Cell.compareKnown collation a b with
    | _, .eq => inOrder ds as bs
    | .ascending, o => o.isLT
    | .descending, o => o.isGT
  | _, _, _ => true

/-- Rows in the order of sort terms; rows that are level stay in the order of their keys. -/
def sorted (db : Database) (t : Table) (order : List (SortTerm × Direction)) (rows : List Row) :
    List Row :=
  if order.isEmpty then rows
  else
    let keyed := rows.map fun r => (order.map fun (term, _) => db.sortCell (t.scope r) term, r)
    let ways := order.map fun (term, d) => (sortCollation t term, d)
    (keyed.mergeSort fun a b => inOrder ways a.1 b.1).map Prod.snd

/-- The stretch of rows that a limit and an offset leave. A negative limit is none. -/
def stretch {α : Type} (limit offset : Option Int64) (rows : List α) : List α :=
  let rows := rows.drop ((offset.getD 0).toInt.toNat)
  match limit with
  | some n => if n < 0 then rows else rows.take n.toInt.toNat
  | none => rows

/-- The rows of a table that satisfy a statement's conditions. -/
def matching (db : Database) (q : Select) (t : Table) : List Row :=
  let plans := Plan.ofConditions db.scopes q.conditions
  t.rows.filter fun r => (Plan.evalAll db.scopes [t.scope r] plans).holds

theorem matching_eq_filter (db : Database) (q : Select) (t : Table) :
    db.matching q t = t.rows.filter fun r => db.satisfies q.conditions (t.scope r) := by
  simp only [matching, satisfies, Plan.evalAll_ofConditions]

/-- What a statement for columns asks of a table. -/
def asking (db : Database) (q : Select) (columns : List String) (t : Table) : Asking where
  t
  rows := db.scopes
  keyAffinity? table key := ((db.table? table).bind (·.column? key)).map Handle.Column.affinity
  columns
  terms := q.order
  limit := q.limit

/-- The rows of a table that satisfy a statement's conditions, in the order in which they are met. -/
def met (db : Database) (q : Select) (columns : List String) (t : Table) : List Row :=
  match db.visit with
  | .planned => (db.asking q columns t).arrange q.conditions (db.matching q t)
  | .byKey => db.matching q t

/-- The rows that a statement for columns gives, in its order. -/
def chosen (db : Database) (q : Select) (columns : List String) (t : Table) : List Row :=
  stretch q.limit q.offset (db.sorted t q.order (db.met q columns t))

/-- Executes a SELECT: the rows' cells in the given columns. -/
def select (db : Database) (q : Select) (columns : List String) :
    Except Fault (List (List Cell)) := do
  if columns.isEmpty then throw .noColumns
  if !q.isWithinLimits then throw .tooLarge
  let t ← db.table q.table
  columns.forM t.requireName
  db.requireTables q.conditions
  q.order.forM fun (term, _) => db.requireTerm t term
  .ok ((db.chosen q columns t).map (t.returned · columns))

/-- Executes a SELECT that counts rows. -/
def count (db : Database) (q : Select) : Except Fault Nat := do
  if !q.isWithinLimits then throw .tooLarge
  let t ← db.table q.table
  db.requireTables q.conditions
  .ok (db.matching q t).length

end RecordQuery.Database
