import RecordQuery.Database.Change
import RecordQuery.Sql.Write
/-!
# Writing statements

`insert`, `update` and `delete` change the rows of one table and those that refer to them. A statement that
fails changes nothing, and none leaves a reference behind that leads to no row. The answer of a statement
that returns rows is out before late references are looked at, so that it stands even if nothing is changed.
-/

namespace RecordQuery.Database

open Sql

/-- What a statement came to, if its references lead somewhere. -/
def settle {α : Type} (db : Database) (isAnswered : Bool) (outcome : Except Fault (α × Database)) :
    Except Fault α × Database :=
  match outcome with
  | .error fault => (.error fault, db)
  | .ok (answer, after) =>
    if after.hasLoose false then (.error .loose, db)
    else if after.hasLoose true then (if isAnswered then .ok answer else .error .loose, db)
    else (.ok answer, after)

/-- The cells of bound values. -/
def cellsOf (values : List (String × Param)) : List (String × Cell) :=
  values.map fun (name, p) => (name, p.cell)

/-- Whether a row has a key. -/
def hasKey (t : Table) (name : String) (key : Param) (r : Row) : Bool :=
  ((Scope.resolve [t.scope r] name).compare .eq key).holds

/-- Adds a row of a key to the table of a name, putting away what stands in its way. -/
def place (db : Database) (i : Insert) (t : Table) (key : Int64) : Except Fault (Row × Database) := do
  let row ← t.newRow db.now i.resolution key (cellsOf i.values)
  let rows ← t.displaced i.resolution row t.rows
  let (_, db) ← editAll i.table .remove (db.replace i.table (t.counting key)) rows
  let t ← db.table i.table
  .ok (row, db.replace i.table (t.adding row))

/-- Executes an INSERT: the row as it is stored, none if it is left out. -/
def insert (db : Database) (i : Insert) : Except Fault (Option (List Cell)) × Database :=
  db.settle (!i.returning.isEmpty) do
    let t ← db.table i.table
    i.values.forM fun v => t.requireName v.1
    db.requireForInsert t i.resolution (i.values.map Prod.fst) (!i.returning.isEmpty)
    let key ← t.newKey (cellsOf i.values)
    match db.place i t key with
    | .error .skipped => .ok (none, db.replace i.table (t.counting key))
    | .error fault => .error fault
    | .ok (row, db) => .ok (some (t.returned row i.returning), db)

/-- Executes an UPDATE: the row as it is stored, none if there is none. Of two values for one column the
last one counts. -/
def update (db : Database) (u : Update) (key : Param) : Except Fault (Option (List Cell)) × Database :=
  db.settle true do
    let t ← db.table u.table
    u.values.forM fun v => t.requireName v.1
    let values := (cellsOf u.values).reverse
    db.requireForChange t (u.values.map Prod.fst)
    let (rows, db) ← editAll u.table (.assign values) db (t.rows.filter (hasKey t u.key key))
    .ok (rows.head?.map fun row => t.returned row u.returning, db)

/-- Executes a DELETE: the number of rows removed. -/
def delete (db : Database) (d : Delete) (key : Param) : Except Fault Nat × Database :=
  db.settle false do
    let t ← db.table d.table
    db.requireForRemoval t
    let (rows, db) ← editAll d.table .remove db (t.rows.filter (hasKey t d.key key))
    .ok (rows.length, db)

end RecordQuery.Database
