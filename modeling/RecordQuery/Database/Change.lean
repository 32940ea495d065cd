import RecordQuery.Database.Reference
/-!
# Changing rows

A row that is removed, or gets another key, takes the rows with it that refer to it: they are removed or
changed as their reference says (`Database.follow`), and so on. `Database.edit` is one such change with all
that it brings about. Whether references then lead somewhere is looked at when all is done.
-/

namespace RecordQuery.Database

open Sql

/-- What is done to a row. -/
inductive Edit where
  | remove
  | assign (values : List (String × Cell))

/-- What an action does to a row of a table that refers to a row, which is gone or has new key cells. -/
def Table.consequence? (t : Table) (now : Instant) (r : Reference) (cells : Option (List Cell)) :
    Action → Except Fault (Option Edit)
  | .nothing => .ok none
  | .restrict => .error .restricted
  | .cascade =>
    match cells with
    | none => .ok (some .remove)
    | some cells => .ok (some (.assign (r.columns.zip cells)))
  | .setNull => .ok (some (.assign (r.columns.map fun name => (name, .null))))
  | .setDefault => do
    let values ← r.columns.mapM fun name =>
      match t.field? name with
      | none => .ok (name, .null)
      | some f => do .ok (name, ← Table.standardCell now f)
    .ok (some (.assign values))

/-- Follows a change of a row along one reference to its table, which is in the table of a name. -/
def followOne (apply : Database → String → Edit → Row → Except Fault (Option Row × Database))
    (t : Table) (row : Row) (changed : Option Row) (db : Database) (name : String) (r : Reference) :
    Except Fault Database :=
  match t.keysOf? r with
  | none => .ok db
  | some keys =>
    if changed.any (t.keepsKey keys row) then .ok db
    else do
      let other ← db.table name
      let rows := other.rows.filter (t.isMeantBy keys row other r.columns)
      rows.foldlM (fun db referring => do
        let cells := changed.map fun changed => t.cellsAt changed keys
        let action := if changed.isSome then r.onChange else r.onRemoval
        match ← other.consequence? db.now r cells action with
        | none => .ok db
        | some e => (apply db name e referring).map Prod.snd) db

/-- Follows a change of a row of a table along all references to the table. -/
def follow (apply : Database → String → Edit → Row → Except Fault (Option Row × Database))
    (t : Table) (row : Row) (changed : Option Row) (db : Database) : Except Fault Database :=
  (db.referring t.name).foldlM (fun db (name, r) => followOne apply t row changed db name r) db

/-- Does something to the row of a key with all that this brings about; `n` bounds how far. The answer is
the row that was removed or the changed one, none if it was gone. -/
def edit : Nat → Option Resolution → Database → String → Edit → Row →
    Except Fault (Option Row × Database)
  | 0, _, _, _, _, _ => .error .tooDeep
  | n + 1, said, db, name, e, row => do
    let t ← db.table name
    match t.rowAt? row.key with
    | none => .ok (none, db)
    | some row =>
      match e with
      | .remove => do
        let db ← follow (edit n (some .abort)) t row none (db.replace name (t.removing row))
        .ok (some row, db)
      | .assign values => do
        let changed ← t.changedRow db.now said values row
        let rows ← t.displaced said changed (t.besides row)
        let db ← rows.foldlM (fun db other => (edit n none db name .remove other).map Prod.snd) db
        let t ← db.table name
        match t.rowAt? row.key with
        | none => .ok (none, db)
        | some _ => do
          let db ← follow (edit n (some .abort)) t row (some changed)
            (db.replace name (t.changing row changed))
          .ok (some changed, db)

/-- How far a change may bring about others. -/
def reach : Nat := 1001

/-- Does the same to rows, one after the other, except those that a rule leaves out: the rows that were
there, removed or changed. -/
def editAll (name : String) (e : Edit) : Database → List Row → Except Fault (List Row × Database)
  | db, [] => .ok ([], db)
  | db, row :: rows => do
    let (done, db) ← match edit reach none db name e row with
      | .error .skipped => .ok (none, db)
      | result => result
    let (others, db) ← editAll name e db rows
    .ok (done.toList ++ others, db)

end RecordQuery.Database
