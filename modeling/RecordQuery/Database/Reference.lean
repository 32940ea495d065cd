import RecordQuery.Database.Basic
/-!
# References between tables

A reference leads from a row to the row of its target that has the referring cells as its key
(`Table.isKeyOf`), and one with a null among them leads nowhere and need not. `Database.hasLoose` says
whether a reference leads to a row that is not there, which no statement leaves behind.
-/

namespace RecordQuery.Database

open Sql

namespace Table

/-- Whether no two rows share columns under their own collations. -/
def areUnique (t : Table) (names : List String) : Bool :=
  t.uniques.any fun u =>
    u.columns.length = names.length &&
      u.columns.all fun (name, collation) =>
        names.any (Text.Ascii.same name) && (t.field? name).any (·.collation = collation)

/-- The columns that a reference leads to, if they are a key. -/
def keysOf? (t : Table) (r : Reference) : Option (List String) :=
  match r.keys with
  | none => if t.primaryKey.length = r.columns.length then some t.primaryKey else none
  | some [name] =>
    if (t.field? name).any Field.isKey || t.areUnique [name] then some [name] else none
  | some names => if t.areUnique names then some names else none

/-- The cells of a row in columns. -/
def cellsAt (t : Table) (row : Row) (names : List String) : List Cell :=
  names.map fun name => ((t.field? name).map row.cell).getD .null

/-- Whether cells, stored as the key, are that of a row. -/
def isKeyOf (t : Table) (keys : List String) (cells : List Cell) (row : Row) : Bool :=
  (keys.zip cells).all fun (name, cell) =>
    match t.field? name with
    | none => false
    | some f => (Cell.compare? f.collation (f.affinity.store cell) (row.cell f)).any Ordering.isEq

/-- Whether the cells of a row are its own key, as it is before it is stored. -/
def isOwnKey (t : Table) (keys : List String) (cells : List Cell) (row : Row) : Bool :=
  (keys.zip cells).all fun (name, cell) =>
    match t.field? name with
    | none => false
    | some f =>
      let cell := if f.isKey then f.affinity.store cell else cell
      (Cell.compare? .binary cell (row.cell f)).any Ordering.isEq

/-- Whether a row of another table refers to a row, as cells of columns are compared. -/
def isMeantBy (t : Table) (keys : List String) (row : Row) (other : Table) (columns : List String)
    (referring : Row) : Bool :=
  (keys.zip columns).all fun (key, column) =>
    ((Scope.resolve [t.scope row] key).compare?
      (Scope.resolve [other.scope referring] column)).any Ordering.isEq

/-- Whether a change leaves the key of a row as it was. -/
def keepsKey (t : Table) (keys : List String) (row changed : Row) : Bool :=
  keys.all fun key =>
    match t.field? key with
    | none => true
    | some f => Cell.compareKnown f.collation (row.cell f) (changed.cell f) == .eq

/-- Whether one of some columns is among those that are given. -/
def isAssigned (t : Table) (given names : List String) : Bool :=
  names.any fun name =>
    given.any fun other => Text.Ascii.same name other || (t.isKeyName name && t.isKeyName other)

end Table

/-- Whether a row refers to a row that is not there. -/
def isLoose (db : Database) (t : Table) (r : Reference) (row : Row) : Bool :=
  let cells := t.cellsAt row r.columns
  !cells.any Cell.isNull &&
    match db.table? r.target with
    | none => true
    | some target =>
      match target.keysOf? r with
      | none => true
      | some keys =>
        !target.rows.any fun other =>
          if Text.Ascii.same target.name t.name && other.key == row.key then
            target.isOwnKey keys cells other
          else target.isKeyOf keys cells other

/-- Whether some row refers to a row that is not there; late references are looked at apart. -/
def hasLoose (db : Database) (isDeferred : Bool) : Bool :=
  db.tables.any fun t =>
    t.references.any fun r => r.isDeferred == isDeferred && t.rows.any (db.isLoose t r)

/-- The references to a table, the newest first, each with the name of the table that it is in. -/
def referring (db : Database) (name : String) : List (String × Reference) :=
  db.tables.reverse.flatMap fun t =>
    (t.references.reverse.filter fun r => Text.Ascii.same r.target name).map fun r => (t.name, r)

/-! ## What a statement needs

A statement is refused if it may come to follow a reference to what is no key, whatever the rows are. -/

/-- What a statement may do to the rows of a table. -/
inductive Touch where
  | removal
  | change (columns : List String)
  deriving DecidableEq

/-- The references to a table whose keys are touched, each with the name of the table that it is in. -/
def touched (db : Database) (t : Table) : Touch → List (String × Reference)
  | .removal => db.referring t.name
  | .change columns =>
    (db.referring t.name).filter fun (_, r) => t.isAssigned columns (r.keys.getD t.primaryKey)

/-- What is done to the rows that refer to those of a table. -/
def Touch.next (db : Database) (t : Table) (touch : Touch) : List (String × Touch) :=
  (db.touched t touch).filterMap fun (name, r) =>
    match touch, if touch = .removal then r.onRemoval else r.onChange with
    | _, .nothing => none
    | _, .restrict => none
    | .removal, .cascade => some (name, .removal)
    | _, _ => some (name, .change r.columns)

/-- Everything that may be done; `n` bounds how far one thing brings about another. -/
def reached (db : Database) : Nat → List (String × Touch) → List (String × Touch)
  | 0, seen => seen
  | n + 1, seen =>
    let next := seen.flatMap fun (name, touch) =>
      match db.table? name with
      | some t => touch.next db t
      | none => []
    db.reached n (seen ++ (next.filter fun entry => !seen.contains entry).eraseDups)

/-- Refuses a reference to what is no key. -/
def requireKey (db : Database) (r : Reference) : Except Fault Unit := do
  let target ← db.table r.target
  if (target.keysOf? r).isSome then .ok () else .error .noTarget

/-- Refuses what is done to the rows of one table if it follows a reference to what is no key. -/
def requireOne (db : Database) (name : String) (touch : Touch) : Except Fault Unit := do
  let t ← db.table name
  let others := (db.referring t.name).map Prod.snd
  let needed : List Reference := match touch with
    | .removal => t.references ++ others
    | .change columns =>
      let moved := t.references.filter fun r => t.isAssigned columns r.columns
      if moved.isEmpty && (db.touched t touch).isEmpty then []
      else moved ++ others
  needed.forM db.requireKey

/-- Refuses what a statement may do if that follows a reference to what is no key. -/
def requireKeys (db : Database) (touches : List (String × Touch)) : Except Fault Unit :=
  let bound := 2 * (db.tables.flatMap fun t => t.references).length
  (db.reached bound touches).forM fun (name, touch) => db.requireOne name touch

/-- What becomes of rows that stand in the way of new values of columns: they may be removed. -/
def removals (t : Table) (said : Option Resolution) (columns : List String) : List (String × Touch) :=
  let replaces := t.uniques.any fun u =>
    said.getD u.resolution = .replace && t.isAssigned columns (u.columns.map Prod.fst)
  let replacesKey := said.getD t.onTaken = .replace && columns.any t.isKeyName
  if replaces || replacesKey then [(t.name, .removal)] else []

/-- Refuses a new row with values of columns. Whether the references to the table lead to keys matters
only if the statement is answered. -/
def requireForInsert (db : Database) (t : Table) (said : Option Resolution) (columns : List String)
    (isAnswered : Bool) : Except Fault Unit := do
  t.references.forM db.requireKey
  if isAnswered then (db.referring t.name).forM fun (_, r) => db.requireKey r
  let stored := (t.fields.filter fun f => !f.isKey).map Field.name
  db.requireKeys (removals t said (columns ++ stored))

/-- Refuses new values of columns. -/
def requireForChange (db : Database) (t : Table) (columns : List String) : Except Fault Unit :=
  db.requireKeys ((t.name, .change columns) :: removals t none columns)

/-- Refuses a removal. -/
def requireForRemoval (db : Database) (t : Table) : Except Fault Unit :=
  db.requireKeys [(t.name, .removal)]

end RecordQuery.Database
