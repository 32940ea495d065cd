import RecordQuery.Database.Writing
import RecordQuery.Store.Loading
/-!
# The store over a database

Queries are compiled to statements and executed, and the rows come back as records with their related
ones. A record with a key is an UPDATE of the columns that it carries, one without is an INSERT.
-/

namespace RecordQuery.Database

variable {ι : Type}

/-- The statement of a query. Only the first row is wanted of a single one; a page is cut from the
order of the keys if the query has none. -/
def statement (catalog : Catalog ι) (s : Schema ι) (q : Query) (single : Bool) :
    Except Sql.Fault Sql.Select := do
  let select ← (Sql.Select.live s).filter catalog s q.predicate
  let select ← select.sort catalog s q.sort
  .ok (if single then select.atMost 1
    else if q.page.isSome then (select.sortByKey s).onPage q.page
    else select)

/-- The records of a query. -/
def find (db : Database) (catalog : Catalog ι) (s : Schema ι) (q : Query) (single : Bool) :
    Except StoreError (List Record) := do
  let select ← (statement catalog s q single).mapError .invalidQuery
  let internal := Loading.internalColumns q.projection.columns
    (Loading.neededKeys catalog s q.projection "")
  let records ← Loading.fetch db s select (q.projection.columns ++ internal)
  let records ← Loading.load db catalog s q.projection records
  .ok (records.map (Record.without · internal))

/-- The number of records of a query. -/
def countOf (db : Database) (catalog : Catalog ι) (s : Schema ι) (q : Query) :
    Except StoreError Int64 := do
  let select ← ((Sql.Select.live s).filter catalog s q.predicate).mapError .invalidQuery
  let n ← (db.count select).mapError .database
  .ok (Int64.ofNat n)

/-- The statement that writes a record: what executes it. -/
def writer (s : Schema ι) (record : Record) :
    Except Sql.Fault (Database → Except Fault (Option (List Sql.Cell)) × Database) := do
  let values ← record.values s
  match record.key? s with
  | some key => do
    let u ← Sql.Update.ofValues s values
    .ok fun db => db.update u key
  | none => do
    let i ← Sql.Insert.ofValues s values
    .ok fun db => db.insert i

/-- The record of the row that a statement gives, if it gives one. -/
def stored (s : Schema ι) : Option (List Sql.Cell) → Except Fault Record
  | none => .error .noRow
  | some cells => Record.ofCells? s s.columnNames cells

/-- Saves a record: the record as it is stored. A row that is written and cannot be read stays. -/
def save (db : Database) (s : Schema ι) (record : Record) : Except StoreError Record × Database :=
  match writer s record with
  | .error fault => (.error (.invalidQuery fault), db)
  | .ok write =>
    let (answer, db) := write db
    ((answer.bind (stored s)).mapError .database, db)

/-- Removes the record of a key. -/
def remove (db : Database) (s : Schema ι) (id : Scalar) : Except StoreError Nat × Database :=
  let (answer, db) := db.delete (.ofSchema s) (.ofScalar id)
  (answer.mapError .database, db)

/-- A step that reads. -/
def reading {α : Type} (f : Database → Except StoreError α) : Store.Step Database α :=
  ExceptT.mk fun db => (f db, db)

/-- A step that changes the database. -/
def writing {α : Type} (f : Database → Except StoreError α × Database) : Store.Step Database α :=
  ExceptT.mk f

/-- The store over a database. -/
def store (catalog : Catalog ι) : Store Database ι where
  count s q := reading fun db => db.countOf catalog s q
  findOne s q := reading fun db => (db.find catalog s q true).map List.head?
  findMany s q := reading fun db => db.find catalog s q false
  save s record := writing fun db => db.save s record
  delete s id := writing fun db => db.remove s id

end RecordQuery.Database
