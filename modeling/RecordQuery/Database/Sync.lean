import RecordQuery.Database.Basic
/-!
# Making tables

`Database.sync` makes the tables of schemas that are not there yet, in their order, and says which
were made and how many failed. A table that is there is left as it is.
-/

namespace RecordQuery.Database

variable {ι : Type}

/-- What making tables came to. -/
structure Synced where
  created : List String := []
  failures : List Fault := []

/-- Whether there is a table of exactly a name. -/
def hasTable (db : Database) (name : String) : Bool :=
  db.tables.any (·.name == name) || name == sequenceName && db.sequence?.isSome

/-- Makes the table of a schema if there is none of exactly its name. -/
def syncOne (db : Database) (report : Synced) (s : Schema ι) : Database × Synced :=
  if db.hasTable s.table then (db, report)
  else
    match db.create s with
    | (db, none) => (db, { report with created := report.created ++ [s.table] })
    | (db, some fault) => (db, { report with failures := report.failures ++ [fault] })

/-- Makes the missing tables of schemas. -/
def sync (db : Database) (schemas : List (Schema ι)) : Database × Synced :=
  schemas.foldl (fun (db, report) s => db.syncOne report s) (db, {})

end RecordQuery.Database
