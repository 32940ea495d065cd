import RecordQuery.Database.Table
import RecordQuery.Sql.DefinitionReader
/-!
# Databases

A `Database` is a list of tables. Tables are made from definitions, one after the other.
-/

namespace RecordQuery

open Sql

/-- The order in which rows are met that the order of a statement does not tell apart: that of the path
which is chosen for the statement, or that of their keys. -/
inductive Database.Visit where
  | planned
  | byKey
  deriving DecidableEq

/-- Tables, in the order in which they were made, the time at which statements are executed, and how rows
are met. -/
structure Database where
  tables : List Database.Table := []
  now : Instant := .ofEpoch 0 0
  visit : Database.Visit := .planned

namespace Database

/-- The name of the table that keeps the greatest keys. -/
def sequenceName : String := "sqlite_sequence"

/-- The greatest keys of the tables whose keys are automatic, if there is such a table. -/
def sequence? (db : Database) : Option Table :=
  let automatic := db.tables.filter fun t => t.isAutomatic
  if automatic.isEmpty then none
  else
    let given := automatic.filter fun t => 0 < t.lastKey
    some
      { name := sequenceName
        fields := [{ name := "name", affinity := .none }, { name := "seq", affinity := .none }]
        rows := given.zipIdx.map fun (t, n) =>
          ⟨Int64.ofNat (n + 1), [("name", .text t.name), ("seq", .integer t.lastKey)]⟩ }

/-- The table of a name, whatever its case. -/
def table? (db : Database) (name : String) : Option Table :=
  if Text.Ascii.same name sequenceName then db.sequence?
  else db.tables.find? fun t => Text.Ascii.same t.name name

/-- The table of a name. -/
def table (db : Database) (name : String) : Except Fault Table :=
  match db.table? name with
  | some t => .ok t
  | none => .error (.noTable name)

/-- Puts a changed table in its place. -/
def replace (db : Database) (name : String) (t : Table) : Database :=
  { db with tables := db.tables.map fun u => if Text.Ascii.same u.name name then t else u }

/-- Names that tables of a user may not have. -/
def isReserved (name : String) : Bool :=
  "sqlite_".toList.isPrefixOf (Text.Ascii.lower name).toList

/-- Makes the table of a draft, unless there is one of its name. -/
def define (db : Database) (d : Draft) : Except Fault Database :=
  if isReserved d.name then .error .badDefinition
  else if (db.table? d.name).isSome then .ok db
  else
    match d.finish? with
    | some definition => .ok { db with tables := db.tables ++ [{ toDefinition := definition }] }
    | none => .error .badDefinition

/-- Makes tables one after the other until one cannot be made. -/
def defineAll (db : Database) : List Draft → Database × Option Fault
  | [] => (db, none)
  | d :: ds =>
    match db.define d with
    | .ok db => defineAll db ds
    | .error fault => (db, some fault)

/-- Makes the table of a schema, unless there is one of its name. -/
def create {ι : Type} (db : Database) (s : Schema ι) : Database × Option Fault :=
  let (drafts, complete) := Draft.ofSchema s
  match db.defineAll drafts with
  | (db, none) => (db, if complete then none else some .badDefinition)
  | failed => failed

/-- The rows of a table by column name, none if there is no such table. -/
def scopes (db : Database) (name : String) : List Scope :=
  ((db.table? name).map Table.scopes).getD []

end Database

end RecordQuery
