import RecordQuery.Database.Basic
import RecordQuery.Query.Basic
import RecordQuery.Sql.Build
/-!
# Stores

A `Store` is what a gateway needs of persistent storage: five operations on a state of any type, which
may fail. Finding a page together with the number of all matching records is counting first and
finding then (`Store.findManyAndCount`).
-/

namespace RecordQuery

/-- A stored row by column name, with the related records that were loaded for it. -/
abbrev Record := Members

/-- Why a store fails. -/
inductive StoreError where
  /-- The query does not fit the schema. -/
  | invalidQuery (fault : Sql.Fault)
  | database (fault : Database.Fault)
  /-- A script lets the operation fail. -/
  | scripted
  deriving DecidableEq

/-- The wording of a failure. What a database says is kept from it. -/
def StoreError.message : StoreError → String
  | .invalidQuery fault => "invalid query: " ++ fault.message
  | .database _ => "database error"
  | .scripted => "invalid query: scripted failure"

/-- A step on a state, which it changes even if it fails. -/
abbrev Store.Step (σ α : Type) := ExceptT StoreError (StateM σ) α

/-- Operations on stored records of a state `σ`. -/
structure Store (σ ι : Type) where
  /-- The number of matching records, whatever the page. -/
  count : Schema ι → Query → Store.Step σ Int64
  /-- The first matching record with its related ones. -/
  findOne : Schema ι → Query → Store.Step σ (Option Record)
  /-- The matching records of the page, or all of them. -/
  findMany : Schema ι → Query → Store.Step σ (List Record)
  /-- Adds a record without a key, and changes the one of its key otherwise. -/
  save : Schema ι → Record → Store.Step σ Record
  /-- Removes the record of a key and counts what was removed. -/
  delete : Schema ι → Scalar → Store.Step σ Nat

namespace Store

variable {σ ι : Type}

/-- The matching records of a page, and the number of all matching records. -/
def findManyAndCount (store : Store σ ι) (s : Schema ι) (q : Query) :
    Step σ (List Record × Int64) := do
  let total ← store.count s q
  let records ← store.findMany s q
  return (records, total)

end Store

end RecordQuery
