import RecordQuery.Gateway.Concealment
import RecordQuery.Gateway.Payload
/-!
# Gateways

A `Gateway` gives callers one kind of record in a store: it checks what they ask and write, keeps the
columns of times and authors, and shows nothing hidden. A change first looks up the record that it is
about, so nothing is written if the record is not there. What fails in the store is reported in words
that are safe to show.
-/

namespace RecordQuery

/-- One kind of record in a store. -/
structure Gateway (σ ι : Type) where
  catalog : Catalog ι
  schema : Schema ι
  store : Store σ ι
  limits : PageLimits := {}

/-- What deleting gives: the record with its mark, or the number of rows removed. -/
inductive Deleted where
  | marked (record : Record)
  | removed (affected : Nat)

/-- The records of a listing, with a summary if a page was asked for. -/
structure Listing where
  records : List Record
  summary : Option PageSummary := none

namespace Gateway

variable {σ ι : Type}

/-- A step of a gateway. -/
abbrev Step (σ α : Type) := ExceptT Error (StateM σ) α

/-- A gateway to the records of a consistent schema. -/
def ofSchema (catalog : Catalog ι) (schema : Schema ι) (store : Store σ ι)
    (limits : PageLimits := {}) : Except Error (Gateway σ ι) := do
  schema.check catalog
  .ok { catalog, schema, store, limits }

/-! ## Parts of operations -/

/-- Goes on with what a check gives, or reports what is wrong. -/
def accept {α : Type} (result : Checked α) : Step σ α :=
  ExceptT.mk (pure (result.mapError .malformed))

/-- A step of the store, any failure of which is reported in the given words. -/
def stored {α : Type} (message : String) (step : Store.Step σ α) : Step σ α :=
  ExceptT.mk do
    let result ← step.run
    pure (result.mapError fun _ => .storeFailure message)

/-- A record as callers see it. -/
def shown (g : Gateway σ ι) (record : Record) : Record :=
  Concealment.record g.catalog g.schema record

/-- Sets the column of a role, if there is one. -/
def stamp (g : Gateway σ ι) (role : Role) (value : Json) (record : Record) : Record :=
  match g.schema.columnFor? role with
  | some column => record.insert column.name value
  | none => record

/-- Sets the column of a role to the actor, if there are both. -/
def stampActor (g : Gateway σ ι) (role : Role) (actor : Option Scalar) (record : Record) : Record :=
  match actor with
  | some id => g.stamp role id.toJson record
  | none => record

/-- The report that no record has a key. -/
def missing (g : Gateway σ ι) (id : Scalar) : Error :=
  .notFound g.schema.name id.display

/-- The first record of a query as callers see it; a failure is reported in the given words. -/
def first (g : Gateway σ ι) (message : String) (q : Query) : Step σ (Option Record) := do
  let record ← stored message (g.store.findOne g.schema q)
  return record.map g.shown

/-- The record that a change is about. -/
def existing (g : Gateway σ ι) (message : String) (id : Scalar) : Step σ Record := do
  match ← g.first message (.byKey g.schema id) with
  | some record => return record
  | none => throw (g.missing id)

/-- Saves a record and shows it as it is stored. -/
def save (g : Gateway σ ι) (message : String) (record : Record) : Step σ Record := do
  return g.shown (← stored message (g.store.save g.schema record))

/-- The words for a failure while creating. -/
def createFailed : String := "Failed to create record"

/-- The words for a failure while changing. -/
def updateFailed : String := "Failed to update record"

/-- The words for a failure while deleting. -/
def deleteFailed : String := "Failed to delete record"

/-- The words for a failure while reading. -/
def readFailed : String := "Failed to load records"

/-! ## Operations -/

/-- Adds a record. -/
def create (g : Gateway σ ι) (now : Instant) (actor : Option Scalar) (data : Record) :
    Step σ Record := do
  accept (Payload.checkMembers g.schema data)
  accept (Payload.checkComplete g.schema data)
  let time := Json.string now.text
  let record := g.stamp .updatedAt time (g.stamp .createdAt time data)
  let record := g.stampActor .updatedBy actor (g.stampActor .createdBy actor record)
  g.save createFailed record

/-- Changes the members given of the record of a key. -/
def update (g : Gateway σ ι) (now : Instant) (actor : Option Scalar) (id : Scalar) (data : Record) :
    Step σ Record := do
  accept (Payload.checkMembers g.schema data)
  let record ← g.existing updateFailed id
  let patch := g.stampActor .updatedBy actor (g.stamp .updatedAt (.string now.text) data)
  g.save updateFailed (record.merge patch)

/-- Marks the record of a key as deleted, or removes it. -/
def delete (g : Gateway σ ι) (now : Instant) (actor : Option Scalar) (id : Scalar) :
    Step σ Deleted := do
  let record ← g.existing deleteFailed id
  match g.schema.deletionMark? with
  | some column =>
    let time := Json.string now.text
    let patch := g.stampActor .updatedBy actor (g.stamp .updatedAt time [(column, time)])
    return .marked (← g.save deleteFailed (record.merge patch))
  | none => return .removed (← stored deleteFailed (g.store.delete g.schema id))

/-- The record of a key, if it satisfies the caller's search too. -/
def find (g : Gateway σ ι) (id : Scalar) (request : Request) : Step σ Record := do
  let q ← accept (Query.ofRequest g.catalog g.schema g.limits request (some (g.schema.key, id)))
  match ← g.first readFailed q with
  | some record => return record
  | none => throw (g.missing id)

/-- The first record that satisfies a predicate of the application and the caller's search. -/
def findBy (g : Gateway σ ι) (predicate : Predicate) (request : Request) :
    Step σ (Option Record) := do
  accept (predicate.check g.catalog .any g.schema)
  let q ← accept (Query.ofRequest g.catalog g.schema g.limits request)
  g.first readFailed { q with predicate := predicate.and q.predicate }

/-- The records that a caller asks for. -/
def list (g : Gateway σ ι) (request : Request) : Step σ Listing := do
  let q ← accept (Query.ofRequest g.catalog g.schema g.limits request)
  match q.page with
  | some page =>
    let (records, total) ← stored readFailed (g.store.findManyAndCount g.schema q)
    return ⟨records.map g.shown, some (page.summary total)⟩
  | none =>
    let records ← stored readFailed (g.store.findMany g.schema q)
    return ⟨records.map g.shown, none⟩

end Gateway

end RecordQuery
