import RecordQuery.Predicate.OfFilter
import RecordQuery.Query.Access
import RecordQuery.Query.Projection
import RecordQuery.Request.Basic
/-!
# Queries

A `Query` is what a store executes: a predicate, the columns to fetch, the relations to load, sort
keys and a page. `Query.ofRequest` makes one of a caller's request, after checking every name in it
against the schema; `Query.byKey` asks for the record of a key.
-/

namespace RecordQuery

/-- A checked request for a store. -/
structure Query where
  predicate : Predicate
  projection : Projection
  relations : List String := []
  sort : SortKeys := []
  page : Option Page := none

namespace Query

variable {ι : Type}

/-- The record of a key, with all columns that are not hidden. -/
def byKey (s : Schema ι) (id : Scalar) : Query where
  predicate := .eq s.key id
  projection := .whole s

/-- The query of a request. A field that the record is identified by is joined to the search after
the search has been checked. -/
def ofRequest (catalog : Catalog ι) (s : Schema ι) (limits : PageLimits) (request : Request)
    (identity : Option (String × Scalar) := none) : Checked Query := do
  let predicate ← Predicate.ofFilter? request.search
  predicate.check catalog .visible s
  let predicate := match identity with
    | some (field, value) => predicate.andEq field value
    | none => predicate
  let exclusions := Exclusions.read request.exclude
  let relations ← RelationNames.resolve catalog s request.relations exclusions
  let projection ← Projection.ofPaths catalog s relations exclusions
  request.sort.check catalog s
  let page := if request.wantsPage then some (.within limits request.page request.pageSize) else none
  .ok ⟨predicate, projection, relations, request.sort, page⟩

end Query

end RecordQuery
