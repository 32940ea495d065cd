import RecordQuery.Gateway.Basic
/-!
# Envelopes

The JSON form of an operation's outcome. A result stands under `data` with the time of the answer, and
the summary of a page beside it under `meta`; an error gives its status, its public wording and its
name.
-/

namespace RecordQuery

/-- The summary of a page in JSON. -/
def PageSummary.toJson (s : PageSummary) : Json :=
  .object [("total", .ofInt64 s.total), ("pageCount", .ofInt64 s.pageCount),
    ("page", .ofInt64 s.page)]

/-- The outcome of deleting in JSON. -/
def Deleted.toJson : Deleted → Json
  | .marked record => .object record
  | .removed affected => .object [("affected", .ofInt64 (Int64.ofNat affected))]

namespace Listing

/-- The records of a listing in JSON. -/
def data (l : Listing) : Json := .array (l.records.map .object)

/-- A listing in JSON: its records, under `records` if there is a summary. -/
def toJson (l : Listing) : Json :=
  match l.summary with
  | some s => .object [("records", l.data), ("meta", s.toJson)]
  | none => l.data

end Listing

namespace Envelope

/-- The envelope of a result. -/
def success (now : Instant) (data : Json) (summary : Option PageSummary := none) : Json :=
  .object ([("data", data)] ++ (summary.map fun s => ("meta", s.toJson)).toList ++
    [("timestamp", .string now.text)])

/-- The envelope of an error. -/
def failure (now : Instant) (e : Error) : Json :=
  .object [("statusCode", .ofInt64 (Int64.ofNat e.status)), ("message", .string e.publicMessage),
    ("errorName", .string e.name), ("timestamp", .string now.offsetText)]

/-- The envelope of an operation that gives a JSON value. -/
def ofData (now : Instant) : Except Error Json → Json
  | .ok data => success now data
  | .error e => failure now e

/-- The envelope of an operation that gives a record. -/
def ofRecord (now : Instant) (result : Except Error Record) : Json :=
  ofData now (result.map .object)

/-- The envelope of a deletion. -/
def ofDeleted (now : Instant) (result : Except Error Deleted) : Json :=
  ofData now (result.map Deleted.toJson)

/-- The envelope of a listing. -/
def ofListing (now : Instant) : Except Error Listing → Json
  | .ok l => success now l.data l.summary
  | .error e => failure now e

end Envelope

end RecordQuery
