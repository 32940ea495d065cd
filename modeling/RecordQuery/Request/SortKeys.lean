import RecordQuery.Error
import RecordQuery.Json.Printer
import RecordQuery.Json.Reader
import RecordQuery.Path
import RecordQuery.Text.Ascii
import RecordQuery.Text.Blank
/-!
# Sort keys

Sort keys are dotted paths with a direction, in order of precedence. They are written as an object,
or as the text of one, in which objects within objects spell the paths. A direction is `asc` or `desc`
in either case, or 1 or -1.
-/

namespace RecordQuery

/-- Which end comes first. -/
inductive Direction where
  | ascending
  | descending
  deriving DecidableEq

/-- The paths to sort by, the first one first. -/
abbrev SortKeys := List (String × Direction)

namespace Direction

/-- The direction that a JSON value spells. -/
def ofJson? : Json → Option Direction
  | .string s =>
    match Text.Ascii.upper (Text.trimmed s) with
    | "ASC" | "1" => some .ascending
    | "DESC" | "-1" => some .descending
    | _ => none
  | .number n =>
    if n.int64? = some 1 then some .ascending
    else if n.int64? = some (-1) then some .descending
    else none
  | _ => none

/-- The keyword of a direction. -/
def keyword : Direction → String
  | .ascending => "ASC"
  | .descending => "DESC"

end Direction

namespace SortKeys

mutual

/-- The sort keys of the value under a path. -/
def ofValue (path : String) : Json → Checked SortKeys
  | .object members => ofMembers path members
  | json =>
    match Direction.ofJson? json with
    | some d => .ok [(path, d)]
    | none => .error (.direction path json.compact)

/-- The sort keys of the members of an object under a path. -/
def ofMembers (path : String) : List (String × Json) → Checked SortKeys
  | [] => .ok []
  | (key, value) :: members => do
    let first ← ofValue (Path.below path key) value
    let rest ← ofMembers path members
    .ok (first ++ rest)

end

/-- Reads sort keys from JSON. -/
def ofJson : Json → Checked SortKeys
  | .null => .ok []
  | .object members => ofMembers "" members
  | .string s =>
    match Json.read? s with
    | none => .error .sortJson
    | some (.object members) => ofMembers "" members
    | some json => .error (.sortShape json.compact)
  | json => .error (.sortShape json.compact)

end SortKeys

end RecordQuery
