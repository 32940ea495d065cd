import RecordQuery.Error
import RecordQuery.Json.Printer
import RecordQuery.Schema.Basic
import RecordQuery.Text.Blank
import RecordQuery.Text.Split
/-!
# Named relations

A request names the relations to load by their dotted paths: in one text between commas, in a list,
or as the keys of an object. `RelationNames.paths` gives the paths, trimmed and each once.
-/

namespace RecordQuery

/-- Paths as a request names them. -/
inductive RelationNames where
  | delimited (text : String)
  | list (paths : List String)
  | keys (paths : List String)
  deriving DecidableEq

namespace RelationNames

/-- The texts of a list. -/
def ofItems : List Json → Checked (List String)
  | [] => .ok []
  | .string s :: items => (ofItems items).map (s :: ·)
  | item :: _ => .error (.relationEntry item.compact)

/-- Reads the names from JSON; null names nothing. -/
def ofJson : Json → Checked RelationNames
  | .null => .ok (.list [])
  | .string s => .ok (.delimited s)
  | .array items => (ofItems items).map .list
  | .object members => .ok (.keys (members.map Prod.fst))
  | json => .error (.relationsShape json.compact)

/-- The names as they were given. -/
def raw : RelationNames → List String
  | .delimited text => Text.pieces ',' text
  | .list paths => paths
  | .keys paths => paths

/-- The paths, trimmed, without empty and repeated ones, in order of their first occurrence. -/
def paths (names : RelationNames) : List String :=
  ((names.raw.map Text.trimmed).filter (· != "")).foldl Path.addNew []

end RelationNames

end RecordQuery
