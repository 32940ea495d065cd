import RecordQuery.Request.Relations
/-!
# Exclusions

A request leaves out fields and relations by their dotted paths, written between commas. A path
without a dot is a field of the root or a relation of it, `path.field` is a field of the records at
`path`, and a relation is left out with everything below it (`Exclusions.covers`).
-/

namespace RecordQuery

/-- The paths to leave out. -/
structure Exclusions where
  paths : List String
  deriving DecidableEq

namespace Exclusions

/-- Reads the paths between commas. -/
def read (text : Option String) : Exclusions :=
  match text with
  | some text => ⟨((Text.pieces ',' text).map Text.trimmed).filter (· != "")⟩
  | none => ⟨[]⟩

/-- Whether nothing is left out. -/
def isEmpty (e : Exclusions) : Bool := e.paths.isEmpty

/-- Whether a path is left out itself. -/
def contains (e : Exclusions) (path : String) : Bool := e.paths.contains path

/-- The field that a path names directly under another one. -/
def fieldBelow? (path entry : String) : Option String :=
  match path.toList.isPrefixOf? entry.toList with
  | some ('.' :: field) => if field.contains '.' then none else some (String.ofList field)
  | _ => none

/-- The fields left out directly under a path. -/
def fieldsUnder (e : Exclusions) (path : String) : List String :=
  e.paths.filterMap (fieldBelow? path)

/-- The fields left out of the root. -/
def rootFields (e : Exclusions) : List String :=
  e.paths.filter Path.isName

/-- Whether a relation is left out, itself or with one that leads to it. -/
def covers (e : Exclusions) (path : String) : Bool :=
  (Path.beginnings path).any e.contains

end Exclusions

namespace RelationNames

/-- Checks paths one by one: those left out are passed over, the others must be relations. -/
def checkPaths {ι : Type} (catalog : Catalog ι) (s : Schema ι) (e : Exclusions) :
    List String → Checked (List String)
  | [] => .ok []
  | path :: paths =>
    if e.covers path then checkPaths catalog s e paths
    else if (s.relations? catalog path).isNone then .error (.unknownRelation path s.name)
    else (checkPaths catalog s e paths).map (path :: ·)

/-- The relations to load. -/
def resolve {ι : Type} (catalog : Catalog ι) (s : Schema ι) (names : Option RelationNames)
    (e : Exclusions) : Checked (List String) :=
  match names with
  | some names => checkPaths catalog s e names.paths
  | none => .ok []

end RelationNames

end RecordQuery
