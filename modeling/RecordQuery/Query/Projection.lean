import RecordQuery.Request.Exclusions
/-!
# Projections

A `Projection` says which columns to fetch of the root and of the records along each relation path.
Hidden columns and the caller's exclusions are left out, the rest stays in the order of declaration.
Every beginning of a path has an entry of its own, and it comes before the longer paths.
-/

namespace RecordQuery

/-- The columns of the records at a relation path. -/
structure RelationColumns where
  path : String
  columns : List String
  deriving DecidableEq

/-- The columns to fetch. -/
structure Projection where
  columns : List String
  relations : List RelationColumns
  deriving DecidableEq

namespace Projection

variable {ι : Type}

/-- The columns that are neither hidden nor left out. -/
def visible (s : Schema ι) (without : List String) : List String :=
  s.columnNames.filter fun name => !s.isHidden name && !without.contains name

/-- All columns that are not hidden. -/
def whole (s : Schema ι) : Projection := ⟨visible s [], []⟩

/-- Whether a column of the root is fetched. -/
def includes (p : Projection) (column : String) : Bool := p.columns.contains column

/-- The entry of a relation path. -/
def at? (p : Projection) (path : String) : Option RelationColumns :=
  p.relations.find? (·.path == path)

/-- The non-empty beginnings of a list of names, shortest first. -/
def beginnings : List String → List (List String)
  | [] => []
  | name :: names => [name] :: (beginnings names).map (name :: ·)

/-- The beginnings of all paths, each once. -/
def closure (paths : List String) : List String :=
  (paths.flatMap fun path => (beginnings (Path.names path)).map (".".intercalate ·)).foldl
    Path.addNew []

/-- The entries of paths. -/
def entries (catalog : Catalog ι) (s : Schema ι) (e : Exclusions) :
    List String → Checked (List RelationColumns)
  | [] => .ok []
  | path :: paths =>
    match s.schemaAt? catalog path with
    | some target =>
      (entries catalog s e paths).map (⟨path, visible target (e.fieldsUnder path)⟩ :: ·)
    | none => .error (.unknownRelation path s.name)

/-- The projection of a request for relation paths, without what it leaves out. -/
def ofPaths (catalog : Catalog ι) (s : Schema ι) (paths : List String) (e : Exclusions) :
    Checked Projection :=
  (entries catalog s e (closure paths)).map (⟨visible s e.rootFields, ·⟩)

end Projection

end RecordQuery
