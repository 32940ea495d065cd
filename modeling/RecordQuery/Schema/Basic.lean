import RecordQuery.Path
/-!
# Schemas

A `Schema` describes one kind of record: its table, its columns, its relations to other kinds, the
columns that are never shown, and what deleting means. A `Catalog` holds the schemas that relations
lead to, so a dotted path of relation names can be walked from any schema (`relations?`, `schemaAt?`).
-/

namespace RecordQuery

/-- What a column holds. -/
inductive Kind where
  | integer
  | real
  | text
  | boolean
  | timestamp
  deriving DecidableEq

/-- What a column is kept for, if its content is maintained and not written by callers. -/
inductive Role where
  | createdAt
  | updatedAt
  | deletedAt
  | createdBy
  | updatedBy
  deriving DecidableEq

/-- A column. A default is the text of an SQL expression. -/
structure Column where
  name : String
  kind : Kind
  nullable : Bool := false
  isKey : Bool := false
  role : Option Role := none
  standard : Option String := none
  deriving DecidableEq

/-- How the records of a relation are found: by a column here that holds their key, or by a column
there that holds the key of this record. -/
inductive Join where
  | belongsTo (localKey : String)
  | hasMany (foreignKey : String)
  deriving DecidableEq

/-- A relation to the records of another kind. -/
structure Relation (ι : Type) where
  name : String
  target : ι
  join : Join

/-- Whether a relation leads to many records. -/
def Relation.isMany {ι : Type} (r : Relation ι) : Bool :=
  match r.join with
  | .belongsTo _ => false
  | .hasMany _ => true

/-- Whether deleting marks a record or removes it. -/
inductive Deletion where
  | soft
  | hard
  deriving DecidableEq

/-- One kind of record. -/
structure Schema (ι : Type) where
  name : String
  table : String
  key : String
  columns : List Column
  relations : List (Relation ι)
  hidden : List String
  deletion : Deletion

/-- The schemas that relations lead to. -/
abbrev Catalog (ι : Type) := ι → Schema ι

namespace Schema

variable {ι : Type}

/-- The column of a name. -/
def column? (s : Schema ι) (name : String) : Option Column :=
  s.columns.find? (·.name == name)

/-- Whether there is a column of a name. -/
def hasColumn (s : Schema ι) (name : String) : Bool :=
  (s.column? name).isSome

/-- The names of all columns. -/
def columnNames (s : Schema ι) : List String :=
  s.columns.map Column.name

/-- The relation of a name. -/
def relation? (s : Schema ι) (name : String) : Option (Relation ι) :=
  s.relations.find? (·.name == name)

/-- The first column of a role. -/
def columnFor? (s : Schema ι) (role : Role) : Option Column :=
  s.columns.find? (·.role == some role)

/-- Whether a column is never shown. -/
def isHidden (s : Schema ι) (name : String) : Bool :=
  s.hidden.contains name

/-- The column that marks a deleted record, if deleting marks. -/
def deletionMark? (s : Schema ι) : Option String :=
  match s.deletion with
  | .soft => (s.columnFor? .deletedAt).map Column.name
  | .hard => none

/-- The column here and the column there that a relation joins by. -/
def joinKeys (catalog : Catalog ι) (s : Schema ι) (r : Relation ι) : String × String :=
  match r.join with
  | .belongsTo localKey => (localKey, (catalog r.target).key)
  | .hasMany foreignKey => (s.key, foreignKey)

/-! ## Paths -/

/-- Walks relations by name. -/
def walk? (catalog : Catalog ι) : Schema ι → List String → Option (List (Relation ι))
  | _, [] => some []
  | s, name :: names => do
    let r ← s.relation? name
    let rs ← walk? catalog (catalog r.target) names
    some (r :: rs)

/-- The relations along a dotted path. -/
def relations? (catalog : Catalog ι) (s : Schema ι) (path : String) : Option (List (Relation ι)) :=
  s.walk? catalog (Path.names path)

/-- The schema at the end of a dotted path. -/
def schemaAt? (catalog : Catalog ι) (s : Schema ι) (path : String) : Option (Schema ι) :=
  (s.relations? catalog path).map fun rs =>
    match rs.getLast? with
    | some r => catalog r.target
    | none => s

end Schema

end RecordQuery
