import RecordQuery.Error
import RecordQuery.Schema.Basic
/-!
# Consistency of a schema

A `Flaw` is a way in which a schema contradicts itself or the schemas that its relations lead to.
`Schema.flaw?` finds the first one: the key, then hidden columns, then the deletion mark, then the
relations in their order.
-/

namespace RecordQuery

/-- What is inconsistent in a schema. -/
inductive Flaw where
  | key (name : String)
  | hiddenColumn (name : String)
  | deletionMark (name : String)
  | noDeletionMark
  /-- A relation and a column have one name. -/
  | shadowed (relation : String)
  | joinColumn (relation : String)
  deriving DecidableEq

/-- The wording of a flaw. -/
def Flaw.message : Flaw → String
  | .key name => "primary key `" ++ name ++ "` is not a declared primary key column"
  | .hiddenColumn name => "always-excluded field `" ++ name ++ "` is not a column"
  | .deletionMark name => "deletion column `" ++ name ++ "` must be nullable"
  | .noDeletionMark => "soft delete requires a DeletedAt column"
  | .shadowed relation => "relation `" ++ relation ++ "` shadows a column"
  | .joinColumn relation => "relation `" ++ relation ++ "` references a missing key column"

namespace Schema

variable {ι : Type}

/-- The key is a column that is declared as one. -/
def keyFlaw? (s : Schema ι) : Option Flaw :=
  match s.column? s.key with
  | some column => if column.isKey then none else some (.key s.key)
  | none => some (.key s.key)

/-- Every hidden column is there. -/
def hiddenFlaw? (s : Schema ι) : Option Flaw :=
  (s.hidden.find? fun name => !s.hasColumn name).map .hiddenColumn

/-- Where deleting marks, the mark is a column that may be empty. -/
def deletionFlaw? (s : Schema ι) : Option Flaw :=
  match s.deletion with
  | .hard => none
  | .soft =>
    match s.columnFor? .deletedAt with
    | some column => if column.nullable then none else some (.deletionMark column.name)
    | none => some .noDeletionMark

/-- A relation has a name of its own, and its join column is there. -/
def relationFlaw? (catalog : Catalog ι) (s : Schema ι) (r : Relation ι) : Option Flaw :=
  if s.hasColumn r.name then some (.shadowed r.name)
  else
    let joined := match r.join with
      | .belongsTo localKey => s.hasColumn localKey
      | .hasMany foreignKey => (catalog r.target).hasColumn foreignKey
    if joined then none else some (.joinColumn r.name)

/-- The first flaw of a schema, if it has one. -/
def flaw? (catalog : Catalog ι) (s : Schema ι) : Option Flaw :=
  s.keyFlaw? <|> s.hiddenFlaw? <|> s.deletionFlaw? <|>
    s.relations.findSome? (s.relationFlaw? catalog)

/-- Refuses a schema with a flaw. -/
def check (catalog : Catalog ι) (s : Schema ι) : Except Error Unit :=
  match s.flaw? catalog with
  | some flaw => .error (.invalidSchema (s.name ++ ": " ++ flaw.message))
  | none => .ok ()

end Schema

end RecordQuery
