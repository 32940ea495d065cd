import RecordQuery.Error
import RecordQuery.Predicate.Basic
import RecordQuery.Request.SortKeys
import RecordQuery.Schema.Basic
/-!
# What a query may refer to

Every field of a predicate has to be a column of the schema in whose place it stands, and a relation
has to be followed by a predicate on its records. Callers may not refer to hidden columns. Records are
sorted by columns of their own and of the one record that a relation leads to.
-/

namespace RecordQuery

/-- On whose behalf columns are referred to: hidden ones are out of reach of callers. -/
inductive Access where
  | visible
  | any
  deriving DecidableEq

variable {ι : Type}

/-- Whether a column may be referred to. -/
def Access.admits (access : Access) (s : Schema ι) (column : String) : Bool :=
  s.hasColumn column && (access == .any || !s.isHidden column)

namespace Predicate

/-- Checks a test of a column's value. -/
def checkTest (s : Schema ι) (access : Access) (field : String) : Checked Unit :=
  if (s.relation? field).isSome then .error (.bareRelation field)
  else if access.admits s field then .ok ()
  else .error (.unknownFilterField field s.name)

mutual

/-- Checks all fields of a predicate, in their order. -/
def check (catalog : Catalog ι) (access : Access) (s : Schema ι) : Predicate → Checked Unit
  | .all fields groups => do
    checkFields catalog access s fields
    checkAll catalog access s groups
  | .any branches => checkAll catalog access s branches
  | .not inner => inner.check catalog access s

/-- Checks predicates one by one. -/
def checkAll (catalog : Catalog ι) (access : Access) (s : Schema ι) :
    List Predicate → Checked Unit
  | [] => .ok ()
  | p :: ps => do
    p.check catalog access s
    checkAll catalog access s ps

/-- Checks constraints one by one. -/
def checkFields (catalog : Catalog ι) (access : Access) (s : Schema ι) :
    List (String × Constraint) → Checked Unit
  | [] => .ok ()
  | (field, constraint) :: fields => do
    checkField catalog access s field constraint
    checkFields catalog access s fields

/-- Checks the constraint of a field. -/
def checkField (catalog : Catalog ι) (access : Access) (s : Schema ι) (field : String) :
    Constraint → Checked Unit
  | .test _ => checkTest s access field
  | .related p =>
    match s.relation? field with
    | some r => p.check catalog access (catalog r.target)
    | none => .error (.notRelation field s.name)

end

end Predicate

namespace SortKeys

/-- Whether records can be sorted by a path. -/
def isSortable (catalog : Catalog ι) (s : Schema ι) (path : String) : Bool :=
  match Path.first? path with
  | none => Access.visible.admits s path
  | some (relation, column) =>
    match s.relation? relation with
    | some r => !r.isMany && Access.visible.admits (catalog r.target) column
    | none => false

/-- Checks all sort keys, in their order. -/
def check (catalog : Catalog ι) (s : Schema ι) : SortKeys → Checked Unit
  | [] => .ok ()
  | (path, _) :: keys =>
    if isSortable catalog s path then check catalog s keys
    else .error (.unsortable s.name path)

end SortKeys

end RecordQuery
