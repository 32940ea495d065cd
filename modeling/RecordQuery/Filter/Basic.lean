import RecordQuery.Value
/-!
# Filter expressions

A `Filter` is a conjunction, a disjunction, a negation or a map from fields to conditions. A field is
equal to a scalar, satisfies operators, or is a relation whose record satisfies a filter of its own.
`Filter.encode` is the value that a filter is written as.
-/

namespace RecordQuery

/-- The operators of one field, any number of them at once. -/
structure Operators where
  like : Option Scalar := none
  startsWith : Option Scalar := none
  endsWith : Option Scalar := none
  oneOf : Option (List Scalar) := none
  isNull : Option Bool := none
  lower : Option Scalar := none
  upper : Option Scalar := none
  gt : Option Scalar := none
  gte : Option Scalar := none
  lt : Option Scalar := none
  lte : Option Scalar := none
  differs : Option Scalar := none
  deriving DecidableEq

mutual

/-- A filter expression. -/
inductive Filter where
  | and (branches : List Filter)
  | or (branches : List Filter)
  | not (inner : Filter)
  | fields (conditions : List (String × FieldCondition))

/-- What is asked of one field. -/
inductive FieldCondition where
  | equals (value : Scalar)
  | operators (spec : Operators)
  | nested (filter : Filter)

end

namespace Operators

/-- The operators' keys, a `from` and a `to` being the ends of a range. -/
def keys : List String :=
  ["like", "startsWith", "endsWith", "in", "isNull", "from", "to", "gt", "gte", "lt", "lte", "not"]

/-- The scalar under a key. -/
def scalarEntry (key : String) (s : Option Scalar) : List (String × Value) :=
  match s with
  | some s => [(key, .scalar s)]
  | none => []

/-- The operators that are present, by ascending key. -/
def encode (spec : Operators) : List (String × Value) :=
  scalarEntry "endsWith" spec.endsWith ++ scalarEntry "from" spec.lower ++
    scalarEntry "gt" spec.gt ++ scalarEntry "gte" spec.gte ++
    (match spec.oneOf with
      | some values => [("in", .list (values.map .scalar))]
      | none => []) ++
    (match spec.isNull with
      | some flag => [("isNull", .scalar (.bool flag))]
      | none => []) ++
    scalarEntry "like" spec.like ++ scalarEntry "lt" spec.lt ++ scalarEntry "lte" spec.lte ++
    scalarEntry "not" spec.differs ++ scalarEntry "startsWith" spec.startsWith ++
    scalarEntry "to" spec.upper

end Operators

namespace Filter

/-- The filter without conditions. -/
def trivial : Filter := .fields []

instance : Inhabited Filter := ⟨trivial⟩

/-- Whether the filter is a map without fields. -/
def isEmpty : Filter → Bool
  | .fields [] => true
  | _ => false

mutual

/-- The value that a filter is written as. -/
def encode : Filter → Value
  | .and branches => .object [("and", .list (encodeBranches branches))]
  | .or branches => .object [("or", .list (encodeBranches branches))]
  | .not inner => .object [("not", inner.encode)]
  | .fields conditions => .object (encodeFields conditions)

/-- The values of branches. -/
def encodeBranches : List Filter → List Value
  | [] => []
  | branch :: branches => branch.encode :: encodeBranches branches

/-- The entries of a field map. -/
def encodeFields : List (String × FieldCondition) → List (String × Value)
  | [] => []
  | (field, condition) :: conditions => (field, encodeCondition condition) :: encodeFields conditions

/-- The value of a condition. -/
def encodeCondition : FieldCondition → Value
  | .equals value => .scalar value
  | .operators spec => .object spec.encode
  | .nested filter => filter.encode

end

mutual

/-- The fields that the filter names at its own level, composites included; a relation is named, and
not the fields behind it. -/
def names : Filter → List String
  | .and branches => namesAll branches
  | .or branches => namesAll branches
  | .not inner => inner.names
  | .fields conditions => conditions.map Prod.fst

/-- The fields that branches name. -/
def namesAll : List Filter → List String
  | [] => []
  | branch :: branches => branch.names ++ namesAll branches

end

end Filter

end RecordQuery
