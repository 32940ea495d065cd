import RecordQuery.Value
/-!
# Predicates

A `Predicate` is what a store is asked: a conjunction of field constraints and further predicates, a
disjunction, or a negation. A field satisfies one `Test`, or is a relation whose record satisfies a
predicate. `and` and `andEq` narrow a predicate; the conjunction of nothing, `everything`, is their
unit.
-/

namespace RecordQuery

/-- What is asked of a column's value. A pattern is matched in either case; a range contains its
ends. -/
inductive Test where
  | eq (value : Scalar)
  | ne (value : Scalar)
  | like (pattern : String)
  | oneOf (values : List Scalar)
  | isNull
  | isNotNull
  | between (low high : Scalar)
  | gt (bound : Scalar)
  | gte (bound : Scalar)
  | lt (bound : Scalar)
  | lte (bound : Scalar)
  deriving DecidableEq

mutual

/-- What is asked of a record. -/
inductive Predicate where
  | all (fields : List (String × Constraint)) (groups : List Predicate)
  | any (branches : List Predicate)
  | not (inner : Predicate)

/-- What is asked of a field: a test of its value, or a predicate on the related record. -/
inductive Constraint where
  | test (t : Test)
  | related (p : Predicate)

end

namespace Predicate

/-- The predicate of every record. -/
def everything : Predicate := .all [] []

instance : Inhabited Predicate := ⟨everything⟩

/-- Whether the predicate is written as the conjunction of nothing. -/
def isEverything : Predicate → Bool
  | .all [] [] => true
  | _ => false

/-- One field has one value. -/
def eq (field : String) (value : Scalar) : Predicate :=
  .all [(field, .test (.eq value))] []

/-- Both predicates. -/
def and (p q : Predicate) : Predicate :=
  if q.isEverything then p
  else if p.isEverything then q
  else match p with
    | .all fields groups => .all fields (groups ++ [q])
    | p => .all [] [p, q]

/-- The predicate, and one field has one value. A constraint that the field has already stays beside
the new one. -/
def andEq (p : Predicate) (field : String) (value : Scalar) : Predicate :=
  let wrapped := Predicate.all [(field, .test (.eq value))] (if p.isEverything then [] else [p])
  match p with
  | .all fields groups =>
    if fields.any (·.1 == field) then wrapped
    else .all ((field, .test (.eq value)) :: fields) groups
  | _ => wrapped

/-- The constraint of a field, if the predicate is a conjunction that has one. -/
def get? (p : Predicate) (field : String) : Option Constraint :=
  match p with
  | .all fields _ => fields.lookup field
  | _ => none

end Predicate

end RecordQuery
