import RecordQuery.Error
import RecordQuery.Filter.Basic
import RecordQuery.Predicate.Basic
/-!
# The predicate of a filter

`Operators.test` picks the one test that a field's operators stand for, by a fixed priority.
`Predicate.ofFilter` turns a filter into a predicate: nested conjunctions are merged into one, which
may name a field only once, while disjunctions and negations stay groups of their own.
-/

namespace RecordQuery

namespace Operators

/-- The bound from below: the one that includes its value wins. -/
def lowerBound (spec : Operators) : Option Scalar := spec.gte <|> spec.gt

/-- The bound from above: the one that includes its value wins. -/
def upperBound (spec : Operators) : Option Scalar := spec.lte <|> spec.lt

/-- A range, if both ends are there. -/
def range? (low high : Option Scalar) : Option Test :=
  match low, high with
  | some low, some high => some (.between low high)
  | _, _ => none

/-- The rules of priority, first to last. -/
def rules (spec : Operators) : List (Option Test) :=
  [range? spec.lowerBound spec.upperBound,
    spec.like.map fun s => .like ("%" ++ s.display ++ "%"),
    spec.startsWith.map fun s => .like (s.display ++ "%"),
    spec.endsWith.map fun s => .like ("%" ++ s.display),
    spec.oneOf.map .oneOf,
    spec.isNull.map fun flag => if flag then .isNull else .isNotNull,
    range? spec.lower spec.upper,
    spec.lower.map .gte,
    spec.upper.map .lte,
    spec.gt.map .gt,
    spec.gte.map .gte,
    spec.lt.map .lt,
    spec.lte.map .lte,
    spec.differs.map .ne]

/-- The test of the first rule that applies; none applies only if there is no operator. -/
def test? (spec : Operators) : Option Test :=
  spec.rules.findSome? id

end Operators

namespace Predicate

/-- Adds constraints one by one, refusing a field that is there already. -/
def extend (fields : List (String × Constraint)) :
    List (String × Constraint) → Checked (List (String × Constraint))
  | [] => .ok fields
  | (field, constraint) :: rest =>
    if fields.any (·.1 == field) then .error (.repeatedField field)
    else extend (fields ++ [(field, constraint)]) rest

mutual

/-- The predicate of a filter. -/
def ofFilter : Filter → Checked Predicate
  | .and branches => ofConjunction [] [] branches
  | .or branches => (ofBranches branches).map .any
  | .not inner => (ofFilter inner).map .not
  | .fields conditions => (ofFields conditions).map (.all · [])

/-- Merges the branches of a conjunction into the fields and groups found so far. -/
def ofConjunction (fields : List (String × Constraint)) (groups : List Predicate) :
    List Filter → Checked Predicate
  | [] => .ok (.all fields groups)
  | branch :: branches => do
    match ← ofFilter branch with
    | .all more further => ofConjunction (← extend fields more) (groups ++ further) branches
    | p => ofConjunction fields (groups ++ [p]) branches

/-- The predicates of branches. -/
def ofBranches : List Filter → Checked (List Predicate)
  | [] => .ok []
  | branch :: branches => do
    let p ← ofFilter branch
    let ps ← ofBranches branches
    .ok (p :: ps)

/-- The constraints of a field map. -/
def ofFields : List (String × FieldCondition) → Checked (List (String × Constraint))
  | [] => .ok []
  | (field, condition) :: conditions => do
    let constraint ← ofCondition condition
    let constraints ← ofFields conditions
    .ok ((field, constraint) :: constraints)

/-- The constraint of a condition. -/
def ofCondition : FieldCondition → Checked Constraint
  | .equals value => .ok (.test (.eq value))
  | .operators spec =>
    match spec.test? with
    | some t => .ok (.test t)
    | none => .error .noOperators
  | .nested filter => (ofFilter filter).map .related

end

/-- The predicate of a filter that may be absent; nothing is asked then. -/
def ofFilter? : Option Filter → Checked Predicate
  | none => .ok .everything
  | some filter => ofFilter filter

end Predicate

end RecordQuery
