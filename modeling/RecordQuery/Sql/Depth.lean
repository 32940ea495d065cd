import RecordQuery.Sql.Select
/-!
# How deep a statement nests

A statement is refused if its expressions nest too deep (`maxDepth`) or if it binds too many values
(`maxParams`). An operator is one level above its operands and a chain of `AND` or `OR` leans to the
left, so each further part adds a level (`Condition.depth`). A nested query counts on top of the whole
condition that it stands in, not only of the path to it (`Condition.load`).
-/

namespace RecordQuery.Sql

/-- The greatest depth of a statement's expressions. -/
def maxDepth : Nat := 1000

/-- The greatest number of values that a statement binds. -/
def maxParams : Nat := 32766

namespace Condition

/-- The depth of parts under one connective, from those of the parts. A comparison of literals stands for
no part. -/
def chainDepth : List Nat → Nat
  | [] => 2
  | depth :: depths => depths.foldl (fun d e => max d e + 1) depth

mutual

/-- The depth of a condition. Membership in a list of one value is written with a further operator. -/
def depth : Condition → Nat
  | .oneOf _ [_] => 3
  | .among _ _ _ conditions => (match depths conditions with
    | [] => 1
    | ds => chainDepth ds) + 1
  | .all parts => chainDepth (depths parts)
  | .any parts => chainDepth (depths parts)
  | .not inner => inner.depth + 1
  | _ => 2

/-- The depths of conditions. -/
def depths : List Condition → List Nat
  | [] => []
  | condition :: conditions => condition.depth :: depths conditions

end

mutual

/-- The depth that the deepest nested query of a condition adds; none if there is none. -/
def load : Condition → Nat
  | .among _ _ _ conditions =>
    match conditions with
    | [] => 1
    | conditions => chainDepth (depths conditions) + maxLoad conditions
  | .all parts => maxLoad parts
  | .any parts => maxLoad parts
  | .not inner => inner.load
  | _ => 0

/-- The greatest depth that nested queries add. -/
def maxLoad : List Condition → Nat
  | [] => 0
  | condition :: conditions => max condition.load (maxLoad conditions)

end

end Condition

namespace Select

/-- The depth of the statement's conditions with all that they nest. -/
def depth (q : Select) : Nat :=
  match q.conditions with
  | [] => 0
  | conditions => Condition.chainDepth (Condition.depths conditions) + Condition.maxLoad conditions

/-- Whether the statement keeps the limits. -/
def isWithinLimits (q : Select) : Bool :=
  q.depth ≤ maxDepth && q.params.length ≤ maxParams

end Select

end RecordQuery.Sql
