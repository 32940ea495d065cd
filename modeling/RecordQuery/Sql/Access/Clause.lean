import RecordQuery.Sql.Access.Estimate
import RecordQuery.Sql.Condition
/-!
# What conditions tell about rows

A list of conditions is a list of parts of which all hold (`Condition.split`), and a part that is a choice
is a list of alternatives (`Condition.alternatives`); connectives of the same kind within each other are
taken together. A `Hint` is what a part tells about the place of the rows: a column that has a certain
value, lies in a range, or a choice between such hints.
-/

namespace RecordQuery.Sql

/-- A column that rows can be found by. -/
inductive Handle where
  | key
  | field (name : String)
  deriving DecidableEq

/-- A column as it is named in a condition. -/
structure Handle.Column where
  handle : Handle
  affinity : Affinity := .integer
  collation : Collation := .binary
  /-- Whether no cell of the column is null. -/
  isFilled : Bool := true

/-- How a part of a condition restricts a column. -/
inductive Restriction where
  | equal
  /-- One of a number of values; those that a nested query gives have an affinity. -/
  | among (count : Estimate) (query : Option (Option Affinity))
  | empty
  /-- Not null, which is a lower bound too. -/
  | present
  | above
  | below
  deriving DecidableEq

/-- What a part of a condition tells. -/
inductive Hint where
  | restricts (column : Handle.Column) (restriction : Restriction)
  /-- A range between two values. -/
  | spans (column : Handle.Column)
  /-- A column that is not null. -/
  | fills (column : Handle.Column)
  /-- A choice between alternatives, each with its parts. -/
  | choice (alternatives : List (List Hint))
  /-- Nothing; the part may speak of a column all the same. -/
  | other (speaks : Bool)

namespace Condition

mutual

/-- The parts of which all have to hold. -/
def split : Condition → List Condition
  | .all [] => [.all []]
  | .all (part :: parts) => splitAll (part :: parts)
  | .any [part] => split part
  | condition => [condition]

/-- The parts of conditions. -/
def splitAll : List Condition → List Condition
  | [] => []
  | condition :: conditions => split condition ++ splitAll conditions

end

mutual

/-- The alternatives of which one has to hold. -/
def alternatives : Condition → List Condition
  | .any [] => [.any []]
  | .any (part :: parts) => alternativesOf (part :: parts)
  | .all [part] => alternatives part
  | condition => [condition]

/-- The alternatives of conditions. -/
def alternativesOf : List Condition → List Condition
  | [] => []
  | condition :: conditions => alternatives condition ++ alternativesOf conditions

end

/-- Whether a condition asks a nested query. -/
def asks (condition : Condition) : Bool := !condition.tables.isEmpty

mutual

/-- Whether a condition speaks of a column. -/
def speaks (isColumn : String → Bool) : Condition → Bool
  | .isNull column => isColumn column
  | .isNotNull column => isColumn column
  | .compare column _ _ => isColumn column
  | .between column _ _ => isColumn column
  | .oneOf _ [] => false
  | .oneOf column _ => isColumn column
  | .matching column _ => isColumn column
  | .among column _ _ _ => isColumn column
  | .all parts => someSpeaks isColumn parts
  | .any parts => someSpeaks isColumn parts
  | .not inner => inner.speaks isColumn

/-- Whether one of the conditions speaks of a column. -/
def someSpeaks (isColumn : String → Bool) : List Condition → Bool
  | [] => false
  | condition :: conditions => condition.speaks isColumn || someSpeaks isColumn conditions

end

mutual

/-- The columns that a condition names. -/
def names : Condition → List String
  | .isNull column => [column]
  | .isNotNull column => [column]
  | .compare column _ _ => [column]
  | .between column _ _ => [column]
  | .oneOf _ [] => []
  | .oneOf column _ => [column]
  | .matching column _ => [column]
  | .among column _ _ _ => [column]
  | .all parts => namesOf parts
  | .any parts => namesOf parts
  | .not inner => inner.names

/-- The columns that conditions name. -/
def namesOf : List Condition → List String
  | [] => []
  | condition :: conditions => condition.names ++ namesOf conditions

end

mutual

/-- The number of choices in a condition. -/
def choiceCount : Condition → Nat
  | .all parts => choiceCounts parts
  | .any parts => choiceCounts parts + 1
  | .not inner => inner.choiceCount
  | _ => 0

/-- The number of choices in conditions. -/
def choiceCounts : List Condition → Nat
  | [] => 0
  | condition :: conditions => condition.choiceCount + choiceCounts conditions

end

/-- The number of values of a nested query. -/
def queryCount : Estimate := Estimate.ofNat 25

variable (column? : String → Option Handle.Column) (keyAffinity? : String → String → Option Affinity)

/-- The hint of a condition without connectives. A test for null on a column that is filled is decided
beforehand. -/
def hint (condition : Condition) : Hint :=
  let restricting (name : String) (restriction : Restriction) : Hint :=
    match column? name with
    | some column => .restricts column restriction
    | none => .other false
  match condition with
  | .isNull name =>
    match column? name with
    | some column => if column.isFilled then .other false else .restricts column .empty
    | none => .other false
  | .isNotNull name =>
    match column? name with
    | some column => if column.isFilled then .other false else .fills column
    | none => .other false
  | .compare name comparison _ =>
    match comparison with
    | .eq => restricting name .equal
    | .ne => .other (column? name).isSome
    | .gt => restricting name .above
    | .gte => restricting name .above
    | .lt => restricting name .below
    | .lte => restricting name .below
  | .between name _ _ =>
    match column? name with
    | some column => .spans column
    | none => .other false
  | .oneOf _ [] => .other false
  | .oneOf name [_] => restricting name .equal
  | .oneOf name values => restricting name (.among (Estimate.ofNat values.length) none)
  | .among name key table _ =>
    restricting name (.among queryCount (some (keyAffinity? table key)))
  | condition => .other (condition.speaks fun name => (column? name).isSome)

mutual

/-- The hints of the parts of a condition. -/
def hints : Condition → List Hint
  | .all [] => [.other false]
  | .all (part :: parts) => hintsOf (part :: parts)
  | .any [] => [.other false]
  | .any [part] => hints part
  | .any (part :: other :: parts) => [.choice (choices (part :: other :: parts))]
  | condition => [hint column? keyAffinity? condition]

/-- The hints of the parts of conditions. -/
def hintsOf : List Condition → List Hint
  | [] => []
  | condition :: conditions => hints condition ++ hintsOf conditions

/-- The hints of the alternatives of a condition. -/
def choicesOf : Condition → List (List Hint)
  | .any [] => [[.other false]]
  | .any (part :: parts) => choices (part :: parts)
  | .all [] => [[.other false]]
  | .all [part] => choicesOf part
  | .all (part :: other :: parts) => [hintsOf (part :: other :: parts)]
  | condition => [[hint column? keyAffinity? condition]]

/-- The hints of the alternatives of conditions. -/
def choices : List Condition → List (List Hint)
  | [] => []
  | condition :: conditions => choicesOf condition ++ choices conditions

end

end Condition

end RecordQuery.Sql
