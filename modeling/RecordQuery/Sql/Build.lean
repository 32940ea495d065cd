import RecordQuery.Predicate.Basic
import RecordQuery.Request.Page
import RecordQuery.Schema.Basic
import RecordQuery.Sql.Select
/-!
# Statements for a schema

`Condition.ofPredicate` turns a predicate into a condition on a schema's table, a relation becoming a
look-up among the keys of the other table's rows. `Select.live` reads the rows that carry no deletion
mark, and the functions after it narrow, sort and cut what it reads. What the schema does not know is
refused with a `Fault`.
-/

namespace RecordQuery.Sql

/-- Why a statement cannot be made for a schema. -/
inductive Fault where
  | unknownColumn (column table : String)
  | unknownRelation (name : String)
  | sortByMany (relation : String)
  | nestedValue (column : String)
  deriving DecidableEq

/-- The wording of a fault. -/
def Fault.message : Fault → String
  | .unknownColumn column table => "unknown column `" ++ column ++ "` on " ++ table
  | .unknownRelation name => "unknown relation `" ++ name ++ "`"
  | .sortByMany relation => "cannot sort by to-many relation `" ++ relation ++ "`"
  | .nestedValue column => "column `" ++ column ++ "` cannot hold a nested value"

variable {ι : Type}

/-- Refuses a column that the schema does not have. -/
def requireColumn (s : Schema ι) (column : String) : Except Fault Unit :=
  if s.hasColumn column then .ok () else .error (.unknownColumn column s.table)

namespace Condition

/-- The condition that no row with a deletion mark satisfies. -/
def unmarked (s : Schema ι) : List Condition :=
  s.deletionMark?.toList.map .isNull

/-- The condition of a test on a column; equality with null asks for null. -/
def ofTest (column : String) : Test → Condition
  | .eq .null => .isNull column
  | .eq value => .compare column .eq (.ofScalar value)
  | .ne .null => .isNotNull column
  | .ne value => .compare column .ne (.ofScalar value)
  | .like pattern => .matching column pattern
  | .oneOf values => .oneOf column (values.map .ofScalar)
  | .isNull => .isNull column
  | .isNotNull => .isNotNull column
  | .between low high => .between column (.ofScalar low) (.ofScalar high)
  | .gt bound => .compare column .gt (.ofScalar bound)
  | .gte bound => .compare column .gte (.ofScalar bound)
  | .lt bound => .compare column .lt (.ofScalar bound)
  | .lte bound => .compare column .lte (.ofScalar bound)

mutual

/-- The condition of a predicate. -/
def ofPredicate (catalog : Catalog ι) (s : Schema ι) : Predicate → Except Fault Condition
  | .all fields groups => do
    let tests ← ofFields catalog s fields
    let inner ← ofAll catalog s groups
    .ok (.all (tests ++ inner))
  | .any branches => (ofAll catalog s branches).map .any
  | .not inner => (ofPredicate catalog s inner).map .not

/-- The conditions of predicates. -/
def ofAll (catalog : Catalog ι) (s : Schema ι) : List Predicate → Except Fault (List Condition)
  | [] => .ok []
  | p :: ps => do
    let condition ← ofPredicate catalog s p
    let conditions ← ofAll catalog s ps
    .ok (condition :: conditions)

/-- The conditions of a conjunction's fields. -/
def ofFields (catalog : Catalog ι) (s : Schema ι) :
    List (String × Constraint) → Except Fault (List Condition)
  | [] => .ok []
  | (field, constraint) :: fields => do
    let condition ← ofConstraint catalog s field constraint
    let conditions ← ofFields catalog s fields
    .ok (condition :: conditions)

/-- The condition of a field's constraint. Of a relation, the key here is among the keys there of the
rows that are not deleted and satisfy the predicate. -/
def ofConstraint (catalog : Catalog ι) (s : Schema ι) (field : String) :
    Constraint → Except Fault Condition
  | .test t => do
    requireColumn s field
    .ok (ofTest field t)
  | .related p =>
    match s.relation? field with
    | none => .error (.unknownRelation field)
    | some r => do
      let target := catalog r.target
      let (outer, inner) := s.joinKeys catalog r
      let conditions ← if p.isEverything then .ok [] else (ofPredicate catalog target p).map ([·])
      .ok (.among outer inner target.table (unmarked target ++ conditions))

end

end Condition

namespace SortTerm

/-- The term of a sort key, numbered in case it reads another table. -/
def ofPath (catalog : Catalog ι) (s : Schema ι) (number : Nat) (path : String) :
    Except Fault SortTerm :=
  match Path.first? path with
  | none => do
    requireColumn s path
    .ok (.column path)
  | some (relation, field) =>
    match s.relation? relation with
    | none => .error (.unknownRelation relation)
    | some r =>
      match r.join with
      | .hasMany _ => .error (.sortByMany relation)
      | .belongsTo localKey => do
        let target := catalog r.target
        requireColumn target field
        .ok (.related number target.table target.key field localKey target.deletionMark?)

end SortTerm

namespace Select

/-- All rows of a schema's table that carry no deletion mark. -/
def live (s : Schema ι) : Select := { table := s.table, conditions := Condition.unmarked s }

/-- Keeps the rows that satisfy a predicate. -/
def filter (catalog : Catalog ι) (s : Schema ι) (p : Predicate) (q : Select) :
    Except Fault Select :=
  if p.isEverything then .ok q
  else (Condition.ofPredicate catalog s p).map fun condition =>
    { q with conditions := q.conditions ++ [condition] }

/-- Keeps the rows whose column has one of the values. -/
def filterIn (s : Schema ι) (column : String) (values : List Param) (q : Select) :
    Except Fault Select := do
  requireColumn s column
  .ok { q with conditions := q.conditions ++ [.oneOf column values] }

/-- Sorts by one more key, below those before it. -/
def sortKey (catalog : Catalog ι) (s : Schema ι) (q : Select) (key : String × Direction) :
    Except Fault Select :=
  let number := (q.order.filter fun (term, _) => term.isRelated).length + 1
  (SortTerm.ofPath catalog s number key.1).map fun term =>
    { q with order := q.order ++ [(term, key.2)] }

/-- Sorts by keys. -/
def sort (catalog : Catalog ι) (s : Schema ι) (keys : SortKeys) (q : Select) :
    Except Fault Select :=
  keys.foldlM (sortKey catalog s) q

/-- Sorts by the key of the schema, unless there is an order already. -/
def sortByKey (s : Schema ι) (q : Select) : Select :=
  if q.order.isEmpty then { q with order := [(.column s.key, .ascending)] } else q

/-- Keeps the rows of a page. -/
def onPage (page : Option Page) (q : Select) : Select :=
  match page with
  | some p => { q with limit := some p.take, offset := some p.skip }
  | none => q

/-- Keeps a number of rows at most. -/
def atMost (limit : Int64) (q : Select) : Select := { q with limit := some limit }

/-- The statement for columns of the schema. -/
def textFor (s : Schema ι) (columns : List String) (q : Select) : Except Fault String := do
  columns.forM (requireColumn s)
  .ok (q.text columns)

end Select

end RecordQuery.Sql
