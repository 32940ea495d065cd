import RecordQuery.Sql.Access.Clause
import RecordQuery.Sql.Scope
/-!
# Paths to the rows of a table

The rows of a table can be reached by their keys, through an index, or, where a condition is a choice, by
one alternative after the other. A `Path` is such a way together with the restrictions that it makes use
of and with estimates of its cost and of the rows that it leads to. `Question.choose` is the cheapest path;
it decides in which order rows are met that no other order tells apart.
-/

namespace RecordQuery.Sql.Access

/-- An index on columns that no two rows share. -/
structure Index where
  columns : List Handle.Column
  width : Estimate

/-- What is known of a table: the width of its rows, and its indexes, the latest first. -/
structure Shape where
  width : Estimate
  indexes : List Index

/-- A way to the rows. -/
inductive Way where
  | keys
  /-- Through an index, by number. -/
  | index (number : Nat)
  /-- Through the alternatives of a part of the condition, by number. -/
  | union (part : Nat)
  deriving DecidableEq

/-- A restriction that a path can make use of. Its part is the number of the part of the condition that
holds where the restriction does. -/
structure Use where
  number : Nat
  part : Option Nat
  column : Handle.Column
  restriction : Restriction

/-- A path. -/
structure Path where
  way : Way
  cost : Estimate
  rows : Estimate
  /-- The restrictions on the columns that the path fixes, in their order. -/
  fixed : List Restriction := []
  uses : List Use := []
  /-- The number of an order that the path may be good for. -/
  slot : Nat := 0
  /-- Whether the path leads to one row at most. -/
  isSingle : Bool := false
  /-- Whether the path reads the index only. -/
  isCovered : Bool := false

/-! ## Hints as restrictions -/

/-- Whether a hint speaks of a column. -/
def speaks : Hint → Bool
  | .restricts _ _ => true
  | .spans _ => true
  | .fills _ => true
  | .choice alternatives => someSpeaks alternatives
  | .other speaks => speaks
where
  /-- Whether one of the alternatives speaks of a column. -/
  someSpeaks : List (List Hint) → Bool
    | [] => false
    | hints :: alternatives => oneSpeaks hints || someSpeaks alternatives
  /-- Whether one of the hints speaks of a column. -/
  oneSpeaks : List Hint → Bool
    | [] => false
    | hint :: hints => speaks hint || oneSpeaks hints

/-- The column that every alternative fixes, if it is the same. -/
def commonColumn? : List (List Hint) → Option Handle.Column
  | [.restricts column .equal] :: rest =>
    if rest.all fun
        | [.restricts other .equal] => other.handle = column.handle
        | _ => false
    then some column else none
  | _ => none

/-- The restriction that a hint is. -/
def restriction? : Hint → Option (Handle.Column × Restriction)
  | .restricts column restriction => some (column, restriction)
  | _ => none

/-- The restrictions that follow from a hint. -/
def implied : Hint → List (Handle.Column × Restriction)
  | .spans column => [(column, .above), (column, .below)]
  | .fills column => [(column, .present)]
  | .choice alternatives =>
    match commonColumn? alternatives with
    | some column => [(column, .among (Estimate.ofNat alternatives.length) none)]
    | none => []
  | _ => []

/-- The restrictions in the parts of a condition, then those that follow from them. The parts are
`isOwn`, or they are those of a condition around it. -/
def restrictions (isOwn : Bool) (clause : List Hint) :
    List (Option Nat × Handle.Column × Restriction) :=
  let parts := clause.zipIdx
  (parts.filterMap fun (hint, n) =>
    (restriction? hint).map fun r => (if isOwn then some n else none, r)) ++
  parts.reverse.flatMap fun (hint, n) => (implied hint).map fun r => (some n, r)

/-- The restrictions that can be made use of in a condition and the ones around it. -/
def usesOf (clause : List Hint) (around : List (List Hint)) : List Use :=
  (restrictions true clause ++ around.flatMap (restrictions false)).zipIdx.map
    fun ((part, column, restriction), number) => ⟨number, part, column, restriction⟩

/-! ## Estimates -/

/-- The rows of a table. -/
def allRows : Estimate := 200

/-- A quarter of a number is lower by this. -/
def quarter : Estimate := 20

/-- The factor of three. -/
def threefold : Estimate := 16

/-- The rows that are left when parts of the condition are taken into account that a path makes no use
of. -/
def remaining (clause : List Hint) (uses : List Use) (rows : Estimate) : Estimate :=
  let unused := clause.zipIdx.filter fun (hint, n) =>
    speaks hint && !uses.any fun use => use.part == some n
  let isFixed := unused.any fun (hint, _) =>
    match hint with
    | .restricts _ .equal => true
    | _ => false
  min (rows - Int.ofNat unused.length) (if isFixed then allRows - quarter else allRows)

/-- The rows of an index that agree in a number of its columns. -/
def agreeing (size count : Nat) : Estimate :=
  if count = 0 then allRows
  else if size ≤ count then 0
  else [33, 32, 30, 28, 27].getD (count - 1) 23

/-- A bound of a range; a weak one leaves out the rows with null only. -/
inductive Bound where
  | weak
  | strong
  deriving DecidableEq

/-- The rows in a range. -/
def inRange (rows : Estimate) (bounds : List Bound) : Estimate :=
  let narrowed := rows - quarter * (bounds.filter (· = .strong)).length
  min (rows - bounds.length) (max 10 (if bounds.length = 2 then narrowed - quarter else narrowed))

/-! ## Seeking -/

/-- A sorted list of rows that is sought in: the table by keys, or an index. -/
structure Target where
  way : Way
  columns : List Handle.Column
  /-- The number of columns that identify a row. -/
  size : Nat
  /-- The cost of a step, over that of a row. -/
  step : Estimate
  isCovered : Bool
  slot : Nat

/-- How far a search has come. -/
structure Seek where
  fixed : List Restriction := []
  rows : Estimate := allRows
  factor : Estimate := 0
  uses : List Use := []
  low : Option Bound := none
  isSingle : Bool := false

/-- Whether a restriction can be sought by in a column. -/
def Use.suits (use : Use) (column : Handle.Column) : Bool :=
  use.column.handle = column.handle &&
    match column.handle, use.restriction with
    | .key, _ => true
    | .field _, .among _ (some inner) =>
      use.column.collation = column.collation &&
        match Operand.common ⟨some column.affinity, none, .null⟩ ⟨inner, none, .null⟩ with
        | some affinity => affinity = .none || affinity.isNumeric == column.affinity.isNumeric
        | none => true
    | .field _, _ => use.column.collation = column.collation

/-- The factor by which the values of a restriction multiply the cost. -/
def Restriction.factor : Restriction → Estimate
  | .among count _ => count
  | _ => 0

/-- The lower bound that a restriction is. -/
def Restriction.low? : Restriction → Option Bound
  | .present => some .weak
  | .above => some .strong
  | _ => none

/-- The search after one more restriction. -/
def Seek.take (target : Target) (seek : Seek) (column : Handle.Column) (use : Use) : Seek :=
  let reached := seek.fixed.length
  let uses := seek.uses ++ [use]
  match Restriction.low? use.restriction with
  | some bound => { seek with uses, rows := inRange seek.rows [bound], low := some bound }
  | none =>
  if use.restriction = .below then
    { seek with uses, rows := inRange seek.rows (.strong :: seek.low.toList) }
  else
    let isLast := reached + 1 = target.size && seek.factor = 0
    let rows := seek.rows + (agreeing target.size (reached + 1) - agreeing target.size reached)
    { seek with
      uses
      fixed := seek.fixed ++ [use.restriction]
      rows := if use.restriction = .empty then rows + 10 else rows
      factor := seek.factor + Restriction.factor use.restriction
      isSingle := seek.isSingle ||
        (use.restriction = .equal && (column.handle = .key ||
          (isLast && (target.size = 1 || target.columns.all (·.isFilled))))) }

/-- The path of a search. -/
def Seek.path (target : Target) (clause : List Hint) (seek : Seek) : Path :=
  let found := Estimate.plus (Estimate.log allRows) (seek.rows + target.step)
  let cost := if target.isCovered || target.way = .keys then found
    else Estimate.plus found (seek.rows + threefold)
  { way := target.way
    cost := cost + seek.factor
    rows := remaining clause seek.uses (seek.rows + seek.factor)
    fixed := seek.fixed
    uses := seek.uses
    slot := target.slot
    isSingle := seek.isSingle
    isCovered := target.isCovered }

/-- The paths that go on from a search; `n` bounds the number of restrictions. -/
def Seek.paths (target : Target) (clause : List Hint) (uses : List Use) : Nat → Seek → List Path
  | 0, _ => []
  | n + 1, seek =>
    match target.columns[seek.fixed.length]? with
    | none => []
    | some column =>
      (uses.filter fun use =>
        use.suits column && (seek.low.isNone || use.restriction = .below)).flatMap fun use =>
          let next := seek.take target column use
          next.path target clause ::
            if use.restriction = .below then []
            else Seek.paths target clause uses n
              { next with rows := if next.low.isSome then seek.rows else next.rows }

/-- The key as a column. -/
def keyColumn : Handle.Column := { handle := .key }

/-- The table by keys. -/
def keyTarget (slot : Nat) : Target := ⟨.keys, [keyColumn], 1, threefold, false, slot⟩

/-- The fields that an index knows. -/
def Index.knows (index : Index) (handle : Handle) : Bool :=
  handle = .key || index.columns.any (·.handle = handle)

/-- The cost of a step in an index, over that of a row. -/
def Index.step (index : Index) (shape : Shape) : Estimate := 1 + 15 * index.width / shape.width

/-- An index that is sought in, by the fields that are asked for. -/
def Index.target (index : Index) (shape : Shape) (asked : List Handle) (number slot : Nat) : Target where
  way := .index number
  columns := index.columns ++ [keyColumn]
  size := index.columns.length
  step := index.step shape
  isCovered := asked.all index.knows
  slot

/-- The paths of all searches in a target. -/
def Target.paths (target : Target) (clause : List Hint) (uses : List Use) : List Path :=
  Seek.paths target clause uses (2 * target.columns.length + 1) {}

/-! ## Unions -/

/-- Cost and rows of the cheapest of some paths. -/
abbrev Best := Option (Estimate × Estimate)

/-- One more path is considered. -/
def Best.with (best : Best) (cost rows : Estimate) : Best :=
  match best with
  | none => some (cost, rows)
  | some (least, few) => if cost ≤ least then some (cost, min few rows) else some (least, few)

/-- The best of paths. -/
def Best.ofPaths (paths : List Path) : Best :=
  paths.foldl (fun best path => Best.with best path.cost path.rows) none

/-- Both of two are needed. -/
def Best.both (a b : Best) : Best :=
  match a, b with
  | some (cost, rows), some (cost', rows') => some (Estimate.plus cost cost', Estimate.plus rows rows')
  | _, _ => none

/-- Whether an alternative has a part that restricts a column. -/
def isRestricted (hints : List Hint) : Bool :=
  hints.any fun hint => (restriction? hint).isSome || !(implied hint).isEmpty

section Unions

variable (seeks : List Hint → List (List Hint) → List Path)

mutual

/-- Cost and rows of each part of a condition that is a choice whose alternatives can all be sought. -/
def unions (around : List (List Hint)) : List Hint → List Best
  | [] => []
  | hint :: hints => union around hint :: unions around hints

/-- Cost and rows of a choice. -/
def union (around : List (List Hint)) : Hint → Best
  | .choice (hints :: alternatives) =>
    if isRestricted hints && alternatives.all isRestricted then
      (unionOf around (alternative around hints) alternatives).map fun (cost, rows) => (cost + 1, rows)
    else none
  | _ => none

/-- Cost and rows of alternatives, on top of those of the ones before. -/
def unionOf (around : List (List Hint)) (sum : Best) : List (List Hint) → Best
  | [] => sum
  | hints :: alternatives => unionOf around (sum.both (alternative around hints)) alternatives

/-- Cost and rows of one alternative. -/
def alternative (around : List (List Hint)) (hints : List Hint) : Best :=
  (unions (hints :: around) hints).foldl
    (fun best other =>
      match other with
      | some (cost, rows) => best.with cost rows
      | none => best)
    (Best.ofPaths (seeks hints around))

end

end Unions

end RecordQuery.Sql.Access
