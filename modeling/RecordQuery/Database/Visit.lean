import RecordQuery.Database.Table
import RecordQuery.Sql.Access.Choice
import RecordQuery.Sql.Select
/-!
# The order in which rows are met

Rows that no order tells apart come in the order in which they are met on the chosen path
(`Asking.arrange`): by their keys, along an index, or one alternative of a choice after the other, where a
row counts for the first alternative that it satisfies.
-/

namespace RecordQuery.Database

open Sql Sql.Access

namespace Table

/-- A column as rows are found by it. -/
def column? (t : Table) (name : String) : Option Handle.Column :=
  match t.field? name with
  | some f => some (if f.isKey then keyColumn else ⟨.field f.name, f.affinity, f.collation, f.required⟩)
  | none => if isKeyAlias name then some keyColumn else none

/-- The index of columns that no two rows share. -/
def index? (t : Table) (u : Unique) : Option Index := do
  let found ← u.columns.mapM fun (name, collation) => do
    let f ← t.field? name
    let column ← t.column? name
    some (f.width, { column with collation })
  some ⟨found.map Prod.snd, Estimate.ofNat (4 * found.foldr (fun entry width => entry.1 + width) 1)⟩

/-- What is known of the table when a path is chosen. -/
def shape (t : Table) : Shape :=
  let hidden := if t.fields.any Field.isKey then 0 else 1
  { width := Estimate.ofNat (4 * t.fields.foldr (fun f width => f.width + width) hidden)
    indexes := t.uniques.filterMap t.index? }

/-- The cell of a row in a column. -/
def cellAt (t : Table) (r : Row) (column : Handle.Column) : Cell :=
  match column.handle with
  | .key => .integer r.key
  | .field name => ((t.field? name).map r.cell).getD .null

/-- Whether a row does not come after another along columns. -/
def isAlong (t : Table) : List Handle.Column → Row → Row → Bool
  | [], _, _ => true
  | column :: columns, r, other =>
    match Cell.compareKnown column.collation (t.cellAt r column) (t.cellAt other column) with
    | .lt => true
    | .eq => t.isAlong columns r other
    | .gt => false

end Table

/-- What a statement asks of a table: columns, an order and a number of rows. The rows of the other tables
are known too. -/
structure Asking where
  t : Table
  rows : String → List Scope
  keyAffinity? : String → String → Option Affinity
  columns : List String
  terms : List (SortTerm × Direction) := []
  limit : Option Int64 := none

namespace Asking

/-- The columns of the table that the order reads. -/
def termNames (a : Asking) : List String :=
  a.terms.map fun (term, _) =>
    match term with
    | .column name => name
    | .related _ _ _ _ localKey _ => localKey

/-- The fields that a statement with conditions reads. -/
def asked (a : Asking) (conditions : List Condition) : List Handle :=
  (a.columns ++ a.termNames ++ Condition.namesOf conditions).filterMap fun name =>
    (a.t.column? name).map Handle.Column.handle

/-- The terms that rows are sorted by. -/
def order (a : Asking) : List Term :=
  a.terms.map fun (term, direction) =>
    { column? := match term with
        | .column name => a.t.column? name
        | .related .. => none
      isDescending := direction == .descending }

/-- The question of a statement with conditions. -/
def question (a : Asking) (conditions : List Condition) : Question where
  clause := Condition.hintsOf a.t.column? a.keyAffinity? conditions
  named := (Condition.splitAll conditions).map fun part =>
    part.names.filterMap fun name => (a.t.column? name).map Handle.Column.handle
  asked := a.asked conditions
  order := a.order
  limit := a.limit.bind fun n => if 0 < n then some (Estimate.ofNat n.toInt.toNat) else none
  width := a.columns.length

/-- Whether a part of the condition is looked at together with each alternative of another one. -/
def accompanies (a : Asking) (part : Condition) : Bool :=
  !part.asks &&
    (Condition.hints a.t.column? a.keyAffinity? part).any fun hint =>
      match hint with
      | .restricts _ _ => true
      | .choice _ => true
      | _ => false

/-- The rows that satisfy a condition, and the others. -/
def divide (a : Asking) (condition : Condition) (rows : List Row) : List Row × List Row :=
  let plans := Plan.ofConditions a.rows [condition]
  rows.partition fun r => (Plan.evalAll a.rows [a.t.scope r] plans).holds

/-- Rows, one alternative after the other; `arrange` orders those of one. -/
def inTurn (a : Asking) (arrange : Condition → List Row → List Row) :
    List Condition → List Row → List Row
  | [], rows => rows
  | alternative :: alternatives, rows =>
    let (here, others) := a.divide alternative rows
    arrange alternative here ++ a.inTurn arrange alternatives others

/-- Rows in the order of their keys, brought into the order in which they are met; `n` bounds the number
of choices within each other. -/
def arrangeWithin : Nat → Asking → List Condition → List Row → List Row
  | 0, _, _, rows => rows
  | n + 1, a, conditions, rows =>
    if rows.length ≤ 1 then rows
    else
      let shape := a.t.shape
      let (way, isBackwards) := (a.question conditions).choose shape
      match way with
      | .keys => if isBackwards then rows.reverse else rows
      | .index number =>
        match shape.indexes[number]? with
        | none => rows
        | some index =>
          let along := rows.mergeSort (a.t.isAlong index.columns)
          if isBackwards then along.reverse else along
      | .union number =>
        let parts := Condition.splitAll conditions
        match parts[number]? with
        | none => rows
        | some choice =>
          let others := (parts.eraseIdx number).filter a.accompanies
          let inner := { a with terms := [], limit := none }
          a.inTurn
            (fun alternative => arrangeWithin n inner (alternative.split ++ others))
            choice.alternatives rows

/-- Rows in the order of their keys, brought into the order in which they are met. -/
def arrange (a : Asking) (conditions : List Condition) (rows : List Row) : List Row :=
  arrangeWithin (Condition.choiceCounts conditions + 1) a conditions rows

end Asking

end RecordQuery.Database
