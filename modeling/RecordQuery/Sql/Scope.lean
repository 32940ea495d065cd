import RecordQuery.Sql.Cell
/-!
# Names in rows

A `Scope` is a row as a look-up by column name. It gives an `Operand`: a cell with the affinity and the
collation of its column. A name that no row knows is a text of its own, as it is between double quotes.
-/

namespace RecordQuery.Sql

/-- What a name stands for: a cell, and the preferences of its column if it is one of a column. -/
structure Operand where
  affinity : Option Affinity
  collation : Option Collation
  cell : Cell
  deriving DecidableEq

namespace Operand

/-- A cell as it is compared with this operand. -/
def comparand (a : Operand) (cell : Cell) : Cell :=
  match a.affinity with
  | some affinity => affinity.comparand cell
  | none => cell

/-- The affinity under which two operands are compared: numbers if either column prefers them, none
if neither of two columns does, and that of the column if only one is a column. -/
def common (a b : Operand) : Option Affinity :=
  match a.affinity, b.affinity with
  | some x, some y => if x.isNumeric || y.isNumeric then some .integer else none
  | some x, none => some x
  | none, y => y

/-- The order of two operands, undecided if one is null. The collation of the first counts before that of
the second. -/
def compare? (a b : Operand) : Option Ordering :=
  let convert (cell : Cell) : Cell := match a.common b with
    | some affinity => affinity.comparand cell
    | none => cell
  Cell.compare? ((a.collation.or b.collation).getD .binary) (convert a.cell) (convert b.cell)

end Operand

/-- A row, by column name. -/
abbrev Scope := String → Option Operand

/-- What a name means in a row and the rows around it. -/
def Scope.resolve (scopes : List Scope) (name : String) : Operand :=
  (scopes.findSome? (· name)).getD ⟨none, none, .text name⟩

end RecordQuery.Sql
