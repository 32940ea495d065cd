import RecordQuery.Calendar.Instant
import RecordQuery.Sql.Expression.Basic
import RecordQuery.Sql.Function
/-!
# The value of an expression

`Expression.eval` gives the cell that an expression comes to in a context: a row at a moment. Comparisons
convert their operands as their columns prefer and are unknown on null, and truth is a number. An
expression that calls a function wrongly has no value.
-/

namespace RecordQuery.Sql

/-- The text of a part of a moment. -/
def ClockPart.text (part : ClockPart) (now : Instant) : String :=
  let cs := now.secondsText
  match part with
  | .date => String.ofList (cs.take 10)
  | .time => String.ofList (cs.drop 11)
  | .moment => String.ofList (cs.take 10 ++ ' ' :: cs.drop 11)

namespace UnaryOperator

/-- The value of an operation on one cell. -/
def apply (operator : UnaryOperator) (cell : Cell) : Cell :=
  match operator with
  | .not => cell.truth.not.cell
  | .negative => cell.negate
  | .positive => cell
  | .complement => cell.complement

end UnaryOperator

namespace BinaryOperator

/-- The truth of a comparison, if the operator is one. -/
def comparison? (operator : BinaryOperator) (a b : Operand) : Option Truth :=
  let known := a.compare? b
  let bothNull := a.cell.isNull && b.cell.isNull
  let test (f : Ordering → Bool) : Option Truth := some (.ofBool? (known.map f))
  match operator with
  | .same => some (.ofBool ((known.map Ordering.isEq).getD bothNull))
  | .different => some (.ofBool !((known.map Ordering.isEq).getD bothNull))
  | .equal => test Ordering.isEq
  | .unequal => test fun o => !o.isEq
  | .less => test Ordering.isLT
  | .atMost => test fun o => !o.isGT
  | .greater => test Ordering.isGT
  | .atLeast => test fun o => !o.isLT
  | _ => none

/-- The value of an operation on two cells that is not a comparison. -/
def apply (operator : BinaryOperator) (a b : Cell) : Cell :=
  match operator with
  | .or => (a.truth.or b.truth).cell
  | .and => (a.truth.and b.truth).cell
  | .bitAnd => a.bitAnd b
  | .bitOr => a.bitOr b
  | .shiftLeft => a.shiftLeft b
  | .shiftRight => a.shiftRight b
  | .add => a.add b
  | .subtract => a.subtract b
  | .multiply => a.multiply b
  | .divide => a.divide b
  | .remainder => a.remainder b
  | .concatenate => a.concatenate b
  | _ => .null

end BinaryOperator

namespace Expression

/-- What an expression is evaluated in. -/
structure Context where
  now : Instant
  row : Scope
  /-- Whether the words of truth ask for the truth of what they are compared with. Otherwise they are
  numbers. -/
  asksTruth : Bool

/-- A decimal integer as a cell. -/
def ofDigits (negative : Bool) (digits : List Char) : Cell :=
  let i := Literal.signed negative digits
  if Word.fits i then .integer (Int64.ofInt i)
  else .real (Literal.mk negative digits [] 0).stepwise

/-- A hexadecimal integer as a cell, if it has no more than 64 bits. -/
def ofHexadecimal? (n : Nat) : Option Int64 :=
  if n ≤ Word.greatestUnsigned then some (Int64.ofInt (Int.ofNat n)) else none

/-- The opposite of a number that is written down. -/
def negated? : Expression → Option (Option Cell)
  | .integer digits => some (some (ofDigits true digits))
  | .hexadecimal n =>
    some ((ofHexadecimal? n).bind fun i =>
      if i = Int64.minValue then none else some (.integer (-i)))
  | .literal (.real x) => some (some (.real x.neg))
  | _ => none

/-- The truth value that an expression asks for. -/
def truthValue? (c : Context) : Expression → Option Bool
  | .name [] s false _ => if !c.asksTruth || (c.row s).isSome then none else truthWord? s
  | .collate e _ => e.truthValue? c
  | _ => none

/-- The operands of a comparison of two expressions. -/
def operands (row : Scope) (a b : Expression) (x y : Cell) : Operand × Operand :=
  let collation := commonCollation? row a b
  (⟨a.affinity? row, collation, x⟩, ⟨b.affinity? row, collation, y⟩)

/-- The value of an operation on the values of two expressions. -/
def applyBinary (c : Context) (operator : BinaryOperator) (a b : Expression) (x y : Cell) : Cell :=
  match operator, b.truthValue? c with
  | .same, some t => (Truth.ofBool (x.truth == .ofBool t)).cell
  | .different, some t => (Truth.ofBool (x.truth != .ofBool t)).cell
  | _, _ =>
    let (p, q) := operands c.row a b x y
    match operator.comparison? p q with
    | some truth => truth.cell
    | none => operator.apply x y

/-- Whether an operand is between two others. -/
def isBetween (row : Scope) (e low high : Expression) (x l h : Cell) : Truth :=
  let (p, q) := operands row e low x l
  let (p', q') := operands row e high x h
  ((BinaryOperator.comparison? .atLeast p q).getD .unknown).and
    ((BinaryOperator.comparison? .atMost p' q').getD .unknown)

/-- Whether a cell is among others, all of them taken as the expression prefers. -/
def isAmong (row : Scope) (e : Expression) (x : Cell) (cells : List Cell) : Truth :=
  let collation := e.writtenCollation?.or (e.columnCollation? row)
  let operand : Operand := ⟨e.affinity? row, collation, x⟩
  .any (cells.map fun y => .ofBool? ((operand.compare? ⟨none, none, y⟩).map Ordering.isEq))

/-- The collation that a function compares its arguments by. -/
def argumentCollation (row : Scope) (arguments : List Expression) : Collation :=
  (arguments.findSome? fun e => e.writtenCollation?.or (e.columnCollation? row)).getD .binary

mutual

/-- The value of an expression. -/
def eval (c : Context) : Expression → Option Cell
  | .literal cell => some cell
  | .integer digits => some (ofDigits false digits)
  | .hexadecimal n => (ofHexadecimal? n).map Cell.integer
  | .name _ s isQuoted _ => some (operandOf c.row s isQuoted).cell
  | .clock part => some (.text (part.text c.now))
  | .parameter => none
  | .unary operator e =>
    match operator, e.negated? with
    | .negative, some cell => cell
    | _, _ => (e.eval c).map operator.apply
  | .binary operator a b => do
    let x ← a.eval c
    let y ← b.eval c
    some (applyBinary c operator a b x y)
  | .collate e _ => e.eval c
  | .cast e type => (e.eval c).map type.cast
  | .between e low high => do
    let x ← e.eval c
    let l ← low.eval c
    let h ← high.eval c
    some (isBetween c.row e low high x l h).cell
  | .oneOf e values => do
    let x ← e.eval c
    let cells ← evalAll c values
    some (isAmong c.row e x cells).cell
  | .choice condition result otherwise => do
    let x ← condition.eval c
    if x.truth.holds then result.eval c else otherwise.eval c
  | .call function arguments =>
    match Text.Ascii.lower function with
    | "coalesce" => firstKnown c arguments
    | "ifnull" => firstKnown c arguments
    | other => do
      let cells ← evalAll c arguments
      Function.value? (argumentCollation c.row arguments) other cells

/-- The values of expressions. -/
def evalAll (c : Context) : List Expression → Option (List Cell)
  | [] => some []
  | e :: es => do
    let cell ← e.eval c
    let cells ← evalAll c es
    some (cell :: cells)

/-- The first value that is not null; those after it are not asked for. -/
def firstKnown (c : Context) : List Expression → Option Cell
  | [] => some .null
  | e :: es => do
    let cell ← e.eval c
    if cell.isNull then firstKnown c es else some cell

end

/-- Whether a function can be called with a number of arguments. -/
def isCallable (function : String) (count : Nat) : Bool :=
  Function.accepts (Text.Ascii.lower function) count

/-- The value of a default. It has none if it calls a function that there is not. -/
def constant? (now : Instant) (e : Expression) : Option Cell :=
  if e.isSound && e.isMeaningful (fun _ _ => false) isCallable then
    e.eval ⟨now, fun _ => none, false⟩
  else none

end Expression

end RecordQuery.Sql
