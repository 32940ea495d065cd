import RecordQuery.Sql.ColumnType
import RecordQuery.Sql.Scope
/-!
# Expressions

The expressions of table definitions: defaults and checks. A choice between cases is a chain of
`Expression.choice`, and what is written with a keyword but works like a function is a call.
-/

namespace RecordQuery.Sql

/-- An operator in front of its operand. -/
inductive UnaryOperator where
  | not
  | negative
  | positive
  | complement
  deriving DecidableEq

/-- An operator between its operands. -/
inductive BinaryOperator where
  | or
  | and
  /-- Equality that is decided on null. -/
  | same
  | different
  | equal
  | unequal
  | less
  | atMost
  | greater
  | atLeast
  | bitAnd
  | bitOr
  | shiftLeft
  | shiftRight
  | add
  | subtract
  | multiply
  | divide
  | remainder
  | concatenate
  deriving DecidableEq

/-- Whether an operator compares its operands. -/
def BinaryOperator.isComparison : BinaryOperator → Bool
  | .same => true
  | .different => true
  | .equal => true
  | .unequal => true
  | .less => true
  | .atMost => true
  | .greater => true
  | .atLeast => true
  | _ => false

/-- The functions that compare their arguments. -/
def comparingFunctions : List String := ["max", "min", "nullif"]

/-- A part of the moment at which a statement is executed. -/
inductive ClockPart where
  | date
  | time
  | moment
  deriving DecidableEq

/-- An expression. -/
inductive Expression where
  | literal (cell : Cell)
  /-- A decimal integer, which is a double if it does not fit. -/
  | integer (digits : List Char)
  /-- A hexadecimal integer in two's complement. -/
  | hexadecimal (n : Nat)
  /-- A name; one in double quotes stands for a text if there is no column of it. -/
  | name (qualifiers : List String) (s : String) (isQuoted mayBeText : Bool)
  | clock (part : ClockPart)
  | parameter
  | unary (operator : UnaryOperator) (e : Expression)
  | binary (operator : BinaryOperator) (a b : Expression)
  | collate (e : Expression) (collation : String)
  | cast (e : Expression) (type : ColumnType)
  | between (e low high : Expression)
  | oneOf (e : Expression) (values : List Expression)
  | choice (condition result otherwise : Expression)
  | call (function : String) (arguments : List Expression)

namespace Expression

/-- The null literal. -/
def null : Expression := .literal .null

/-- The truth value that a bare word is. -/
def truthWord? (s : String) : Option Bool :=
  match Text.Ascii.lower s with
  | "true" => some true
  | "false" => some false
  | _ => none

mutual

/-- Whether an expression has no part that depends on a row or on a bound value. -/
def isConstant : Expression → Bool
  | .literal _ => true
  | .integer _ => true
  | .hexadecimal _ => true
  | .name qualifiers s isQuoted _ => qualifiers.isEmpty && !isQuoted && (truthWord? s).isSome
  | .clock _ => true
  | .parameter => false
  | .unary _ e => e.isConstant
  | .binary _ a b => a.isConstant && b.isConstant
  | .collate e _ => e.isConstant
  | .cast e _ => e.isConstant
  | .between e low high => e.isConstant && low.isConstant && high.isConstant
  | .oneOf e values => e.isConstant && areConstant values
  | .choice c a b => c.isConstant && a.isConstant && b.isConstant
  | .call _ arguments => areConstant arguments

/-- Whether expressions are constant. -/
def areConstant : List Expression → Bool
  | [] => true
  | e :: es => e.isConstant && areConstant es

end

mutual

/-- Whether all parts mean something: names by `known`, functions by `callable` on a number of arguments. -/
def isMeaningful (known : List String → String → Bool) (callable : String → Nat → Bool) :
    Expression → Bool
  | .literal _ => true
  | .integer _ => true
  | .hexadecimal _ => true
  | .name qualifiers s isQuoted mayBeText =>
    known qualifiers s ||
      (qualifiers.isEmpty && (mayBeText || (!isQuoted && (truthWord? s).isSome)))
  | .clock _ => true
  | .parameter => false
  | .unary _ e => e.isMeaningful known callable
  | .binary _ a b => a.isMeaningful known callable && b.isMeaningful known callable
  | .collate e _ => e.isMeaningful known callable
  | .cast e _ => e.isMeaningful known callable
  | .between e low high =>
    e.isMeaningful known callable && low.isMeaningful known callable &&
      high.isMeaningful known callable
  | .oneOf e values => e.isMeaningful known callable && areMeaningful known callable values
  | .choice c a b =>
    c.isMeaningful known callable && a.isMeaningful known callable && b.isMeaningful known callable
  | .call function arguments =>
    callable function arguments.length && areMeaningful known callable arguments

/-- Whether all parts of expressions mean something. -/
def areMeaningful (known : List String → String → Bool) (callable : String → Nat → Bool) :
    List Expression → Bool
  | [] => true
  | e :: es => e.isMeaningful known callable && areMeaningful known callable es

end

/-! ## Preferences in comparisons -/

/-- The operand that a name is in a row; one that no row knows is a text or a truth value. -/
def operandOf (row : Scope) (s : String) (isQuoted : Bool) : Operand :=
  match row s with
  | some operand => operand
  | none =>
    match isQuoted, truthWord? s with
    | false, some b => ⟨none, none, .integer (if b then 1 else 0)⟩
    | _, _ => ⟨none, none, .text s⟩

/-- The affinity of an expression: that of a column, or that of a cast. -/
def affinity? (row : Scope) : Expression → Option Affinity
  | .name _ s isQuoted _ => (operandOf row s isQuoted).affinity
  | .cast _ type => some type.affinity
  | .collate e _ => e.affinity? row
  | _ => none

mutual

/-- The name of the collation that is written in an expression, the leftmost one. -/
def writtenName? : Expression → Option String
  | .collate _ s => some s
  | .unary _ e => e.writtenName?
  | .binary _ a b => a.writtenName?.or b.writtenName?
  | .cast e _ => e.writtenName?
  | .between e low high => e.writtenName?.or (low.writtenName?.or high.writtenName?)
  | .oneOf e values => e.writtenName?.or (firstName? values)
  | .choice c a b => c.writtenName?.or (a.writtenName?.or b.writtenName?)
  | .call _ arguments => firstName? arguments
  | _ => none

/-- The leftmost name of a collation written in expressions. -/
def firstName? : List Expression → Option String
  | [] => none
  | e :: es => e.writtenName?.or (firstName? es)

end

/-- The collation that is written in an expression, if there is one of its name. -/
def writtenCollation? (e : Expression) : Option Collation := e.writtenName?.bind Collation.named?

/-- The collation of the column that an expression is. -/
def columnCollation? (row : Scope) : Expression → Option Collation
  | .name _ s isQuoted _ => (operandOf row s isQuoted).collation
  | .cast e _ => e.columnCollation? row
  | .unary .positive e => e.columnCollation? row
  | _ => none

/-- The collation under which two expressions are compared: one that is written comes before that of a
column. -/
def commonCollation? (row : Scope) (a b : Expression) : Option Collation :=
  a.writtenCollation?.or <| b.writtenCollation?.or <|
    (a.columnCollation? row).or (b.columnCollation? row)

/-! ## What can be executed -/

/-- Whether a name is that of a collation, if there is one. -/
def isKnownName (s? : Option String) : Bool :=
  s?.all fun s => (Collation.named? s).isSome

/-- Whether a hexadecimal integer has an opposite. -/
def hasOpposite : Expression → Bool
  | .hexadecimal n => n != Word.signBit
  | _ => true

mutual

/-- Whether every hexadecimal integer fits and every collation that is asked for exists. -/
def isSound : Expression → Bool
  | .literal _ => true
  | .integer _ => true
  | .hexadecimal n => n ≤ Word.greatestUnsigned
  | .name _ _ _ _ => true
  | .clock _ => true
  | .parameter => false
  | .unary operator e => (operator != .negative || e.hasOpposite) && e.isSound
  | .binary operator a b =>
    (!operator.isComparison || isKnownName (a.writtenName?.or b.writtenName?)) &&
      a.isSound && b.isSound
  | .collate e _ => e.isSound
  | .cast e _ => e.isSound
  | .between e low high =>
    isKnownName (e.writtenName?.or low.writtenName?) &&
      isKnownName (e.writtenName?.or high.writtenName?) && e.isSound && low.isSound && high.isSound
  | .oneOf e values => isKnownName e.writtenName? && e.isSound && areSound values
  | .choice c a b => c.isSound && a.isSound && b.isSound
  | .call function arguments =>
    (!comparingFunctions.contains (Text.Ascii.lower function) ||
      isKnownName (firstName? arguments)) && areSound arguments

/-- Whether expressions are sound. -/
def areSound : List Expression → Bool
  | [] => true
  | e :: es => e.isSound && areSound es

end

end Expression

end RecordQuery.Sql
