import RecordQuery.Calendar.Reader
import RecordQuery.Decimal.Literal
import RecordQuery.Text.Blank
import RecordQuery.Text.Integer
import RecordQuery.Value
/-!
# Typing texts

A query string knows texts only. `coerce` gives a text the type that it spells: a keyword, a number, a
date, or else text. `normalize` walks a JSON tree and coerces the texts that are members of objects;
a member `undefined` is left out, and of a list only the objects are walked, so that the scalars of a
list keep their text.
-/

namespace RecordQuery.Coercion

open Text

/-! ## Texts -/

/-- The characters that plain decimal text is made of. -/
def isDecimalChar (c : Char) : Bool :=
  c.isDigit || c = '.' || c = '-' || c = '+' || c = 'e' || c = 'E'

/-- The number that a text spells between blanks: an integer if it fits a signed word, else a finite
double. -/
def number? (s : String) : Option Scalar :=
  let cs := trim s.toList
  match Integer.int64? cs with
  | some i => some (.int i)
  | none =>
    if cs.all isDecimalChar then
      match Literal.read? cs with
      | some l => if l.nearest.isFinite then some (.real l.nearest) else none
      | none => none
    else none

/-- The scalar that a text spells. -/
def coerce (s : String) : Scalar :=
  match s with
  | "true" => .bool true
  | "false" => .bool false
  | "null" => .null
  | s =>
    match number? s with
    | some n => n
    | none =>
      match Instant.read? s with
      | some t => .date t
      | none => .text s

/-! ## Trees -/

/-- A member that stands for an absent one. -/
def isUndefined : Json → Bool
  | .string s => s = "undefined"
  | _ => false

mutual

/-- The tree with its texts typed. -/
def normalize : Json → Value
  | .object members => .object (sortKeys (normalizeMembers members))
  | .array items => .list (normalizeItems items)
  | .string s => .scalar (coerce s)
  | json => Value.ofJson json

/-- The members with their texts typed, `undefined` ones left out. -/
def normalizeMembers : List (String × Json) → List (String × Value)
  | [] => []
  | (key, value) :: members =>
    if isUndefined value then normalizeMembers members
    else (key, normalize value) :: normalizeMembers members

/-- The items of a list, of which only objects are walked. -/
def normalizeItems : List Json → List Value
  | [] => []
  | .object members :: items => normalize (.object members) :: normalizeItems items
  | item :: items => Value.ofJson item :: normalizeItems items

end

end RecordQuery.Coercion
