import RecordQuery.Decimal.Layout
import RecordQuery.Json.Basic
/-!
# JSON text

`Json.compact` writes a value without blanks, members in order, and `Json.pretty` with one item or
member a line, set in by two blanks a level. Only quotes, backslashes and control
characters are escaped; numbers written as doubles keep a point or an exponent, so that they read
back as doubles.
-/

namespace RecordQuery

/-- JSON text writes the exponents from -5 to 15 positionally and marks doubles by `.0`;
a tie between digits goes to the even one. -/
def Layout.json : Layout := ⟨some (-5, 15), true, false, 1, true⟩

namespace Json

/-- A character inside quotes. -/
def escape (c : Char) : List Char :=
  match c with
  | '"' => ['\\', '"']
  | '\\' => ['\\', '\\']
  | '\x08' => ['\\', 'b']
  | '\x0c' => ['\\', 'f']
  | '\n' => ['\\', 'n']
  | '\r' => ['\\', 'r']
  | '\t' => ['\\', 't']
  | c =>
    if c.toNat < 0x20 then
      ['\\', 'u', '0', '0', Nat.digitChar (c.toNat / 16), Nat.digitChar (c.toNat % 16)]
    else [c]

/-- A text in quotes. -/
def quoted (s : String) : String :=
  "\"" ++ String.ofList (s.toList.flatMap escape) ++ "\""

/-- The text of a number. -/
def Number.compact : Number → String
  | .integer i => toString i.toInt
  | .large n => toString n.toNat
  | .real x => if x.isFinite then Layout.json.write (Decimal.shortest .even) x else "null"

mutual

/-- The compact text of a value. -/
def compact : Json → String
  | .null => "null"
  | .bool true => "true"
  | .bool false => "false"
  | .number n => n.compact
  | .string s => quoted s
  | .array items => "[" ++ ",".intercalate (compactItems items) ++ "]"
  | .object members => "\x7b" ++ ",".intercalate (compactMembers members) ++ "\x7d"

/-- The texts of an array's items. -/
def compactItems : List Json → List String
  | [] => []
  | item :: items => item.compact :: compactItems items

/-- The texts of an object's members. -/
def compactMembers : List (String × Json) → List String
  | [] => []
  | (key, value) :: members => (quoted key ++ ":" ++ value.compact) :: compactMembers members

end

/-- Lines between brackets, set in one level deeper than the brackets. -/
def block (level : Nat) (left right : String) : List String → String
  | [] => left ++ right
  | lines =>
    let inset (level : Nat) : String := "\n" ++ "".pushn ' ' (2 * level)
    left ++ inset (level + 1) ++ ("," ++ inset (level + 1)).intercalate lines ++ inset level ++ right

mutual

/-- The text of a value over several lines, at a level of nesting. -/
def pretty (level : Nat) : Json → String
  | .array items => block level "[" "]" (prettyItems (level + 1) items)
  | .object members => block level "\x7b" "\x7d" (prettyMembers (level + 1) members)
  | json => json.compact

/-- The texts of an array's items. -/
def prettyItems (level : Nat) : List Json → List String
  | [] => []
  | item :: items => item.pretty level :: prettyItems level items

/-- The texts of an object's members. -/
def prettyMembers (level : Nat) : List (String × Json) → List String
  | [] => []
  | (key, value) :: members =>
    (quoted key ++ ": " ++ value.pretty level) :: prettyMembers level members

end

end Json

end RecordQuery
