import RecordQuery.Sql.Lexeme
/-!
# Keywords and names

Most keywords are names wherever they do not make sense as keywords. `isReserved` says which are not,
`joinWords` are names of tables, columns and functions, yet not of types and collations.
-/

namespace RecordQuery.Sql

/-- The keywords that are never names. -/
def reservedWords : List String :=
  ["ADD", "ALL", "ALTER", "AND", "AS", "AUTOINCREMENT", "BETWEEN", "CASE", "CHECK", "COLLATE",
    "COMMIT", "CONSTRAINT", "CREATE", "DEFAULT", "DEFERRABLE", "DELETE", "DISTINCT", "DROP", "ELSE",
    "ESCAPE", "EXCEPT", "EXISTS", "FOREIGN", "FROM", "GROUP", "HAVING", "IN", "INDEX", "INSERT",
    "INTERSECT", "INTO", "IS", "ISNULL", "JOIN", "LIMIT", "NOT", "NOTHING", "NOTNULL", "NULL", "ON",
    "OR", "ORDER", "PRIMARY", "REFERENCES", "RETURNING", "SELECT", "SET", "TABLE", "THEN", "TO",
    "TRANSACTION", "UNION", "UNIQUE", "UPDATE", "USING", "VALUES", "WHEN", "WHERE"]

/-- The keywords that tell how tables are joined. -/
def joinWords : List String :=
  ["CROSS", "FULL", "INNER", "LEFT", "NATURAL", "OUTER", "RIGHT"]

/-- Whether a word is never a name. -/
def isReserved (word : String) : Bool := reservedWords.contains (Text.Ascii.upper word)

/-- Whether a word tells how tables are joined. -/
def isJoinWord (word : String) : Bool := joinWords.contains (Text.Ascii.upper word)

namespace Lexeme

/-- The name of a table, a column or a constraint. -/
def name? : Lexeme → Option String
  | .word s => if isReserved s then none else some s
  | .quoted s => some s
  | .bracketed s => some s
  | .text s => some s
  | _ => none

/-- The name of a type or a collation. -/
def plainName? : Lexeme → Option String
  | .word s =>
    if isReserved s || isJoinWord s || Text.Ascii.upper s == "INDEXED" then none else some s
  | .quoted s => some s
  | .bracketed s => some s
  | .text s => some s
  | _ => none

/-- Takes a keyword off the front. -/
def takeKeyword? (keyword : String) : List Lexeme → Option (List Lexeme)
  | t :: ts => if t.isKeyword keyword then some ts else none
  | [] => none

/-- Takes keywords off the front. -/
def takeKeywords? (keywords : List String) (ts : List Lexeme) : Option (List Lexeme) :=
  keywords.foldlM (fun ts keyword => takeKeyword? keyword ts) ts

/-- Takes a mark off the front. -/
def takeThis? (m : String) : List Lexeme → Option (List Lexeme)
  | t :: ts => if t.isMark m then some ts else none
  | [] => none

end Lexeme

end RecordQuery.Sql
