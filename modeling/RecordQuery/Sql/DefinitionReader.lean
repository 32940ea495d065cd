import RecordQuery.Sql.CreateTable
import RecordQuery.Sql.Definition
import RecordQuery.Sql.Expression.Reader
/-!
# Reading table definitions

The text of a statement that makes a table is read into a `Draft`. The definition of a schema
(`Draft.ofSchema`) follows its columns one by one, as long as no name and no default reaches beyond its
place in the text; otherwise the text decides.
-/

namespace RecordQuery.Sql.Draft

open Lexeme (takeKeyword? takeKeywords? takeThis?)

/-! ## Parts -/

/-- Takes a name. -/
def takeName? : List Lexeme → Option (String × List Lexeme)
  | t :: ts => t.name?.map fun s => (s, ts)
  | [] => none

/-- What follows keywords, if they are there. -/
def skipKeywords (keywords : List String) (ts : List Lexeme) : List Lexeme :=
  (takeKeywords? keywords ts).getD ts

/-- Takes what is done about a row that breaks a rule, if that is said. -/
def takeResolution? (ts : List Lexeme) : Option (Option Resolution × List Lexeme) :=
  match takeKeywords? ["ON", "CONFLICT"] ts with
  | some rest => Resolution.all.findSome? fun r => (takeKeyword? r.word rest).map fun rest => (some r, rest)
  | none => some (none, ts)

/-- Takes a direction, if one is said, and whether it is the descending one. -/
def takeDirection (ts : List Lexeme) : Bool × List Lexeme :=
  match takeKeyword? "DESC" ts with
  | some rest => (true, rest)
  | none => (false, skipKeywords ["ASC"] ts)

/-- Takes an expression in brackets. -/
def takeBracketed? (ts : List Lexeme) : Option (Expression × List Lexeme) := do
  let rest ← takeThis? "(" ts
  let (e, rest) ← Expression.leading? rest
  let rest ← takeThis? ")" rest
  some (e, rest)

/-- Takes the columns of a key between brackets, each with a collation and whether it is descending; `n`
bounds their number. -/
def takeColumns? : Nat → List Lexeme → Option (List (String × Option String × Bool) × List Lexeme)
  | 0, _ => none
  | n + 1, ts => do
    let (name, rest) ← takeName? ts
    let (collation, rest) ← match takeKeyword? "COLLATE" rest with
      | some (t :: rest) => t.plainName?.map fun s => (some s, rest)
      | some [] => none
      | none => some (none, rest)
    let (descending, rest) := takeDirection rest
    match takeThis? "," rest with
    | some rest => do
      let (columns, rest) ← takeColumns? n rest
      some ((name, collation, descending) :: columns, rest)
    | none => some ([(name, collation, descending)], rest)

/-- Takes names, neither with a collation nor with a direction; `n` bounds their number. -/
def takeNames? : Nat → List Lexeme → Option (List String × List Lexeme)
  | 0, _ => none
  | n + 1, ts => do
    let (name, rest) ← takeName? ts
    match takeThis? "," rest with
    | some rest => do
      let (names, rest) ← takeNames? n rest
      some (name :: names, rest)
    | none => some ([name], rest)

/-- Takes names in brackets. -/
def takeNameList? (ts : List Lexeme) : Option (List String × List Lexeme) := do
  let rest ← takeThis? "(" ts
  let (names, rest) ← takeNames? rest.length rest
  let rest ← takeThis? ")" rest
  some (names, rest)

/-- The actions by the words for them. -/
def actions : List (List String × Action) :=
  [(["SET", "NULL"], .setNull), (["SET", "DEFAULT"], .setDefault), (["CASCADE"], .cascade),
    (["RESTRICT"], .restrict), (["NO", "ACTION"], .nothing)]

/-- Takes what is done to the rows that refer to another one. -/
def takeAction? (ts : List Lexeme) : Option (Action × List Lexeme) :=
  actions.findSome? fun (words, action) => (takeKeywords? words ts).map fun rest => (action, rest)

/-- Takes the conditions of a reference; `n` bounds their number. -/
def takeReferenceRules? : Nat → Reference → List Lexeme → Option (Reference × List Lexeme)
  | 0, r, ts => some (r, ts)
  | n + 1, r, ts =>
    match takeKeyword? "MATCH" ts with
    | some rest => do
      let (_, rest) ← takeName? rest
      takeReferenceRules? n r rest
    | none =>
      match takeKeyword? "ON" ts with
      | none => some (r, ts)
      | some (event :: rest) => do
        let (action, rest) ← takeAction? rest
        if event.isKeyword "DELETE" then takeReferenceRules? n { r with onRemoval := action } rest
        else if event.isKeyword "UPDATE" then takeReferenceRules? n { r with onChange := action } rest
        else if event.isKeyword "INSERT" then takeReferenceRules? n r rest
        else none
      | some [] => none

/-- Takes the target of a reference of columns, and its conditions. -/
def takeReference? (columns : List String) (ts : List Lexeme) : Option (Reference × List Lexeme) := do
  let (target, rest) ← takeName? ts
  match takeThis? "(" rest with
  | some _ => do
    let (keys, rest) ← takeNameList? rest
    takeReferenceRules? rest.length { columns, target, keys := some keys } rest
  | none => takeReferenceRules? rest.length { columns, target } rest

/-- Takes when a reference is checked: whether that is late. -/
def takeDeferral? (ts : List Lexeme) : Option (Bool × List Lexeme) := do
  let isNegated := (takeKeyword? "NOT" ts).isSome
  let rest ← takeKeyword? "DEFERRABLE" (skipKeywords ["NOT"] ts)
  match takeKeyword? "INITIALLY" rest with
  | some (t :: rest) =>
    if t.isKeyword "DEFERRED" then some (!isNegated, rest)
    else if t.isKeyword "IMMEDIATE" then some (false, rest)
    else none
  | some [] => none
  | none => some (false, rest)

/-- Says of the last reference whether it is checked late. -/
def deferLast (isDeferred : Bool) : List Reference → List Reference
  | [] => []
  | [r] => [{ r with isDeferred }]
  | r :: rs => r :: deferLast isDeferred rs

/-! ## Columns -/

/-- Takes a default: an expression in brackets, a literal with or without a sign, or a word. -/
def takeStandard? : List Lexeme → Option (Expression × List Lexeme)
  | [] => none
  | .mark "(" :: ts => takeBracketed? (.mark "(" :: ts)
  | .mark "+" :: t :: ts => (ofTerm? t).map fun e => (e, ts)
  | .mark "-" :: t :: ts => (ofTerm? t).map fun e => (.unary .negative e, ts)
  | t :: ts =>
    match ofTerm? t with
    | some e => some (e, ts)
    | none =>
      match t with
      | .word s =>
        if isReserved s || isJoinWord s then none
        else
          some (match Expression.truthWord? s with
            | some b => .literal (.integer (if b then 1 else 0))
            | none => .literal (.text s), ts)
      | .quoted s => some (.literal (.text s), ts)
      | .bracketed s => some (.literal (.text s), ts)
      | _ => none
where
  /-- A lexeme that is a literal or tells the time. -/
  ofTerm? : Lexeme → Option Expression
    | .parameter => none
    | t => Expression.ofLexeme? t

/-- Takes a constraint of a column off the front, if there is one. -/
def takeConstraint? (c : Column) (ts : List Lexeme) : Option (Column × List Lexeme) :=
  match ts with
  | .word s :: rest =>
    match Text.Ascii.upper s with
    | "CONSTRAINT" => (takeName? rest).map fun (_, rest) => (c, rest)
    | "DEFAULT" => (takeStandard? rest).map fun (e, rest) => (c.withStandard e, rest)
    | "NULL" => (takeResolution? rest).map fun (_, rest) => (c, rest)
    | "NOT" =>
      match takeKeyword? "NULL" rest with
      | some rest => (takeResolution? rest).map fun (resolution, rest) =>
        ({ c with field := { c.field with required := true, onNull := resolution.getD .abort } }, rest)
      | none => (takeDeferral? ts).map fun (isDeferred, rest) =>
        ({ c with references := deferLast isDeferred c.references }, rest)
    | "PRIMARY" => do
      let rest ← takeKeyword? "KEY" rest
      let (descending, rest) := takeDirection rest
      let (resolution, rest) ← takeResolution? rest
      match takeKeyword? "AUTOINCREMENT" rest with
      | some rest => some (c.withKey descending true resolution, rest)
      | none => some (c.withKey descending false resolution, rest)
    | "UNIQUE" => (takeResolution? rest).map fun (resolution, rest) =>
      ({ c with uniques := c.uniques ++ [resolution] }, rest)
    | "CHECK" => (takeBracketed? rest).map fun (e, rest) =>
      ({ c with checks := c.checks ++ [e] }, rest)
    | "REFERENCES" => (takeReference? [c.field.name] rest).map fun (r, rest) =>
      ({ c with references := c.references ++ [r] }, rest)
    | "DEFERRABLE" => (takeDeferral? ts).map fun (isDeferred, rest) =>
      ({ c with references := deferLast isDeferred c.references }, rest)
    | "COLLATE" =>
      match rest with
      | t :: rest => t.plainName?.map fun name => (c.withCollation name, rest)
      | [] => none
    | _ => none
  | _ => none

/-- Takes all constraints of a column; `n` bounds their number. -/
def takeConstraints : Nat → Column → List Lexeme → Column × List Lexeme
  | 0, c, ts => (c, ts)
  | n + 1, c, ts =>
    match takeConstraint? c ts with
    | some (c, rest) => takeConstraints n c rest
    | none => (c, ts)

/-- A column of a type, without constraints. -/
def column (name type : String) : Column where
  field :=
    { name
      affinity := if type.isEmpty then .none else (ColumnType.ofName type).affinity
      width := if type.isEmpty then 1 else ColumnType.width type }
  isInteger := Text.Ascii.same type "INTEGER"

/-- Takes the definition of a column. -/
def takeColumn? (ts : List Lexeme) : Option (Column × List Lexeme) := do
  let (name, rest) ← takeName? ts
  let (type, rest) ← Expression.takeType? rest
  some (takeConstraints rest.length (column name type) rest)

/-! ## Tables -/

/-- The unique columns of a list of a key. -/
def uniqueOf (columns : List (String × Option String × Bool)) : List (String × Option Collation) :=
  columns.map fun (name, collation, _) => (name, collation.bind Collation.named?)

/-- Declares columns to be the primary key. A single integer in ascending order is the key of the rows. -/
def withKey (d : Draft) (columns : List (String × Option String × Bool)) (automatic : Bool)
    (resolution : Option Resolution) : Draft :=
  let d :=
    { d with
      keys := d.keys + 1
      primaryKey := d.primaryKey ++ columns.map Prod.fst
      isAutomatic := d.isAutomatic || automatic }
  let apart :=
    { d with
      uniques := d.uniques ++ [(uniqueOf columns, resolution)]
      isSound := d.isSound && !automatic }
  match columns with
  | [(name, _, false)] =>
    if d.columns.any fun c => Text.Ascii.same c.field.name name && c.isInteger then
      { d with
        onTaken := resolution.getD .abort
        columns := d.columns.map fun c =>
          if Text.Ascii.same c.field.name name then { c with field := { c.field with isKey := true } }
          else c }
    else apart
  | _ => apart

/-- Takes a constraint of a table off the front, if there is one. -/
def takeTableConstraint? (d : Draft) (ts : List Lexeme) : Option (Draft × List Lexeme) :=
  match ts with
  | .word s :: rest =>
    match Text.Ascii.upper s with
    | "CONSTRAINT" => (takeName? rest).map fun (_, rest) => (d, rest)
    | "PRIMARY" => do
      let rest ← takeKeywords? ["KEY"] rest
      let rest ← takeThis? "(" rest
      let (columns, rest) ← takeColumns? rest.length rest
      let automatic := (takeKeyword? "AUTOINCREMENT" rest).isSome
      let rest ← takeThis? ")" (skipKeywords ["AUTOINCREMENT"] rest)
      let (resolution, rest) ← takeResolution? rest
      some (d.withKey columns automatic resolution, rest)
    | "UNIQUE" => do
      let rest ← takeThis? "(" rest
      let (columns, rest) ← takeColumns? rest.length rest
      let rest ← takeThis? ")" rest
      let (resolution, rest) ← takeResolution? rest
      some ({ d with uniques := d.uniques ++ [(uniqueOf columns, resolution)] }, rest)
    | "CHECK" => do
      let (e, rest) ← takeBracketed? rest
      let (_, rest) ← takeResolution? rest
      some ({ d with checks := d.checks ++ [e] }, rest)
    | "FOREIGN" => do
      let rest ← takeKeyword? "KEY" rest
      let (columns, rest) ← takeNameList? rest
      let rest ← takeKeyword? "REFERENCES" rest
      let (r, rest) ← takeReference? columns rest
      let (isDeferred, rest) := (takeDeferral? rest).getD (false, rest)
      some ({ d with references := d.references ++ [{ r with isDeferred }] }, rest)
    | _ => none
  | _ => none

/-- Takes the constraints of a table, with or without commas between them, up to the closing bracket; `n`
bounds their number. -/
def takeTableConstraints? : Nat → Draft → List Lexeme → Option (Draft × List Lexeme)
  | 0, _, _ => none
  | n + 1, d, ts =>
    match takeThis? ")" ts with
    | some rest => some (d, rest)
    | none => do
      let (d, rest) ← takeTableConstraint? d ((takeThis? "," ts).getD ts)
      takeTableConstraints? n d rest

/-- Takes columns and constraints up to the closing bracket; `n` bounds their number. -/
def takeBody? : Nat → Draft → List Lexeme → Option (Draft × List Lexeme)
  | 0, _, _ => none
  | n + 1, d, ts => do
    let (c, rest) ← takeColumn? ts
    let d := { d with columns := d.columns ++ [c] }
    match takeThis? "," rest with
    | some more =>
      if (takeTableConstraint? d more).isSome then takeTableConstraints? more.length d rest
      else takeBody? n d more
    | none => (takeThis? ")" rest).map fun rest => (d, rest)

/-- Takes the name of a table, which may tell its database. -/
def takeTableName? (ts : List Lexeme) : Option (String × Bool × List Lexeme) := do
  let (name, rest) ← takeName? ts
  match takeThis? "." rest with
  | some rest => do
    let (table, rest) ← takeName? rest
    some (table, Text.Ascii.same name "main", rest)
  | none => some (name, true, rest)

/-- Takes a statement that makes a table if there is none of its name. -/
def takeStatement? (ts : List Lexeme) : Option (Draft × List Lexeme) := do
  let rest ← takeKeywords? ["CREATE", "TABLE", "IF", "NOT", "EXISTS"] ts
  let (name, isSound, rest) ← takeTableName? rest
  let rest ← takeThis? "(" rest
  takeBody? rest.length { name, isSound } rest

/-- The drafts of the statements of a text, and whether all of it could be read; `n` bounds their number. -/
def ofLexemes : Nat → List Lexeme → List Draft × Bool
  | 0, ts => ([], ts.isEmpty)
  | n + 1, ts =>
    match takeThis? ";" ts with
    | some rest => ofLexemes n rest
    | none =>
      if ts.isEmpty then ([], true)
      else
        match takeStatement? ts with
        | none => ([], false)
        | some (d, []) => ([d], true)
        | some (d, t :: rest) =>
          if t.isMark ";" then
            let (ds, complete) := ofLexemes n rest
            (d :: ds, complete)
          else ([], false)

/-! ## Schemas -/

/-- Whether a name can be written between quotes as it is. -/
def isPlainName (name : String) : Bool :=
  !name.toList.contains '"' && !name.toList.contains '\x00'

/-- Whether the characters of a default end within the default. -/
def isPlainText : List Char → Bool
  | [] => true
  | c :: cs =>
    c != '\x00' && !("--".toList.isPrefixOf (c :: cs)) && !("/*".toList.isPrefixOf (c :: cs)) &&
      isPlainText cs

/-- The column of a schema without its default. -/
def ofPlainColumn (c : RecordQuery.Column) : Column :=
  let typed := column c.name c.kind.affinity.typeName
  if c.isKey then typed.withKey false true none
  else { typed with field := { typed.field with required := !c.nullable } }

/-- The column of a schema, if its default is one together with the constraints behind it. -/
def ofColumn? (c : RecordQuery.Column) : Option Column :=
  match c.standard with
  | none => some (ofPlainColumn c)
  | some text =>
    if !isPlainText text.toList then none
    else
      match takeStandard? (Lexeme.read text) with
      | none => none
      | some (e, rest) =>
        match takeConstraints rest.length ((ofPlainColumn c).withStandard e) rest with
        | (column, []) => some column
        | _ => none

/-- The columns of a schema, if each is written within its place. -/
def columnsOf? {ι : Type} (s : Schema ι) : Option (List Column) :=
  if s.columns.isEmpty || !isPlainName s.table || !s.columnNames.all isPlainName then none
  else s.columns.mapM ofColumn?

/-- The drafts of the tables that a schema defines, and whether all of its statement could be read. -/
def ofSchema {ι : Type} (s : Schema ι) : List Draft × Bool :=
  match columnsOf? s with
  | some columns => ([{ name := s.table, columns }], true)
  | none =>
    let ts := Lexeme.read s.createText
    ofLexemes (ts.length + 1) ts

end RecordQuery.Sql.Draft
