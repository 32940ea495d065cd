import RecordQuery.Text.Split
/-!
# Dotted paths

A path is a text of names between points. `names` takes it apart; `below` puts a name under a path,
where the empty path is the root and gets no point; `beginnings` are the names of a path put together
one by one; `parent` is all but the last name, and the root for a single one.
-/

namespace RecordQuery.Path

/-- The names of a path. -/
def names (path : String) : List String :=
  Text.pieces '.' path

/-- A path with one more name. -/
def below (path name : String) : String :=
  if path.isEmpty then name else path ++ "." ++ name

/-- The paths that extend a path name by name, shortest first. -/
def extensions (path : String) : List String → List String
  | [] => []
  | name :: names => below path name :: extensions (below path name) names

/-- The beginnings of a path, itself included, shortest first. -/
def beginnings (path : String) : List String :=
  extensions "" (names path)

/-- Adds a path at the end of a list, unless it is there. -/
def addNew (paths : List String) (path : String) : List String :=
  if paths.contains path then paths else paths ++ [path]

/-- Whether a path is a single name. -/
def isName (path : String) : Bool := !path.toList.contains '.'

/-- The path that leads to the last name. -/
def parent (path : String) : String :=
  match Text.cutLast? '.' path.toList with
  | some (before, _) => String.ofList before
  | none => ""

/-- The last name. -/
def last (path : String) : String :=
  match Text.cutLast? '.' path.toList with
  | some (_, after) => String.ofList after
  | none => path

/-- The first name and the path behind it, unless the path is a single name. -/
def first? (path : String) : Option (String × String) :=
  (Text.cut? '.' path.toList).map fun (before, after) => (String.ofList before, String.ofList after)

end RecordQuery.Path
