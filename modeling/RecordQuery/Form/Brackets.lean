import RecordQuery.Error
import RecordQuery.Form.Encoding
import RecordQuery.Json.Basic
import RecordQuery.Text.Integer
/-!
# Bracket notation

A parameter named `a[b][]` puts its value into a list under `b` under `a`. `Tree.put` places one value
along a path, or finds that the path meets something of another shape; `Form.read` places all
parameters of a query string and gives the tree as JSON. Values stay texts. Numbered items of a list
come first, by number and not by arrival, and then the appended ones.
-/

namespace RecordQuery.Form

/-- One step of a path. -/
inductive Segment where
  | key (name : String)
  | index (n : Nat)
  | append
  deriving DecidableEq

/-- What a segment's text stands for: nothing appends, a number counts, and the rest is a key. -/
def Segment.ofText (cs : List Char) : Segment :=
  if cs.isEmpty then .append
  else match Text.Integer.index? cs with
    | some n => .index n
    | none => .key (String.ofList cs)

/-- The texts between brackets, up to the end. -/
def brackets? : List Char → Option (List (List Char))
  | [] => some []
  | c :: cs =>
    if c = '[' then
      match _h : Text.cut? ']' cs with
      | none => none
      | some (text, rest) => (brackets? rest).map (text :: ·)
    else none
termination_by cs => cs.length
decreasing_by exact Nat.lt_succ_of_lt (Text.length_of_cut? _h)

/-- The path that a parameter's name spells. -/
def path? (key : String) : Option (List Segment) :=
  let texts := match Text.cut? '[' key.toList with
    | none => some [key.toList]
    | some (head, rest) => (brackets? ('[' :: rest)).map (head :: ·)
  texts.map (·.map Segment.ofText)

/-- The parameters placed so far. -/
inductive Tree where
  | empty
  | text (s : String)
  | map (entries : List (String × Tree))
  | list (indexed : List (Nat × Tree)) (appended : List Tree)

namespace Tree

/-- Changes the entry under a key, which is new and last if it is not there. -/
def alterKey (f : Tree → Option Tree) (key : String) :
    List (String × Tree) → Option (List (String × Tree))
  | [] => (f .empty).map fun t => [(key, t)]
  | (k, t) :: entries =>
    if k = key then (f t).map fun t => (k, t) :: entries
    else (alterKey f key entries).map ((k, t) :: ·)

/-- Changes the item of a number; items are kept by ascending number. -/
def alterIndex (f : Tree → Option Tree) (n : Nat) : List (Nat × Tree) → Option (List (Nat × Tree))
  | [] => (f .empty).map fun t => [(n, t)]
  | (m, t) :: items =>
    if n < m then (f .empty).map fun u => (n, u) :: (m, t) :: items
    else if n = m then (f t).map fun t => (m, t) :: items
    else (alterIndex f n items).map ((m, t) :: ·)

/-- The entries of a tree that is a map or may become one. -/
def entries? : Tree → Option (List (String × Tree))
  | .empty => some []
  | .map entries => some entries
  | _ => none

/-- The items of a tree that is a list or may become one. -/
def items? : Tree → Option (List (Nat × Tree) × List Tree)
  | .empty => some ([], [])
  | .list indexed appended => some (indexed, appended)
  | _ => none

/-- Places a value at the end of a path: a second value makes a list of a text. -/
def putHere (value : String) : Tree → Option Tree
  | .empty => some (.text value)
  | .text old => some (.list [] [.text old, .text value])
  | .list indexed appended => some (.list indexed (appended ++ [.text value]))
  | .map _ => none

/-- Places a value along a path. -/
def put (value : String) : List Segment → Tree → Option Tree
  | [], t => putHere value t
  | .key name :: rest, t => do
    let entries ← t.entries?
    (alterKey (put value rest) name entries).map .map
  | .index n :: rest, t => do
    let (indexed, appended) ← t.items?
    (alterIndex (put value rest) n indexed).map (.list · appended)
  | .append :: rest, t => do
    let (indexed, appended) ← t.items?
    (put value rest .empty).map fun child => .list indexed (appended ++ [child])

mutual

/-- The tree as JSON. -/
def toJson : Tree → Json
  | .empty => .null
  | .text s => .string s
  | .map entries => .object (toJsonEntries entries)
  | .list indexed appended => .array (toJsonIndexed indexed ++ toJsonItems appended)

/-- The entries of a map. -/
def toJsonEntries : List (String × Tree) → List (String × Json)
  | [] => []
  | (key, t) :: entries => (key, t.toJson) :: toJsonEntries entries

/-- The numbered items of a list. -/
def toJsonIndexed : List (Nat × Tree) → List Json
  | [] => []
  | (_, t) :: items => t.toJson :: toJsonIndexed items

/-- The appended items of a list. -/
def toJsonItems : List Tree → List Json
  | [] => []
  | t :: items => t.toJson :: toJsonItems items

end

end Tree

/-- Places one parameter. A parameter without a name is passed over. -/
def place (t : Tree) (parameter : String × String) : Checked Tree :=
  let (key, value) := parameter
  if key.isEmpty then .ok t
  else match path? key with
    | none => .error (.parameterName key)
    | some path =>
      match t.put value path with
      | some t => .ok t
      | none => .error (.parameterConflict key)

/-- A query string without the question mark in front. -/
def withoutMark : List Char → List Char
  | '?' :: cs => cs
  | cs => cs

/-- The parameters of a query string as an object, in the order of their arrival. -/
def read (query : String) : Checked Members := do
  let t ← (pairs (withoutMark query.toList)).foldlM place (.map [])
  match t with
  | .map entries => .ok (Tree.toJsonEntries entries)
  | _ => .ok []

end RecordQuery.Form
