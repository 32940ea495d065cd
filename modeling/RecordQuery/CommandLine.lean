import RecordQuery.Text.Split
/-!
# Command line

The words behind the program's name. A flag takes its value from behind an equals sign, if it starts
with two dashes, and else from the next word; other words are passed over. Of a repeated flag the last
one counts.
-/

namespace RecordQuery

/-- What the command line asks for. -/
structure CommandLine where
  entity : Option String := none
  query : String := ""
  id : Option String := none
  deriving DecidableEq

namespace CommandLine

/-- A word as a flag, and its value if it has one of its own. -/
def splitWord (word : String) : String × Option String :=
  match Text.cut? '=' word.toList with
  | some (flag, value) =>
    if ['-', '-'].isPrefixOf flag then (String.ofList flag, some (String.ofList value))
    else (word, none)
  | none => (word, none)

/-- The setting that a flag changes to a value; a flag without a value takes the setting back. -/
def set? (flag : String) : Option (CommandLine → Option String → CommandLine) :=
  match flag with
  | "--entity" => some fun c value => { c with entity := value }
  | "-e" => some fun c value => { c with entity := value }
  | "--query" => some fun c value => { c with query := value.getD "" }
  | "-q" => some fun c value => { c with query := value.getD "" }
  | "--id" => some fun c value => { c with id := value }
  | _ => none

/-- Reads words onto what has been read. -/
def readFrom (c : CommandLine) : List String → CommandLine
  | [] => c
  | [word] =>
    let (flag, value) := splitWord word
    match set? flag with
    | some set => set c value
    | none => c
  | word :: next :: rest =>
    let (flag, value) := splitWord word
    match set? flag, value with
    | some set, some value => readFrom (set c (some value)) (next :: rest)
    | some set, none => readFrom (set c (some next)) rest
    | none, _ => readFrom c (next :: rest)

/-- Reads the words of a command line. -/
def read (words : List String) : CommandLine :=
  readFrom {} words

end CommandLine

end RecordQuery
