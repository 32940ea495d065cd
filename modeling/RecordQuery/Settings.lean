import RecordQuery.Request.Page
import RecordQuery.Text.Ascii
import RecordQuery.Text.Blank
import RecordQuery.Text.Integer
/-!
# Settings

The settings of the program, read from named variables, each of which has a default. The variables
are read in a fixed order and the first bad one is reported; the page sizes are compared last.
-/

namespace RecordQuery

/-- How a log is written. -/
inductive LogFormat where
  | pretty
  | json
  deriving DecidableEq

/-- What the program is run with. -/
structure Settings where
  databaseUrl : String := "sqlite::memory:"
  maxConnections : Nat := 5
  limits : PageLimits := {}
  logLevel : String := "info"
  logFormat : LogFormat := .pretty
  seedDemoData : Bool := true
  deriving DecidableEq

namespace Settings

/-- What is wrong with the variables. -/
inductive Fault where
  | logFormat (got : String)
  | integer (name : String) (fault : Text.Integer.Fault)
  | boolean (name got : String)
  | greatestSize
  | standardSize (greatest : Int64)
  deriving DecidableEq

/-- The wording of a fault. -/
def Fault.message : Fault → String
  | .logFormat got => "Invalid LOG_FORMAT: " ++ got
  | .integer name _ => "Invalid " ++ name
  | .boolean name _ => "Invalid " ++ name
  | .greatestSize => "MAX_PAGE_SIZE must be at least 1"
  | .standardSize greatest =>
    "DEFAULT_PAGE_SIZE must be between 1 and MAX_PAGE_SIZE (" ++ toString greatest.toInt ++ ")"

/-- What lies behind a fault. -/
def Fault.cause? : Fault → Option String
  | .integer _ fault => some fault.message
  | .boolean _ got => some ("expected a boolean, got " ++ got)
  | _ => none

/-- Reads the format of a log. -/
def readLogFormat (text : String) : Except Fault LogFormat :=
  match Text.Ascii.lower text with
  | "json" => .ok .json
  | "pretty" => .ok .pretty
  | "text" => .ok .pretty
  | got => .error (.logFormat got)

/-- Reads a variable that says yes or no. -/
def readBool (name text : String) : Except Fault Bool :=
  let word := Text.Ascii.lower (Text.trimmed text)
  if ["1", "true", "yes", "on"].contains word then .ok true
  else if ["0", "false", "no", "off"].contains word then .ok false
  else .error (.boolean name word)

/-- Reads a variable that is an integer from `lo` to `hi`. -/
def readInteger (lo hi : Int) (name text : String) : Except Fault Int :=
  (Text.Integer.read lo hi text.toList).mapError (.integer name)

/-- Reads a variable that is a signed 64-bit integer. -/
def readInt64 (name text : String) : Except Fault Int64 :=
  (Text.Integer.readInt64 text.toList).mapError (.integer name)

/-- Refuses page sizes that contradict each other. -/
def checkLimits (limits : PageLimits) : Except Fault Unit :=
  if limits.greatest < 1 then .error .greatestSize
  else if limits.standard < 1 || limits.greatest < limits.standard then
    .error (.standardSize limits.greatest)
  else .ok ()

/-- Reads the settings from variables. -/
def read (lookup : String → Option String) : Except Fault Settings := do
  let value (name standard : String) : String := (lookup name).getD standard
  let logFormat ← readLogFormat (value "LOG_FORMAT" "pretty")
  let connections := "DATABASE_MAX_CONNECTIONS"
  let maxConnections ← readInteger 0 4294967295 connections (value connections "5")
  let standard ← readInt64 "DEFAULT_PAGE_SIZE" (value "DEFAULT_PAGE_SIZE" "10")
  let greatest ← readInt64 "MAX_PAGE_SIZE" (value "MAX_PAGE_SIZE" "100")
  let seedDemoData ← readBool "SEED_DEMO_DATA" (value "SEED_DEMO_DATA" "true")
  let limits : PageLimits := ⟨standard, greatest⟩
  checkLimits limits
  .ok
    { databaseUrl := value "DATABASE_URL" "sqlite::memory:"
      maxConnections := maxConnections.toNat
      limits
      logLevel := value "LOG_LEVEL" "info"
      logFormat
      seedDemoData }

end Settings

end RecordQuery
