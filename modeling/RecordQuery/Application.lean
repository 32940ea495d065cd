import RecordQuery.CommandLine
import RecordQuery.DatabaseUrl
import RecordQuery.Demo.Seed
import RecordQuery.Gateway.Envelope
import RecordQuery.Settings
import RecordQuery.Store.InDatabase
/-!
# The application

One run of the program: settings and the command line in, an envelope out. It runs one request on a
new database of the demonstration shop. What keeps it from running at all is a `Failure`.
-/

namespace RecordQuery.Application

/-- What keeps the application from running. -/
inductive Failure where
  | settings (fault : Settings.Fault)
  | unknownEntity (name : String)
  | databaseUrl (url : String) (fault : DatabaseUrl.Fault)
  | unready (e : Error)
  deriving DecidableEq

namespace Failure

/-- The wording of a failure. -/
def message : Failure → String
  | .settings fault => fault.message
  | .unknownEntity name => "Unknown entity: " ++ name
  | .databaseUrl url _ => "Invalid database URL: " ++ url
  | .unready e => e.message

/-- What lies behind a failure, step by step. -/
def causes : Failure → List String
  | .settings fault => fault.cause?.toList
  | .databaseUrl _ fault => ["error with configuration: " ++ fault.message, fault.message]
  | _ => []

/-- A text whose first line stands behind a mark and whose other lines are set in as far. -/
def inset (mark text : String) : String :=
  let blanks := String.ofList (List.replicate mark.length ' ')
  mark ++ ("\n" ++ blanks).intercalate (Text.pieces '\n' text)

/-- The list of causes; several ones are numbered. -/
def causeList : List String → String
  | [] => ""
  | [cause] => "\nCaused by:\n" ++ inset "    " cause ++ "\n"
  | causes =>
    "\nCaused by:\n" ++ String.join (causes.zipIdx.map fun (cause, n) =>
      inset ("    " ++ toString n ++ ": ") cause ++ "\n")

/-- The report of a failure. -/
def report (f : Failure) : String :=
  "Error: " ++ f.message ++ "\n" ++ causeList f.causes

end Failure

/-- The key that a text stands for. -/
def key (text : String) : Scalar :=
  match Text.Integer.int64? text.toList with
  | some i => .int i
  | none => .text text

/-- Runs the request of a command line through a gateway. -/
def respond (g : Gateway Database Demo.Shop) (now : Instant) (c : CommandLine) (db : Database) :
    Json :=
  let request := Gateway.accept (Request.ofQueryString c.query)
  match c.id with
  | some id =>
    Envelope.ofRecord now ((do g.find (key id) (← request) : Gateway.Step Database Record).run db).1
  | none =>
    Envelope.ofListing now ((do g.list (← request) : Gateway.Step Database Listing).run db).1

/-- Runs the program. -/
def run (now : Instant) (lookup : String → Option String) (words : List String) :
    Except Failure Json := do
  let settings ← (Settings.read lookup).mapError .settings
  let c := CommandLine.read words
  let name := c.entity.getD "products"
  match Demo.Shop.named? name with
  | none => .error (.unknownEntity name)
  | some kind =>
    let _ ← (DatabaseUrl.read settings.databaseUrl).mapError (.databaseUrl settings.databaseUrl)
    let g ← (Gateway.ofSchema Demo.Shop.catalog (Demo.Shop.catalog kind)
      (Database.store Demo.Shop.catalog) settings.limits).mapError .unready
    .ok (respond g now c (Demo.shop now settings.seedDemoData))

end RecordQuery.Application
