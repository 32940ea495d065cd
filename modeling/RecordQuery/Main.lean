import RecordQuery.Application
import Std.Time.DateTime.Timestamp
/-!
# The program

Runs the request of the command line on the demonstration shop and prints the envelope, or reports on
standard error what keeps it from running.
-/

open RecordQuery

/-- The moment that the clock shows. -/
def readClock : IO Instant := do
  let t ← Std.Time.Timestamp.now
  return Instant.ofEpoch t.val.second.val.toNat t.val.nano.val.toNat

/-- The settings' variables that are set. -/
def readVariables : IO (List (String × String)) := do
  let names :=
    ["DATABASE_URL", "DATABASE_MAX_CONNECTIONS", "DEFAULT_PAGE_SIZE", "MAX_PAGE_SIZE", "LOG_LEVEL",
      "LOG_FORMAT", "SEED_DEMO_DATA"]
  let found ← names.mapM fun name => do
    let value ← IO.getEnv name
    return value.map fun value => (name, value)
  return found.filterMap id

def main (words : List String) : IO UInt32 := do
  let now ← readClock
  let settings ← readVariables
  match Application.run now (List.lookup · settings) words with
  | .ok envelope =>
    IO.println (envelope.pretty 0)
    return 0
  | .error failure =>
    IO.eprint failure.report
    return 1
