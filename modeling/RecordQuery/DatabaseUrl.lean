import RecordQuery.Form.Encoding
import RecordQuery.Text.Quoted
/-!
# Database URLs

A URL names a database behind `sqlite:` and may have parameters behind a question mark. The name is
percent-encoded, the parameters are those of a query string, and what they may say is fixed.
-/

namespace RecordQuery

/-- What is wrong with a URL. -/
inductive DatabaseUrl.Fault where
  /-- The name is no UTF-8 from a byte on. Nothing can be said of how many bytes are wrong if the name ends
  within a character. -/
  | encoding (start : Nat) (length : Option Nat)
  | parameter (name : String)
  | value (parameter value : String)
  deriving DecidableEq

/-- The name of a database, and how it is opened. -/
structure DatabaseUrl where
  name : String
  parameters : List (String × String)
  deriving DecidableEq

namespace DatabaseUrl

/-- The wording of a fault. -/
def Fault.message : Fault → String
  | .encoding start (some length) =>
    "invalid utf-8 sequence of " ++ toString length ++ " bytes from index " ++ toString start
  | .encoding start none => "incomplete utf-8 byte sequence from index " ++ toString start
  | .parameter name => "unknown query parameter `" ++ name ++ "` while parsing connection URL"
  | .value name got =>
    "unknown value " ++ Text.Quoted.write got ++ " for `" ++ name ++ "`"

/-- A text without a beginning, however often it stands there; `n` bounds the number. -/
def without (beginning : List Char) : Nat → List Char → List Char
  | 0, cs => cs
  | n + 1, cs =>
    if beginning.isPrefixOf cs then without beginning n (cs.drop beginning.length) else cs

/-- The first bytes that are no UTF-8: where they start, and how many they are unless the end cuts them
off. `n` bounds the number of characters and `start` counts the bytes before. -/
def malformed? : Nat → Nat → List UInt8 → Option (Nat × Option Nat)
  | 0, _, _ => none
  | _, _, [] => none
  | n + 1, start, b :: bs =>
    if b < 0x80 then malformed? n (start + 1) bs
    else
      match Form.announced b with
      | none => some (start, some 1)
      | some (_, ranges) =>
        let tail := bs.take ranges.length
        let good := (tail.zip ranges).takeWhile fun (b, low, high) => low ≤ b && b ≤ high
        if good.length = ranges.length then
          malformed? n (start + 1 + ranges.length) (bs.drop ranges.length)
        else if good.length = tail.length then some (start, none)
        else some (start, some (good.length + 1))

/-- The name that is percent-encoded. -/
def decodeName (cs : List Char) : Except Fault String :=
  let bytes := Form.percentDecode (cs.flatMap String.utf8EncodeChar)
  match malformed? bytes.length 0 bytes with
  | some (start, length) => .error (.encoding start length)
  | none => .ok (String.ofList (Form.decodeUtf8 bytes))

/-- The values of a parameter, if only some are known. -/
def values? (parameter : String) : Option (Option (List String)) :=
  match parameter with
  | "mode" => some (some ["ro", "rw", "rwc", "memory"])
  | "cache" => some (some ["private", "shared"])
  | "immutable" => some (some ["true", "1", "false", "0"])
  | "vfs" => some none
  | _ => none

/-- Refuses an unknown parameter or value. -/
def requireKnown (p : String × String) : Except Fault Unit :=
  match values? p.1 with
  | none => .error (.parameter p.1)
  | some none => .ok ()
  | some (some values) => if values.contains p.2 then .ok () else .error (.value p.1 p.2)

/-- Reads a URL. -/
def read (url : String) : Except Fault DatabaseUrl := do
  let cs := url.toList
  let cs := without "sqlite://".toList cs.length cs
  let cs := without "sqlite:".toList cs.length cs
  let (base, query) := (Text.cut? '?' cs).getD (cs, [])
  let name ← decodeName base
  let parameters := Form.pairs query
  parameters.forM requireKnown
  .ok ⟨name, parameters⟩

end DatabaseUrl

end RecordQuery
