/-!
# Quoted text

`Quoted.write` shows a text in double quotes. A quote, a backslash and what cannot be seen are escaped, so
that the text can be told from what stands around it.
-/

namespace RecordQuery.Text.Quoted

/-- The ranges of characters that are not seen by themselves: control characters, marks that combine with
others, and characters for private use. -/
def unseenRanges : List (Nat × Nat) :=
  [(0x00, 0x1f), (0x7f, 0x9f), (0xad, 0xad), (0x300, 0x36f), (0x200b, 0x200f), (0x2028, 0x202e),
    (0x2060, 0x206f), (0x20d0, 0x20f0), (0x3000, 0x3000), (0xe000, 0xf8ff), (0xfe00, 0xfe0f),
    (0xfe20, 0xfe2f), (0xfeff, 0xfeff), (0xfff0, 0xfffb), (0xe0000, 0x10ffff)]

/-- Whether a character is not seen by itself. -/
def isUnseen (c : Char) : Bool :=
  unseenRanges.any fun (low, high) => low ≤ c.toNat && c.toNat ≤ high

/-- A character between quotes. -/
def escape (c : Char) : List Char :=
  match c with
  | '"' => ['\\', '"']
  | '\\' => ['\\', '\\']
  | '\n' => ['\\', 'n']
  | '\r' => ['\\', 'r']
  | '\t' => ['\\', 't']
  | '\x00' => ['\\', '0']
  | c =>
    if isUnseen c then '\\' :: 'u' :: '\x7b' :: Nat.toDigits 16 c.toNat ++ ['\x7d'] else [c]

/-- A text in quotes. -/
def write (s : String) : String :=
  "\"" ++ String.ofList (s.toList.flatMap escape) ++ "\""

end RecordQuery.Text.Quoted
