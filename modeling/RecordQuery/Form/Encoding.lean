import RecordQuery.Text.Split
/-!
# Form encoding

`Form.pairs` reads the parameters of a query string: they are cut at `&`, names and values at the
first `=`, a `+` is a blank, and `%` with two hexadecimal digits is a byte. The bytes are read as
UTF-8, where every longest start of a character that is not continued properly becomes one
replacement character (`decodeUtf8`).
-/

namespace RecordQuery.Form

/-- A hexadecimal digit's value. -/
def hexValue? (b : UInt8) : Option UInt8 :=
  if 0x30 ≤ b && b ≤ 0x39 then some (b - 0x30)
  else if 0x41 ≤ b && b ≤ 0x46 then some (b - 0x41 + 10)
  else if 0x61 ≤ b && b ≤ 0x66 then some (b - 0x61 + 10)
  else none

/-- Replaces `%` and two hexadecimal digits by the byte they name; any other `%` stands for itself. -/
def percentDecode : List UInt8 → List UInt8
  | [] => []
  | b :: bs =>
    if b = 0x25 then
      match bs with
      | high :: low :: rest =>
        match hexValue? high, hexValue? low with
        | some h, some l => (h * 16 + l) :: percentDecode rest
        | _, _ => b :: percentDecode (high :: low :: rest)
      | rest => b :: percentDecode rest
    else b :: percentDecode bs

/-- The character of malformed bytes. -/
def replacement : Char := '\ufffd'

/-- What a first byte beyond ASCII announces: the bits of the character that it holds, and the ranges
of the bytes to follow. The ranges leave out overlong forms, surrogates and what lies beyond the last
character. -/
def announced (b : UInt8) : Option (Nat × List (UInt8 × UInt8)) :=
  let tail : UInt8 × UInt8 := (0x80, 0xbf)
  if 0xc2 ≤ b && b ≤ 0xdf then some (b.toNat % 32, [tail])
  else if b = 0xe0 then some (0, [(0xa0, 0xbf), tail])
  else if b = 0xed then some (13, [(0x80, 0x9f), tail])
  else if 0xe1 ≤ b && b ≤ 0xef then some (b.toNat % 16, [tail, tail])
  else if b = 0xf0 then some (0, [(0x90, 0xbf), tail, tail])
  else if 0xf1 ≤ b && b ≤ 0xf3 then some (b.toNat % 8, [tail, tail, tail])
  else if b = 0xf4 then some (4, [(0x80, 0x8f), tail, tail])
  else none

/-- Takes the bytes that follow a first one. The first that is out of its range ends the character as
malformed and is read anew. -/
def continued (bits : Nat) : List (UInt8 × UInt8) → List UInt8 → Char × List UInt8
  | [], bs => (Char.ofNat bits, bs)
  | _ :: _, [] => (replacement, [])
  | (low, high) :: ranges, b :: bs =>
    if low ≤ b && b ≤ high then continued (bits * 64 + b.toNat % 64) ranges bs
    else (replacement, b :: bs)

theorem length_continued_le (bits : Nat) (ranges : List (UInt8 × UInt8)) (bs : List UInt8) :
    (continued bits ranges bs).2.length ≤ bs.length := by
  induction bs generalizing bits ranges with
  | nil => cases ranges <;> simp [continued]
  | cons b bs ih =>
    cases ranges with
    | nil => simp [continued]
    | cons r ranges =>
      simp only [continued]
      split
      · exact Nat.le_succ_of_le (ih _ _)
      · exact Nat.le_refl _

/-- Reads bytes as UTF-8. -/
def decodeUtf8 (bs : List UInt8) : List Char :=
  match bs with
  | [] => []
  | b :: bs =>
    if b < 0x80 then Char.ofNat b.toNat :: decodeUtf8 bs
    else match announced b with
      | none => replacement :: decodeUtf8 bs
      | some (bits, ranges) =>
        let next := continued bits ranges bs
        next.1 :: decodeUtf8 next.2
termination_by bs.length
decreasing_by
  · simp
  · simp
  · exact Nat.lt_succ_of_le (length_continued_le _ _ _)

/-- Reads a name or a value. -/
def decode (cs : List Char) : String :=
  let bytes := cs.flatMap fun c => if c = '+' then [0x20] else String.utf8EncodeChar c
  String.ofList (decodeUtf8 (percentDecode bytes))

/-- Reads a parameter: without a `=` its value is empty. -/
def pair (cs : List Char) : String × String :=
  match Text.cut? '=' cs with
  | some (name, value) => (decode name, decode value)
  | none => (decode cs, "")

/-- The names and values of a query string, in order. -/
def pairs (query : List Char) : List (String × String) :=
  ((Text.split '&' query).filter (!·.isEmpty)).map pair

end RecordQuery.Form
