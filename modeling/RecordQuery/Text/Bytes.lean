/-!
# Text as bytes

Bytes are read as characters even where they encode no text: a byte that begins a character takes the
bytes that continue it, however many there are, and every other byte is a character of its own
(`Bytes.letters`). `Bytes.character` is what such a stretch of bytes stands for.
-/

namespace RecordQuery.Text.Bytes

/-- Whether a byte continues a character that was begun before it. -/
def continues (b : UInt8) : Bool := 0x80 ≤ b && b < 0xc0

/-- Whether a byte begins a character that is continued. -/
def begins (b : UInt8) : Bool := 0xc0 ≤ b

/-- The bytes at the front that continue a character, and those behind them. -/
def continuation : List UInt8 → List UInt8 × List UInt8
  | [] => ([], [])
  | b :: bs =>
    if continues b then
      let (front, back) := continuation bs
      (b :: front, back)
    else ([], b :: bs)

theorem length_continuation_le (bs : List UInt8) : (continuation bs).2.length ≤ bs.length := by
  induction bs with
  | nil => simp [continuation]
  | cons b bs ih =>
    unfold continuation
    split
    · exact Nat.le_succ_of_le ih
    · exact Nat.le_refl _

/-- Nothing is lost between the continuation and what follows it. -/
theorem continuation_append (bs : List UInt8) :
    (continuation bs).1 ++ (continuation bs).2 = bs := by
  induction bs with
  | nil => rfl
  | cons b bs ih =>
    unfold continuation
    split
    · exact congrArg (b :: ·) ih
    · rfl

/-- The bytes of each character. -/
def letters : List UInt8 → List (List UInt8)
  | [] => []
  | b :: bs =>
    if begins b then (b :: (continuation bs).1) :: letters (continuation bs).2
    else [b] :: letters bs
termination_by bs => bs.length
decreasing_by
  · exact Nat.lt_succ_of_le (length_continuation_le bs)
  · exact Nat.lt_succ_self _

/-- The characters make up the bytes. -/
theorem flatten_letters (bs : List UInt8) : (letters bs).flatten = bs := by
  induction bs using letters.induct with
  | case1 => simp [letters]
  | case2 b bs h ih =>
    rw [letters, if_pos h, List.flatten_cons, ih]
    exact congrArg (b :: ·) (continuation_append bs)
  | case3 b bs h ih => simp [letters, h, ih]

/-- The bits of a beginning byte that belong to the code of its character. -/
def codeBits (b : UInt8) : Nat :=
  let n := b.toNat
  if n < 0xe0 then n % 32
  else if n < 0xf0 then n % 16
  else if n < 0xf8 then n % 8
  else if n < 0xfc then n % 4
  else n % 2

/-- The character that stands for bytes that are none. -/
def replacement : Char := '\ufffd'

/-- The character that the bytes of one stand for. -/
def character : List UInt8 → Char
  | [] => replacement
  | b :: bs =>
    if begins b then
      let code := bs.foldl (fun n d => n * 64 + d.toNat % 64) (codeBits b)
      if code < 0x80 || code = 0xfffe || code = 0xffff then replacement
      else if code.isValidChar then Char.ofNat code
      else replacement
    else Char.ofNat b.toNat

/-- The bytes before the first null byte. -/
def beforeNull (bs : List UInt8) : List UInt8 := bs.takeWhile (· != 0)

/-- The characters that bytes stand for. -/
def characters (bs : List UInt8) : List Char := (letters bs).map character

/-- A byte with the case of an ASCII letter lowered. -/
def lower (b : UInt8) : UInt8 := if 0x41 ≤ b && b ≤ 0x5a then b + 0x20 else b

/-- A byte with the case of an ASCII letter raised. -/
def upper (b : UInt8) : UInt8 := if 0x61 ≤ b && b ≤ 0x7a then b - 0x20 else b

/-- The bytes of the character of a code. Codes of halves of pairs are encoded like others. -/
def ofCode (n : Nat) : List UInt8 :=
  let tail (shift : Nat) : UInt8 := UInt8.ofNat (0x80 + n / shift % 64)
  if n < 0x80 then [UInt8.ofNat n]
  else if n < 0x800 then [UInt8.ofNat (0xc0 + n / 64), tail 1]
  else if n < 0x10000 then [UInt8.ofNat (0xe0 + n / 4096), tail 64, tail 1]
  else [UInt8.ofNat (0xf0 + n / 262144), tail 4096, tail 64, tail 1]

/-- Bytes without those of characters of a set at their front; `n` bounds the steps. -/
def stripped (set : List (List UInt8)) : Nat → List UInt8 → List UInt8
  | 0, bs => bs
  | n + 1, bs =>
    match set.find? (·.isPrefixOf bs) with
    | some letter => stripped set n (bs.drop letter.length)
    | none => bs

/-- Bytes without those of characters of a set at their front. -/
def stripFront (set : List (List UInt8)) (bs : List UInt8) : List UInt8 :=
  stripped set bs.length bs

/-- Bytes without those of characters of a set at their end. -/
def stripBack (set : List (List UInt8)) (bs : List UInt8) : List UInt8 :=
  (stripFront (set.map List.reverse) bs.reverse).reverse

/-- Bytes in which a part that is not empty is replaced wherever it occurs; `n` bounds the steps. -/
def replaced (part other : List UInt8) : Nat → List UInt8 → List UInt8
  | 0, bs => bs
  | _, [] => []
  | n + 1, b :: bs =>
    if part.isPrefixOf (b :: bs) then other ++ replaced part other n ((b :: bs).drop part.length)
    else b :: replaced part other n bs

/-- The number of the place where a part occurs first, zero if there is none. `n` places were passed;
those of text are its characters. -/
def place (isText : Bool) (part : List UInt8) : Nat → List UInt8 → Nat
  | _, [] => 0
  | n, b :: bs =>
    if isText && n != 0 && continues b then place isText part n bs
    else if part.isPrefixOf (b :: bs) then n + 1
    else place isText part (n + 1) bs

end RecordQuery.Text.Bytes
