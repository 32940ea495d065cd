import RecordQuery.Form.Brackets
import RecordQuery.Proofs.Paths
/-!
# Writing parameters

`Form.encode` writes parameters as forms do: names and values are the bytes of their UTF-8, in which letters,
digits and `*-._` stand for themselves, a blank is a `+`, and every other byte is a `%` with two hexadecimal
digits.

* `decodeUtf8_append`: a character is read back from its bytes, whatever follows;
* `decode_encodeText`: so is a name or a value from what it is written as;
* `pairs_encode`: and so are all parameters, in their order.
-/

namespace RecordQuery.Form

/-! ## Writing -/

/-- Whether a byte stands for itself. -/
def isUnreserved (b : UInt8) : Bool :=
  (0x30 ≤ b && b ≤ 0x39) || (0x41 ≤ b && b ≤ 0x5a) || (0x61 ≤ b && b ≤ 0x7a) || b = 0x2a || b = 0x2d || b = 0x2e ||
    b = 0x5f

/-- The hexadecimal digit of a number below sixteen. -/
def hexDigit (n : UInt8) : Char :=
  Char.ofNat (if n < 10 then 0x30 + n.toNat else 0x37 + n.toNat)

/-- What a byte is written as. -/
def encodeByte (b : UInt8) : List Char :=
  if b = 0x20 then ['+']
  else if isUnreserved b then [Char.ofNat b.toNat]
  else ['%', hexDigit (b / 16), hexDigit (b % 16)]

/-- What a name or a value is written as. -/
def encodeText (s : String) : List Char :=
  (s.toList.flatMap String.utf8EncodeChar).flatMap encodeByte

/-- What a parameter is written as. -/
def encodePair (p : String × String) : List Char := encodeText p.1 ++ '=' :: encodeText p.2

/-- The query string of parameters. -/
def encode (ps : List (String × String)) : String := String.ofList (Text.join '&' (ps.map encodePair))

/-! ## Characters -/

theorem toNat_ofNat {n : Nat} (h : n < 256) : (UInt8.ofNat n).toNat = n := by
  rw [UInt8.toNat_ofNat', Nat.mod_eq_of_lt h]

theorem le_ofNat_iff {b : UInt8} {n : Nat} (h : n < 256) : b ≤ UInt8.ofNat n ↔ b.toNat ≤ n := by
  rw [UInt8.le_iff_toNat_le, toNat_ofNat h]

theorem ofNat_le_iff {b : UInt8} {n : Nat} (h : n < 256) : UInt8.ofNat n ≤ b ↔ n ≤ b.toNat := by
  rw [UInt8.le_iff_toNat_le, toNat_ofNat h]

theorem ofNat_eq_iff {b : UInt8} {n : Nat} (h : n < 256) : UInt8.ofNat n = b ↔ n = b.toNat := by
  rw [← UInt8.toNat_inj, toNat_ofNat h]

/-- What a byte announces, by its number. -/
theorem announced_ofNat {n : Nat} (h : n < 256) : announced (UInt8.ofNat n) =
    if 0xc2 ≤ n ∧ n ≤ 0xdf then some (n % 32, [(0x80, 0xbf)])
    else if n = 0xe0 then some (0, [(0xa0, 0xbf), (0x80, 0xbf)])
    else if n = 0xed then some (13, [(0x80, 0x9f), (0x80, 0xbf)])
    else if 0xe1 ≤ n ∧ n ≤ 0xef then some (n % 16, [(0x80, 0xbf), (0x80, 0xbf)])
    else if n = 0xf0 then some (0, [(0x90, 0xbf), (0x80, 0xbf), (0x80, 0xbf)])
    else if 0xf1 ≤ n ∧ n ≤ 0xf3 then some (n % 8, [(0x80, 0xbf), (0x80, 0xbf), (0x80, 0xbf)])
    else if n = 0xf4 then some (4, [(0x80, 0x8f), (0x80, 0xbf), (0x80, 0xbf)])
    else none := by
  simp only [announced, le_ofNat_iff h, ofNat_le_iff h, ofNat_eq_iff h, toNat_ofNat h, Bool.and_eq_true,
    decide_eq_true_eq]
  rfl

/-- A byte in the range that is announced is taken. -/
theorem continued_cons {bits n : Nat} (h : n < 256) {low high : UInt8} (hl : low.toNat ≤ n) (hh : n ≤ high.toNat)
    (ranges : List (UInt8 × UInt8)) (bs : List UInt8) :
    continued bits ((low, high) :: ranges) (UInt8.ofNat n :: bs) = continued (bits * 64 + n % 64) ranges bs := by
  rw [continued, if_pos, toNat_ofNat h]
  simp [le_ofNat_iff h, ofNat_le_iff h, hl, hh]

theorem decodeUtf8_announced {n bits : Nat} (h : n < 256) (hn : 0x80 ≤ n) {ranges : List (UInt8 × UInt8)}
    (ha : announced (UInt8.ofNat n) = some (bits, ranges)) (bs : List UInt8) :
    decodeUtf8 (UInt8.ofNat n :: bs) =
      (continued bits ranges bs).1 :: decodeUtf8 (continued bits ranges bs).2 := by
  have hlarge : ¬ UInt8.ofNat n < 0x80 := by
    rw [UInt8.lt_iff_toNat_lt, toNat_ofNat h]
    exact Nat.not_lt.2 hn
  rw [decodeUtf8, if_neg hlarge, ha]

/-- A byte that goes on with a character, without its mark. -/
theorem continued_tail {bits k : Nat} (h : k < 64) (ranges : List (UInt8 × UInt8)) (bs : List UInt8) :
    continued bits ((0x80, 0xbf) :: ranges) (UInt8.ofNat (k + 128) :: bs) = continued (bits * 64 + k) ranges bs := by
  rw [continued_cons (by omega) (by simp) (by simp; omega), show (k + 128) % 64 = k by omega]

/-- The first byte of three, for each range of the second one. -/
theorem decodeUtf8_three {v : Nat} (hlow : 0x800 ≤ v) (hhigh : v < 0x10000) (hvalid : v < 0xd800 ∨ 0xdfff < v)
    (bs : List UInt8) :
    decodeUtf8 (UInt8.ofNat (v / 4096 % 16 + 224) :: UInt8.ofNat (v / 64 % 64 + 128) ::
      UInt8.ofNat (v % 64 + 128) :: bs) = Char.ofNat v :: decodeUtf8 bs := by
  have ha := announced_ofNat (n := v / 4096 % 16 + 224) (by omega)
  rw [if_neg (by omega)] at ha
  split at ha
  · rw [decodeUtf8_announced (by omega) (by omega) ha, continued_cons (by omega) (by simp; omega) (by simp; omega),
      continued_tail (by omega), continued]
    simp only [show (0 * 64 + (v / 64 % 64 + 128) % 64) * 64 + v % 64 = v by omega]
  split at ha
  · rw [decodeUtf8_announced (by omega) (by omega) ha, continued_cons (by omega) (by simp) (by simp; omega),
      continued_tail (by omega), continued]
    simp only [show (13 * 64 + (v / 64 % 64 + 128) % 64) * 64 + v % 64 = v by omega]
  · rw [if_pos (by omega)] at ha
    rw [decodeUtf8_announced (by omega) (by omega) ha, continued_tail (by omega), continued_tail (by omega), continued]
    simp only [show ((v / 4096 % 16 + 224) % 16 * 64 + v / 64 % 64) * 64 + v % 64 = v by omega]

/-- The first byte of four, for each range of the second one. -/
theorem decodeUtf8_four {v : Nat} (hlow : 0x10000 ≤ v) (hhigh : v < 0x110000) (bs : List UInt8) :
    decodeUtf8 (UInt8.ofNat (v / 262144 % 8 + 240) :: UInt8.ofNat (v / 4096 % 64 + 128) ::
      UInt8.ofNat (v / 64 % 64 + 128) :: UInt8.ofNat (v % 64 + 128) :: bs) = Char.ofNat v :: decodeUtf8 bs := by
  have ha := announced_ofNat (n := v / 262144 % 8 + 240) (by omega)
  rw [if_neg (by omega), if_neg (by omega), if_neg (by omega), if_neg (by omega)] at ha
  split at ha
  · rw [decodeUtf8_announced (by omega) (by omega) ha, continued_cons (by omega) (by simp; omega) (by simp; omega),
      continued_tail (by omega), continued_tail (by omega), continued]
    simp only [show ((0 * 64 + (v / 4096 % 64 + 128) % 64) * 64 + v / 64 % 64) * 64 + v % 64 = v by omega]
  split at ha
  · rw [decodeUtf8_announced (by omega) (by omega) ha, continued_tail (by omega), continued_tail (by omega),
      continued_tail (by omega), continued]
    simp only [show (((v / 262144 % 8 + 240) % 8 * 64 + v / 4096 % 64) * 64 + v / 64 % 64) * 64 + v % 64 = v by omega]
  · rw [if_pos (by omega)] at ha
    rw [decodeUtf8_announced (by omega) (by omega) ha, continued_cons (by omega) (by simp) (by simp; omega),
      continued_tail (by omega), continued_tail (by omega), continued]
    simp only [show ((4 * 64 + (v / 4096 % 64 + 128) % 64) * 64 + v / 64 % 64) * 64 + v % 64 = v by omega]

/-- A character is read back from its bytes. -/
theorem decodeUtf8_append (c : Char) (bs : List UInt8) :
    decodeUtf8 (String.utf8EncodeChar c ++ bs) = c :: decodeUtf8 bs := by
  obtain ⟨v, hv⟩ : ∃ v, v = c.toNat := ⟨_, rfl⟩
  have hchar : Char.ofNat v = c := by rw [hv, Char.ofNat_toNat]
  have hvalid : v < 0xd800 ∨ 0xdfff < v ∧ v < 0x110000 := hv ▸ c.valid
  unfold String.utf8EncodeChar
  rw [show c.val.toNat = v from hv.symm]
  dsimp only
  split
  · have hsmall : UInt8.ofNat v < 0x80 := by
      rw [UInt8.lt_iff_toNat_lt, toNat_ofNat (by omega)]
      exact Nat.lt_succ_of_le ‹v ≤ 127›
    rw [List.singleton_append, decodeUtf8, if_pos hsmall, toNat_ofNat (by omega), hchar]
  split
  · have ha := announced_ofNat (n := v / 64 % 32 + 192) (by omega)
    rw [if_pos (by omega)] at ha
    rw [List.cons_append, List.singleton_append, decodeUtf8_announced (by omega) (by omega) ha,
      continued_tail (by omega), continued]
    simp only [show (v / 64 % 32 + 192) % 32 * 64 + v % 64 = v by omega, hchar]
  split
  · rw [← hchar]
    exact decodeUtf8_three (by omega) (by omega) (by omega) bs
  · rw [← hchar]
    exact decodeUtf8_four (by omega) (by omega) bs

theorem decodeUtf8_encode (cs : List Char) : decodeUtf8 (cs.flatMap String.utf8EncodeChar) = cs := by
  induction cs with
  | nil => rw [List.flatMap_nil, decodeUtf8]
  | cons c cs ih => rw [List.flatMap_cons, decodeUtf8_append, ih]

/-! ## Bytes -/

/-- The bytes of what is written, before any `%` is read. -/
def rawBytes (cs : List Char) : List UInt8 :=
  cs.flatMap fun c => if c = '+' then [0x20] else String.utf8EncodeChar c

theorem rawBytes_append (cs ds : List Char) : rawBytes (cs ++ ds) = rawBytes cs ++ rawBytes ds :=
  List.flatMap_append

/-- What holds of all bytes by their numbers holds of all bytes. -/
theorem forall_byte {p : UInt8 → Prop} (h : ∀ n : Fin 256, p (UInt8.ofNat n)) (b : UInt8) : p b := by
  have hb := h ⟨b.toNat, b.toNat_lt⟩
  rwa [UInt8.ofNat_toNat] at hb

/-- The byte of a hexadecimal digit. -/
def hexByte (n : UInt8) : UInt8 := if n < 10 then 0x30 + n else 0x37 + n

/-- The two digits of a byte are read back. -/
theorem rawBytes_hex : ∀ b : UInt8,
    rawBytes ['%', hexDigit (b / 16), hexDigit (b % 16)] = [0x25, hexByte (b / 16), hexByte (b % 16)] ∧
      hexValue? (hexByte (b / 16)) = some (b / 16) ∧ hexValue? (hexByte (b % 16)) = some (b % 16) ∧
      b / 16 * 16 + b % 16 = b :=
  forall_byte (by decide +kernel)

/-- A byte that stands for itself is one. -/
theorem rawBytes_unreserved : ∀ b : UInt8, isUnreserved b → rawBytes [Char.ofNat b.toNat] = [b] ∧ b ≠ 0x25 :=
  forall_byte (by decide +kernel)

/-- Nothing that a byte is written as separates parameters, or their names and values. -/
theorem ne_of_mem_encodeByte (b : UInt8) : ∀ c ∈ encodeByte b, c ≠ '&' ∧ c ≠ '=' ∧ c ≠ '?' := by
  -- checked along what is written, since a bounded statement can also be decided over all characters
  have hall : ∀ b : UInt8, (encodeByte b).all fun c => c ≠ '&' ∧ c ≠ '=' ∧ c ≠ '?' :=
    forall_byte (by decide +kernel)
  simpa using hall b

theorem percentDecode_cons_of_ne {b : UInt8} (h : b ≠ 0x25) (bs : List UInt8) :
    percentDecode (b :: bs) = b :: percentDecode bs := by
  rw [percentDecode.eq_def]
  simp [h]

theorem percentDecode_hex {high low h l : UInt8} (hh : hexValue? high = some h) (hl : hexValue? low = some l)
    (bs : List UInt8) : percentDecode (0x25 :: high :: low :: bs) = (h * 16 + l) :: percentDecode bs := by
  rw [percentDecode]
  simp [hh, hl]

/-- A byte is read back from what it is written as. -/
theorem percentDecode_encodeByte (b : UInt8) (bs : List UInt8) :
    percentDecode (rawBytes (encodeByte b) ++ bs) = b :: percentDecode bs := by
  rw [encodeByte]
  split
  · next hb =>
    rw [hb]
    exact percentDecode_cons_of_ne (by decide) bs
  split
  · next hb =>
    obtain ⟨hbytes, hne⟩ := rawBytes_unreserved b hb
    rw [hbytes]
    exact percentDecode_cons_of_ne hne bs
  · obtain ⟨hbytes, hhigh, hlow, hboth⟩ := rawBytes_hex b
    rw [hbytes, List.cons_append, List.cons_append, List.singleton_append, percentDecode_hex hhigh hlow, hboth]

theorem percentDecode_encode (bs : List UInt8) : percentDecode (rawBytes (bs.flatMap encodeByte)) = bs := by
  induction bs with
  | nil => rfl
  | cons b bs ih => rw [List.flatMap_cons, rawBytes_append, percentDecode_encodeByte, ih]

/-! ## Parameters -/

/-- A name or a value is read back. -/
theorem decode_encodeText (s : String) : decode (encodeText s) = s := by
  have h : decode (encodeText s) = String.ofList (decodeUtf8 (percentDecode (rawBytes (encodeText s)))) := rfl
  rw [h, encodeText, percentDecode_encode, decodeUtf8_encode, String.ofList_toList]

theorem ne_of_mem_encodeText {s : String} {c : Char} (h : c ∈ encodeText s) : c ≠ '&' ∧ c ≠ '=' ∧ c ≠ '?' := by
  obtain ⟨b, -, hc⟩ := List.mem_flatMap.1 h
  exact ne_of_mem_encodeByte b c hc

theorem ne_of_mem_encodePair {p : String × String} {c : Char} (h : c ∈ encodePair p) : c ≠ '&' ∧ c ≠ '?' := by
  rcases List.mem_append.1 h with h | h
  · exact ⟨(ne_of_mem_encodeText h).1, (ne_of_mem_encodeText h).2.2⟩
  · rcases List.mem_cons.1 h with rfl | h
    · exact ⟨by decide, by decide⟩
    · exact ⟨(ne_of_mem_encodeText h).1, (ne_of_mem_encodeText h).2.2⟩

/-- A parameter is read back. -/
theorem pair_encodePair (p : String × String) : pair (encodePair p) = p := by
  have hname : '=' ∉ encodeText p.1 := fun h => (ne_of_mem_encodeText h).2.1 rfl
  rw [pair, encodePair, Text.cut?_append_cons hname]
  simp only [decode_encodeText]

/-- Pieces that are put together and hold no separator are cut apart again. -/
theorem split_join {sep : Char} {pieces : List (List Char)} (hne : pieces ≠ []) (h : ∀ piece ∈ pieces, sep ∉ piece) :
    Text.split sep (Text.join sep pieces) = pieces := by
  induction pieces with
  | nil => exact absurd rfl hne
  | cons piece pieces ih =>
    obtain ⟨hpiece, hpieces⟩ := List.forall_mem_cons.1 h
    cases pieces with
    | nil => exact Text.split_of_not_mem hpiece
    | cons other pieces =>
      rw [Text.join, Text.split_append_cons, Text.split_of_not_mem hpiece, ih (by simp) hpieces,
        List.singleton_append]
      simp

theorem eq_or_mem_of_mem_join {sep c : Char} {pieces : List (List Char)} (h : c ∈ Text.join sep pieces) :
    c = sep ∨ ∃ piece ∈ pieces, c ∈ piece := by
  induction pieces with
  | nil => cases h
  | cons piece pieces ih =>
    by_cases hp : pieces = []
    · subst hp
      exact .inr ⟨piece, List.mem_cons_self, h⟩
    · rw [Text.join_cons_of_ne_nil hp, List.mem_append, List.mem_cons] at h
      rcases h with h | h | h
      · exact .inr ⟨piece, List.mem_cons_self, h⟩
      · exact .inl h
      · exact (ih h).imp id fun ⟨other, ho, hc⟩ => ⟨other, List.mem_cons_of_mem _ ho, hc⟩

theorem withoutMark_eq {cs : List Char} (h : '?' ∉ cs) : withoutMark cs = cs := by
  unfold withoutMark
  split
  · simp at h
  · rfl

/-- All parameters are read back, in their order. -/
theorem pairs_encode (ps : List (String × String)) : pairs (withoutMark (encode ps).toList) = ps := by
  have hmark : '?' ∉ (encode ps).toList := by
    rw [encode, String.toList_ofList]
    intro h
    rcases eq_or_mem_of_mem_join h with h | ⟨piece, hp, h⟩
    · exact absurd h (by decide)
    · obtain ⟨p, -, rfl⟩ := List.mem_map.1 hp
      exact (ne_of_mem_encodePair h).2 rfl
  rw [withoutMark_eq hmark, pairs, encode, String.toList_ofList]
  by_cases hps : ps = []
  · subst hps
    rfl
  · have hpieces : ∀ piece ∈ ps.map encodePair, '&' ∉ piece ∧ piece ≠ [] := by
      rintro piece hp
      obtain ⟨p, -, rfl⟩ := List.mem_map.1 hp
      exact ⟨fun h => (ne_of_mem_encodePair h).1 rfl, by simp [encodePair]⟩
    have hkept : (ps.map encodePair).filter (!·.isEmpty) = ps.map encodePair :=
      List.filter_eq_self.2 fun piece hp => by simpa using (hpieces piece hp).2
    rw [split_join (by simpa using hps) fun piece hp => (hpieces piece hp).1, hkept, List.map_map]
    simp [Function.comp_def, pair_encodePair]

end RecordQuery.Form
