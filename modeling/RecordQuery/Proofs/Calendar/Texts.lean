import RecordQuery.Calendar.Reader
import RecordQuery.Proofs.Decimal.Layout
/-!
# Moments as text

A moment is read back from its stored text without what is finer than a millisecond (`Instant.read?_text`), which the
text does not tell either (`Instant.text_truncated`). The years that carry a sign are not read
(`Instant.read?_text_of_sign`).
-/

namespace RecordQuery.Instant

open Text

variable {width n : Nat} {c : Char} {t : Instant}

/-! ## Fields -/

theorem isDigit_of_mem_padded (h : c ∈ padded width n) : c.isDigit :=
  (List.mem_append.1 h).elim isDigit_of_mem_zeros Layout.isDigit_of_mem_toDigits

theorem length_padded (hwidth : 0 < width) (h : n < 10 ^ width) : (padded width n).length = width := by
  have hle := (Nat.length_toDigits_le_iff (b := 10) (by decide) hwidth).2 h
  rw [padded, List.length_append, List.length_replicate]
  omega

theorem digitsValue_padded (width n : Nat) : digitsValue (padded width n) = n := by
  rw [padded, digitsValue_zeros_append, digitsValue_toDigits]

/-- A number is read back from its width. -/
theorem fixed?_padded (hwidth : 0 < width) (h : n < 10 ^ width) (rest : List Char) :
    fixed? width (padded width n ++ rest) = some (n, rest) := by
  have hlength := length_padded hwidth h
  have hdigits : (padded width n).all Char.isDigit = true :=
    List.all_eq_true.2 fun _ hc => isDigit_of_mem_padded hc
  rw [fixed?, List.take_left' hlength, List.drop_left' hlength, hlength, hdigits, digitsValue_padded]
  simp

theorem char?_cons (c : Char) (rest : List Char) : char? c (c :: rest) = some rest := if_pos rfl

/-- Three decimals of a second are read as nanoseconds. -/
theorem fraction?_padded (h : n < 1000) : fraction? ('.' :: (padded 3 n ++ ['Z'])) = some (n * 1000000, ['Z']) := by
  have hlength : (padded 3 n).length = 3 := length_padded (by decide) h
  have hspan : (padded 3 n ++ ['Z']).span Char.isDigit = (padded 3 n, ['Z']) :=
    Literal.span_digits (fun _ hc => isDigit_of_mem_padded hc) (by simp [Literal.Stops])
  have hkept : (padded 3 n).take 9 = padded 3 n := List.take_of_length_le (by omega)
  have hempty : (padded 3 n).isEmpty = false := by
    rw [List.isEmpty_eq_false_iff_exists_mem]
    exact List.exists_mem_of_length_pos (by omega)
  rw [fraction?, hspan]
  dsimp only
  rw [hkept, hempty, digitsValue_padded, hlength]
  rfl

/-! ## Moments -/

theorem date?_fields (d : Date) (hlow : 0 ≤ d.year) (hhigh : d.year ≤ 9999) (rest : List Char) :
    date? (yearText d.year ++ '-' :: (padded 2 d.month ++ '-' :: (padded 2 d.day ++ rest))) = some (d, rest) := by
  have hyear : yearText d.year = padded 4 d.year.toNat := by rw [yearText, if_pos (by simp [hlow, hhigh])]
  have hday : d.day < 100 := Nat.lt_of_le_of_lt (d.day_le.trans (monthLength_le _ _)) (by decide)
  have hmonth := d.month_le
  have hdate : Date.of? (d.year.toNat : Int) d.month d.day = some d := by
    rw [Int.toNat_of_nonneg hlow, Date.of?, dif_pos ⟨⟨d.month_pos, d.month_le⟩, d.day_pos, d.day_le⟩]
  rw [date?, hyear, fixed?_padded (by decide) (by omega)]
  simp only [Option.bind_eq_bind, Option.bind_some, char?_cons]
  rw [fixed?_padded (by decide) (by omega)]
  simp only [Option.bind_some, char?_cons]
  rw [fixed?_padded (by decide) (by omega)]
  simp only [Option.bind_some, hdate]

theorem ofLocal_zero (t : Instant) : t.ofLocal 0 = t := by
  obtain ⟨date, hour, minute, second, nano, hhour, hminute, hsecond, hnano⟩ := t
  have hminutes : Int.ofNat (hour * 60 + minute) - 0 = ((hour * 60 + minute : Nat) : Int) := by simp
  simp only [ofLocal, hminutes, mk.injEq]
  rw [if_neg (by omega), if_neg (by omega)]
  exact ⟨rfl, by omega, by omega, trivial, trivial⟩

/-- What follows the date of a stored text. -/
def clockText (t : Instant) : List Char :=
  'T' :: (padded 2 t.hour ++ ':' :: (padded 2 t.minute ++ ':' :: (padded 2 t.second ++
    '.' :: (padded 3 (t.nano / 1000000) ++ ['Z']))))

theorem toList_text (t : Instant) : t.text.toList =
    yearText t.date.year ++ '-' :: (padded 2 t.date.month ++ '-' :: (padded 2 t.date.day ++ t.clockText)) := by
  rw [text, String.toList_ofList, secondsText, clockText]
  simp only [List.append_assoc, List.cons_append]

/-- The mark of UTC ends the text. -/
theorem mark_mem_text (t : Instant) : 'Z' ∈ t.text.toList := by
  rw [text, String.toList_ofList]
  exact List.mem_append_right _ (List.mem_singleton_self _)

theorem zonedTime?_clockText (t : Instant) : zonedTime? t.date t.clockText = some t.truncated := by
  have hhour := t.hour_lt
  have hminute := t.minute_lt
  have hsecond := t.second_le
  have hnano := t.nano_lt
  have hclock : of? t.date t.hour t.minute t.second (t.nano / 1000000 * 1000000) = some t.truncated :=
    dif_pos ⟨⟨hhour, hminute⟩, hsecond, by omega⟩
  rw [clockText, zonedTime?, if_pos (by decide), fixed?_padded (by decide) (by omega)]
  simp only [Option.bind_eq_bind, Option.bind_some, char?_cons]
  rw [fixed?_padded (by decide) (by omega)]
  simp only [Option.bind_some, char?_cons]
  rw [fixed?_padded (by decide) (by omega)]
  simp only [Option.bind_some]
  rw [fraction?_padded (by omega)]
  simp only [Option.bind_some, offset?, hclock, ofLocal_zero]

/-- A moment is read back from its text, down to the millisecond. -/
theorem read?_text (hlow : 0 ≤ t.date.year) (hhigh : t.date.year ≤ 9999) : read? t.text = some t.truncated := by
  rw [read?, toList_text, date?_fields t.date hlow hhigh]
  simp only [Option.bind_eq_bind, Option.bind_some, zonedTime?_clockText, Option.orElse_eq_orElse, Option.orElse_some]

/-- The text of a moment does not tell what is finer than a millisecond. -/
theorem text_truncated (t : Instant) : t.truncated.text = t.text := by
  have hnano : t.truncated.nano / 1000000 = t.nano / 1000000 := by
    change t.nano / 1000000 * 1000000 / 1000000 = t.nano / 1000000
    omega
  rw [text, text, hnano]
  rfl

/-- A text that begins with a sign is no date. -/
theorem read?_text_of_sign (h : ¬ (0 ≤ t.date.year ∧ t.date.year ≤ 9999)) : read? t.text = none := by
  have hyear : yearText t.date.year =
      (if t.date.year < 0 then '-' else '+') :: padded 4 t.date.year.natAbs := by
    rw [yearText, if_neg (by simpa using h)]
  have hfixed : ∀ sign : Char, sign.isDigit = false → ∀ rest, fixed? 4 (sign :: rest) = none := by
    intro sign hsign rest
    simp [fixed?, hsign]
  rw [read?, toList_text, hyear, List.cons_append, date?, hfixed _ (by split <;> decide)]
  rfl

end RecordQuery.Instant
