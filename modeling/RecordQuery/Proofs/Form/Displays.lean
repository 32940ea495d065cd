import RecordQuery.Proofs.Calendar.Texts
import RecordQuery.Proofs.Decimal.Nearest
import RecordQuery.Proofs.Decimal.Plain
import RecordQuery.Proofs.Form.Typing
/-!
# Texts that scalars are displayed as

A text is typed by what it spells, and the scalar that it is typed as is displayed again where a pattern wants a text.
`Coercion.display_coerce_iff` says which texts come back as they were.

What a scalar is displayed as comes back (`Coercion.display_coerce_of_isDisplayed`): an integer from its digits, a
moment from its fields, and a double from its shortest digits, of which it is the nearest double. A whole double is
typed as an integer, whose digits are the same (`Layout.decimal_plain`); the one double that is displayed otherwise is
the negative zero.
-/

namespace RecordQuery

open Text

theorem Text.mem_trim {c : Char} {cs : List Char} (h : c ∈ cs) (hblank : isBlank c = false) : c ∈ trim cs := by
  have hkept : ∀ ds : List Char, c ∈ ds → c ∈ ds.dropWhile isBlank := by
    intro ds hds
    rw [← List.takeWhile_append_dropWhile (p := isBlank) (l := ds)] at hds
    refine (List.mem_append.1 hds).resolve_left fun htake => ?_
    rw [List.mem_takeWhile_imp htake] at hblank
    cases hblank
  exact List.mem_reverse.2 (hkept _ (List.mem_reverse.2 (hkept cs h)))

/-! ## Numbers -/

namespace Coercion

variable {s : String} {x : Scalar} {t : Instant} {c : Char}

/-- The text of a finite double other than the negative zero spells a number that is displayed as the text. -/
theorem number?_text {y : Binary64} (hy : y.isFinite) (hzero : y ≠ Binary64.zero true) :
    ∃ n, number? y.text = some n ∧ n.display = y.text := by
  have hblank : ∀ c ∈ y.text.toList, isBlank c = false := by
    intro c hc
    rcases Binary64.mem_text hy hc with h | rfl | rfl
    · exact (of_isDigit h).2.2
    · decide
    · decide
  have hdecimal : y.text.toList.all isDecimalChar = true := by
    refine List.all_eq_true.2 fun c hc => ?_
    rcases Binary64.mem_text hy hc with h | rfl | rfl
    · simp [isDecimalChar, h]
    · decide
    · decide
  obtain ⟨l, hl, hnearest⟩ := Binary64.nearest_of_write (show Layout.plain.signedZero from rfl) .upper hy
  have hread : Literal.read? y.text.toList = some l := by rwa [Binary64.text, if_pos hy]
  rw [number?, trim_eq hblank]
  cases hint : Integer.int64? y.text.toList with
  | some i => exact ⟨.int i, rfl, Binary64.toString_of_int64? hy hzero hint⟩
  | none =>
    rw [hdecimal, hread]
    exact ⟨.real y, by simp [hnearest, hy], rfl⟩

/-- A number is an integer or a finite double. -/
theorem number?_cases (h : number? s = some x) : (∃ i, x = .int i) ∨ ∃ y : Binary64, y.isFinite ∧ x = .real y := by
  unfold number? at h
  dsimp only at h
  split at h
  · exact .inl ⟨_, (Option.some.inj h).symm⟩
  split at h
  · split at h
    · split at h
      next hfinite => exact .inr ⟨_, hfinite, (Option.some.inj h).symm⟩
      · cases h
    · cases h
  · cases h

theorem coerce_of_number? (h : number? s = some x) : coerce s = x := by
  have hkeyword : ∀ keyword, number? keyword = none → s ≠ keyword := by
    rintro keyword hkeyword rfl
    cases h.symm.trans hkeyword
  rw [coerce, h]
  · exact hkeyword "true" (by decide)
  · exact hkeyword "false" (by decide)
  · exact hkeyword "null" (by decide)

theorem coerce_of_read? (hnumber : number? s = none) (h : Instant.read? s = some t) : coerce s = .date t := by
  have hkeyword : ∀ keyword, Instant.read? keyword = none → s ≠ keyword := by
    rintro keyword hkeyword rfl
    cases h.symm.trans hkeyword
  rw [coerce, hnumber]
  · simp only [h]
  · exact hkeyword "true" (by decide)
  · exact hkeyword "false" (by decide)
  · exact hkeyword "null" (by decide)

/-- A text that spells neither a number nor a date is displayed as it is. -/
theorem display_coerce_of_none (hnumber : number? s = none) (hdate : Instant.read? s = none) :
    (coerce s).display = s := by
  unfold coerce
  split
  · rfl
  · rfl
  · rfl
  · simp only [hnumber, hdate]
    rfl

/-- A character that is neither blank nor decimal keeps a text from spelling a number. -/
theorem number?_eq_none (hc : c ∈ s.toList) (hblank : isBlank c = false) (hdecimal : isDecimalChar c = false) :
    number? s = none := by
  have hmem : c ∈ trim s.toList := mem_trim hc hblank
  have hall : (trim s.toList).all isDecimalChar = false := List.all_eq_false.2 ⟨c, hmem, by simp [hdecimal]⟩
  have hint : Integer.int64? (trim s.toList) = none := by
    rw [Option.eq_none_iff_forall_ne_some]
    intro i h
    have hsign : isDecimalChar c = true := by
      rcases Integer.mem_of_int64? h hmem with hdigit | rfl | rfl
      · simp [isDecimalChar, hdigit]
      · decide
      · decide
    cases hsign.symm.trans hdecimal
  rw [number?]
  simp only [hint, hall]
  rfl

/-! ## Scalars -/

theorem number?_moment (t : Instant) : number? t.text = none :=
  number?_eq_none t.mark_mem_text (by decide) (by decide)

/-- The text of a moment is typed as the moment, down to the millisecond. -/
theorem coerce_moment (hlow : 0 ≤ t.date.year) (hhigh : t.date.year ≤ 9999) : coerce t.text = .date t.truncated :=
  coerce_of_read? (number?_moment t) (Instant.read?_text hlow hhigh)

/-- A moment is displayed as it was, down to the millisecond. -/
theorem display_coerce_date (t : Instant) : (coerce t.text).display = t.text := by
  by_cases hyear : 0 ≤ t.date.year ∧ t.date.year ≤ 9999
  · rw [coerce_moment hyear.1 hyear.2]
    exact Instant.text_truncated t
  · exact display_coerce_of_none (number?_moment t) (Instant.read?_text_of_sign hyear)

/-- A double other than the negative zero is displayed as it was. -/
theorem display_coerce_real {y : Binary64} (hzero : y ≠ Binary64.zero true) : (coerce y.text).display = y.text := by
  cases hy : y.isFinite with
  | true =>
    obtain ⟨n, hn, hdisplay⟩ := number?_text hy hzero
    rw [coerce_of_number? hn, hdisplay]
  | false =>
    rw [Binary64.text, if_neg (by simp [hy])]
    split
    · decide
    split
    · decide
    · decide

/-- Whether a text is what a scalar that is no text is displayed as, the negative zero excepted. -/
def IsDisplayed (s : String) : Prop :=
  ∃ x : Scalar, (∀ t, x ≠ .text t) ∧ x ≠ .real (Binary64.zero true) ∧ x.display = s

theorem display_coerce_of_isDisplayed (h : IsDisplayed s) : (coerce s).display = s := by
  obtain ⟨x, htext, hzero, rfl⟩ := h
  cases x with
  | null => rfl
  | bool b => cases b <;> rfl
  | int i => exact congrArg Scalar.display (coerce_integer i)
  | real y => exact display_coerce_real fun hy => hzero (congrArg Scalar.real hy)
  | text t => exact absurd rfl (htext t)
  | date t => exact display_coerce_date t

/-- Typing a text and displaying it gives the text back exactly if it spells neither a number nor a date, or is one
that a scalar is displayed as. -/
theorem display_coerce_iff :
    (coerce s).display = s ↔ (number? s = none ∧ Instant.read? s = none) ∨ IsDisplayed s := by
  refine ⟨fun h => ?_, fun h => h.elim (fun h => display_coerce_of_none h.1 h.2) display_coerce_of_isDisplayed⟩
  cases hnumber : number? s with
  | some x =>
    rw [coerce_of_number? hnumber] at h
    refine .inr ⟨x, fun t hx => ?_, fun hx => ?_, h⟩
    · subst hx
      rcases number?_cases hnumber with ⟨i, hi⟩ | ⟨y, -, hy⟩
      · cases hi
      · cases hy
    · -- The negative zero is displayed as what is read as the integer zero.
      subst hx
      subst h
      cases hnumber.symm.trans (show number? (Scalar.real (Binary64.zero true)).display = some (.int 0) by decide)
  | none =>
    cases hdate : Instant.read? s with
    | some t =>
      rw [coerce_of_read? hnumber hdate] at h
      exact .inr ⟨.date t, by simp, by simp, h⟩
    | none => exact .inl ⟨rfl, rfl⟩

end Coercion

end RecordQuery
