import RecordQuery.Proofs.Decimal.Layout
import RecordQuery.Proofs.Numerals
/-!
# Plain text of doubles

Plain text is made of digits with a point among them, or it is the digits of a natural (`Layout.decimal_plain`). So a
double whose text is read as an integer is written as the integer is (`Binary64.toString_of_int64?`), unless it is the
negative zero.
-/

namespace RecordQuery

open Text

namespace Layout

/-- The significant digits of a number that is not zero are those of a number. -/
theorem exists_significant {n : Nat} (hn : n ≠ 0) : ∃ m, 0 < m ∧ significant n = Nat.toDigits 10 m := by
  obtain ⟨zeros, heq⟩ := toDigits_eq_significant hn
  have hvalue := digitsValue_toDigits n
  rw [heq, digitsValue_append_zeros] at hvalue
  have hpos : 0 < digitsValue (significant n) := Nat.pos_of_ne_zero fun h => hn (by rw [← hvalue, h, Nat.zero_mul])
  refine ⟨_, hpos, ?_⟩
  rw [← hvalue, toDigits_mul_pow hpos, hvalue] at heq
  exact (List.append_cancel_right heq).symm

theorem decimal_plain_eq (d : Decimal) :
    plain.decimal d = plain.positionally (significant d.digits) (firstExponent d) := rfl

/-- Plain text has a point, or it is the digits of a natural. -/
theorem decimal_plain (d : Decimal) :
    '.' ∈ plain.decimal d ∨ ∃ n, (d.digits ≠ 0 → n ≠ 0) ∧ plain.decimal d = Nat.toDigits 10 n := by
  by_cases hd : d.digits = 0
  · refine .inr ⟨0, fun h => absurd hd h, ?_⟩
    rw [decimal_plain_eq, hd, firstExponent, if_pos hd]
    decide
  · obtain ⟨m, hm, hsignificant⟩ := exists_significant hd
    rw [decimal_plain_eq, hsignificant, positionally]
    split
    · exact .inl (by simp)
    · dsimp only
      split
      · generalize (firstExponent d).toNat + 1 - (Nat.toDigits 10 m).length = zeros
        refine .inr ⟨m * 10 ^ zeros, fun _ => (Nat.mul_pos hm (Nat.pow_pos (by decide))).ne', ?_⟩
        rw [toDigits_mul_pow hm]
        exact List.append_nil _
      · exact .inl (by simp)

theorem mem_decimal_plain {d : Decimal} {c : Char} (h : c ∈ plain.decimal d) : c.isDigit ∨ c = '.' := by
  have hpoint : plain.pointZero = false := rfl
  rw [decimal_plain_eq, positionally, hpoint] at h
  have hzeros : ∀ n, c ∈ List.replicate n '0' → c.isDigit := fun n => isDigit_of_mem_zeros
  have hdigits : c ∈ significant d.digits → c.isDigit := isDigit_of_mem_significant
  split at h
  · simp only [List.cons_append, List.mem_cons, List.mem_append] at h
    rcases h with rfl | rfl | h | h
    · exact .inl (by decide)
    · exact .inr rfl
    · exact .inl (hzeros _ h)
    · exact .inl (hdigits h)
  · dsimp only at h
    split at h
    · simp only [Bool.false_eq_true, if_false, List.append_nil, List.mem_append] at h
      exact .inl (h.elim hdigits (hzeros _))
    · rw [List.mem_append, List.mem_cons] at h
      rcases h with h | rfl | h
      · exact .inl (hdigits (List.mem_of_mem_take h))
      · exact .inr rfl
      · exact .inl (hdigits (List.mem_of_mem_drop h))

end Layout

namespace Binary64

variable {x : Binary64}

/-- The text of a finite double is its sign and its shortest digits. -/
theorem toList_text (hx : x.isFinite) : x.text.toList =
    (if x.isNegative then ['-'] else []) ++ Layout.plain.decimal (Decimal.shortest .upper x) := by
  have hsign : (x.isNegative && (Layout.plain.signedZero || !x.isZero)) = x.isNegative := by
    simp [Layout.plain]
  rw [text, if_pos hx, Layout.write, String.toList_ofList, hsign]

theorem mem_text (hx : x.isFinite) {c : Char} (h : c ∈ x.text.toList) : c.isDigit ∨ c = '.' ∨ c = '-' := by
  rw [toList_text hx] at h
  rcases List.mem_append.1 h with h | h
  · split at h
    · exact .inr (.inr (List.mem_singleton.1 h))
    · cases h
  · exact (Layout.mem_decimal_plain h).imp id .inl

theorem eq_zero_of_isZero (hnegative : x.isNegative) (hzero : x.isZero) : x = zero true :=
  eq_of_magnitudeBits_eq (hnegative.trans (by decide)) ((of_decide_eq_true hzero).trans (by decide))

theorem digits_shortest_ne_zero {tie : Decimal.Tie} (hx : x.isFinite) (hzero : x.isZero = false) :
    (Decimal.shortest tie x).digits ≠ 0 := by
  intro hdigits
  have hpos := (Decimal.isNear_shortest tie hx hzero).pos (Nat.pos_of_ne_zero (by simpa [isZero] using hzero))
  simp [Decimal.value, hdigits] at hpos

/-- What is read as an integer is displayed as it was written, if it was written as a plain decimal. -/
theorem toString_of_int64? (hx : x.isFinite) (hzero : x ≠ zero true) {i : Int64}
    (h : Integer.int64? x.text.toList = some i) : toString i.toInt = x.text := by
  rw [← String.toList_inj]
  rw [toList_text hx] at h ⊢
  rcases Layout.decimal_plain (Decimal.shortest .upper x) with hpoint | ⟨n, hn, hdigits⟩
  · exact absurd (Integer.mem_of_int64? h (List.mem_append_right _ hpoint)) (by decide)
  · rw [hdigits] at h ⊢
    cases hnegative : x.isNegative with
    | false =>
      rw [hnegative] at h
      exact Integer.toString_of_toDigits h
    | true =>
      rw [hnegative] at h
      refine Integer.toString_of_minus (hn (digits_shortest_ne_zero hx ?_)) h
      exact Bool.eq_false_iff.2 fun hz => hzero (eq_zero_of_isZero hnegative hz)

end Binary64

end RecordQuery
