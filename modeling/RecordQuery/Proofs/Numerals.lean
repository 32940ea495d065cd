import RecordQuery.Proofs.Integers
import RecordQuery.Proofs.Outcome
/-!
# Numerals

Digits and a sign are all that an integer is read from (`Text.Integer.of_int64?`). So an integer that is read from the
digits of a natural, with a minus sign or without, is written with them (`Text.Integer.toString_of_toDigits`,
`Text.Integer.toString_of_minus`).
-/

namespace RecordQuery.Text

/-- A power of ten adds zeros. -/
theorem toDigits_mul_pow {m : Nat} (hm : 0 < m) (k : Nat) :
    Nat.toDigits 10 (m * 10 ^ k) = Nat.toDigits 10 m ++ List.replicate k '0' := by
  induction k with
  | zero => simp
  | succ k ih =>
    have hzero : Nat.toDigits 10 0 = ['0'] := by decide
    have hpos : 0 < m * 10 ^ k := Nat.mul_pos hm (Nat.pow_pos (by decide))
    have hnext := Nat.toDigits_append_toDigits (b := 10) (d := 0) (by decide) hpos (by decide)
    rw [hzero, ih] at hnext
    rw [pow_succ, ← mul_assoc, mul_comm _ 10, ← Nat.add_zero (10 * _), ← hnext, List.replicate_succ',
      List.append_assoc]

namespace Integer

open Outcome

variable {bound n acc : Nat} {past : Fault} {cs : List Char} {i : Int64}

/-- Whatever is read as a magnitude is made of digits, and is their number. -/
theorem of_readMagnitude (hacc : acc ≤ bound) (h : readMagnitude bound past acc cs = .ok n) :
    (∀ c ∈ cs, c.isDigit) ∧ n = cs.foldl (fun n c => n * 10 + digitValue c) acc ∧ n ≤ bound := by
  induction cs generalizing acc with
  | nil =>
    obtain rfl := Except.ok.inj h
    exact ⟨by simp, rfl, hacc⟩
  | cons c cs ih =>
    rw [readMagnitude] at h
    split at h
    · cases h
    next d hd =>
      split at h
      · next hle =>
        rw [digit?] at hd
        split at hd
        · next hdigit =>
          obtain rfl := Option.some.inj hd
          obtain ⟨hcs, hvalue, hbound⟩ := ih hle h
          exact ⟨List.forall_mem_cons.2 ⟨hdigit, hcs⟩, hvalue, hbound⟩
        · cases hd
      · cases h

/-- An integer is read from digits, or from digits behind a sign. -/
theorem of_read {v : Int} (h : read Word.least Word.greatest cs = .ok v) : Word.fits v = true ∧
    ∃ digits, (∀ c ∈ digits, c.isDigit) ∧ (v = digitsValue digits ∧ (cs = digits ∨ cs = '+' :: digits) ∨
      v = -digitsValue digits ∧ cs = '-' :: digits) := by
  unfold read at h
  rw [Word.fits_iff]
  split at h
  · cases h
  · cases h
  · cases h
  · obtain ⟨n, hn, rfl⟩ := map_eq_ok_iff.1 h
    obtain ⟨hdigits, hvalue, hbound⟩ := of_readMagnitude (Nat.zero_le _) hn
    rw [Word.greatest, Int.ofNat_eq_natCast] at *
    exact ⟨by unfold Word.least; omega, _, hdigits, .inl ⟨congrArg _ hvalue, .inr rfl⟩⟩
  · rw [if_pos (by decide)] at h
    obtain ⟨n, hn, rfl⟩ := map_eq_ok_iff.1 h
    obtain ⟨hdigits, hvalue, hbound⟩ := of_readMagnitude (Nat.zero_le _) hn
    rw [Word.least, Int.ofNat_eq_natCast] at *
    exact ⟨by unfold Word.greatest; omega, _, hdigits, .inr ⟨congrArg (fun n : Nat => -(n : Int)) hvalue, rfl⟩⟩
  · obtain ⟨n, hn, rfl⟩ := map_eq_ok_iff.1 h
    obtain ⟨hdigits, hvalue, hbound⟩ := of_readMagnitude (Nat.zero_le _) hn
    rw [Word.greatest, Int.ofNat_eq_natCast] at *
    exact ⟨by unfold Word.least; omega, _, hdigits, .inl ⟨congrArg _ hvalue, .inl rfl⟩⟩

theorem of_int64? (h : int64? cs = some i) : ∃ digits, (∀ c ∈ digits, c.isDigit) ∧
    (i.toInt = digitsValue digits ∧ (cs = digits ∨ cs = '+' :: digits) ∨
      i.toInt = -digitsValue digits ∧ cs = '-' :: digits) := by
  rw [int64?, readInt64] at h
  cases hread : read Word.least Word.greatest cs with
  | error fault =>
    rw [hread] at h
    cases h
  | ok v =>
    rw [hread] at h
    obtain rfl : Int64.ofInt v = i := Option.some.inj h
    obtain ⟨hfits, hdigits⟩ := of_read hread
    rwa [Word.toInt_ofInt_of_fits hfits]

theorem mem_of_int64? {c : Char} (h : int64? cs = some i) (hc : c ∈ cs) : c.isDigit ∨ c = '+' ∨ c = '-' := by
  obtain ⟨digits, hdigits, ⟨-, rfl | rfl⟩ | ⟨-, rfl⟩⟩ := of_int64? h
  · exact .inl (hdigits c hc)
  · exact (List.mem_cons.1 hc).elim (fun hc => .inr (.inl hc)) fun hc => .inl (hdigits c hc)
  · exact (List.mem_cons.1 hc).elim (fun hc => .inr (.inr hc)) fun hc => .inl (hdigits c hc)

/-- An integer that is read from the digits of a natural is written with them. -/
theorem toString_of_toDigits (h : int64? (Nat.toDigits 10 n) = some i) :
    (toString i.toInt).toList = Nat.toDigits 10 n := by
  have hdigit : ∀ c ∈ Nat.toDigits 10 n, c.isDigit := fun c hc =>
    Nat.isDigit_of_mem_toDigits (by decide) (by decide) hc
  obtain ⟨digits, -, ⟨hi, rfl | hcs⟩ | ⟨-, hcs⟩⟩ := of_int64? h
  · rw [hi, digitsValue_toDigits]
    exact Nat.toList_repr
  · rw [hcs] at hdigit
    exact absurd (hdigit '+' List.mem_cons_self) (by decide)
  · rw [hcs] at hdigit
    exact absurd (hdigit '-' List.mem_cons_self) (by decide)

/-- So is one with a minus sign, unless it is zero. -/
theorem toString_of_minus (hn : n ≠ 0) (h : int64? ('-' :: Nat.toDigits 10 n) = some i) :
    (toString i.toInt).toList = '-' :: Nat.toDigits 10 n := by
  obtain ⟨digits, hdigits, ⟨-, rfl | hcs⟩ | ⟨hi, hcs⟩⟩ := of_int64? h
  · exact absurd (hdigits '-' List.mem_cons_self) (by decide)
  · cases hcs
  · obtain ⟨-, rfl⟩ := List.cons.inj hcs
    obtain ⟨k, rfl⟩ := Nat.exists_eq_add_one_of_ne_zero hn
    have htext : toString (Int.negSucc k) = "-" ++ (k + 1).repr := rfl
    have hneg : -((k + 1 : Nat) : Int) = Int.negSucc k := rfl
    rw [hi, digitsValue_toDigits, hneg, htext, String.toList_append, Nat.toList_repr]
    rfl

end Integer

end RecordQuery.Text
