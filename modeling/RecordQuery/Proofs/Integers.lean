import Mathlib.Algebra.Group.Nat.Defs
import RecordQuery.Json.Printer
import RecordQuery.Text.Blank
import RecordQuery.Text.Integer
/-!
# Integers as text

An integer is read back from its decimal text: an index from its digits (`Text.Integer.index?_repr`), a signed
integer from its digits and sign, between blanks or not (`Text.Integer.int64?_trim_repr`).
-/

namespace RecordQuery.Text

theorem digitsValue_toDigits (n : Nat) : digitsValue (Nat.toDigits 10 n) = n := by
  have h := Nat.ofDigitChars_toDigits (b := 10) (n := n) (by decide) (by decide)
  rw [Nat.ofDigitChars_eq_foldl] at h
  simpa only [digitsValue, digitValue, Nat.mul_comm] using h

theorem isDigit_of_mem_repr {n : Nat} {c : Char} (h : c ∈ n.repr.toList) : c.isDigit := by
  rw [Nat.toList_repr] at h
  exact Nat.isDigit_of_mem_toDigits (by decide) (by decide) h

/-- An integer is written with digits and a sign. -/
theorem mem_toString_int {i : Int} {c : Char} (h : c ∈ (toString i).toList) : c = '-' ∨ c.isDigit := by
  cases i with
  | ofNat n => exact .inr (isDigit_of_mem_repr h)
  | negSucc n =>
    have htext : toString (Int.negSucc n) = "-" ++ (n + 1).repr := rfl
    rw [htext, String.toList_append, List.mem_append] at h
    exact h.imp (fun h => by simpa using h) isDigit_of_mem_repr

/-- A digit is neither a sign nor a blank. -/
theorem of_isDigit {c : Char} (h : c.isDigit) : c ≠ '+' ∧ c ≠ '-' ∧ isBlank c = false := by
  simp only [Char.isDigit, Bool.and_eq_true, decide_eq_true_eq] at h
  obtain ⟨hlow, hhigh⟩ := h
  refine ⟨?_, ?_, ?_⟩
  · rintro rfl
    exact absurd hlow (by decide)
  · rintro rfl
    exact absurd hlow (by decide)
  · have hn : 0x30 ≤ c.toNat ∧ c.toNat ≤ 0x39 := ⟨hlow, hhigh⟩
    simp only [isBlank, Bool.or_eq_false_iff, Bool.and_eq_false_iff, decide_eq_false_iff_not, beq_eq_false_iff_ne]
    omega

theorem trim_eq {cs : List Char} (h : ∀ c ∈ cs, isBlank c = false) : trim cs = cs := by
  have hfront : ∀ ds : List Char, (∀ c ∈ ds, isBlank c = false) → ds.dropWhile isBlank = ds := by
    intro ds hds
    cases ds with
    | nil => rfl
    | cons d ds => rw [List.dropWhile_cons_of_neg (by simp [hds d List.mem_cons_self])]
  rw [trim, trimStart, hfront cs h, trimEnd, hfront cs.reverse fun c hc => h c (List.mem_reverse.1 hc),
    List.reverse_reverse]

namespace Integer

/-- Digits go on with what was read before them. -/
theorem readMagnitude_eq_ok {bound : Nat} {past : Fault} {cs : List Char} (hcs : ∀ c ∈ cs, c.isDigit) (acc : Nat)
    (h : cs.foldl (fun n c => n * 10 + digitValue c) acc ≤ bound) :
    readMagnitude bound past acc cs = .ok (cs.foldl (fun n c => n * 10 + digitValue c) acc) := by
  have hle : ∀ (cs : List Char) (acc : Nat), acc ≤ cs.foldl (fun n c => n * 10 + digitValue c) acc := by
    intro cs
    induction cs with
    | nil => exact fun acc => Nat.le_refl acc
    | cons c cs ih => exact fun acc => Nat.le_trans (by omega) (ih (acc * 10 + digitValue c))
  induction cs generalizing acc with
  | nil => rfl
  | cons c cs ih =>
    obtain ⟨hc, hcs⟩ := List.forall_mem_cons.1 hcs
    have hnext : acc * 10 + digitValue c ≤ bound := Nat.le_trans (hle cs _) h
    rw [readMagnitude, digit?, if_pos hc]
    simp only [hnext, if_true]
    exact ih hcs _ h

theorem readMagnitude_repr {bound n : Nat} (past : Fault) (h : n ≤ bound) :
    readMagnitude bound past 0 n.repr.toList = .ok n := by
  have hvalue : n.repr.toList.foldl (fun n c => n * 10 + digitValue c) 0 = n := by
    rw [Nat.toList_repr]
    exact digitsValue_toDigits n
  rw [readMagnitude_eq_ok (fun c hc => isDigit_of_mem_repr hc) 0 (by rw [hvalue]; exact h), hvalue]

/-- Digits are read as a magnitude without a sign. -/
theorem read_repr {lo hi : Int} {n : Nat} (h : n ≤ hi.toNat) : read lo hi n.repr.toList = .ok n := by
  obtain ⟨c, cs, hcs⟩ : ∃ c cs, n.repr.toList = c :: cs :=
    List.exists_cons_of_ne_nil (by simp [Nat.toList_repr, Nat.toDigits_ne_nil])
  obtain ⟨hplus, hminus, -⟩ := of_isDigit (isDigit_of_mem_repr (n := n) (c := c) (by rw [hcs]; exact List.mem_cons_self))
  have hread := readMagnitude_repr .tooLarge h
  rw [hcs] at hread ⊢
  unfold read
  split <;> simp_all [Except.map]

theorem read_neg_repr {lo hi : Int} {n : Nat} (hlo : lo < 0) (h : n ≤ (-lo).toNat) :
    read lo hi ('-' :: n.repr.toList) = .ok (-n) := by
  obtain ⟨c, cs, hcs⟩ : ∃ c cs, n.repr.toList = c :: cs :=
    List.exists_cons_of_ne_nil (by simp [Nat.toList_repr, Nat.toDigits_ne_nil])
  have hread := readMagnitude_repr .tooSmall h
  rw [hcs] at hread ⊢
  simp [read, hlo, hread, Except.map]

/-- An index is read back from its digits. -/
theorem index?_repr {n : Nat} (h : n < 2 ^ 64) : index? n.repr.toList = some n := by
  rw [index?, readIndex, read_repr (by simp [Word.greatestUnsigned]; omega)]
  rfl

/-- A signed integer is read back from its text, between blanks or not. -/
theorem int64?_trim_repr (i : Int64) : int64? (trim (toString i.toInt).toList) = some i := by
  have hlow := i.le_toInt
  have hhigh := i.toInt_lt
  have hread : read Word.least Word.greatest (trim (toString i.toInt).toList) = .ok i.toInt := by
    cases hi : i.toInt with
    | ofNat n =>
      have htext : toString (Int.ofNat n) = n.repr := rfl
      have hn : (n : Int) = i.toInt := hi.symm
      rw [htext, trim_eq fun c hc => (of_isDigit (isDigit_of_mem_repr hc)).2.2]
      exact read_repr (by simp [Word.greatest]; omega)
    | negSucc n =>
      have htext : (toString (Int.negSucc n)).toList = '-' :: (n + 1).repr.toList := by
        have hneg : toString (Int.negSucc n) = "-" ++ (n + 1).repr := rfl
        rw [hneg, String.toList_append]
        rfl
      have hblank : ∀ c ∈ '-' :: (n + 1).repr.toList, isBlank c = false :=
        List.forall_mem_cons.2 ⟨by decide, fun c hc => (of_isDigit (isDigit_of_mem_repr hc)).2.2⟩
      rw [htext, trim_eq hblank]
      exact read_neg_repr (by decide) (by simp [Word.least]; omega)
  rw [int64?, readInt64, hread]
  simp [Except.map, Except.toOption]

end Integer

end RecordQuery.Text
