import Mathlib.Data.List.TakeWhile
import RecordQuery.Decimal.Layout
import RecordQuery.Decimal.Literal
import RecordQuery.Json.Printer
import RecordQuery.Proofs.Decimal.Shortest
import RecordQuery.Proofs.Integers
/-!
# Decimals read back

A decimal that is laid out is a literal of its value (`Layout.read?_decimal`), whatever the layout. So the text of a
double with its shortest digits tells it from every other one (`Binary64.eq_of_write`).
-/

namespace RecordQuery

namespace Text

/-! ## Zeros around digits -/

theorem digitsValue_append_zeros (ds : List Char) (n : Nat) :
    digitsValue (ds ++ List.replicate n '0') = digitsValue ds * 10 ^ n := by
  induction n with
  | zero => simp
  | succ n ih =>
    rw [List.replicate_succ', ← List.append_assoc, digitsValue, List.foldl_append, ← digitsValue, ih]
    simp [digitValue, pow_succ, mul_assoc]

theorem digitsValue_zeros_append (n : Nat) (ds : List Char) :
    digitsValue (List.replicate n '0' ++ ds) = digitsValue ds := by
  induction n with
  | zero => rfl
  | succ n ih => exact ih

theorem isDigit_of_mem_zeros {n : Nat} {c : Char} (h : c ∈ List.replicate n '0') : c.isDigit := by
  rw [List.eq_of_mem_replicate h]
  decide

end Text

open Text

namespace Literal

variable {whole fraction rest ds : List Char}

/-- The value of a literal without its sign. -/
def value (l : Literal) : ℚ := digitsValue (l.whole ++ l.fraction) * 10 ^ (l.exponent - l.fraction.length)

/-- No digit comes next. -/
def Stops (rest : List Char) : Prop := ∀ c ∈ rest.head?, c.isDigit = false

theorem span_digits (hds : ∀ c ∈ ds, c.isDigit) (hrest : Stops rest) :
    (ds ++ rest).span Char.isDigit = (ds, rest) := by
  rw [List.span_eq_takeWhile_dropWhile, List.takeWhile_append_of_pos hds, List.dropWhile_append_of_pos hds]
  cases rest with
  | nil => simp
  | cons c rest =>
    have hc : c.isDigit = false := hrest c rfl
    rw [List.takeWhile_cons_of_neg (by simp [hc]), List.dropWhile_cons_of_neg (by simp [hc]), List.append_nil]

theorem takeDigits_point (hwhole : ∀ c ∈ whole, c.isDigit) (hfraction : ∀ c ∈ fraction, c.isDigit)
    (hrest : Stops rest) : takeDigits (whole ++ '.' :: (fraction ++ rest)) = (whole, fraction, rest) := by
  have hpoint : Stops ('.' :: (fraction ++ rest)) := by simp [Stops]
  rw [takeDigits, span_digits hwhole hpoint]
  change (whole, ((fraction ++ rest).span Char.isDigit).1, ((fraction ++ rest).span Char.isDigit).2) = _
  rw [span_digits hfraction hrest]

theorem takeDigits_whole (hwhole : ∀ c ∈ whole, c.isDigit) (hrest : Stops rest) (hpoint : rest.head? ≠ some '.') :
    takeDigits (whole ++ rest) = (whole, [], rest) := by
  rw [takeDigits, span_digits hwhole hrest]
  dsimp only
  split
  · next heq => simp at hpoint
  · rfl

theorem takeSign_digit {c : Char} (h : c.isDigit) (cs : List Char) : takeSign (c :: cs) = (false, c :: cs) := by
  obtain ⟨hplus, hminus, -⟩ := of_isDigit h
  unfold takeSign
  split <;> simp_all

/-- Digits around a point that begin a text. -/
theorem read?_of_takeDigits {cs : List Char} {e : Int} (htake : takeDigits cs = (whole, fraction, rest))
    (hfirst : ∃ c rest, cs = c :: rest ∧ c.isDigit) (hwhole : whole ≠ []) (he : exponent? rest = some e) :
    read? cs = some ⟨false, whole, fraction, e⟩ := by
  obtain ⟨c, others, rfl, hc⟩ := hfirst
  rw [read?, takeSign_digit hc]
  simp [htake, hwhole, he]

/-- A sign in front of a literal without one. -/
theorem read?_minus {cs : List Char} {l : Literal} (h : read? cs = some l)
    (hfirst : ∃ c rest, cs = c :: rest ∧ c.isDigit) : read? ('-' :: cs) = some { l with negative := true } := by
  obtain ⟨c, others, rfl, hc⟩ := hfirst
  rw [read?, takeSign_digit hc] at h
  rw [read?, takeSign]
  dsimp only at h ⊢
  split at h
  · cases h
  · next hempty =>
    rw [if_neg hempty]
    obtain ⟨e, he, h⟩ := Option.bind_eq_some_iff.1 h
    obtain rfl := Option.some.inj h
    exact Option.bind_eq_some_iff.2 ⟨e, he, rfl⟩

end Literal

namespace Layout

variable {layout : Layout} {ds : List Char} {e : Int}

open Literal

/-! ## Significant digits -/

/-- The digits of a number are its significant ones and zeros. -/
theorem toDigits_eq_significant {n : Nat} (h : n ≠ 0) :
    ∃ zeros, Nat.toDigits 10 n = significant n ++ List.replicate zeros '0' := by
  have hsplit : Nat.toDigits 10 n = ((Nat.toDigits 10 n).reverse.dropWhile (· == '0')).reverse ++
      ((Nat.toDigits 10 n).reverse.takeWhile (· == '0')).reverse := by
    rw [← List.reverse_append, List.takeWhile_append_dropWhile, List.reverse_reverse]
  have hzeros : ((Nat.toDigits 10 n).reverse.takeWhile (· == '0')).reverse =
      List.replicate ((Nat.toDigits 10 n).reverse.takeWhile (· == '0')).length '0' := by
    refine List.eq_replicate_iff.2 ⟨List.length_reverse, fun c hc => ?_⟩
    simpa using List.mem_takeWhile_imp (List.mem_reverse.1 hc)
  generalize hsig : ((Nat.toDigits 10 n).reverse.dropWhile (· == '0')).reverse = sig at hsplit
  rw [hzeros] at hsplit
  have hne : sig ≠ [] := by
    rintro rfl
    have hvalue := digitsValue_toDigits n
    rw [hsplit, digitsValue_append_zeros] at hvalue
    exact h (by simpa [digitsValue] using hvalue.symm)
  refine ⟨_, hsplit.trans (congrArg (· ++ _) ?_)⟩
  unfold significant
  dsimp only
  rw [hsig]
  cases sig with
  | nil => exact absurd rfl hne
  | cons c cs => rfl

theorem isDigit_of_mem_toDigits {n : Nat} {c : Char} (h : c ∈ Nat.toDigits 10 n) : c.isDigit :=
  Nat.isDigit_of_mem_toDigits (by decide) (by decide) h

theorem isDigit_of_mem_significant {n : Nat} {c : Char} (h : c ∈ significant n) : c.isDigit := by
  by_cases hn : n = 0
  · subst hn
    obtain rfl : c = '0' := by simpa [significant] using h
    decide
  · obtain ⟨zeros, heq⟩ := toDigits_eq_significant hn
    exact isDigit_of_mem_toDigits (heq ▸ List.mem_append_left _ h)

theorem significant_ne_nil (n : Nat) : significant n ≠ [] := by
  unfold significant
  dsimp only
  split
  · simp
  · next hne => exact hne

/-- The exponent of a decimal's first digit. -/
def firstExponent (d : Decimal) : Int :=
  if d.digits = 0 then 0 else d.exponent + Int.ofNat (Nat.toDigits 10 d.digits).length - 1

/-- A decimal's value, from its significant digits and the exponent of the first one. -/
theorem value_eq (d : Decimal) : d.value = digitsValue (significant d.digits) *
    (10 : ℚ) ^ (firstExponent d + 1 - (significant d.digits).length) := by
  by_cases hd : d.digits = 0
  · simp [Decimal.value, hd, significant, digitsValue, digitValue]
  · obtain ⟨zeros, heq⟩ := toDigits_eq_significant hd
    have hdigits : (d.digits : ℚ) = digitsValue (significant d.digits) * 10 ^ zeros := by
      have h := digitsValue_toDigits d.digits
      rw [heq, digitsValue_append_zeros] at h
      exact_mod_cast h.symm
    have hexponent : firstExponent d + 1 - (significant d.digits).length = zeros + d.exponent := by
      rw [firstExponent, if_neg hd, heq, List.length_append, List.length_replicate, Int.ofNat_eq_natCast]
      push_cast
      ring
    rw [Decimal.value, hdigits, hexponent, zpow_add₀ (by norm_num), zpow_natCast, mul_assoc]

/-! ## Texts -/

/-- A text from which a literal is read that has the value of digits with the exponent of the first one. -/
def Reads (cs ds : List Char) (e : Int) : Prop :=
  (∃ c rest, cs = c :: rest ∧ c.isDigit) ∧
    ∃ l, read? cs = some l ∧ l.negative = false ∧ l.value = digitsValue ds * (10 : ℚ) ^ (e + 1 - ds.length)

/-- A text that begins with digits around a point. -/
theorem reads_of_takeDigits {cs whole fraction rest : List Char} {exponent : Int} (hne : whole ≠ [])
    (hfirst : ∃ c rest, cs = c :: rest ∧ c.isDigit) (htake : takeDigits cs = (whole, fraction, rest))
    (hexponent : exponent? rest = some exponent)
    (hvalue : (digitsValue (whole ++ fraction) : ℚ) * 10 ^ (exponent - fraction.length) =
      digitsValue ds * (10 : ℚ) ^ (e + 1 - ds.length)) : Reads cs ds e :=
  ⟨hfirst, _, read?_of_takeDigits htake hfirst hne hexponent, rfl, hvalue⟩

theorem exists_digit_cons {cs : List Char} (h : ds ≠ []) (hds : ∀ c ∈ ds, c.isDigit) :
    ∃ c rest, ds ++ cs = c :: rest ∧ c.isDigit := by
  obtain ⟨c, rest, rfl⟩ := List.exists_cons_of_ne_nil h
  exact ⟨c, rest ++ cs, rfl, hds c List.mem_cons_self⟩

theorem stops_nil : Stops [] := by simp [Stops]

/-- A zero after the point adds nothing. -/
theorem digitsValue_append_zero (ds : List Char) :
    (digitsValue (ds ++ ['0']) : ℚ) * 10 ^ (-1 : Int) = digitsValue ds := by
  have h : digitsValue (ds ++ ['0']) = digitsValue ds * 10 := digitsValue_append_zeros ds 1
  rw [h, zpow_neg_one]
  push_cast
  exact mul_inv_cancel_right₀ (by norm_num) _

theorem forall_isDigit_zero : ∀ c ∈ ['0'], c.isDigit := by simp

/-- Digits with zeros in front of them, after the point. -/
theorem reads_fraction (hds : ∀ c ∈ ds, c.isDigit) {e : Int} (he : e < 0) :
    Reads ('0' :: '.' :: List.replicate (-e - 1).toNat '0' ++ ds) ds e := by
  have hfraction : ∀ c ∈ List.replicate (-e - 1).toNat '0' ++ ds, c.isDigit := fun c hc =>
    (List.mem_append.1 hc).elim isDigit_of_mem_zeros (hds c)
  have htake := takeDigits_point forall_isDigit_zero hfraction stops_nil
  rw [List.append_nil] at htake
  refine reads_of_takeDigits (by simp) ⟨'0', _, rfl, by decide⟩ htake rfl ?_
  have hexponent : (0 : Int) - ((List.replicate (-e - 1).toNat '0' ++ ds).length : Nat) = e + 1 - ds.length := by
    rw [List.length_append, List.length_replicate]
    omega
  have hdigits : digitsValue (['0'] ++ (List.replicate (-e - 1).toNat '0' ++ ds)) = digitsValue ds := by
    rw [← List.append_assoc]
    exact digitsValue_zeros_append _ ds
  rw [hexponent, hdigits]

/-- Digits with zeros after them, and perhaps one more after the point. -/
theorem reads_whole (layout : Layout) (hds : ∀ c ∈ ds, c.isDigit) (hne : ds ≠ []) {zeros : Nat}
    (he : e + 1 - ds.length = zeros) :
    Reads (ds ++ List.replicate zeros '0' ++ (if layout.pointZero then ['.', '0'] else [])) ds e := by
  have hwhole : ∀ c ∈ ds ++ List.replicate zeros '0', c.isDigit := fun c hc =>
    (List.mem_append.1 hc).elim (hds c) isDigit_of_mem_zeros
  have hnonempty : ds ++ List.replicate zeros '0' ≠ [] := List.append_ne_nil_of_left_ne_nil hne _
  have hvalue : (digitsValue (ds ++ List.replicate zeros '0') : ℚ) =
      digitsValue ds * (10 : ℚ) ^ (e + 1 - ds.length) := by
    rw [digitsValue_append_zeros, he, zpow_natCast]
    push_cast
    rfl
  have hfirst : ∀ cs, ∃ c rest, ds ++ List.replicate zeros '0' ++ cs = c :: rest ∧ c.isDigit := fun cs =>
    exists_digit_cons hnonempty hwhole
  split
  · have htake := takeDigits_point hwhole forall_isDigit_zero stops_nil
    exact reads_of_takeDigits hnonempty (hfirst _) htake rfl ((digitsValue_append_zero _).trans hvalue)
  · have htake := takeDigits_whole hwhole stops_nil (by simp)
    refine reads_of_takeDigits hnonempty (hfirst _) htake rfl ?_
    rw [List.append_nil, hvalue]
    simp

/-- Digits around a point. -/
theorem reads_around (hds : ∀ c ∈ ds, c.isDigit) (hne : ds ≠ []) {whole : Nat} (he : e = whole)
    (hlen : whole + 1 < ds.length) : Reads (ds.take (whole + 1) ++ '.' :: ds.drop (whole + 1)) ds e := by
  have hfront : ∀ c ∈ ds.take (whole + 1), c.isDigit := fun c hc => hds c (List.mem_of_mem_take hc)
  have hback : ∀ c ∈ ds.drop (whole + 1), c.isDigit := fun c hc => hds c (List.mem_of_mem_drop hc)
  have htake := takeDigits_point hfront hback stops_nil
  rw [List.append_nil] at htake
  have hnonempty : ds.take (whole + 1) ≠ [] := by simp [hne]
  refine reads_of_takeDigits hnonempty
    (exists_digit_cons hnonempty hfront) htake rfl ?_
  have hexponent : (0 : Int) - (ds.drop (whole + 1)).length = e + 1 - ds.length := by
    rw [List.length_drop]
    omega
  rw [List.take_append_drop, hexponent]

theorem reads_positionally (layout : Layout) (hds : ∀ c ∈ ds, c.isDigit) (hne : ds ≠ []) (e : Int) :
    Reads (layout.positionally ds e) ds e := by
  rw [positionally]
  split
  · next he => exact reads_fraction hds he
  · next he =>
    dsimp only
    split
    · exact reads_whole layout hds hne (by omega)
    · exact reads_around hds hne (by omega) (by omega)

/-- An exponent with its mark. -/
def exponentText (layout : Layout) (e : Int) : List Char :=
  'e' :: (if e < 0 then '-' else '+') ::
    (List.replicate (layout.exponentWidth - (Nat.toDigits 10 e.natAbs).length) '0' ++ Nat.toDigits 10 e.natAbs)

theorem exponent?_exponentText (layout : Layout) (e : Int) : exponent? (layout.exponentText e) = some e := by
  rw [exponentText]
  generalize layout.exponentWidth - (Nat.toDigits 10 e.natAbs).length = zeros
  have hall : (List.replicate zeros '0' ++ Nat.toDigits 10 e.natAbs).all Char.isDigit := by
    rw [List.all_eq_true]
    exact fun c hc => (List.mem_append.1 hc).elim isDigit_of_mem_zeros isDigit_of_mem_toDigits
  have hempty : (List.replicate zeros '0' ++ Nat.toDigits 10 e.natAbs).isEmpty = false := by
    simp [Nat.toDigits_ne_nil]
  have hvalue : digitsValue (List.replicate zeros '0' ++ Nat.toDigits 10 e.natAbs) = e.natAbs := by
    rw [digitsValue_zeros_append, digitsValue_toDigits]
  by_cases he : e < 0
  · have hneg : -Int.ofNat e.natAbs = e := by
      rw [Int.ofNat_eq_natCast]
      omega
    rw [if_pos he]
    simp only [exponent?, takeSign, isExponentMark, hall, hempty, signed, hvalue]
    exact congrArg some hneg
  · have hpos : Int.ofNat e.natAbs = e := by
      rw [Int.ofNat_eq_natCast]
      omega
    rw [if_neg he]
    simp only [exponent?, takeSign, isExponentMark, hall, hempty, signed, hvalue]
    exact congrArg some hpos

theorem reads_withExponent (layout : Layout) (hds : ∀ c ∈ ds, c.isDigit) (hne : ds ≠ []) (e : Int) :
    Reads (layout.withExponent ds e) ds e := by
  obtain ⟨c, others, rfl⟩ := List.exists_cons_of_ne_nil hne
  obtain ⟨hc, hothers⟩ := List.forall_mem_cons.1 hds
  have hone : ∀ d ∈ [c], d.isDigit := by simpa using hc
  have hexponent := exponent?_exponentText layout e
  have hstops : Stops (layout.exponentText e) := by simp [Stops, exponentText]
  cases others with
  | nil =>
    by_cases hdot : layout.pointBeforeExponent
    · have hform : layout.withExponent [c] e = [c] ++ '.' :: (['0'] ++ layout.exponentText e) := by
        simp [withExponent, exponentText, hdot]
      have htake := takeDigits_point hone forall_isDigit_zero hstops
      rw [hform]
      refine reads_of_takeDigits (by simp) ⟨c, _, rfl, hc⟩ htake hexponent ?_
      have hlength : e - (['0'].length : Nat) = -1 + e := by simp [sub_eq_add_neg, add_comm]
      rw [hlength, zpow_add₀ (by norm_num), ← mul_assoc, digitsValue_append_zero]
      simp
    · have hform : layout.withExponent [c] e = [c] ++ layout.exponentText e := by
        simp [withExponent, exponentText, hdot]
      have htake := takeDigits_whole hone hstops (by simp [exponentText])
      rw [hform]
      refine reads_of_takeDigits (by simp) ⟨c, _, rfl, hc⟩ htake hexponent ?_
      simp
  | cons d others =>
    have hform : layout.withExponent (c :: d :: others) e = [c] ++ '.' :: (d :: others ++ layout.exponentText e) := by
      simp [withExponent, exponentText]
    have htake := takeDigits_point hone hothers hstops
    rw [hform]
    refine reads_of_takeDigits (by simp) ⟨c, _, rfl, hc⟩ htake hexponent ?_
    have hlength : e + 1 - (c :: d :: others).length = e - (d :: others).length := by
      rw [List.length_cons]
      push_cast
      ring
    rw [hlength]
    rfl

/-- A decimal that is laid out is a literal of its value. -/
theorem read?_decimal (layout : Layout) (d : Decimal) : (∃ c rest, layout.decimal d = c :: rest ∧ c.isDigit) ∧
    ∃ l, read? (layout.decimal d) = some l ∧ l.negative = false ∧ l.value = d.value := by
  have hds : ∀ c ∈ significant d.digits, c.isDigit := fun c => isDigit_of_mem_significant
  have hne := significant_ne_nil d.digits
  have hreads : Reads (layout.decimal d) (significant d.digits) (firstExponent d) := by
    rw [decimal, ← firstExponent]
    split
    · split
      · exact reads_positionally layout hds hne _
      · exact reads_withExponent layout hds hne _
    · exact reads_positionally layout hds hne _
  rw [value_eq]
  exact hreads

/-- Where whole numbers have a point, every text has a point or an exponent. -/
theorem exists_mark (hpoint : layout.pointZero) (d : Decimal) : ∃ c ∈ layout.decimal d, c = '.' ∨ c = 'e' := by
  have hpositionally : ∀ ds e, '.' ∈ layout.positionally ds e := by
    intro ds e
    rw [positionally, hpoint]
    split
    · simp
    · dsimp only
      split <;> simp
  rw [decimal, ← firstExponent]
  split
  · split
    · exact ⟨'.', hpositionally _ _, .inl rfl⟩
    · exact ⟨'e', by simp [withExponent], .inr rfl⟩
  · exact ⟨'.', hpositionally _ _, .inl rfl⟩

/-- A number that is laid out is a literal of its sign and its value. -/
theorem read?_write (hsigned : layout.signedZero) (choose : Binary64 → Decimal) (x : Binary64) :
    ∃ l, read? (layout.write choose x).toList = some l ∧ l.negative = x.isNegative ∧
      l.value = (choose x).value := by
  obtain ⟨hfirst, l, hread, hsign, hvalue⟩ := read?_decimal layout (choose x)
  rw [write, String.toList_ofList, hsigned]
  cases hneg : x.isNegative with
  | false => exact ⟨l, hread, hsign, hvalue⟩
  | true => exact ⟨{ l with negative := true }, read?_minus hread hfirst, rfl, hvalue⟩

end Layout

namespace Binary64

/-- A double is its sign and its magnitude. -/
theorem eq_of_magnitudeBits_eq {x y : Binary64} (hsign : x.isNegative = y.isNegative)
    (hmagnitude : x.magnitudeBits = y.magnitudeBits) : x = y := by
  have hx := x.bits.toNat_lt
  have hy := y.bits.toNat_lt
  rw [isNegative, isNegative, decide_eq_decide] at hsign
  unfold magnitudeBits at hmagnitude
  have hbits : x.bits.toNat = y.bits.toNat := by
    unfold signBit at hsign hmagnitude
    omega
  cases x
  cases y
  exact congrArg mk (UInt64.toNat_inj.1 hbits)

/-- Doubles are told apart by the texts of their shortest digits. -/
theorem eq_of_write {layout : Layout} (hsigned : layout.signedZero) {tie : Decimal.Tie} {x y : Binary64}
    (hx : x.isFinite) (hy : y.isFinite)
    (h : layout.write (Decimal.shortest tie) x = layout.write (Decimal.shortest tie) y) : x = y := by
  obtain ⟨l, hl, hsign, hvalue⟩ := Layout.read?_write hsigned (Decimal.shortest tie) x
  obtain ⟨l', hl', hsign', hvalue'⟩ := Layout.read?_write hsigned (Decimal.shortest tie) y
  rw [h, hl', Option.some.injEq] at hl
  subst hl
  exact eq_of_magnitudeBits_eq (hsign.symm.trans hsign')
    (Decimal.magnitudeBits_eq_of_shortest hx hy (hvalue.symm.trans hvalue'))

end Binary64

end RecordQuery
