import RecordQuery.Proofs.Decimal.Layout
/-!
# The nearest double

`Binary64.exists_isNear_roundBits`: a quotient is rounded to a word within half a place of it, the even one of two. As
no value is within half a place of two words, whatever is within half a place of a double is rounded to it
(`Literal.nearest_of_isNear`). So a double is read back from the text of its shortest digits, in whatever layout
(`Binary64.nearest_of_write`).
-/

namespace RecordQuery

namespace Binary64

variable {num den n d m e : Nat} {q : Int} {v : ℚ}

/-! ## Quotients -/

theorem scaled_snd_pos (num : Nat) (hden : 0 < den) (q : Int) : 0 < (scaled num den q).2 := by
  rw [scaled]
  split
  · exact hden
  · exact Nat.mul_pos hden (twoTo_pos _)

/-- A quotient, counted in powers of two. -/
theorem scaled_div (num : Nat) (hden : 0 < den) (q : Int) :
    ((scaled num den (-q)).1 : ℚ) / (scaled num den (-q)).2 * 2 ^ q = num / den := by
  have hpos : (den : ℚ) ≠ 0 := by exact_mod_cast hden.ne'
  rw [scaled]
  split
  · next hq =>
    have hpow : (2 : ℚ) ^ (-q).toNat * 2 ^ q = 1 := by
      rw [← zpow_natCast, ← zpow_add₀ (by norm_num), Int.toNat_of_nonneg hq, neg_add_cancel, zpow_zero]
    simp only [twoTo_eq_pow]
    push_cast
    rw [div_mul_eq_mul_div, mul_assoc, hpow, mul_one]
  · next hq =>
    have hpow : (2 : ℚ) ^ q = 2 ^ (- -q).toNat := by
      rw [← zpow_natCast]
      congr 1
      omega
    simp only [twoTo_eq_pow]
    push_cast
    rw [hpow, div_mul_eq_mul_div, mul_div_mul_right _ _ (by positivity)]

/-- The integer part of a scaled quotient is below a bound as the quotient is. -/
theorem scaled_div_lt_iff (num : Nat) (hden : 0 < den) (q : Int) (bound : Nat) :
    (scaled num den (-q)).1 / (scaled num den (-q)).2 < bound ↔ (num : ℚ) / den < bound * 2 ^ q := by
  have hpos := scaled_snd_pos num hden (-q)
  have hcast : (0 : ℚ) < (scaled num den (-q)).2 := by exact_mod_cast hpos
  rw [← scaled_div num hden q, mul_lt_mul_iff_left₀ (by positivity), Nat.div_lt_iff_lt_mul hpos, div_lt_iff₀ hcast]
  exact_mod_cast Iff.rfl

/-- A rounded quotient is within a half of it, and strictly so if it is odd. -/
theorem roundDiv_near (n : Nat) (hd : 0 < d) :
    2 * n ≤ 2 * (roundDiv n d * d) + d ∧ 2 * (roundDiv n d * d) ≤ 2 * n + d ∧
      (roundDiv n d % 2 = 1 → 2 * n < 2 * (roundDiv n d * d) + d ∧ 2 * (roundDiv n d * d) < 2 * n + d) := by
  have hn : n / d * d + n % d = n := Nat.div_add_mod' n d
  have hmod := Nat.mod_lt n hd
  rw [roundDiv]
  split
  · omega
  split
  · rw [Nat.add_mul, Nat.one_mul]
    omega
  · rcases Nat.mod_two_eq_zero_or_one (n / d) with h | h
    · rw [h, Nat.add_zero]
      omega
    · rw [h, Nat.add_mul, Nat.one_mul]
      omega

theorem roundDiv_eq (n d : Nat) : roundDiv n d = n / d ∨ roundDiv n d = n / d + 1 := by
  rw [roundDiv]
  split
  · exact .inl rfl
  split
  · exact .inr rfl
  · rcases Nat.mod_two_eq_zero_or_one (n / d) with h | h <;> simp [h]

/-! ## Words -/

/-- The significand and the exponent of a word, from the place that its block has. -/
theorem partsOf_word (hm : m < 2 * block) (h : e = 0 ∨ block ≤ m) :
    partsOf (e * block + m) = (m, (e : Int) - 1074) := by
  unfold partsOf
  unfold block at hm h ⊢
  split
  · next hdiv =>
    rw [Prod.mk.injEq]
    omega
  · next hdiv =>
    rw [Prod.mk.injEq, Int.ofNat_eq_natCast]
    omega

/-- A value is near a word if, in quarters of the word's place, it lies between the ends of the half place. -/
theorem isNear_of_partsOf {w a : Nat} (hw : partsOf w = (m, q)) (hd : 0 < d) (hlow : lowQuarters m q * d ≤ a)
    (hhigh : a ≤ (4 * m + 2) * d) (hinside : w % 2 = 1 → lowQuarters m q * d < a ∧ a < (4 * m + 2) * d) :
    IsNear w ((a : ℚ) / d * 2 ^ (q - 2)) := by
  have hpos : (0 : ℚ) < d := by exact_mod_cast hd
  have hplace : (0 : ℚ) < 2 ^ (q - 2) := by positivity
  have hl : low w = lowQuarters m q * 2 ^ (q - 2) := by rw [low, hw]
  have hh : high w = (4 * m + 2 : Nat) * 2 ^ (q - 2) := by rw [high, hw]
  refine ⟨?_, ?_, fun hodd => ⟨?_, ?_⟩⟩
  · rw [hl, mul_le_mul_iff_left₀ hplace, le_div_iff₀ hpos]
    exact_mod_cast hlow
  · rw [hh, mul_le_mul_iff_left₀ hplace, div_le_iff₀ hpos]
    exact_mod_cast hhigh
  · rw [hl, mul_lt_mul_iff_left₀ hplace, lt_div_iff₀ hpos]
    exact_mod_cast (hinside hodd).1
  · rw [hh, mul_lt_mul_iff_left₀ hplace, div_lt_iff₀ hpos]
    exact_mod_cast (hinside hodd).2

/-! ## Rounding -/

/-- A rounded quotient does not pass it by more than half a place, nor by more than a quarter at the start of a block. -/
theorem lowQuarters_roundDiv (hd : 0 < d) (h : e = 0 ∨ block ≤ n / d) :
    lowQuarters (roundDiv n d) ((e : Int) - 1074) * d ≤ 4 * n ∧
      (roundDiv n d % 2 = 1 → lowQuarters (roundDiv n d) ((e : Int) - 1074) * d < 4 * n) := by
  obtain ⟨-, habove, hodd⟩ := roundDiv_near n hd
  generalize roundDiv n d = r at *
  unfold lowQuarters
  split
  · next hblock =>
    simp only [Bool.and_eq_true, decide_eq_true_eq] at hblock
    obtain ⟨rfl, he⟩ := hblock
    have hfull : block * d ≤ n := (Nat.le_div_iff_mul_le hd).1 (h.resolve_left (by omega))
    rw [Nat.sub_mul, Nat.mul_assoc]
    exact ⟨by omega, fun hblock => absurd hblock (by decide)⟩
  · have hpos : r % 2 = 1 → d ≤ r * d := fun hr => Nat.le_mul_of_pos_left d (by omega)
    rw [Nat.sub_mul, Nat.mul_assoc]
    omega

/-- A quotient whose rounded significand stays in its block. -/
theorem isNear_place (hd : 0 < d) (h : e = 0 ∨ block ≤ n / d) (hr : roundDiv n d < 2 * block) :
    IsNear (e * block + roundDiv n d) ((n : ℚ) / d * 2 ^ ((e : Int) - 1074)) := by
  obtain ⟨hbelow, -, hodd⟩ := roundDiv_near n hd
  obtain ⟨hlow, hlowOdd⟩ := lowQuarters_roundDiv hd h
  have hcases := roundDiv_eq n d
  have hparity : (e * block + roundDiv n d) % 2 = roundDiv n d % 2 := by
    unfold block
    omega
  have hquarters : ((4 * n : Nat) : ℚ) / d * 2 ^ ((e : Int) - 1074 - 2) = n / d * 2 ^ ((e : Int) - 1074) := by
    rw [zpow_sub₀ (by norm_num) _ 2]
    push_cast
    ring
  rw [← hquarters]
  refine isNear_of_partsOf (partsOf_word hr (by omega)) hd hlow ?_ fun hw => ⟨hlowOdd (by omega), ?_⟩
  · rw [Nat.add_mul, Nat.mul_assoc]
    omega
  · have hstrict := (hodd (by omega)).1
    rw [Nat.add_mul, Nat.mul_assoc]
    omega

/-- A quotient whose rounded significand carries into the next block. -/
theorem isNear_carry (hd : 0 < d) (hlt : n / d < 2 * block) (hr : roundDiv n d = 2 * block) :
    IsNear (e * block + 2 * block) ((n : ℚ) / d * 2 ^ ((e : Int) - 1074)) := by
  have habove := (roundDiv_near n hd).2.1
  have hfull : n < 2 * block * d := (Nat.div_lt_iff_lt_mul hd).1 hlt
  have hword : partsOf (e * block + 2 * block) = (block, ((e + 1 : Nat) : Int) - 1074) := by
    rw [show e * block + 2 * block = (e + 1) * block + block by ring]
    exact partsOf_word (by unfold block; omega) (.inr le_rfl)
  have hquarters : ((2 * n : Nat) : ℚ) / d * 2 ^ (((e + 1 : Nat) : Int) - 1074 - 2) =
      n / d * 2 ^ ((e : Int) - 1074) := by
    rw [show ((e + 1 : Nat) : Int) - 1074 - 2 = (e : Int) - 1074 - 1 by push_cast; ring,
      zpow_sub₀ (by norm_num) _ 1]
    push_cast
    ring
  rw [hr, Nat.mul_assoc] at habove
  rw [Nat.mul_assoc] at hfull
  rw [← hquarters]
  refine isNear_of_partsOf hword hd ?_ ?_ fun hw => absurd hw (by unfold block; omega)
  · rw [lowQuarters, if_pos (by simp), Nat.sub_mul, Nat.mul_assoc]
    omega
  · rw [Nat.add_mul, Nat.mul_assoc]
    omega

/-- A quotient that is rounded in the place of its block, or in the least place if it does not fill a block. -/
theorem isNear_word (hd : 0 < d) (hlt : n / d < 2 * block) (h : e = 0 ∨ block ≤ n / d) :
    IsNear (e * block + roundDiv n d) ((n : ℚ) / d * 2 ^ ((e : Int) - 1074)) := by
  have hcases := roundDiv_eq n d
  by_cases hr : roundDiv n d < 2 * block
  · exact isNear_place hd h hr
  · have hcarry : roundDiv n d = 2 * block := by omega
    rw [hcarry]
    exact isNear_carry hd hlt hcarry

/-- The logarithms of its sides place a quotient between powers of two. -/
theorem quotient_bounds (hnum : 0 < num) (hden : 0 < den) :
    (2 : ℚ) ^ ((num.log2 : Int) - den.log2 - 1) ≤ num / den ∧
      (num : ℚ) / den < 2 ^ ((num.log2 : Int) - den.log2 + 1) := by
  have hpos : (0 : ℚ) < den := by exact_mod_cast hden
  have hnumLow : ((2 : ℚ) ^ num.log2) ≤ num := by exact_mod_cast Nat.log2_self_le hnum.ne'
  have hnumHigh : (num : ℚ) < 2 ^ (num.log2 + 1) := by exact_mod_cast Nat.lt_log2_self
  have hdenLow : ((2 : ℚ) ^ den.log2) ≤ den := by exact_mod_cast Nat.log2_self_le hden.ne'
  have hdenHigh : (den : ℚ) < 2 ^ (den.log2 + 1) := by exact_mod_cast Nat.lt_log2_self
  constructor
  · rw [le_div_iff₀ hpos]
    calc (2 : ℚ) ^ ((num.log2 : Int) - den.log2 - 1) * den
        ≤ 2 ^ ((num.log2 : Int) - den.log2 - 1) * 2 ^ (den.log2 + 1) :=
          mul_le_mul_of_nonneg_left hdenHigh.le (by positivity)
      _ = 2 ^ num.log2 := by
        rw [← zpow_natCast, ← zpow_natCast, ← zpow_add₀ (by norm_num)]
        congr 1
        push_cast
        ring
      _ ≤ num := hnumLow
  · rw [div_lt_iff₀ hpos]
    calc (num : ℚ) < 2 ^ (num.log2 + 1) := hnumHigh
      _ = 2 ^ ((num.log2 : Int) - den.log2 + 1) * 2 ^ den.log2 := by
        rw [← zpow_natCast, ← zpow_natCast, ← zpow_add₀ (by norm_num)]
        congr 1
        push_cast
        ring
      _ ≤ 2 ^ ((num.log2 : Int) - den.log2 + 1) * den := mul_le_mul_of_nonneg_left hdenLow (by positivity)

/-- The first guess of the exponent leaves one bit too many at most, and none too few where there is a lower one. -/
theorem guess_bounds (hnum : 0 < num) (hden : 0 < den) {guess : Int}
    (hguess : guess = max (-1074) (Int.ofNat num.log2 - Int.ofNat den.log2 - 53)) :
    (num : ℚ) / den < 2 * (2 * block : Nat) * 2 ^ guess ∧
      (guess = -1074 ∧ (num : ℚ) / den < (2 * block : Nat) * 2 ^ guess ∨ block * 2 ^ guess ≤ (num : ℚ) / den) := by
  have hblock : (block : ℚ) = 2 ^ (52 : Int) := by norm_num [block]
  obtain ⟨hlow, hhigh⟩ := quotient_bounds hnum hden
  rw [Int.ofNat_eq_natCast, Int.ofNat_eq_natCast] at hguess
  generalize (num.log2 : Int) - den.log2 = l at *
  push_cast
  rw [hblock, ← mul_assoc, show (2 : ℚ) * 2 * 2 ^ (52 : Int) * 2 ^ guess = 2 ^ (54 + guess) by
      rw [zpow_add₀ (by norm_num)]; norm_num, show (2 : ℚ) * 2 ^ (52 : Int) * 2 ^ guess = 2 ^ (53 + guess) by
      rw [zpow_add₀ (by norm_num)]; norm_num, ← zpow_add₀ (by norm_num)]
  have hmono : ∀ {i j : Int}, i ≤ j → (2 : ℚ) ^ i ≤ 2 ^ j := zpow_le_zpow_right₀ (by norm_num)
  refine ⟨hhigh.trans_le (hmono (by omega)), ?_⟩
  by_cases hclamped : l - 53 < -1074
  · exact .inl ⟨by omega, hhigh.trans_le (hmono (by omega))⟩
  · exact .inr ((hmono (by omega)).trans hlow)

/-- A quotient is rounded to a word within half a place of it, as long as there is one below infinity. -/
theorem exists_isNear_roundBits (hnum : 0 < num) (hden : 0 < den) :
    ∃ w, roundBits num den = min infinityBits w ∧ IsNear w (num / den) := by
  obtain ⟨guess, hguess⟩ : ∃ g, g = max (-1074) (Int.ofNat num.log2 - Int.ofNat den.log2 - 53) := ⟨_, rfl⟩
  obtain ⟨hdouble, hplace⟩ := guess_bounds hnum hden hguess
  obtain ⟨q, hq⟩ : ∃ q, q =
      if 2 * block ≤ (scaled num den (-guess)).1 / (scaled num den (-guess)).2 then guess + 1 else guess := ⟨_, rfl⟩
  have hbits : roundBits num den = min infinityBits
      ((q + 1074).toNat * block + roundDiv (scaled num den (-q)).1 (scaled num den (-q)).2) := by
    rw [roundBits, if_neg hnum.ne', hq, hguess]
  -- The exponent leaves as many bits as a block holds.
  have hbounds : (num : ℚ) / den < (2 * block : Nat) * 2 ^ q ∧ (q = -1074 ∨ block * 2 ^ q ≤ (num : ℚ) / den) := by
    have hlt := scaled_div_lt_iff num hden guess (2 * block)
    split at hq
    · next hlarge =>
      have hge := le_of_not_gt (hlt.not.1 (not_lt_of_ge hlarge))
      rw [hq, zpow_add_one₀ (by norm_num)]
      push_cast at hdouble hge ⊢
      exact ⟨by linarith, .inr (by linarith)⟩
    · next hsmall =>
      rw [hq]
      exact ⟨hlt.1 (not_le.1 hsmall), hplace.imp And.left id⟩
  have hlow : 0 ≤ q + 1074 := by omega
  obtain ⟨e, rfl⟩ : ∃ e : Nat, q = (e : Int) - 1074 := ⟨(q + 1074).toNat, by omega⟩
  have hword := isNear_word (e := e) (scaled_snd_pos num hden (-((e : Int) - 1074)))
    ((scaled_div_lt_iff num hden _ _).2 hbounds.1)
    (hbounds.2.imp (by omega) fun h => not_lt.1 ((scaled_div_lt_iff num hden _ _).not.2 (not_lt_of_ge h)))
  rw [scaled_div num hden] at hword
  refine ⟨_, hbits, ?_⟩
  rwa [show ((e : Int) - 1074 + 1074).toNat = e by omega]

/-- What is within half a place of a finite magnitude is rounded to it. -/
theorem roundBits_of_isNear (hden : 0 < den) (hn : n < infinityBits) (h : IsNear n ((num : ℚ) / den)) :
    roundBits num den = n := by
  rcases Nat.eq_zero_or_pos num with rfl | hnum
  · have hzero : n = 0 := Nat.eq_zero_of_not_pos fun hpos => absurd (h.pos hpos) (by simp)
    rw [hzero, roundBits, if_pos rfl]
  · obtain ⟨w, hw, hnear⟩ := exists_isNear_roundBits hnum hden
    rw [hw, eq_of_isNear hnear h, min_eq_right hn.le]

/-! ## Decimals -/

/-- Half a place around a finite magnitude ends before the next power of two past all of them. -/
theorem high_le (hn : n < infinityBits) : high n ≤ 2 ^ 1024 := by
  have hm := fst_partsOf_lt n
  have hq := (snd_partsOf hn).2
  have hquarters : ((4 * (partsOf n).1 + 2 : Nat) : ℚ) ≤ 2 ^ (55 : Int) := by
    unfold block at hm
    exact_mod_cast (show 4 * (partsOf n).1 + 2 ≤ 2 ^ 55 by omega)
  calc high n ≤ 2 ^ (55 : Int) * 2 ^ ((partsOf n).2 - 2) := mul_le_mul_of_nonneg_right hquarters (by positivity)
    _ = 2 ^ (55 + ((partsOf n).2 - 2)) := (zpow_add₀ (by norm_num) _ _).symm
    _ ≤ 2 ^ (1024 : Int) := zpow_le_zpow_right₀ (by norm_num) (by omega)
    _ = 2 ^ 1024 := by norm_num

/-- Half a place around a magnitude that is not zero begins past the least power of two. -/
theorem le_low (hpos : 0 < n) (hn : n < infinityBits) : 2 ^ (-1080 : Int) ≤ low n := by
  have hm := fst_partsOf_pos hpos
  have hq := (snd_partsOf hn).1
  have hquarters : 1 ≤ lowQuarters (partsOf n).1 (partsOf n).2 := by
    unfold lowQuarters
    split <;> omega
  calc (2 : ℚ) ^ (-1080 : Int) ≤ 1 * 2 ^ ((partsOf n).2 - 2) := by
        rw [one_mul]
        exact zpow_le_zpow_right₀ (by norm_num) (by omega)
    _ ≤ low n := mul_le_mul_of_nonneg_right (by exact_mod_cast hquarters) (by positivity)

/-- A decimal with an exponent too low for its digits is less than every magnitude. -/
theorem decimal_lt {digits : Nat} {exponent : Int} (h : Int.ofNat digits.log2 + 1 + 3 * exponent < -1080) :
    (digits : ℚ) * 10 ^ exponent < 2 ^ (-1080 : Int) := by
  rw [Int.ofNat_eq_natCast] at h
  obtain ⟨k, rfl⟩ : ∃ k : Nat, exponent = -k := ⟨(-exponent).toNat, by omega⟩
  have hdigits : (digits : ℚ) < 2 ^ (digits.log2 + 1) := by exact_mod_cast Nat.lt_log2_self
  have hpow : ((10 : ℚ) ^ (-k : Int)) ≤ 2 ^ (3 * (-k : Int)) := by
    rw [zpow_mul, zpow_neg, zpow_neg, zpow_natCast, zpow_natCast]
    exact inv_anti₀ (by positivity) (pow_le_pow_left₀ (by norm_num) (by norm_num) k)
  calc (digits : ℚ) * 10 ^ (-k : Int) < 2 ^ (digits.log2 + 1) * 10 ^ (-k : Int) :=
        mul_lt_mul_of_pos_right hdigits (by positivity)
    _ ≤ 2 ^ (digits.log2 + 1) * 2 ^ (3 * (-k : Int)) := mul_le_mul_of_nonneg_left hpow (by positivity)
    _ = 2 ^ (((digits.log2 + 1 : Nat) : Int) + 3 * -k) := by rw [zpow_add₀ (by norm_num), zpow_natCast]
    _ ≤ 2 ^ (-1080 : Int) := zpow_le_zpow_right₀ (by norm_num) (by omega)

/-- What is within half a place of a finite magnitude is read as it. -/
theorem ofDecimal_of_isNear (negative : Bool) {digits : Nat} {exponent : Int} (hn : n < infinityBits)
    (h : IsNear n (digits * 10 ^ exponent)) : ofDecimal negative digits exponent = ofMagnitude negative n := by
  rw [ofDecimal]
  split
  · next hdigits =>
    have hzero : n = 0 := Nat.eq_zero_of_not_pos fun hpos => absurd (h.pos hpos) (by simp [hdigits])
    rw [hzero, zero]
  next hdigits =>
  have hone : (1 : ℚ) ≤ digits := by exact_mod_cast Nat.one_le_iff_ne_zero.2 hdigits
  split
  · next hlarge =>
    have hpast : (2 : ℚ) ^ 1024 < digits * 10 ^ exponent := calc
      (2 : ℚ) ^ 1024 < 10 ^ (310 : Int) := by
        have hpow : 2 ^ 1024 < 10 ^ 310 := by decide +kernel
        exact_mod_cast hpow
      _ ≤ 10 ^ exponent := zpow_le_zpow_right₀ (by norm_num) hlarge.le
      _ ≤ digits * 10 ^ exponent := le_mul_of_one_le_left (by positivity) hone
    exact absurd (h.le_high.trans (high_le hn)) (not_le_of_gt hpast)
  split
  · next hsmall =>
    have hzero : n = 0 := Nat.eq_zero_of_not_pos fun hpos =>
      absurd ((le_low hpos hn).trans h.low_le) (not_le_of_gt (decimal_lt hsmall))
    rw [hzero, zero]
  split
  · next hwhole =>
    have hvalue : ((digits * tenTo exponent.toNat : Nat) : ℚ) / (1 : Nat) = digits * 10 ^ exponent := by
      rw [tenTo_eq_pow]
      push_cast
      rw [div_one, ← zpow_natCast, Int.toNat_of_nonneg hwhole]
    rw [round, roundBits_of_isNear (by decide) hn (hvalue ▸ h)]
  · next hfraction =>
    have hvalue : (digits : ℚ) / (tenTo (-exponent).toNat : Nat) = digits * 10 ^ exponent := by
      rw [tenTo_eq_pow]
      push_cast
      rw [← zpow_natCast, Int.toNat_of_nonneg (by omega), zpow_neg, div_inv_eq_mul]
    rw [round, roundBits_of_isNear (tenTo_pos _) hn (hvalue ▸ h)]

theorem ofMagnitude_magnitudeBits (x : Binary64) : ofMagnitude x.isNegative x.magnitudeBits = x := by
  have hx := x.bits.toNat_lt
  obtain ⟨bits⟩ := x
  rw [ofMagnitude, mk.injEq, ← UInt64.toNat_inj, UInt64.toNat_ofNat']
  unfold isNegative magnitudeBits signBit
  dsimp only at hx ⊢
  split
  · next h =>
    rw [decide_eq_true_eq] at h
    omega
  · next h =>
    rw [decide_eq_true_eq] at h
    omega

theorem magnitudeBits_ofMagnitude (negative : Bool) {n : Nat} (h : n < signBit) :
    (ofMagnitude negative n).magnitudeBits = n := by
  unfold signBit at h
  unfold magnitudeBits ofMagnitude signBit
  cases negative <;> simp [UInt64.toNat_ofNat'] <;> omega

/-- The half place around the greatest finite magnitude ends beyond every machine word. -/
theorem two_pow_le_high : (2 : ℚ) ^ 64 ≤ high (infinityBits - 1) := by
  have hparts : partsOf (infinityBits - 1) = (2 * block - 1, 971) := rfl
  have hone : (1 : ℚ) ≤ (4 * (2 * block - 1) + 2 : Nat) := by exact_mod_cast (by decide : 1 ≤ 4 * (2 * block - 1) + 2)
  rw [high, hparts]
  calc (2 : ℚ) ^ 64 = 2 ^ (64 : Int) := by norm_num
    _ ≤ 2 ^ (971 - 2 : Int) := zpow_le_zpow_right₀ (by norm_num) (by norm_num)
    _ ≤ (4 * (2 * block - 1) + 2 : Nat) * 2 ^ (971 - 2 : Int) := le_mul_of_one_le_left (by positivity) hone

/-- The double nearest to a machine word is finite. -/
theorem isFinite_ofInt {i : Int} (h : i.natAbs < 2 ^ 64) : (ofInt i).isFinite := by
  have hfinite : roundBits i.natAbs 1 < infinityBits := by
    rcases Nat.eq_zero_or_pos i.natAbs with hzero | hpos
    · rw [hzero]
      decide
    · obtain ⟨w, hw, hnear⟩ := exists_isNear_roundBits hpos Nat.one_pos
      have hlow := hnear.low_le
      rw [hw, min_lt_iff, or_iff_right (lt_irrefl _)]
      refine not_le.1 fun hbeyond => ?_
      have hhigh := (high_le_low (Nat.lt_of_lt_of_le (by decide : infinityBits - 1 < infinityBits) hbeyond)).1
      have hword : (i.natAbs : ℚ) < 2 ^ 64 := by exact_mod_cast h
      rw [Nat.cast_one, div_one] at hlow
      exact absurd (two_pow_le_high.trans (hhigh.trans hlow)) hword.not_ge
  rw [isFinite, ofInt, round, magnitudeBits_ofMagnitude _ (hfinite.trans (by decide)), decide_eq_true_eq]
  exact hfinite

theorem isNear_zero : IsNear 0 0 := by
  refine ⟨?_, ?_, by decide⟩
  · rw [low, partsOf, if_pos (by decide)]
    simp [lowQuarters]
  · rw [high]
    positivity

end Binary64

open Binary64

/-- What is within half a place of a finite magnitude has it as its nearest one. -/
theorem Literal.nearest_of_isNear {l : Literal} {n : Nat} (hn : n < infinityBits) (h : IsNear n l.value) :
    l.nearest = ofMagnitude l.negative n :=
  ofDecimal_of_isNear l.negative hn h

/-- A double is read back from the text of its shortest digits. -/
theorem Binary64.nearest_of_write {layout : Layout} (hsigned : layout.signedZero) (tie : Decimal.Tie) {x : Binary64}
    (hx : x.isFinite) :
    ∃ l, Literal.read? (layout.write (Decimal.shortest tie) x).toList = some l ∧ l.nearest = x := by
  obtain ⟨l, hread, hsign, hvalue⟩ := Layout.read?_write hsigned (Decimal.shortest tie) x
  have hfinite : x.magnitudeBits < infinityBits := by simpa [isFinite] using hx
  have hnear : IsNear x.magnitudeBits l.value := by
    rw [hvalue]
    cases hzero : x.isZero with
    | false => exact Decimal.isNear_shortest tie hx hzero
    | true =>
      rw [isZero, decide_eq_true_eq] at hzero
      rw [Decimal.shortest, parts_eq, hzero]
      have hvalue : Decimal.value ⟨0, 0⟩ = 0 := by simp [Decimal.value]
      exact hvalue ▸ isNear_zero
  exact ⟨l, hread, by rw [Literal.nearest_of_isNear hfinite hnear, hsign, ofMagnitude_magnitudeBits]⟩

end RecordQuery
