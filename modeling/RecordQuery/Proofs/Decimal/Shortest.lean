import Mathlib.Algebra.Order.Field.Power
import Mathlib.Tactic.Linarith
import Mathlib.Tactic.NormNum
import Mathlib.Tactic.Positivity
import Mathlib.Tactic.Ring
import RecordQuery.Decimal.Shortest
/-!
# Shortest digits

The shortest digits of a double lie within half a place of it (`Decimal.isNear_shortest`), and what lies within half
a place of a double does so of no other one (`Binary64.eq_of_isNear`). So doubles of one sign are told apart by the
values of their shortest digits.

A magnitude is counted by its word. The half places of two neighbouring words meet in one point, which belongs to
the word that is even.
-/

namespace RecordQuery

theorem twoTo_eq_pow (n : Nat) : twoTo n = 2 ^ n := rfl

theorem tenTo_eq_pow (n : Nat) : tenTo n = 10 ^ n := rfl

/-- A power with an exponent of either sign. -/
theorem pow_toNat {b : ℚ} (hb : b ≠ 0) (z : ℤ) : b ^ z.toNat = b ^ z * b ^ (-z).toNat := by
  rw [← zpow_natCast, ← zpow_natCast, ← zpow_add₀ hb]
  congr 1
  omega

namespace Binary64

/-! ## Half places -/

/-- The significand and the exponent of the magnitude of a word. -/
def partsOf (n : Nat) : Nat × Int :=
  if n / block = 0 then (n % block, -1074) else (block + n % block, Int.ofNat (n / block) - 1075)

theorem parts_eq (x : Binary64) : x.parts = partsOf x.magnitudeBits := rfl

/-- The lower end of the half place around a magnitude, in quarters of its place. -/
def lowQuarters (m : Nat) (q : Int) : Nat := if m = block && -1074 < q then 4 * m - 1 else 4 * m - 2

/-- The lower end of the half place around the magnitude of a word. -/
def low (n : Nat) : ℚ := lowQuarters (partsOf n).1 (partsOf n).2 * 2 ^ ((partsOf n).2 - 2)

/-- The upper end of the half place around the magnitude of a word. -/
def high (n : Nat) : ℚ := (4 * (partsOf n).1 + 2 : Nat) * 2 ^ ((partsOf n).2 - 2)

/-- Whether a value is within half a place of the magnitude of a word. The ends belong to an even word. -/
structure IsNear (n : Nat) (v : ℚ) : Prop where
  low_le : low n ≤ v
  le_high : v ≤ high n
  inside : n % 2 = 1 → low n < v ∧ v < high n

theorem fst_partsOf_mod_two (n : Nat) : (partsOf n).1 % 2 = n % 2 := by
  unfold partsOf block
  split <;> dsimp only <;> omega

theorem fst_partsOf_lt (n : Nat) : (partsOf n).1 < 2 * block := by
  unfold partsOf block
  split <;> dsimp only <;> omega

theorem fst_partsOf_pos {n : Nat} (h : 0 < n) : 0 < (partsOf n).1 := by
  unfold partsOf block
  split <;> dsimp only <;> omega

theorem snd_partsOf {n : Nat} (h : n < infinityBits) : -1074 ≤ (partsOf n).2 ∧ (partsOf n).2 ≤ 971 := by
  unfold infinityBits block at h
  unfold partsOf block
  split <;> dsimp only [Int.ofNat_eq_natCast] <;> omega

/-- The next magnitude is one place further, and at the end of a block the place is twice as wide from there. -/
theorem partsOf_succ (n : Nat) :
    (partsOf (n + 1)).1 = (partsOf n).1 + 1 ∧ (partsOf (n + 1)).2 = (partsOf n).2 ∧
        ¬ ((partsOf (n + 1)).1 = block ∧ -1074 < (partsOf (n + 1)).2) ∨
      (partsOf n).1 = 2 * block - 1 ∧ (partsOf (n + 1)).1 = block ∧
        (partsOf (n + 1)).2 = (partsOf n).2 + 1 ∧ -1074 < (partsOf (n + 1)).2 := by
  unfold partsOf block
  split <;> split <;> dsimp only [Int.ofNat_eq_natCast] <;> omega

/-- Half places of neighbours meet. -/
theorem high_eq_low_succ (n : Nat) : high n = low (n + 1) := by
  unfold high low lowQuarters
  rcases partsOf_succ n with ⟨hm, hq, hregular⟩ | ⟨hm, hm', hq, hlow⟩
  · rw [if_neg (by simpa using hregular), hm, hq]
    rfl
  · rw [if_pos (by simp [hm', hlow]), hm, hm', hq, show (partsOf n).2 + 1 - 2 = (partsOf n).2 - 2 + 1 by ring,
      zpow_add_one₀ (by norm_num)]
    unfold block
    push_cast
    ring

theorem low_lt_high {n : Nat} (h : 0 < n) : low n < high n := by
  unfold low high
  have hm := fst_partsOf_pos h
  have hquarters : lowQuarters (partsOf n).1 (partsOf n).2 < 4 * (partsOf n).1 + 2 := by
    unfold lowQuarters
    split <;> omega
  exact mul_lt_mul_of_pos_right (by exact_mod_cast hquarters) (zpow_pos (by norm_num) _)

theorem low_pos {n : Nat} (h : 0 < n) : 0 < low n := by
  unfold low
  have hm := fst_partsOf_pos h
  have hquarters : 0 < lowQuarters (partsOf n).1 (partsOf n).2 := by
    unfold lowQuarters
    split <;> omega
  positivity

/-- Half places follow each other as their words do. -/
theorem high_le_low {n n' : Nat} (h : n < n') : high n ≤ low n' ∧ (n + 1 < n' → high n < low n') := by
  induction n', h using Nat.le_induction with
  | base => exact ⟨(high_eq_low_succ n).le, fun h => absurd h (lt_irrefl _)⟩
  | succ n' hn' ih =>
    have hnext : high n < low (n' + 1) := by
      calc high n ≤ low n' := ih.1
        _ < high n' := low_lt_high (Nat.lt_of_lt_of_le n.succ_pos hn')
        _ = low (n' + 1) := high_eq_low_succ n'
    exact ⟨hnext.le, fun _ => hnext⟩

/-- A value within half a place of a magnitude is so of no greater one. -/
theorem not_isNear_of_lt {n n' : Nat} {v : ℚ} (h : IsNear n v) (hlt : n < n') : ¬ IsNear n' v := by
  intro h'
  obtain ⟨hle, hgap⟩ := high_le_low hlt
  have hadjacent : n' = n + 1 := by
    by_contra hne
    exact absurd (h.le_high.trans_lt (hgap (by omega))) (not_lt_of_ge h'.low_le)
  -- The point where neighbours meet belongs to the even one only.
  rcases Nat.mod_two_eq_zero_or_one n with heven | hodd
  · exact absurd ((h'.inside (by omega)).1) (not_lt_of_ge (h.le_high.trans hle))
  · exact absurd ((h.inside hodd).2) (not_lt_of_ge (hle.trans h'.low_le))

/-- A value is within half a place of one magnitude at most. -/
theorem eq_of_isNear {n n' : Nat} {v : ℚ} (h : IsNear n v) (h' : IsNear n' v) : n = n' := by
  rcases lt_trichotomy n n' with hlt | heq | hgt
  · exact absurd h' (not_isNear_of_lt h hlt)
  · exact heq
  · exact absurd h (not_isNear_of_lt h' hgt)

theorem IsNear.pos {n : Nat} {v : ℚ} (h : IsNear n v) (hn : 0 < n) : 0 < v :=
  (low_pos hn).trans_le h.low_le

end Binary64

namespace Decimal

open Binary64

variable {tie : Tie} {m n d : Nat} {q k : Int}

/-- The value of a decimal. -/
def value (d : Decimal) : ℚ := d.digits * 10 ^ d.exponent

/-! ## Points of a grid -/

/-- The two units are a quarter of the place and the step, brought to one denominator. -/
theorem units_eq (q k : Int) : ∃ c : ℚ, 0 < c ∧ ((units q k).1 : ℚ) = 2 ^ (q - 2) * c ∧
    ((units q k).2 : ℚ) = 10 ^ k * c := by
  refine ⟨2 ^ (2 - q).toNat * 10 ^ (-k).toNat, by positivity, ?_, ?_⟩
  · have htwo := pow_toNat (b := 2) (by norm_num) (q - 2)
    rw [neg_sub] at htwo
    simp only [units, twoTo_eq_pow, tenTo_eq_pow]
    push_cast
    rw [htwo]
    ring
  · have hten := pow_toNat (b := 10) (by norm_num) k
    simp only [units, twoTo_eq_pow, tenTo_eq_pow]
    push_cast
    rw [hten]
    ring

/-- Quarters and points are compared by their values. -/
theorem le_units_iff (a d : Nat) (q k : Int) :
    (a * (units q k).1 ≤ d * (units q k).2 ↔ (a : ℚ) * 2 ^ (q - 2) ≤ d * 10 ^ k) ∧
      (d * (units q k).2 ≤ a * (units q k).1 ↔ (d : ℚ) * 10 ^ k ≤ a * 2 ^ (q - 2)) := by
  obtain ⟨c, hc, hquarter, hstep⟩ := units_eq q k
  rw [← Nat.cast_le (α := ℚ), ← Nat.cast_le (α := ℚ)]
  push_cast
  rw [hquarter, hstep, ← mul_assoc, ← mul_assoc, mul_le_mul_iff_left₀ hc, mul_le_mul_iff_left₀ hc]
  exact ⟨Iff.rfl, Iff.rfl⟩

/-- A point that reads back is within half a place. -/
theorem isNear_of_readsBack (h : readsBack (partsOf n).1 (partsOf n).2 k d) : IsNear n (value ⟨d, k⟩) := by
  have hparity := fst_partsOf_mod_two n
  have hhigh := le_units_iff (4 * (partsOf n).1 + 2) d (partsOf n).2 k
  have hlow := le_units_iff (lowQuarters (partsOf n).1 (partsOf n).2) d (partsOf n).2 k
  rw [readsBack] at h
  dsimp only at h
  rw [← lowQuarters] at h
  split at h
  · next heven =>
    simp only [Bool.and_eq_true, decide_eq_true_eq] at h
    exact ⟨hlow.1.1 h.1, hhigh.2.1 h.2, fun hodd => by omega⟩
  · simp only [Bool.and_eq_true, decide_eq_true_eq] at h
    have hinside : low n < value ⟨d, k⟩ ∧ value ⟨d, k⟩ < high n :=
      ⟨lt_of_not_ge fun hge => absurd (hlow.2.2 hge) (not_le_of_gt h.1),
        lt_of_not_ge fun hge => absurd (hhigh.1.2 hge) (not_le_of_gt h.2)⟩
    exact ⟨hinside.1.le, hinside.2.le, fun _ => hinside⟩

/-- The number lies between the greatest point that does not pass it and the next one. -/
theorem below_le (m : Nat) (q k : Int) : (below m q k : ℚ) * 10 ^ k ≤ (4 * m : Nat) * 2 ^ (q - 2) ∧
    ((4 * m : Nat) : ℚ) * 2 ^ (q - 2) < (below m q k + 1) * 10 ^ k := by
  have hstep : 0 < (units q k).2 := Nat.mul_pos (tenTo_pos _) (twoTo_pos _)
  have hbelow := le_units_iff (4 * m) (below m q k) q k
  have habove := le_units_iff (4 * m) (below m q k + 1) q k
  refine ⟨hbelow.2.1 (Nat.div_mul_le_self _ _), lt_of_not_ge fun hge => ?_⟩
  push_cast at habove
  have hle := habove.2.2 (by exact_mod_cast hge)
  rw [← Nat.le_div_iff_mul_le hstep] at hle
  exact absurd hle (Nat.not_succ_le_self _)

/-! ## The search -/

theorem readsBack_of_hit? (h : hit? tie m q k = some d) : readsBack m q k d := by
  have hnearer : nearer tie m q k (below m q k) = below m q k ∨
      nearer tie m q k (below m q k) = below m q k + 1 := by
    unfold nearer
    dsimp only
    split
    · exact .inl rfl
    split
    · exact .inr rfl
    · cases tie with
      | even => rcases Nat.mod_two_eq_zero_or_one (below m q k) with h | h <;> simp [Tie.choose, h]
      | upper => exact .inr rfl
  unfold hit? at h
  dsimp only at h
  split at h
  · next hd hnext =>
    obtain rfl := Option.some.inj h
    rw [Bool.and_eq_true] at hd
    rcases hnearer with heq | heq <;> rw [heq]
    · exact hd.2
    · exact hnext
  · next hd hnext =>
    obtain rfl := Option.some.inj h
    rw [Bool.and_eq_true] at hd
    exact hd.2
  · next hnext =>
    obtain rfl := Option.some.inj h
    exact hnext
  · cases h

/-- A search ends with a point that reads back, or below the number on the last grid. -/
theorem search_cases (tie : Tie) (m : Nat) (q : Int) (steps : Nat) (k : Int) :
    (∃ d k', search tie m q steps k = ⟨d, k'⟩ ∧ readsBack m q k' d) ∨
      search tie m q steps k = ⟨below m q (k - steps), k - steps⟩ := by
  induction steps generalizing k with
  | zero => exact .inr (by simp [search])
  | succ steps ih =>
    rw [search]
    split
    · next d hd => exact .inl ⟨d, k, rfl, readsBack_of_hit? hd⟩
    · have hlast : k - (steps + 1 : Nat) = k - 1 - steps := by omega
      rw [hlast]
      exact ih (k - 1)

/-- The leading exponent is one that the number reaches, or the last that was tried. -/
theorem leading_cases (m : Nat) (q : Int) (steps : Nat) (k : Int) :
    below m q (leading m q steps k) ≠ 0 ∨ leading m q steps k = k - steps := by
  induction steps generalizing k with
  | zero => exact .inr (by simp [leading])
  | succ steps ih =>
    rw [leading]
    split
    · have hlast : k - (steps + 1 : Nat) = k - 1 - steps := by omega
      rw [hlast]
      exact ih (k - 1)
    · next h => exact .inl h

/-- The last exponent that is tried is small enough for every double. -/
theorem ten_zpow_le_two_zpow {l : Int} (hlow : -1074 ≤ l) (hhigh : l ≤ 1023) :
    (10 : ℚ) ^ (Int.fdiv ((l + 1) * 30103) 100000 + 1 - 4) ≤ 2 ^ l := by
  have htable : ∀ i < 2098, let l : Int := Int.ofNat i - 1074
      let e := Int.fdiv ((l + 1) * 30103) 100000 + 1 - 4
      10 ^ e.toNat * 2 ^ (-l).toNat ≤ 2 ^ l.toNat * 10 ^ (-e).toNat := by decide +kernel
  have hl : Int.ofNat (l + 1074).toNat - 1074 = l := by
    rw [Int.ofNat_eq_natCast]
    omega
  have h := htable (l + 1074).toNat (by omega)
  dsimp only at h
  rw [hl] at h
  generalize Int.fdiv ((l + 1) * 30103) 100000 + 1 - 4 = e at h ⊢
  have hcast : (10 : ℚ) ^ e.toNat * 2 ^ (-l).toNat ≤ 2 ^ l.toNat * 10 ^ (-e).toNat := by exact_mod_cast h
  rw [pow_toNat (by norm_num) e, pow_toNat (by norm_num) l] at hcast
  have hcommon : (0 : ℚ) < 10 ^ (-e).toNat * 2 ^ (-l).toNat := by positivity
  refine le_of_mul_le_mul_right ?_ hcommon
  linarith [hcast]

/-- The number reaches the power of ten of its leading exponent. -/
theorem ten_zpow_leadingExponent_le (hm : 0 < m) (hbound : m < 2 * block) (hq : -1074 ≤ q ∧ q ≤ 971) :
    (10 : ℚ) ^ leadingExponent m q ≤ (4 * m : Nat) * 2 ^ (q - 2) := by
  rw [leadingExponent]
  rcases leading_cases m q 4 (Int.fdiv ((Int.ofNat m.log2 + q + 1) * 30103) 100000 + 1) with h | h
  · generalize leading m q 4 _ = k at h ⊢
    have hone : (1 : ℚ) ≤ below m q k := by exact_mod_cast Nat.one_le_iff_ne_zero.2 h
    calc (10 : ℚ) ^ k = 1 * 10 ^ k := (one_mul _).symm
      _ ≤ below m q k * 10 ^ k := mul_le_mul_of_nonneg_right hone (by positivity)
      _ ≤ (4 * m : Nat) * 2 ^ (q - 2) := (below_le m q k).1
  · have hlog : m.log2 < 53 := (Nat.log2_lt hm.ne').2 (by unfold block at hbound; omega)
    have hpow : (2 : ℚ) ^ m.log2 ≤ m := by exact_mod_cast Nat.log2_self_le hm.ne'
    rw [h]
    calc (10 : ℚ) ^ (Int.fdiv ((Int.ofNat m.log2 + q + 1) * 30103) 100000 + 1 - (4 : Nat))
        ≤ 2 ^ (Int.ofNat m.log2 + q) :=
          ten_zpow_le_two_zpow (by rw [Int.ofNat_eq_natCast]; omega) (by rw [Int.ofNat_eq_natCast]; omega)
      _ = 2 ^ m.log2 * 2 ^ q := by rw [zpow_add₀ (by norm_num), Int.ofNat_eq_natCast, zpow_natCast]
      _ ≤ m * 2 ^ q := mul_le_mul_of_nonneg_right hpow (by positivity)
      _ = (4 * m : Nat) * 2 ^ (q - 2) := by
        rw [zpow_sub₀ (by norm_num)]
        push_cast
        ring

/-- Seventeen grids below the leading one, the greatest point that does not pass the number is near it. -/
theorem isNear_below (hn : 0 < n) (hfinite : n < infinityBits)
    (hk : k = leadingExponent (partsOf n).1 (partsOf n).2 - 17) :
    IsNear n (value ⟨below (partsOf n).1 (partsOf n).2 k, k⟩) := by
  have hm := fst_partsOf_pos hn
  have hbound := fst_partsOf_lt n
  have hleading := ten_zpow_leadingExponent_le hm hbound (snd_partsOf hfinite)
  rw [show leadingExponent (partsOf n).1 (partsOf n).2 = k + (17 : Nat) by omega, zpow_add₀ (by norm_num),
    zpow_natCast] at hleading
  obtain ⟨hle, hlt⟩ := below_le (partsOf n).1 (partsOf n).2 k
  have hquarters : lowQuarters (partsOf n).1 (partsOf n).2 + 1 ≤ 4 * (partsOf n).1 := by
    unfold lowQuarters
    split <;> omega
  have hplace : (0 : ℚ) < 2 ^ ((partsOf n).2 - 2) := by positivity
  have hquarters : (lowQuarters (partsOf n).1 (partsOf n).2 + 1 : ℚ) ≤ (4 * (partsOf n).1 : Nat) := by
    exact_mod_cast hquarters
  have hbound : ((4 * (partsOf n).1 : Nat) : ℚ) ≤ 2 ^ 55 := by
    unfold block at hbound
    exact_mod_cast (show 4 * (partsOf n).1 ≤ 2 ^ 55 by omega)
  have hvalue : value ⟨below (partsOf n).1 (partsOf n).2 k, k⟩ = below (partsOf n).1 (partsOf n).2 k * 10 ^ k := rfl
  have hhigh : high n = ((4 * (partsOf n).1 : Nat) + 2 : ℚ) * 2 ^ ((partsOf n).2 - 2) := by
    rw [high]
    push_cast
    rfl
  have hlow : low n = lowQuarters (partsOf n).1 (partsOf n).2 * 2 ^ ((partsOf n).2 - 2) := rfl
  generalize value ⟨below (partsOf n).1 (partsOf n).2 k, k⟩ = v at hvalue ⊢
  generalize (2 : ℚ) ^ ((partsOf n).2 - 2) = place at *
  generalize (10 : ℚ) ^ k = step at *
  generalize ((4 * (partsOf n).1 : Nat) : ℚ) = quarters at *
  -- The step is less than a quarter of the place.
  have hstep : step < place := by nlinarith
  have habove : low n < v := by rw [hlow, hvalue]; nlinarith
  have hbelow : v < high n := by rw [hhigh, hvalue]; nlinarith
  exact ⟨habove.le, hbelow.le, fun _ => ⟨habove, hbelow⟩⟩

/-- The shortest digits of a double lie within half a place of it. -/
theorem isNear_shortest (tie : Tie) {x : Binary64} (hx : x.isFinite) (hzero : x.isZero = false) :
    IsNear x.magnitudeBits (shortest tie x).value := by
  have hn : 0 < x.magnitudeBits := Nat.pos_of_ne_zero (by simpa [isZero] using hzero)
  have hfinite : x.magnitudeBits < infinityBits := by simpa [isFinite] using hx
  have hm := (fst_partsOf_pos hn).ne'
  rw [shortest, parts_eq]
  dsimp only
  rw [if_neg hm]
  rcases search_cases tie (partsOf x.magnitudeBits).1 (partsOf x.magnitudeBits).2 17
    (leadingExponent (partsOf x.magnitudeBits).1 (partsOf x.magnitudeBits).2) with ⟨d, k, heq, hreads⟩ | heq
  · rw [heq]
    exact isNear_of_readsBack hreads
  · rw [heq]
    exact isNear_below hn hfinite rfl

/-- Magnitudes are told apart by the values of their shortest digits. -/
theorem magnitudeBits_eq_of_shortest {x y : Binary64} (hx : x.isFinite) (hy : y.isFinite)
    (h : (shortest tie x).value = (shortest tie y).value) : x.magnitudeBits = y.magnitudeBits := by
  have hzero : ∀ z : Binary64, z.isZero = true → (shortest tie z).value = 0 := by
    intro z hz
    have hn : z.magnitudeBits = 0 := by simpa [isZero] using hz
    simp [shortest, parts_eq, hn, partsOf, value]
  have hpos : ∀ z : Binary64, z.isFinite → z.isZero = false → 0 < (shortest tie z).value := fun z hfinite hz =>
    (isNear_shortest tie hfinite hz).pos (Nat.pos_of_ne_zero (by simpa [isZero] using hz))
  cases hxz : x.isZero <;> cases hyz : y.isZero
  · exact eq_of_isNear (isNear_shortest tie hx hxz) (h ▸ isNear_shortest tie hy hyz)
  · exact absurd (h.trans (hzero y hyz)) (hpos x hx hxz).ne'
  · exact absurd (h.symm.trans (hzero x hxz)) (hpos y hy hyz).ne'
  · rw [isZero, decide_eq_true_eq] at hxz hyz
    rw [hxz, hyz]

end Decimal

end RecordQuery
