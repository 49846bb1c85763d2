/-
Rounding looks at the quotient only: `quotientMagnitude` is the same for all ways of writing one
quotient, it gives back the magnitude of a double for that double's exact value, and the tests that
settle very small and very large decimals agree with it. So a decimal may be moved between digits and
exponent, and the shortest decimal of a double, which is a grid point that was tested or the exact
value, rounds to the double.
-/
import JsonSieve.Double.Notation
import Mathlib.Algebra.Order.Floor.Semifield
import Mathlib.Data.Int.Log
import Mathlib.Data.Rat.Floor
import Mathlib.Tactic.FieldSimp
import Mathlib.Tactic.Linarith
import Mathlib.Tactic.NormNum
import Mathlib.Tactic.Positivity
import Mathlib.Tactic.Ring

namespace JsonSieve.Double

/-! ## Whole quotients -/

theorem roundDiv_mul_left {k : Nat} (hk : 0 < k) (num den : Nat) :
    roundDiv (k * num) (k * den) = roundDiv num den := by
  have htwice : 2 * (k * (num % den)) = k * (2 * (num % den)) := by ring
  unfold roundDiv
  simp only [Nat.mul_div_mul_left _ _ hk, Nat.mul_mod_mul_left, htwice, Nat.mul_lt_mul_left hk]

theorem roundDiv_congr {a b c d : Nat} (hb : 0 < b) (hd : 0 < d) (h : a * d = c * b) :
    roundDiv a b = roundDiv c d := by
  calc roundDiv a b = roundDiv (d * a) (d * b) := (roundDiv_mul_left hd a b).symm
    _ = roundDiv (b * c) (b * d) := by rw [Nat.mul_comm d a, h, Nat.mul_comm c b, Nat.mul_comm d b]
    _ = roundDiv c d := roundDiv_mul_left hb c d

theorem roundDiv_mul_right {d : Nat} (hd : 0 < d) (n : Nat) : roundDiv (n * d) d = n := by
  unfold roundDiv
  simp only [Nat.mul_div_cancel _ hd, Nat.mul_mod_left]
  rw [if_pos (by omega)]

theorem roundDiv_small {num den : Nat} (h : 2 * num < den) : roundDiv num den = 0 := by
  unfold roundDiv
  simp only [Nat.div_eq_of_lt (show num < den by omega), Nat.mod_eq_of_lt (show num < den by omega)]
  rw [if_pos h]

/-! ## Powers of two around a quotient -/

/-- An integer power as a quotient of natural ones. -/
theorem zpow_eq_div (b : ℚ) (e : Int) : b ^ e = b ^ e.toNat / b ^ (-e).toNat := by
  obtain ⟨n, rfl | rfl⟩ := Int.eq_nat_or_neg e
  · simp
  · simp

theorem two_zpow_pos (e : Int) : (0 : ℚ) < (2 : ℚ) ^ e := zpow_pos (by norm_num) e

/-- Powers of two that enclose a number give its logarithm. -/
theorem log_eq {r : ℚ} {t : Int} (h1 : (2 : ℚ) ^ t ≤ r) (h2 : r < (2 : ℚ) ^ (t + 1)) :
    Int.log 2 r = t := by
  have hr : 0 < r := lt_of_lt_of_le (two_zpow_pos t) h1
  have hle := (Int.zpow_le_iff_le_log (b := 2) (by decide) hr).1 (by exact_mod_cast h1)
  have hlt := (Int.lt_zpow_iff_log_lt (b := 2) (by decide) hr).1 (by exact_mod_cast h2)
  omega

theorem binaryExponent_eq {num den : Nat} (hnum : 0 < num) (hden : 0 < den) :
    binaryExponent num den = Int.log 2 ((num : ℚ) / den) := by
  have hd : (0 : ℚ) < den := by exact_mod_cast hden
  have n1 : (2 : ℚ) ^ num.log2 ≤ num := by exact_mod_cast Nat.log2_self_le (by omega)
  have n2 : (num : ℚ) < 2 ^ (num.log2 + 1) := by exact_mod_cast Nat.lt_log2_self
  have d1 : (2 : ℚ) ^ den.log2 ≤ den := by exact_mod_cast Nat.log2_self_le (by omega)
  have d2 : (den : ℚ) < 2 ^ (den.log2 + 1) := by exact_mod_cast Nat.lt_log2_self
  unfold binaryExponent
  dsimp only
  generalize num.log2 = k at n1 n2
  generalize den.log2 = l at d1 d2
  have hlow : (2 : ℚ) ^ ((k : Int) - l - 1) ≤ (num : ℚ) / den := by
    rw [show (k : Int) - l - 1 = (k : Int) - ((l + 1 : Nat) : Int) by push_cast; ring,
      zpow_sub₀ (by norm_num), zpow_natCast, zpow_natCast, div_le_div_iff₀ (by positivity) hd]
    gcongr
  have hhigh : (num : ℚ) / den < (2 : ℚ) ^ ((k : Int) - l + 1) := by
    rw [show (k : Int) - l + 1 = ((k + 1 : Nat) : Int) - (l : Int) by push_cast; ring,
      zpow_sub₀ (by norm_num), zpow_natCast, zpow_natCast, div_lt_div_iff₀ hd (by positivity)]
    calc (num : ℚ) * 2 ^ l ≤ num * den := by gcongr
      _ < 2 ^ (k + 1) * den := by gcongr
  -- the test tells on which side of the power between the two bounds the quotient lies
  have htest : (2 : ℚ) ^ ((k : Int) - l) ≤ (num : ℚ) / den ↔
      den * Nat.pow 2 ((k : Int) - l).toNat ≤ num * Nat.pow 2 (-((k : Int) - l)).toNat := by
    rw [zpow_eq_div, div_le_div_iff₀ (by positivity) hd, mul_comm]
    exact_mod_cast Iff.rfl
  split
  · rename_i h
    exact (log_eq (htest.2 h) hhigh).symm
  · rename_i h
    refine (log_eq hlow ?_).symm
    rw [sub_add_cancel]
    exact not_le.1 fun hle => h (htest.1 hle)

/-- Less than half a unit is rounded to no unit. -/
theorem roundDiv_scaled {num den : Nat} (n : Nat) (hden : 0 < den)
    (h : (num : ℚ) / den < (2 : ℚ) ^ (-((n + 1 : Nat) : Int))) :
    roundDiv (num * Nat.pow 2 n) den = 0 := by
  refine roundDiv_small ?_
  rw [zpow_neg, zpow_natCast, div_lt_iff₀ (by exact_mod_cast hden),
    lt_inv_mul_iff₀ (by positivity)] at h
  have hlt : 2 ^ (n + 1) * num < den := by exact_mod_cast h
  calc 2 * (num * Nat.pow 2 n) = 2 ^ (n + 1) * num := by rw [Nat.pow_eq, Nat.pow_succ]; ring
    _ < den := hlt

/-! ## Magnitudes of quotients -/

/-- The magnitude of a quotient does not depend on how the quotient is written. -/
theorem quotientMagnitude_congr {a b c d : Nat} (ha : 0 < a) (hb : 0 < b) (hc : 0 < c) (hd : 0 < d)
    (h : a * d = c * b) : quotientMagnitude a b = quotientMagnitude c d := by
  have hb' : (b : ℚ) ≠ 0 := by exact_mod_cast hb.ne'
  have hd' : (d : ℚ) ≠ 0 := by exact_mod_cast hd.ne'
  have hvalue : (a : ℚ) / b = (c : ℚ) / d := (div_eq_div_iff hb' hd').2 (by exact_mod_cast h)
  have hlog : binaryExponent a b = binaryExponent c d := by
    rw [binaryExponent_eq ha hb, binaryExponent_eq hc hd, hvalue]
  unfold quotientMagnitude
  dsimp only
  rw [hlog]
  generalize max (binaryExponent c d - 52) (-1074) = unit
  have hround : roundDiv (a * Nat.pow 2 (-unit).toNat) (b * Nat.pow 2 unit.toNat) =
      roundDiv (c * Nat.pow 2 (-unit).toNat) (d * Nat.pow 2 unit.toNat) := by
    refine roundDiv_congr (Nat.mul_pos hb (Nat.pow_pos (by decide)))
      (Nat.mul_pos hd (Nat.pow_pos (by decide))) ?_
    calc a * Nat.pow 2 (-unit).toNat * (d * Nat.pow 2 unit.toNat)
        = a * d * (Nat.pow 2 (-unit).toNat * Nat.pow 2 unit.toNat) := by ring
      _ = c * b * (Nat.pow 2 (-unit).toNat * Nat.pow 2 unit.toNat) := by rw [h]
      _ = c * Nat.pow 2 (-unit).toNat * (b * Nat.pow 2 unit.toNat) := by ring
  rw [hround]

/-- A whole number of units is not rounded. -/
theorem quotientMagnitude_units {m : Nat} (hm : 0 < m) {q : Int}
    (hq : max (Int.log 2 ((m : ℚ) * (2 : ℚ) ^ q) - 52) (-1074) = q) :
    quotientMagnitude (m * Nat.pow 2 q.toNat) (Nat.pow 2 (-q).toNat) =
      min ((q + 1074).toNat * exponentWeight + m) infinityMagnitude := by
  have hnum : 0 < m * Nat.pow 2 q.toNat := Nat.mul_pos hm (Nat.pow_pos (by decide))
  have hden : 0 < Nat.pow 2 (-q).toNat := Nat.pow_pos (by decide)
  have hvalue : ((m * Nat.pow 2 q.toNat : Nat) : ℚ) / (Nat.pow 2 (-q).toNat : Nat) =
      (m : ℚ) * (2 : ℚ) ^ q := by
    rw [zpow_eq_div, ← mul_div_assoc]
    simp only [Nat.pow_eq, Nat.cast_mul, Nat.cast_pow, Nat.cast_ofNat]
  unfold quotientMagnitude
  dsimp only
  rw [binaryExponent_eq hnum hden, hvalue, hq]
  have hround : roundDiv (m * Nat.pow 2 q.toNat * Nat.pow 2 (-q).toNat)
      (Nat.pow 2 (-q).toNat * Nat.pow 2 q.toNat) = m := by
    rw [Nat.mul_assoc, Nat.mul_comm (Nat.pow 2 (-q).toNat)]
    exact roundDiv_mul_right (Nat.mul_pos (Nat.pow_pos (by decide)) hden) m
  rw [hround]

/-- A quotient below half the least double is rounded to zero. -/
theorem quotientMagnitude_tiny {num den : Nat} (hnum : 0 < num) (hden : 0 < den)
    (h : (num : ℚ) / den < (2 : ℚ) ^ (-1075 : Int)) : quotientMagnitude num den = 0 := by
  have hd : (0 : ℚ) < den := by exact_mod_cast hden
  have hr : (0 : ℚ) < (num : ℚ) / den := div_pos (by exact_mod_cast hnum) hd
  have hlog : Int.log 2 ((num : ℚ) / den) < -1075 :=
    (Int.lt_zpow_iff_log_lt (b := 2) (by decide) hr).1 (by exact_mod_cast h)
  unfold quotientMagnitude
  dsimp only
  rw [binaryExponent_eq hnum hden, max_eq_right (by omega)]
  rw [show den * Nat.pow 2 (-1074 : Int).toNat = den from Nat.mul_one den,
    roundDiv_scaled (-(-1074 : Int)).toNat hden h]
  rfl

/-- A quotient beyond the largest double is rounded to infinity. -/
theorem quotientMagnitude_huge {num den : Nat} (hnum : 0 < num) (hden : 0 < den)
    (h : (2 : ℚ) ^ (1025 : Int) ≤ (num : ℚ) / den) :
    quotientMagnitude num den = infinityMagnitude := by
  have hr : (0 : ℚ) < (num : ℚ) / den := lt_of_lt_of_le (two_zpow_pos _) h
  have hlog : 1025 ≤ Int.log 2 ((num : ℚ) / den) :=
    (Int.zpow_le_iff_le_log (b := 2) (by decide) hr).1 (by exact_mod_cast h)
  unfold quotientMagnitude
  dsimp only
  rw [binaryExponent_eq hnum hden, max_eq_left (by omega)]
  refine min_eq_right ?_
  have hexp : 0x7FF ≤ (Int.log 2 ((num : ℚ) / den) - 52 + 1074).toNat := by omega
  calc infinityMagnitude = 0x7FF * exponentWeight := rfl
    _ ≤ (Int.log 2 ((num : ℚ) / den) - 52 + 1074).toNat * exponentWeight := Nat.mul_le_mul_right _ hexp
    _ ≤ _ := Nat.le_add_right _ _

/-! ## Magnitudes of decimals -/

theorem decimalMagnitude_zero (exp : Int) : decimalMagnitude 0 exp = 0 := by
  rw [decimalMagnitude, if_pos (.inl rfl)]

/-- A decimal lies between the powers of two that its digits and eight to its exponent give. -/
theorem two_zpow_le_decimal {digits : Nat} (hd : 0 < digits) {exp : Int} (he : 0 ≤ exp) :
    (2 : ℚ) ^ ((digits.log2 : Int) + 3 * exp) ≤ digits * (10 : ℚ) ^ exp := by
  obtain ⟨n, rfl⟩ := Int.eq_ofNat_of_zero_le he
  have hlog : (2 : ℚ) ^ digits.log2 ≤ digits := by exact_mod_cast Nat.log2_self_le hd.ne'
  calc (2 : ℚ) ^ ((digits.log2 : Int) + 3 * (n : Int)) = 2 ^ digits.log2 * 8 ^ n := by
        rw [zpow_add₀ (by norm_num), zpow_natCast, zpow_mul, zpow_natCast]; norm_num
    _ ≤ digits * 10 ^ n := by gcongr; norm_num
    _ = digits * (10 : ℚ) ^ (n : Int) := by rw [zpow_natCast]

theorem decimal_lt_two_zpow {digits : Nat} {exp : Int} (he : exp ≤ 0) :
    digits * (10 : ℚ) ^ exp < (2 : ℚ) ^ ((digits.log2 : Int) + 1 + 3 * exp) := by
  obtain ⟨n, hn⟩ := Int.eq_ofNat_of_zero_le (show 0 ≤ -exp by omega)
  obtain rfl : exp = -(n : Int) := by omega
  have hlog : (digits : ℚ) < 2 ^ (digits.log2 + 1) := by exact_mod_cast Nat.lt_log2_self
  calc digits * (10 : ℚ) ^ (-(n : Int)) = digits / 10 ^ n := by
        rw [zpow_neg, zpow_natCast, div_eq_mul_inv]
    _ < 2 ^ (digits.log2 + 1) / 10 ^ n := by gcongr
    _ ≤ 2 ^ (digits.log2 + 1) / 8 ^ n := by gcongr; norm_num
    _ = (2 : ℚ) ^ ((digits.log2 : Int) + 1 + 3 * -(n : Int)) := by
        rw [zpow_add₀ (by norm_num), zpow_mul, zpow_neg, zpow_natCast, div_eq_mul_inv]
        norm_num
        rw [zpow_add_one₀ (by norm_num), zpow_natCast, pow_succ]

/-- The tests that settle small and large decimals agree with rounding the quotient. -/
theorem decimalMagnitude_eq {digits : Nat} (hd : 0 < digits) (exp : Int) :
    decimalMagnitude digits exp =
      quotientMagnitude (digits * Nat.pow 10 exp.toNat) (Nat.pow 10 (-exp).toNat) := by
  have hnum : 0 < digits * Nat.pow 10 exp.toNat := Nat.mul_pos hd (Nat.pow_pos (by decide))
  have hden : 0 < Nat.pow 10 (-exp).toNat := Nat.pow_pos (by decide)
  have hvalue : ((digits * Nat.pow 10 exp.toNat : Nat) : ℚ) / (Nat.pow 10 (-exp).toNat : Nat) =
      digits * (10 : ℚ) ^ exp := by
    rw [zpow_eq_div, ← mul_div_assoc]
    simp only [Nat.pow_eq, Nat.cast_mul, Nat.cast_pow, Nat.cast_ofNat]
  unfold decimalMagnitude
  split
  · rename_i h
    obtain h | ⟨hsmall, he⟩ := h
    · omega
    · refine (quotientMagnitude_tiny hnum hden ?_).symm
      rw [hvalue]
      calc digits * (10 : ℚ) ^ exp < (2 : ℚ) ^ ((digits.log2 : Int) + 1 + 3 * exp) :=
            decimal_lt_two_zpow he.le
        _ ≤ (2 : ℚ) ^ (-1075 : Int) := zpow_le_zpow_right₀ (by norm_num) (by omega)
  · split
    · rename_i h
      refine (quotientMagnitude_huge hnum hden ?_).symm
      rw [hvalue]
      calc (2 : ℚ) ^ (1025 : Int) ≤ (2 : ℚ) ^ ((digits.log2 : Int) + 3 * exp) :=
            zpow_le_zpow_right₀ (by norm_num) (by omega)
        _ ≤ digits * (10 : ℚ) ^ exp := two_zpow_le_decimal hd h.2.le
    · rfl

/-- Zeros may be moved from the end of the digits to the exponent. -/
theorem decimalMagnitude_shift (digits k : Nat) (exp : Int) :
    decimalMagnitude (digits * 10 ^ k) exp = decimalMagnitude digits (exp + k) := by
  obtain rfl | hd := Nat.eq_zero_or_pos digits
  · rw [Nat.zero_mul, decimalMagnitude_zero, decimalMagnitude_zero]
  · have hd' : 0 < digits * 10 ^ k := Nat.mul_pos hd (Nat.pow_pos (by decide))
    have hpow (n : Nat) : 0 < Nat.pow 10 n := Nat.pow_pos (by decide)
    rw [decimalMagnitude_eq hd', decimalMagnitude_eq hd]
    refine quotientMagnitude_congr (Nat.mul_pos hd' (hpow _)) (hpow _) (Nat.mul_pos hd (hpow _))
      (hpow _) ?_
    -- both sides have the same number of factors ten
    have hsum : k + exp.toNat + (-(exp + k)).toNat = (exp + k).toNat + (-exp).toNat := by omega
    calc digits * 10 ^ k * 10 ^ exp.toNat * 10 ^ (-(exp + k)).toNat
        = digits * 10 ^ (k + exp.toNat + (-(exp + k)).toNat) := by rw [pow_add, pow_add]; ring
      _ = digits * 10 ^ ((exp + k).toNat + (-exp).toNat) := by rw [hsum]
      _ = digits * 10 ^ (exp + k).toNat * 10 ^ (-exp).toNat := by rw [pow_add]; ring

/-! ## The decimal of a double -/

variable {x : Double}

theorem significand_pos (hz : x.magnitude ≠ 0) : 0 < x.significand := by
  have hW : exponentWeight = 2 ^ 52 := rfl
  unfold significand
  split <;> omega

/-- The leading bit of the significand carries into the exponent. -/
theorem scaled_exponent_add_significand (x : Double) :
    (x.exponent + 1074).toNat * exponentWeight + x.significand = x.magnitude := by
  unfold significand exponent
  split
  · rw [show (-1074 + 1074 : Int).toNat = 0 from rfl, Nat.zero_mul, Nat.zero_add]
  · have hdiv := Nat.div_add_mod x.magnitude exponentWeight
    have hpos : 1 ≤ x.magnitude / exponentWeight := by
      rw [Nat.le_div_iff_mul_le (by decide)]; omega
    have hle : exponentWeight ≤ exponentWeight * (x.magnitude / exponentWeight) :=
      Nat.le_mul_of_pos_right _ hpos
    have hexp : (((x.magnitude / exponentWeight : Nat) : Int) - 1075 + 1074).toNat =
        x.magnitude / exponentWeight - 1 := by omega
    rw [hexp, Nat.sub_mul, Nat.mul_comm _ exponentWeight, Nat.one_mul]
    omega

/-- The unit that rounding takes for the exact value of a double is that of its significand. -/
theorem unit_eq_exponent (hz : x.magnitude ≠ 0) :
    max (Int.log 2 ((x.significand : ℚ) * (2 : ℚ) ^ x.exponent) - 52) (-1074) = x.exponent := by
  have hW : exponentWeight = 2 ^ 52 := rfl
  unfold significand exponent
  split
  · rename_i hsmall
    have hm : (0 : ℚ) < x.magnitude := by exact_mod_cast Nat.pos_of_ne_zero hz
    have hmag : (x.magnitude : ℚ) < 2 ^ (52 : Int) := by
      rw [hW] at hsmall; exact_mod_cast hsmall
    have hlog : Int.log 2 ((x.magnitude : ℚ) * (2 : ℚ) ^ (-1074 : Int)) < -1022 := by
      refine (Int.lt_zpow_iff_log_lt (b := 2) (by decide) (mul_pos hm (two_zpow_pos _))).1 ?_
      calc (x.magnitude : ℚ) * (2 : ℚ) ^ (-1074 : Int)
          < 2 ^ (52 : Int) * (2 : ℚ) ^ (-1074 : Int) := mul_lt_mul_of_pos_right hmag (two_zpow_pos _)
        _ = ((2 : Nat) : ℚ) ^ (-1022 : Int) := by rw [← zpow_add₀ (by norm_num)]; norm_num
    exact max_eq_right (by omega)
  · rename_i hnormal
    have hpos : 1 ≤ x.magnitude / exponentWeight := by
      rw [Nat.le_div_iff_mul_le (by decide)]; omega
    have hmod : x.magnitude % exponentWeight < exponentWeight := Nat.mod_lt _ (by decide)
    generalize x.magnitude % exponentWeight = f at hmod
    generalize x.magnitude / exponentWeight = k at hpos
    have hlow : (2 : ℚ) ^ (52 : Int) ≤ (exponentWeight + f : Nat) := by
      have : 2 ^ 52 ≤ exponentWeight + f := by omega
      exact_mod_cast this
    have hhigh : ((exponentWeight + f : Nat) : ℚ) < (2 : ℚ) ^ (53 : Int) := by
      have : exponentWeight + f < 2 ^ 53 := by omega
      exact_mod_cast this
    have hlog : Int.log 2 (((exponentWeight + f : Nat) : ℚ) * (2 : ℚ) ^ ((k : Int) - 1075)) =
        52 + ((k : Int) - 1075) := by
      refine log_eq ?_ ?_
      · rw [zpow_add₀ (by norm_num)]
        exact mul_le_mul_of_nonneg_right hlow (two_zpow_pos _).le
      · rw [show 52 + ((k : Int) - 1075) + 1 = 53 + ((k : Int) - 1075) by ring,
          zpow_add₀ (by norm_num)]
        exact mul_lt_mul_of_pos_right hhigh (two_zpow_pos _)
    rw [hlog]
    omega

/-- The exact value of a finite double is rounded to the double. -/
theorem quotientMagnitude_quotient (hf : x.isFinite = true) (hz : x.magnitude ≠ 0) :
    quotientMagnitude (x.significand * Nat.pow 2 x.exponent.toNat) (Nat.pow 2 (-x.exponent).toNat) =
      x.magnitude := by
  have hlt : x.magnitude < infinityMagnitude := of_decide_eq_true hf
  rw [quotientMagnitude_units (significand_pos hz) (unit_eq_exponent hz),
    scaled_exponent_add_significand]
  exact min_eq_left_of_lt hlt

theorem exactDecimal_roundsTo (hf : x.isFinite = true) (hz : x.magnitude ≠ 0) :
    x.exactDecimal.roundsTo x = true := by
  have hm := significand_pos hz
  have hpow (b n : Nat) (hb : 0 < b) : 0 < Nat.pow b n := Nat.pow_pos hb
  have hexact := quotientMagnitude_quotient hf hz
  unfold exactDecimal Decimal.roundsTo
  split
  · rename_i he
    have h0 : (-x.exponent).toNat = 0 := by omega
    rw [h0] at hexact
    have hd : 0 < x.significand * Nat.pow 2 x.exponent.toNat := Nat.mul_pos hm (hpow _ _ (by decide))
    rw [beq_iff_eq, decimalMagnitude_eq hd, ← hexact]
    refine quotientMagnitude_congr (Nat.mul_pos hd (hpow _ _ (by decide))) (hpow _ _ (by decide)) hd
      (hpow _ _ (by decide)) ?_
    simp
  · rename_i he
    have hd : 0 < x.significand * Nat.pow 5 (-x.exponent).toNat :=
      Nat.mul_pos hm (hpow _ _ (by decide))
    have h0 : x.exponent.toNat = 0 := by omega
    rw [beq_iff_eq, decimalMagnitude_eq hd, ← hexact]
    refine quotientMagnitude_congr (Nat.mul_pos hd (hpow _ _ (by decide))) (hpow _ _ (by decide))
      (Nat.mul_pos hm (hpow _ _ (by decide))) (hpow _ _ (by decide)) ?_
    rw [h0]
    simp only [Nat.pow_eq, pow_zero, Nat.mul_one]
    rw [Nat.mul_assoc, ← Nat.mul_pow]

/-- The first of two decimals that rounds to a double. -/
theorem roundsTo_of_tested {near far d : Decimal}
    (h : (if near.roundsTo x then some near else if far.roundsTo x then some far else none) = some d) :
    d.roundsTo x = true := by
  split at h
  · rename_i hnear
    cases h; exact hnear
  · split at h
    · rename_i hfar
      cases h; exact hfar
    · cases h

theorem roundsTo_of_onGrid? {exp : Int} {d : Decimal} (h : x.onGrid? exp = some d) :
    d.roundsTo x = true := by
  unfold onGrid? at h
  exact roundsTo_of_tested h

/-- The shortest decimal of a finite double other than zero rounds to it. -/
theorem shortest_roundsTo (hf : x.isFinite = true) (hz : x.magnitude ≠ 0) :
    decimalMagnitude x.shortest.digits x.shortest.exp = x.magnitude := by
  have hrounds : x.shortest.roundsTo x = true := by
    unfold shortest
    dsimp only
    cases hfound : (List.range 17).findSome? fun (n : Nat) =>
        x.onGrid? (x.decimalExponent - 1 - (n : Int)) with
    | some d =>
      obtain ⟨n, -, hn⟩ := List.exists_of_findSome?_eq_some hfound
      exact roundsTo_of_onGrid? hn
    | none => exact exactDecimal_roundsTo hf hz
  exact beq_iff_eq.1 hrounds

end JsonSieve.Double
