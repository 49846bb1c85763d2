/-
Whole numbers as doubles: a whole number is rounded to a finite double exactly if it is less than `overflow`, which
lies half a unit beyond the greatest double. Of its two neighbours the even one is taken, and that is no double any
more.
-/
import JsonSieve.Proofs.Double.Rounding

namespace JsonSieve.Double

/-! ## Bounds on rounded quotients -/

theorem le_roundDiv {num den bound : Nat} (hden : 0 < den) (h : bound * den ≤ num) : bound ≤ roundDiv num den := by
  have hq : bound ≤ num / den := (Nat.le_div_iff_mul_le hden).2 h
  unfold roundDiv
  dsimp only
  split_ifs
  all_goals omega

theorem roundDiv_le {num den bound : Nat} (h : num < bound * den) : roundDiv num den ≤ bound := by
  have hq : num / den < bound := Nat.div_lt_of_lt_mul (by rwa [Nat.mul_comm])
  unfold roundDiv
  dsimp only
  split_ifs
  all_goals omega

/-- An odd number is reached from below until half a unit above it; the half goes to the next number, which is
even. -/
theorem roundDiv_le_odd_iff {num den m : Nat} (hden : 0 < den) (hodd : m % 2 = 1) :
    roundDiv num den ≤ m ↔ 2 * num < (2 * m + 1) * den := by
  have hsplit := Nat.div_add_mod num den
  have hrest := Nat.mod_lt num hden
  have hbound : (2 * m + 1) * den = 2 * (den * m) + den := by ring
  unfold roundDiv
  dsimp only
  generalize num / den = q at hsplit ⊢
  generalize num % den = r at hsplit hrest ⊢
  obtain hlt | rfl | hgt := Nat.lt_trichotomy q m
  · have hmul : den * q + den ≤ den * m := Nat.mul_succ den q ▸ Nat.mul_le_mul_left den hlt
    constructor
    · intro _; omega
    · intro _; split_ifs <;> omega
  · split_ifs <;> omega
  · have hmul : den * m + den ≤ den * q := Nat.mul_succ den m ▸ Nat.mul_le_mul_left den hgt
    constructor
    · intro h; split_ifs at h <;> omega
    · intro _; omega

/-! ## Magnitudes of whole numbers -/

variable {n : Nat}

theorem binaryExponent_nat (hn : 0 < n) : binaryExponent n 1 = n.log2 := by
  have hlow : 2 ^ n.log2 ≤ n := Nat.log2_self_le (by omega)
  unfold binaryExponent
  rw [show Nat.log2 1 = 0 by decide]
  simpa using hlow

/-- The significand of a whole number in units of the last of its 53 leading bits, before the carry. -/
def wholeSignificand (n : Nat) : Nat :=
  roundDiv (n * 2 ^ (52 - n.log2)) (2 ^ (n.log2 - 52))

theorem quotientMagnitude_nat (hn : 0 < n) :
    quotientMagnitude n 1 = min ((n.log2 + 1022) * exponentWeight + wholeSignificand n) infinityMagnitude := by
  have hunit : max ((n.log2 : Int) - 52) (-1074) = n.log2 - 52 := by omega
  have hneg : (-((n.log2 : Int) - 52)).toNat = 52 - n.log2 := by omega
  have hpos : ((n.log2 : Int) - 52).toNat = n.log2 - 52 := by omega
  have hscale : ((n.log2 : Int) - 52 + 1074).toNat = n.log2 + 1022 := by omega
  unfold quotientMagnitude wholeSignificand
  simp only [binaryExponent_nat hn, hunit, hneg, hpos, hscale, Nat.one_mul, Nat.pow_eq]

/-- The leading bit of the significand is set; rounding may carry beyond it. -/
theorem wholeSignificand_bounds (hn : 0 < n) :
    2 ^ 52 ≤ wholeSignificand n ∧ wholeSignificand n ≤ 2 ^ 53 := by
  have hlow : 2 ^ n.log2 ≤ n := Nat.log2_self_le (by omega)
  have hhigh : n < 2 ^ (n.log2 + 1) := Nat.lt_log2_self
  have hshift (a : Nat) (ha : 52 ≤ a) (k : Nat) (hk : k = n.log2 + (a - 52)) :
      2 ^ k * 2 ^ (52 - n.log2) = 2 ^ a * 2 ^ (n.log2 - 52) := by
    rw [← Nat.pow_add, ← Nat.pow_add]
    congr 1
    omega
  constructor
  · refine le_roundDiv (Nat.pow_pos (by decide)) ?_
    rw [← hshift 52 (by omega) n.log2 (by omega)]
    exact Nat.mul_le_mul_right _ hlow
  · refine roundDiv_le ?_
    rw [← hshift 53 (by omega) (n.log2 + 1) (by omega)]
    exact Nat.mul_lt_mul_of_pos_right hhigh (Nat.pow_pos (by decide))

/-- The least whole number that is rounded to infinity, half a unit beyond the greatest double
`(2 ^ 53 - 1) * 2 ^ 971`. -/
def overflow : Nat :=
  (2 ^ 54 - 1) * 2 ^ 970

/-- Numbers of 64 bits are far from too large. -/
theorem size_le_overflow : UInt64.size ≤ overflow := by
  decide +kernel

/-- Below `2 ^ 1023` the exponent leaves room for a carry, and from `2 ^ 1024` on it is too large. Between the two
the number is finite just if the carry does not come about, that is, if it is less than half a unit beyond the
greatest significand, which is odd. -/
theorem quotientMagnitude_nat_lt_iff (hn : 0 < n) : quotientMagnitude n 1 < infinityMagnitude ↔ n < overflow := by
  obtain ⟨hlow, hhigh⟩ := wholeSignificand_bounds hn
  have hinf : infinityMagnitude = 2047 * 2 ^ 52 := rfl
  have hweight : exponentWeight = 2 ^ 52 := rfl
  have hpower (k : Nat) : n.log2 < k ↔ n < 2 ^ k := Nat.log2_lt (by omega)
  have hlast (h : n.log2 = 1023) : wholeSignificand n ≤ 2 ^ 53 - 1 ↔ 2 * n < (2 * (2 ^ 53 - 1) + 1) * 2 ^ 971 := by
    have hvalue : wholeSignificand n = roundDiv n (2 ^ 971) := by
      rw [wholeSignificand, h, Nat.sub_eq_zero_of_le (by decide), Nat.pow_zero, Nat.mul_one]
    rw [hvalue]
    exact roundDiv_le_odd_iff (by positivity) rfl
  -- all powers in question are multiples of the half unit
  have hmultiple (k : Nat) : 2 ^ (k + 970) = 2 ^ k * 2 ^ 970 := pow_add 2 k 970
  have hbelow := hpower (53 + 970)
  have habove := hpower (54 + 970)
  have hunit := hmultiple 1
  rw [hmultiple] at hbelow habove
  simp only [Nat.reduceAdd] at hbelow habove hunit
  rw [hunit] at hlast
  unfold overflow
  generalize 2 ^ 970 = half at *
  rw [quotientMagnitude_nat hn, min_lt_iff, or_iff_left (lt_irrefl _), hinf, hweight]
  obtain hsmall | heq | hlarge := Nat.lt_trichotomy n.log2 1023
  · have hlt := hbelow.1 hsmall
    constructor
    · intro _; omega
    · intro _; omega
  · have hcarry := hlast heq
    constructor
    · intro h; omega
    · intro h; omega
  · have hge : ¬ n < 2 ^ 54 * half := fun h => absurd (habove.2 h) (by omega)
    constructor
    · intro h; omega
    · intro h; omega

/-! ## Finite doubles -/

theorem magnitude_ofMagnitude {m : Nat} (negative : Bool) (h : m < signWeight) :
    (ofMagnitude negative m).magnitude = m := by
  have hsize : signWeight + signWeight = UInt64.size := by decide
  have hbits : (if negative then signWeight + m else m) < UInt64.size := by split <;> omega
  show (UInt64.ofNat _).toNat % signWeight = m
  rw [UInt64.toNat_ofNat_of_lt' hbits]
  split
  · rw [Nat.add_mod_left, Nat.mod_eq_of_lt h]
  · exact Nat.mod_eq_of_lt h

/-- A whole number, with a sign or none, is rounded to a finite double if it is small enough for one, and otherwise
to infinity. -/
theorem isFinite_ofNat_iff (negative : Bool) (n : Nat) :
    (ofDecimal negative n 0).isFinite = true ↔ n < overflow := by
  have hinf : infinityMagnitude < signWeight := by decide
  obtain rfl | hn := Nat.eq_zero_or_pos n
  · rw [ofDecimal, decimalMagnitude_zero, isFinite, magnitude_ofMagnitude negative (by decide)]
    exact iff_of_true (by decide) (Nat.mul_pos (by decide) (by positivity))
  · have hmagnitude : decimalMagnitude n 0 = quotientMagnitude n 1 := by
      rw [decimalMagnitude_eq hn]
      simp
    have hle : quotientMagnitude n 1 ≤ infinityMagnitude := Nat.min_le_right _ _
    rw [ofDecimal, hmagnitude, isFinite, magnitude_ofMagnitude negative (by omega), decide_eq_true_iff]
    exact quotientMagnitude_nat_lt_iff hn

end JsonSieve.Double
