/-
The text of a finite double is the text of a numeral, and that numeral denotes the double. Both ways of
laying digits out move the point or name an exponent and leave the decimal what it was up to zeros at
its end (`decimalMagnitude_shift`), and the decimal that is laid out rounds to the double
(`shortest_roundsTo`).
-/
import JsonSieve.Double.Notation
import JsonSieve.Proofs.Double.Rounding
import JsonSieve.Proofs.Json.Numeral

namespace JsonSieve.Double

open Json (Numeral)

/-! ## Digits without zeros at the end -/

/-- The digits of a decimal other than zero: there is one, and the first is no zero. -/
structure Leading (digits : Text) : Prop where
  ne_nil : digits ≠ []
  digit : ∀ c ∈ digits, c.isDigit = true
  head_ne : digits.head? ≠ some '0'

theorem Leading.length_pos {digits : Text} (h : Leading digits) : 0 < digits.length :=
  List.length_pos_of_ne_nil h.ne_nil

/-- A part of the digits from the first one on, with zeros after it. -/
theorem Leading.head?_take_append {digits : Text} (h : Leading digits) (n : Nat) (zeros : Text) :
    (digits.take (n + 1) ++ zeros).head? ≠ some '0' := by
  obtain ⟨c, cs, rfl⟩ := List.exists_cons_of_ne_nil h.ne_nil
  exact h.head_ne

variable {d : Decimal} {x : Double}

/-- A decimal without zeros at its end has the same magnitude. -/
theorem leading_spec (hd : 0 < d.digits) :
    Leading d.leading.1 ∧
      decimalMagnitude (Text.value d.leading.1) (d.leading.2 + 1 - d.leading.1.length) =
        decimalMagnitude d.digits d.exp := by
  obtain ⟨zeros, hsplit⟩ := Text.exists_replicate_zero (Text.ofNat d.digits)
  have hvalue := Text.value_ofNat d.digits
  have hdigit : ∀ c ∈ Text.ofNat d.digits, c.isDigit = true := fun c => Text.isDigit_of_mem_ofNat
  have hhead := Text.head?_ofNat_ne_zero hd
  have hlen := congrArg List.length hsplit
  unfold Decimal.leading
  dsimp only
  generalize ((Text.ofNat d.digits).reverse.dropWhile (· == '0')).reverse = digits at hsplit hlen ⊢
  rw [hsplit, Text.value_append, Text.value_replicate_zero, List.length_replicate, Nat.add_zero]
    at hvalue
  rw [hsplit] at hdigit hhead
  rw [List.length_append, List.length_replicate] at hlen
  -- there is a digit left, as zeros alone denote zero
  have hne : digits ≠ [] := by
    rintro rfl
    rw [show Text.value [] = 0 from rfl, Nat.zero_mul] at hvalue
    omega
  have hsome : digits.isEmpty = false := by simp [hne]
  simp only [hsome, Bool.false_eq_true, if_false]
  constructor
  · refine ⟨hne, fun c hc => hdigit c (List.mem_append_left _ hc), fun h => hhead ?_⟩
    rw [List.head?_append_of_ne_nil _ hne, h]
  · calc decimalMagnitude (Text.value digits)
          (d.exp + (Text.ofNat d.digits).length - 1 + 1 - digits.length)
        = decimalMagnitude (Text.value digits) (d.exp + zeros) := by
          congr 1; omega
      _ = decimalMagnitude d.digits d.exp := by rw [← decimalMagnitude_shift, hvalue]

theorem leading_shortest (hf : x.isFinite = true) (hz : x.magnitude ≠ 0) :
    Leading x.shortest.leading.1 ∧
      decimalMagnitude (Text.value x.shortest.leading.1)
        (x.shortest.leading.2 + 1 - x.shortest.leading.1.length) = x.magnitude := by
  have hrounds := shortest_roundsTo hf hz
  have hpos : 0 < x.shortest.digits := by
    refine Nat.pos_of_ne_zero fun h0 => hz ?_
    rw [← hrounds, h0, decimalMagnitude_zero]
  obtain ⟨hlead, hmag⟩ := leading_spec hpos
  exact ⟨hlead, hmag.trans hrounds⟩

/-! ## Laid out digits -/

/-- The numeral of digits laid out with a point. -/
def plainNumeral (negative : Bool) (digits : Text) (exp : Int) : Numeral :=
  if exp < 0 then ⟨negative, ['0'], some (List.replicate ((-exp).toNat - 1) '0' ++ digits), none⟩
  else
    let whole := exp.toNat + 1
    let fraction := digits.drop whole
    ⟨negative, digits.take whole ++ List.replicate (whole - digits.length) '0',
      some (if fraction.isEmpty then ['0'] else fraction), none⟩

/-- The numeral of digits laid out with an exponent. -/
def scientificNumeral (negative : Bool) (digits : Text) (exp : Int) : Numeral :=
  ⟨negative, digits.take 1, if digits.length ≤ 1 then none else some (digits.drop 1), some exp⟩

/-- The numeral of a finite double. -/
def numeral (x : Double) : Numeral :=
  if x.magnitude = 0 then ⟨x.negative, ['0'], some ['0'], none⟩
  else
    let (digits, exp) := x.shortest.leading
    if plainFrom ≤ exp ∧ exp ≤ plainTo then plainNumeral x.negative digits exp
    else scientificNumeral x.negative digits exp

/-- A text after a minus sign, if there is one. -/
def signed (negative : Bool) (s : Text) : Text :=
  if negative then '-' :: s else s

theorem text_eq_signed (n : Numeral) : n.text = signed n.negative
    (n.whole ++ (Numeral.fractionText n.fraction ++ Numeral.exponentText n.exponent)) := by
  obtain ⟨negative, whole, fraction, exponent⟩ := n
  cases negative <;> rfl

theorem plainNumeral_text (negative : Bool) (digits : Text) (exp : Int) :
    (plainNumeral negative digits exp).text = signed negative (layPlain digits exp) := by
  rw [text_eq_signed]
  unfold plainNumeral layPlain
  split
  · simp [Numeral.fractionText, Numeral.exponentText]
  · simp [Numeral.fractionText, Numeral.exponentText]

theorem scientificNumeral_text (negative : Bool) (digits : Text) (exp : Int) :
    (scientificNumeral negative digits exp).text = signed negative (layScientific digits exp) := by
  rw [text_eq_signed]
  unfold scientificNumeral layScientific
  split
  · simp [Numeral.fractionText, Numeral.exponentText]
  · simp [Numeral.fractionText, Numeral.exponentText]

/-- The text of a double is the text of its numeral. -/
theorem numeral_text (x : Double) : x.numeral.text = x.text := by
  have hsigned : x.text = signed x.negative x.magnitudeText := rfl
  rw [hsigned]
  unfold numeral magnitudeText
  split
  · cases x.negative <;> rfl
  · dsimp only
    split
    · exact plainNumeral_text ..
    · exact scientificNumeral_text ..

/-! ## What the numerals denote -/

/-- The magnitude that a numeral denotes. -/
def numeralMagnitude (n : Numeral) : Nat :=
  decimalMagnitude (Text.value (n.whole ++ n.fraction.getD []))
    (n.exponent.getD 0 - (n.fraction.getD []).length)

variable {digits : Text}

theorem plainNumeral_magnitude (hd : Leading digits) (negative : Bool) (exp : Int) :
    numeralMagnitude (plainNumeral negative digits exp) =
      decimalMagnitude (Text.value digits) (exp + 1 - digits.length) := by
  have hlen := hd.length_pos
  unfold plainNumeral numeralMagnitude
  split
  · rename_i hexp
    have hzero : Text.value (['0'] ++ (List.replicate ((-exp).toNat - 1) '0' ++ digits)) =
        Text.value digits := by
      rw [Text.value_append, Text.value_append, Text.value_replicate_zero,
        show Text.value ['0'] = 0 from rfl, Nat.zero_mul, Nat.zero_mul, Nat.zero_add, Nat.zero_add]
    simp only [Option.getD_some, Option.getD_none, hzero, List.length_append, List.length_replicate]
    congr 1
    omega
  · rename_i hexp
    dsimp only
    by_cases hwhole : digits.length ≤ exp.toNat + 1
    · -- all digits stand before the point, with zeros up to it
      have hvalue : Text.value (digits ++ List.replicate (exp.toNat + 1 - digits.length) '0' ++ ['0']) =
          Text.value digits * 10 ^ (exp.toNat + 1 - digits.length + 1) := by
        rw [List.append_assoc, show ['0'] = List.replicate 1 '0' from rfl,
          List.replicate_append_replicate, Text.value_append, Text.value_replicate_zero, List.length_replicate,
          Nat.add_zero]
      rw [List.drop_eq_nil_of_le hwhole, List.take_of_length_le hwhole]
      simp only [List.isEmpty_nil, if_true, Option.getD_some, Option.getD_none, hvalue,
        decimalMagnitude_shift, List.length_singleton]
      congr 1
      omega
    · have hnone : exp.toNat + 1 - digits.length = 0 := by omega
      have hsome : (digits.drop (exp.toNat + 1)).isEmpty = false := by
        simp; omega
      simp only [hnone, hsome, Bool.false_eq_true, if_false, List.replicate_zero, List.append_nil,
        Option.getD_some, Option.getD_none, List.take_append_drop, List.length_drop]
      congr 1
      omega

theorem scientificNumeral_magnitude (hd : Leading digits) (negative : Bool) (exp : Int) :
    numeralMagnitude (scientificNumeral negative digits exp) =
      decimalMagnitude (Text.value digits) (exp + 1 - digits.length) := by
  have hlen := hd.length_pos
  unfold scientificNumeral numeralMagnitude
  dsimp only
  split
  · rename_i hone
    simp only [Option.getD_none, Option.getD_some, List.append_nil, List.take_of_length_le hone,
      List.length_nil]
    congr 1
    omega
  · simp only [Option.getD_some, List.take_append_drop, List.length_drop]
    congr 1
    omega

/-- The numeral of a finite double denotes its magnitude. -/
theorem numeral_magnitude (hf : x.isFinite = true) : numeralMagnitude x.numeral = x.magnitude := by
  unfold numeral
  split
  · rename_i hzero
    rw [hzero]
    exact decimalMagnitude_zero (-1)
  · rename_i hne
    obtain ⟨hlead, hmag⟩ := leading_shortest hf hne
    dsimp only
    split
    · rw [plainNumeral_magnitude hlead, hmag]
    · rw [scientificNumeral_magnitude hlead, hmag]

/-! ## Reading back -/

theorem plainNumeral_wellFormed (hd : Leading digits) (negative : Bool) (exp : Int) :
    (plainNumeral negative digits exp).WellFormed := by
  have hzeros (n : Nat) : ∀ c ∈ List.replicate n '0', c.isDigit = true := by
    intro c hc
    rw [List.eq_of_mem_replicate hc]; decide
  unfold plainNumeral
  split
  · refine ⟨by simp, by simp, by simp, ?_⟩
    rintro fraction ⟨⟩
    refine ⟨by simp [hd.ne_nil], fun c hc => ?_⟩
    obtain hc | hc := List.mem_append.1 hc
    · exact hzeros _ c hc
    · exact hd.digit c hc
  · dsimp only
    refine ⟨by simp [hd.ne_nil], fun c hc => ?_, fun h => absurd h (hd.head?_take_append _ _), ?_⟩
    · obtain hc | hc := List.mem_append.1 hc
      · exact hd.digit c (List.mem_of_mem_take hc)
      · exact hzeros _ c hc
    · rintro fraction ⟨⟩
      split
      · exact ⟨by simp, by simp⟩
      · rename_i hne
        exact ⟨by simpa using hne, fun c hc => hd.digit c (List.mem_of_mem_drop hc)⟩

theorem scientificNumeral_wellFormed (hd : Leading digits) (negative : Bool) (exp : Int) :
    (scientificNumeral negative digits exp).WellFormed := by
  refine ⟨by simp [scientificNumeral, hd.ne_nil], fun c hc => hd.digit c (List.mem_of_mem_take hc),
    fun _ => List.length_take_le 1 digits, ?_⟩
  intro fraction hfraction
  unfold scientificNumeral at hfraction
  dsimp only at hfraction
  split at hfraction
  · cases hfraction
  · rename_i hlen
    cases hfraction
    exact ⟨List.ne_nil_of_length_pos (by rw [List.length_drop]; omega),
      fun c hc => hd.digit c (List.mem_of_mem_drop hc)⟩

theorem numeral_wellFormed (hf : x.isFinite = true) : x.numeral.WellFormed := by
  unfold numeral
  split
  · refine ⟨by simp, by simp, by simp, ?_⟩
    rintro fraction ⟨⟩
    exact ⟨by simp, by simp⟩
  · rename_i hne
    obtain ⟨hlead, -⟩ := leading_shortest hf hne
    dsimp only
    split
    · exact plainNumeral_wellFormed hlead ..
    · exact scientificNumeral_wellFormed hlead ..

theorem numeral_negative (x : Double) : x.numeral.negative = x.negative := by
  unfold numeral plainNumeral scientificNumeral
  dsimp only
  repeat' split
  all_goals rfl

/-- The text of a double has a point or an exponent. -/
theorem numeral_fraction_or_exponent (x : Double) :
    x.numeral.fraction ≠ none ∨ x.numeral.exponent ≠ none := by
  unfold numeral plainNumeral scientificNumeral
  dsimp only
  repeat' split
  all_goals simp

/-- A double is its sign and its magnitude. -/
theorem ofMagnitude_self (x : Double) : ofMagnitude x.negative x.magnitude = x := by
  have hlt : x.bits.toNat < 2 * signWeight := x.bits.toNat_lt
  have hnat : (if x.negative then signWeight + x.magnitude else x.magnitude) = x.bits.toNat := by
    unfold negative magnitude
    by_cases h : signWeight ≤ x.bits.toNat
    · rw [if_pos (decide_eq_true h), Nat.mod_eq_sub_mod h, Nat.mod_eq_of_lt (by omega)]
      omega
    · rw [if_neg (by simpa using h), Nat.mod_eq_of_lt (by omega)]
  rw [ofMagnitude, hnat, UInt64.ofNat_toNat]

/-- The double nearest to the numeral of a finite double is that double, bit by bit. -/
theorem nearest_numeral (hf : x.isFinite = true) : Json.Rounding.nearest x.numeral = x := by
  show ofDecimal _ _ _ = x
  rw [ofDecimal, numeral_negative]
  exact (congrArg (ofMagnitude x.negative) (numeral_magnitude hf)).trans (ofMagnitude_self x)

theorem numeral_number? {rounding : Json.Rounding} (hf : x.isFinite = true) (hx : rounding x.numeral = x) :
    x.numeral.number? rounding = some (.float x) := by
  have hfloat : x.numeral.float? rounding = some (.float x) := by
    simp only [Numeral.float?, hx, hf, if_true]
  unfold Numeral.number?
  split
  · rename_i hfraction hexponent
    obtain h | h := numeral_fraction_or_exponent x
    · exact absurd hfraction h
    · exact absurd hexponent h
  · exact hfloat

end JsonSieve.Double
