/-
Integers in documents. Every integer has one text, the printed one, but for zero, which has a second one with a minus
sign. Decoding keeps an integer of 64 bits with a sign, and it gives such an integer only for its printed text with
white space around it. Every other integer text, that of zero with a minus sign too, gives a double, or nothing where
the number is too large for one: no integer is ever wrapped.
-/
import JsonSieve.Proofs.Json.Decoded

namespace JsonSieve

/-! ## Integer texts -/

namespace Json

/-- An integer in a document: digits that denote its size, without a zero in front of another digit, after a minus
sign or without one. -/
inductive SpellsInteger : Text → Int → Prop
  | plain {digits : Text} {n : Nat} (h : Text.Denotes digits n) (hzero : digits.head? = some '0' → digits = ['0']) :
      SpellsInteger digits n
  | minus {digits : Text} {n : Nat} (h : Text.Denotes digits n) (hzero : digits.head? = some '0' → digits = ['0']) :
      SpellsInteger ('-' :: digits) (-n)

/-- The digits of a number without superfluous zeros are determined by it. -/
theorem eq_ofNat_of_denotes {digits : Text} {n : Nat} (h : Text.Denotes digits n)
    (hzero : digits.head? = some '0' → digits = ['0']) : digits = Text.ofNat n := by
  obtain ⟨hne, hdigits, rfl⟩ := Text.denotes_iff.1 h
  rw [Text.ofNat_value hdigits, Text.plainDigits_eq_self hne hzero]

theorem ofNat_zero_alone (n : Nat) (h : (Text.ofNat n).head? = some '0') : Text.ofNat n = ['0'] := by
  obtain rfl | hn := Nat.eq_zero_or_pos n
  · rfl
  · exact absurd h (Text.head?_ofNat_ne_zero hn)

/-- An integer is spelled by its printed text, and zero by a second one. -/
theorem spellsInteger_iff {s : Text} {k : Int} :
    SpellsInteger s k ↔ s = Text.ofInt k ∨ s = ['-', '0'] ∧ k = 0 := by
  constructor
  · intro h
    cases h with
    | plain h hzero =>
      left
      exact eq_ofNat_of_denotes h hzero
    | @minus digits n h hzero =>
      have hdigits := eq_ofNat_of_denotes h hzero
      obtain rfl | hn := Nat.eq_zero_or_pos n
      · right
        exact ⟨congrArg ('-' :: ·) hdigits, rfl⟩
      · left
        have habs : (-(n : Int)).natAbs = n := by omega
        rw [Text.ofInt, if_pos (by omega), habs, hdigits]
  · rintro (rfl | ⟨rfl, rfl⟩)
    · have hdenotes := Text.denotes_ofNat k.natAbs
      have hzero := ofNat_zero_alone k.natAbs
      unfold Text.ofInt
      split
      · have hk : k = -(k.natAbs : Int) := by omega
        rw [hk, Int.natAbs_neg, Int.natAbs_natCast]
        exact .minus hdenotes hzero
      · have hk : k = (k.natAbs : Int) := by omega
        rw [hk, Int.natAbs_natCast]
        exact .plain hdenotes hzero
    · exact .minus (n := 0) (.digit (c := '0') rfl) fun _ => rfl

/-- Numerals without fraction and exponent are the texts of integers. -/
theorem Numeral.WellFormed.spellsInteger {n : Numeral} (h : n.WellFormed) (hfraction : n.fraction = none)
    (hexponent : n.exponent = none) : ∃ k, SpellsInteger n.text k := by
  have hdenotes : Text.Denotes n.whole (Text.value n.whole) := Text.denotes_iff.2 ⟨h.whole_ne, h.whole_digits, rfl⟩
  have hzero : n.whole.head? = some '0' → n.whole = ['0'] := by
    intro hhead
    obtain ⟨rest, hrest⟩ := List.head?_eq_some_iff.1 hhead
    have hlength := h.whole_zero hhead
    rw [hrest, List.length_cons] at hlength
    have hnil : rest = [] := List.length_eq_zero_iff.1 (by omega)
    rw [hrest, hnil]
  have htext : n.text = (if n.negative then ['-'] else []) ++ n.whole := by
    simp [Numeral.text, hfraction, hexponent, Numeral.fractionText, Numeral.exponentText]
  rw [htext]
  cases n.negative with
  | true => exact ⟨_, .minus hdenotes hzero⟩
  | false => exact ⟨_, .plain hdenotes hzero⟩

end Json

/-! ## Decoding them -/

namespace Value

open Json (SpellsInteger Numeral)

variable {rounding : Json.Rounding} {front back s : Text} {i : Int64} {k : Int}

/-- A numeral alone in a text, with white space around it, is decoded as the number that it denotes. -/
theorem parse?_numeral (rounding : Json.Rounding) {n : Numeral} (hn : n.WellFormed) (hfront : Json.Blank front)
    (hback : Json.Blank back) :
    parse? rounding (front ++ (n.text ++ back)) = (n.number? rounding).map fun x => ofJson (.number x) := by
  rw [parse?, Json.parse?_numeral rounding hn hfront hback, Option.map_map]
  rfl

/-- An integer of 64 bits with a sign is kept. -/
theorem parse?_exact (rounding : Json.Rounding) (hfront : Json.Blank front) (hback : Json.Blank back) (i : Int64) :
    parse? rounding (front ++ (Text.ofInt i.toInt ++ back)) = some (.int i) := by
  rw [← Numeral.text_ofInt, parse?_numeral rounding (Numeral.wellFormed_ofInt _) hfront hback, number?_ofInt,
    Option.map_some, ofJson, int?_numberOfInt]

/-- An integer below those of 64 bits is a double already in the document, where its size has 64 bits. -/
theorem number?_ofInt_below (rounding : Json.Rounding) (hk : k < -2 ^ 63) (hsize : k.natAbs < UInt64.size) :
    (Numeral.ofInt k).number? rounding = some (.float (.ofDecimal true k.natAbs 0)) := by
  have hmin : Int64.minValue.toInt = -2 ^ 63 := by decide
  have hneg : k < 0 := by omega
  have hlow : ¬ Int64.minValue.toInt ≤ -(k.natAbs : Int) := by omega
  unfold Numeral.number?
  simp only [Numeral.ofInt, Text.value_ofNat, hsize, hneg, hlow, if_true, if_false, decide_true, Bool.not_true,
    Bool.false_eq_true, and_false]

/-- An integer beyond those of 64 bits with a sign is rounded, also where it has a number of its own in a document. -/
theorem parse?_outside (rounding : Json.Rounding) (hfront : Json.Blank front) (hback : Json.Blank back)
    (hk : k < -2 ^ 63 ∨ 2 ^ 63 ≤ k) (hsize : k.natAbs < UInt64.size) :
    parse? rounding (front ++ (Text.ofInt k ++ back)) = some (.float (.ofDecimal (k < 0) k.natAbs 0)) := by
  have hmin : Int64.minValue.toInt = -2 ^ 63 := by decide
  have hmax : Int64.maxValue.toInt = 2 ^ 63 - 1 := by decide
  rw [← Numeral.text_ofInt, parse?_numeral rounding (Numeral.wellFormed_ofInt _) hfront hback]
  obtain hlow | hhigh := hk
  · have hneg : k < 0 := by omega
    rw [number?_ofInt_below rounding hlow hsize]
    simp only [hneg, decide_true]
    rfl
  · have hpos : ¬ k < 0 := by omega
    have habs : k.toNat = k.natAbs := by omega
    have hnat : (UInt64.ofNat k.natAbs).toNat = k.natAbs := UInt64.toNat_ofNat_of_lt' hsize
    have hint : Json.Number.int? (.natural (.ofNat k.natAbs)) = none := by
      rw [Json.Number.int?, hnat, if_neg (by omega)]
    rw [Numeral.number?_ofInt rounding (by omega) (by omega)]
    simp only [hpos, if_false, decide_false, habs, Option.map_some, ofJson, hint, Json.Number.toDouble, hnat]

/-- Zero with a minus sign is a float of its own. -/
theorem parse?_minus_zero (rounding : Json.Rounding) (hfront : Json.Blank front) (hback : Json.Blank back) :
    parse? rounding (front ++ (['-', '0'] ++ back)) = some (.float (.ofDecimal true 0 0)) := by
  have hwell : Numeral.WellFormed ⟨true, ['0'], none, none⟩ :=
    ⟨List.cons_ne_nil _ _, List.forall_mem_singleton.2 rfl, fun _ => Nat.le_refl 1, fun _ h => nomatch h⟩
  have htext : Numeral.text ⟨true, ['0'], none, none⟩ = ['-', '0'] := by decide
  have hnumber : Numeral.number? rounding ⟨true, ['0'], none, none⟩ = some (.float (.ofDecimal true 0 0)) := rfl
  rw [← htext, parse?_numeral rounding hwell hfront hback, hnumber]
  rfl

/-- An integer text that is not kept, of a size of 64 bits, gives the nearest double. -/
theorem parse?_rounded (rounding : Json.Rounding) (hfront : Json.Blank front) (hback : Json.Blank back)
    (h : SpellsInteger s k) (hout : s = ['-', '0'] ∨ k < -2 ^ 63 ∨ 2 ^ 63 ≤ k) (hsize : k.natAbs < UInt64.size) :
    parse? rounding (front ++ (s ++ back)) = some (.float (.ofDecimal (s.head? = some '-') k.natAbs 0)) := by
  obtain rfl | ⟨rfl, rfl⟩ := Json.spellsInteger_iff.1 h
  · have hk := hout.resolve_left (Text.ofInt_ne_minus_zero k)
    simp only [Text.head?_ofInt_minus]
    exact parse?_outside rounding hfront hback hk hsize
  · exact parse?_minus_zero rounding hfront hback

/-- An integer text of a greater size is left to the rounding. -/
theorem parse?_large (rounding : Json.Rounding) (hfront : Json.Blank front) (hback : Json.Blank back)
    (h : SpellsInteger s k) (hsize : UInt64.size ≤ k.natAbs) :
    parse? rounding (front ++ (s ++ back)) =
      if (rounding (.ofInt k)).isFinite then some (.float (rounding (.ofInt k))) else none := by
  obtain rfl | ⟨rfl, rfl⟩ := Json.spellsInteger_iff.1 h
  · rw [← Numeral.text_ofInt, parse?_numeral rounding (Numeral.wellFormed_ofInt _) hfront hback,
      Numeral.number?_ofInt_large rounding hsize, Numeral.float?]
    split
    · rfl
    · rfl
  · exact absurd hsize (by decide)

/-- An integer text that is not kept is not decoded as an integer. -/
theorem parse?_ne_int_of_outside (hfront : Json.Blank front) (hback : Json.Blank back) (h : SpellsInteger s k)
    (hout : s = ['-', '0'] ∨ k < -2 ^ 63 ∨ 2 ^ 63 ≤ k) (i : Int64) :
    parse? rounding (front ++ (s ++ back)) ≠ some (.int i) := by
  obtain hsize | hsize := lt_or_ge k.natAbs UInt64.size
  · rw [parse?_rounded rounding hfront hback h hout hsize]
    intro hint
    cases hint
  · rw [parse?_large rounding hfront hback h hsize]
    split
    · intro hint; cases hint
    · intro hint; cases hint

/-! ## What is decoded as an integer -/

/-- A number with a fraction or an exponent is no integer of a document. -/
theorem whole_of_int? {n : Numeral} {x : Json.Number} (hx : n.number? rounding = some x) (hi : x.int? = some i) :
    n.fraction = none ∧ n.exponent = none := by
  unfold Numeral.number? at hx
  split at hx
  · rename_i hfraction hexponent
    exact ⟨hfraction, hexponent⟩
  · obtain ⟨y, rfl, -⟩ := Json.float_of_float? hx
    cases hi

/-- What is decoded as an integer was written as one. -/
theorem spelled_of_parse? (h : parse? rounding s = some (.int i)) :
    ∃ front text back k, Json.Blank front ∧ Json.Blank back ∧ s = front ++ (text ++ back) ∧ SpellsInteger text k := by
  obtain ⟨json, hjson, hvalue⟩ := Option.map_eq_some_iff.1 h
  unfold Json.parse? at hjson
  split at hjson
  · rename_i json' rest hread
    split at hjson
    · rename_i hrest
      cases hjson
      obtain ⟨left, items, t, -, -, rfl⟩ | ⟨left, members, t, -, -, rfl⟩ | ⟨n, x, hnumeral, hx, rfl⟩ |
        ⟨t, rfl⟩ | rfl | ⟨b, rfl⟩ := Json.readWithin_cases hread
      case inr.inr.inl =>
        have hi : x.int? = some i := by
          rw [ofJson] at hvalue
          split at hvalue
          · rename_i hint
            cases hvalue
            exact hint
          · cases hvalue
        obtain ⟨hfraction, hexponent⟩ := whole_of_int? hx hi
        obtain ⟨hwell, htext⟩ := Json.text_of_numeral? hnumeral hfraction hexponent
        obtain ⟨k, hk⟩ := hwell.spellsInteger hfraction hexponent
        have hs : s = s.takeWhile Json.isBlank ++ (n.text ++ rest) := by
          rw [← htext]
          exact List.takeWhile_append_dropWhile.symm
        have hblank : Json.Blank rest := List.dropWhile_eq_nil_iff.1 (List.isEmpty_iff.1 hrest)
        exact ⟨_, n.text, rest, k, fun c hc => List.mem_takeWhile_imp hc, hblank, hs, hk⟩
      all_goals cases hvalue
    · cases hjson
  · cases hjson

/-- An integer is decoded from its printed text with white space around it, and from nothing else. -/
theorem parse?_eq_int_iff :
    parse? rounding s = some (.int i) ↔
      ∃ front back, Json.Blank front ∧ Json.Blank back ∧ s = front ++ (Text.ofInt i.toInt ++ back) := by
  constructor
  · intro h
    obtain ⟨front, text, back, k, hfront, hback, rfl, hk⟩ := spelled_of_parse? h
    by_cases hout : text = ['-', '0'] ∨ k < -2 ^ 63 ∨ 2 ^ 63 ≤ k
    · exact absurd h (parse?_ne_int_of_outside hfront hback hk hout i)
    · rw [not_or, not_or, not_lt, not_le] at hout
      obtain ⟨hne, hlow, hhigh⟩ := hout
      obtain rfl := (Json.spellsInteger_iff.1 hk).resolve_right fun hzero => hne hzero.1
      -- the integer that is decoded is the one that is written
      have hwritten : (Int64.ofInt k).toInt = k := Int64.toInt_ofInt_of_le hlow hhigh
      have hparse := parse?_exact rounding hfront hback (Int64.ofInt k)
      rw [hwritten, h] at hparse
      cases hparse
      exact ⟨front, back, hfront, hback, by rw [hwritten]⟩
  · rintro ⟨front, back, hfront, hback, rfl⟩
    exact parse?_exact rounding hfront hback i

/-- An integer text has no point and no exponent mark. -/
theorem not_mem_ofInt {c : Char} (hc : c = '.' ∨ c = 'e' ∨ c = 'E') (k : Int) : c ∉ Text.ofInt k := by
  intro hmem
  have hchar : c = '-' ∨ c.isDigit = true := by
    unfold Text.ofInt at hmem
    split at hmem
    · exact (List.mem_cons.1 hmem).imp_right Text.isDigit_of_mem_ofNat
    · exact .inr (Text.isDigit_of_mem_ofNat hmem)
  obtain rfl | rfl | rfl := hc
  all_goals revert hchar; decide

/-- A text with a point or an exponent mark is not decoded as an integer. -/
theorem parse?_ne_int {c : Char} (hc : c = '.' ∨ c = 'e' ∨ c = 'E') (hmem : c ∈ s) (i : Int64) :
    parse? rounding s ≠ some (.int i) := by
  intro h
  have hblank : ¬ Json.isBlank c = true := by obtain rfl | rfl | rfl := hc <;> decide
  obtain ⟨front, back, hfront, hback, rfl⟩ := parse?_eq_int_iff.1 h
  simp only [List.mem_append] at hmem
  obtain hmem | hmem | hmem := hmem
  · exact hblank (hfront c hmem)
  · exact not_mem_ofInt hc _ hmem
  · exact hblank (hback c hmem)

/-- Integers are never wrapped: one of 64 bits with a sign is decoded as it is and printed by the same text; every
other integer text gives a double, the nearest one if its size has 64 bits, or nothing if it is too large. Nothing
else is decoded as an integer. -/
theorem integers_decode_exactly (rounding : Json.Rounding) :
    (∀ (s : Text) (k : Int), SpellsInteger s k → s ≠ ['-', '0'] → -2 ^ 63 ≤ k → k < 2 ^ 63 →
      ∃ i : Int64, i.toInt = k ∧ parse? rounding s = some (.int i) ∧
        ∀ layout, (int i).text layout = s ∧ parse? rounding ((int i).text layout) = some (.int i)) ∧
    (∀ (s : Text) (k : Int), SpellsInteger s k → s = ['-', '0'] ∨ k < -2 ^ 63 ∨ 2 ^ 63 ≤ k →
      (k.natAbs < UInt64.size → let x := Double.ofDecimal (s.head? = some '-') k.natAbs 0
        x.isFinite = true ∧ parse? rounding s = some (.float x)) ∧
      (UInt64.size ≤ k.natAbs → parse? rounding s =
        if (rounding (.ofInt k)).isFinite then some (.float (rounding (.ofInt k))) else none) ∧
      ∀ i, parse? rounding s ≠ some (.int i)) ∧
    (∀ (s : Text) (i : Int64), parse? rounding s = some (.int i) ↔
      ∃ front back, Json.Blank front ∧ Json.Blank back ∧ s = front ++ (Text.ofInt i.toInt ++ back)) ∧
    ∀ s : Text, '.' ∈ s ∨ 'e' ∈ s ∨ 'E' ∈ s → ∀ i, parse? rounding s ≠ some (.int i) := by
  have hblank : Json.Blank [] := fun c hc => nomatch hc
  have alone (s : Text) : [] ++ (s ++ []) = s := by rw [List.nil_append, List.append_nil]
  refine ⟨?exact, ?outside, fun s i => parse?_eq_int_iff, ?fractional⟩
  case exact =>
    intro s k hs hne hlow hhigh
    obtain rfl := (Json.spellsInteger_iff.1 hs).resolve_right fun hzero => hne hzero.1
    have hint : (Int64.ofInt k).toInt = k := Int64.toInt_ofInt_of_le hlow hhigh
    have htext (layout : Layout) : (int (.ofInt k)).text layout = Text.ofInt k := by
      show Text.ofInt (Int64.ofInt k).toInt = Text.ofInt k
      rw [hint]
    have hparse := parse?_exact rounding hblank hblank (Int64.ofInt k)
    rw [hint, alone] at hparse
    refine ⟨.ofInt k, hint, hparse, fun layout => ⟨htext layout, ?_⟩⟩
    rw [htext, hparse]
  case outside =>
    intro s k hs hout
    refine ⟨fun hsize => ⟨?_, ?_⟩, fun hsize => ?_, ?_⟩
    · exact (Double.isFinite_ofNat_iff _ _).2 (hsize.trans_le Double.size_le_overflow)
    · simpa only [alone] using parse?_rounded rounding hblank hblank hs hout hsize
    · simpa only [alone] using parse?_large rounding hblank hblank hs hsize
    · simpa only [alone] using parse?_ne_int_of_outside hblank hblank hs hout
  case fractional =>
    rintro s (hmem | hmem | hmem)
    · exact parse?_ne_int (.inl rfl) hmem
    · exact parse?_ne_int (.inr (.inl rfl)) hmem
    · exact parse?_ne_int (.inr (.inr rfl)) hmem

/-- The least integer that is kept, the least one beyond the greatest that is kept, zero with a minus sign, an integer
that is too large for a double, and an exponent. -/
theorem integers_decode_exactly_at_bounds :
    let parse? := parse? .nearest
    let least := "-9223372036854775808".toList
    let beyond := "9223372036854775808".toList
    let large := '1' :: List.replicate 309 '0'
    (SpellsInteger least (-2 ^ 63) ∧ ∃ i : Int64, i.toInt = -2 ^ 63 ∧ parse? least = some (.int i) ∧
      ∀ layout, (int i).text layout = least ∧ parse? ((int i).text layout) = some (.int i)) ∧
    (SpellsInteger beyond (2 ^ 63) ∧ parse? beyond = some (.float ⟨0x43E0000000000000⟩)) ∧
    (SpellsInteger ['-', '0'] 0 ∧ parse? ['-', '0'] = some (.float ⟨0x8000000000000000⟩)) ∧
    (SpellsInteger large (10 ^ 309) ∧ parse? large = none) ∧
    ∀ i, parse? "1e3".toList ≠ some (.int i) := by
  intro parse? least beyond large
  have hleast : SpellsInteger least (-2 ^ 63) := Json.spellsInteger_iff.2 (.inl (by decide +kernel))
  have hbeyond : SpellsInteger beyond (2 ^ 63) := Json.spellsInteger_iff.2 (.inl (by decide +kernel))
  have hzero : SpellsInteger ['-', '0'] 0 := Json.spellsInteger_iff.2 (.inr ⟨rfl, rfl⟩)
  have hlarge : SpellsInteger large (10 ^ 309) := Json.spellsInteger_iff.2 (.inl (by decide +kernel))
  obtain ⟨hexact, houtside, -, hmarked⟩ := integers_decode_exactly .nearest
  have hkept := hexact _ _ hleast (by decide) (by decide) (by decide)
  obtain ⟨-, hbeyond'⟩ := (houtside _ _ hbeyond (.inr (.inr (by decide)))).1 (by decide +kernel)
  obtain ⟨-, hzero'⟩ := (houtside _ _ hzero (.inl rfl)).1 (by decide)
  have hlarge' := (houtside _ _ hlarge (.inr (.inr (by decide +kernel)))).2.1 (by decide +kernel)
  have hinfinite : ¬ (Json.Rounding.nearest (.ofInt (10 ^ 309))).isFinite = true := by decide +kernel
  rw [if_neg hinfinite] at hlarge'
  exact ⟨⟨hleast, hkept⟩, ⟨hbeyond, hbeyond'⟩, ⟨hzero, hzero'⟩, ⟨hlarge, hlarge'⟩, hmarked _ (by decide)⟩

end Value

end JsonSieve
