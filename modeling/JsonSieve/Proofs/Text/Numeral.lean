/-
Decimal numerals: the value of digits that stand next to each other or next to zeros, and the digits
of a number. A number is read back from its digits, only zero starts with the digit zero, and the digits
of the value of a numeral are the numeral without superfluous zeros in front. An index of 64 bits is read
from exactly the texts that spell it (`unsigned?_eq_some_iff`), and an integer of 64 bits is read back from
its text (`signed?_ofInt`).
-/
import JsonSieve.Text.Numeral
import Mathlib.Algebra.Group.Nat.Defs
import Mathlib.Data.List.Induction
import Mathlib.Data.List.TakeWhile

namespace JsonSieve.Text

/-! ## Values -/

theorem value_append (s t : Text) : value (s ++ t) = value s * 10 ^ t.length + value t := by
  rw [value, Nat.ofDigitChars_append, Nat.ofDigitChars_eq_ofDigitChars_zero, Nat.mul_comm]
  rfl

theorem value_replicate_zero (n : Nat) : value (List.replicate n '0') = 0 := by
  rw [value, Nat.ofDigitChars_replicate_zero, Nat.mul_zero]

/-! ## Digits of a number -/

theorem isDigit_of_mem_ofNat {n : Nat} {c : Char} (h : c ∈ ofNat n) : c.isDigit = true :=
  Nat.isDigit_of_mem_toDigits (by decide) (by decide) h

theorem value_ofNat (n : Nat) : value (ofNat n) = n :=
  Nat.ofDigitChars_toDigits (by decide) (by decide)

theorem ofNat_ne_nil (n : Nat) : ofNat n ≠ [] :=
  Nat.toDigits_ne_nil

/-- Only zero starts with the digit zero. The induction is on the number without its last digit. -/
theorem head?_ofNat_ne_zero {n : Nat} (hn : 0 < n) : (ofNat n).head? ≠ some '0' := by
  induction n using Nat.strongRecOn with
  | ind n ih =>
    rw [ofNat, Nat.toDigits_eq_if (by decide)]
    split
    · simp only [List.head?_cons, ne_eq, Option.some.injEq, Nat.digitChar_eq_zero]
      omega
    · have hfront := ih (n / 10) (by omega) (by omega)
      obtain ⟨c, cs, hcs⟩ := List.exists_cons_of_ne_nil (ofNat_ne_nil (n / 10))
      rw [hcs] at hfront
      rw [show Nat.toDigits 10 (n / 10) = c :: cs from hcs]
      exact hfront

/-! ## Zeros in front -/

/-- Digits without superfluous zeros in front; of zeros alone one is left. -/
def plainDigits (digits : Text) : Text :=
  match digits.dropWhile (· == '0') with
  | [] => ['0']
  | significant => significant

theorem plainDigits_eq_self {digits : Text} (hne : digits ≠ []) (hzero : digits.head? = some '0' → digits = ['0']) :
    plainDigits digits = digits := by
  obtain ⟨c, cs, rfl⟩ := List.exists_cons_of_ne_nil hne
  by_cases hc : c = '0'
  · subst hc
    rw [hzero rfl]
    rfl
  · simp [plainDigits, hc]

theorem value_singleton (c : Char) : value [c] = c.toNat - '0'.toNat := by
  rw [value, Nat.ofDigitChars_cons, Nat.ofDigitChars_nil, Nat.mul_zero, Nat.zero_add]

theorem digit_spec {c : Char} (h : c.isDigit = true) :
    value [c] < 10 ∧ Nat.digitChar (value [c]) = c := by
  obtain ⟨hlow, hhigh⟩ := Char.isDigit_iff_toNat.1 h
  have hchars : ∀ n ≤ '9'.toNat, '0'.toNat ≤ n →
      n - '0'.toNat < 10 ∧ Nat.digitChar (n - '0'.toNat) = Char.ofNat n := by decide
  rw [value_singleton]
  simpa only [Char.ofNat_toNat] using hchars c.toNat hhigh hlow

/-- The digits of the value of a numeral. The induction is on the numeral without its last digit. -/
theorem ofNat_value {digits : Text} (h : ∀ c ∈ digits, c.isDigit = true) :
    ofNat (value digits) = plainDigits digits := by
  induction digits using List.reverseRecOn with
  | nil => rfl
  | append_singleton front c ih =>
    have hfront := ih fun d hd => h d (List.mem_append_left _ hd)
    obtain ⟨hlt, hchar⟩ := digit_spec (h c (by simp))
    rw [value_append, List.length_singleton, Nat.pow_one, ofNat, Nat.toDigits_eq_if (by decide)]
    unfold plainDigits at hfront ⊢
    rw [List.dropWhile_append]
    cases hdrop : front.dropWhile (· == '0') with
    | nil =>
      -- zeros alone stand in front of the last digit, which therefore stays
      have hzeros : front = List.replicate front.length '0' :=
        List.eq_replicate_iff.2 ⟨rfl, fun d hd => by simpa using List.dropWhile_eq_nil_iff.1 hdrop d hd⟩
      have hvalue : value front = 0 := by rw [hzeros, value_replicate_zero]
      rw [hvalue, Nat.zero_mul, Nat.zero_add, if_pos hlt, hchar]
      by_cases hc : c = '0'
      · simp [hc]
      · simp [hc]
    | cons d significant =>
      rw [hdrop] at hfront
      have hpos : 0 < value front := by
        refine Nat.pos_of_ne_zero fun hzero => ?_
        rw [hzero] at hfront
        have hd : d = '0' := (List.cons.inj hfront).1.symm
        have hhead := List.head?_dropWhile_not (· == '0') front
        rw [hdrop, hd] at hhead
        cases hhead
      have hdiv : (value front * 10 + value [c]) / 10 = value front := by omega
      have hmod : (value front * 10 + value [c]) % 10 = value [c] := by omega
      rw [if_neg (by omega), hdiv, hmod, hchar]
      exact congrArg (· ++ [c]) hfront

/-! ## What digits denote -/

/-- Digits denote a number in decimal notation: a digit denotes its distance from zero, and a digit after others
adds that to ten times what the others denote. -/
inductive Denotes : Text → Nat → Prop
  | digit {c : Char} (h : c.isDigit = true) : Denotes [c] (c.toNat - '0'.toNat)
  | more {front : Text} {n : Nat} {c : Char} (hfront : Denotes front n) (h : c.isDigit = true) :
      Denotes (front ++ [c]) (10 * n + (c.toNat - '0'.toNat))

/-- Digits denote their value and nothing else. -/
theorem denotes_iff {digits : Text} {n : Nat} :
    Denotes digits n ↔ digits ≠ [] ∧ (∀ c ∈ digits, c.isDigit = true) ∧ value digits = n := by
  constructor
  · intro h
    induction h with
    | digit h => exact ⟨List.cons_ne_nil _ _, List.forall_mem_singleton.2 h, value_singleton _⟩
    | more hfront h ih =>
      obtain ⟨-, hdigits, hvalue⟩ := ih
      refine ⟨by simp, List.forall_mem_append.2 ⟨hdigits, List.forall_mem_singleton.2 h⟩, ?_⟩
      rw [value_append, hvalue, value_singleton, List.length_singleton]
      omega
  · rintro ⟨hne, hdigits, rfl⟩
    induction digits using List.reverseRecOn with
    | nil => exact absurd rfl hne
    | append_singleton front c ih =>
      have hc : c.isDigit = true := hdigits c (by simp)
      by_cases hfront : front = []
      · subst hfront
        rw [List.nil_append, value_singleton]
        exact .digit hc
      · have hvalue : value (front ++ [c]) = 10 * value front + (c.toNat - '0'.toNat) := by
          rw [value_append, value_singleton, List.length_singleton]
          omega
        rw [hvalue]
        exact .more (ih hfront fun d hd => hdigits d (List.mem_append_left _ hd)) hc

theorem denotes_ofNat (n : Nat) : Denotes (ofNat n) n :=
  denotes_iff.2 ⟨ofNat_ne_nil n, fun _ => isDigit_of_mem_ofNat, value_ofNat n⟩

/-- Digits without the zeros at their end. -/
theorem exists_replicate_zero (s : Text) :
    ∃ n, s = (s.reverse.dropWhile (· == '0')).reverse ++ List.replicate n '0' := by
  refine ⟨(s.reverse.takeWhile (· == '0')).length, ?_⟩
  have hzeros : s.reverse.takeWhile (· == '0') =
      List.replicate (s.reverse.takeWhile (· == '0')).length '0' := by
    refine List.eq_replicate_iff.2 ⟨rfl, fun c hc => ?_⟩
    have := List.mem_takeWhile_imp hc
    simpa using this
  rw [← List.reverse_replicate, ← hzeros, ← List.reverse_append, List.takeWhile_append_dropWhile,
    List.reverse_reverse]

/-! ## Numbers of 64 bits -/

variable {s : Text} {n : Nat}

theorem natural?_eq_some_iff :
    natural? s = some n ↔ s ≠ [] ∧ (∀ c ∈ s, c.isDigit = true) ∧ value s = n := by
  have hdigits : (!s.isEmpty && s.all Char.isDigit) = true ↔ s ≠ [] ∧ ∀ c ∈ s, c.isDigit = true := by simp
  unfold natural?
  by_cases h : s ≠ [] ∧ ∀ c ∈ s, c.isDigit = true
  · rw [if_pos (hdigits.2 h), Option.some.injEq, ← and_assoc, and_iff_right h]
  · rw [if_neg (hdigits.not.2 h), ← and_assoc]
    exact ⟨fun hn => (nomatch hn), fun hn => absurd hn.1 h⟩

theorem natural?_ofNat (n : Nat) : natural? (ofNat n) = some n :=
  natural?_eq_some_iff.2 ⟨ofNat_ne_nil n, fun _ hc => isDigit_of_mem_ofNat hc, value_ofNat n⟩

theorem ne_cons_of_digits {c : Char} (h : ∀ c ∈ s, c.isDigit = true) (hc : c.isDigit = false) (t : Text) :
    s ≠ c :: t := by
  rintro rfl
  rw [h c List.mem_cons_self] at hc
  cases hc

/-- The text of an integer starts with a digit or a minus sign. -/
theorem head?_ofInt_ne {c : Char} (hc : c ≠ '-') (hdigit : c.isDigit = false) {i : Int} : (ofInt i).head? ≠ some c := by
  unfold ofInt
  split
  · rintro ⟨⟩
    exact hc rfl
  · rintro h
    have hmem := List.mem_of_head? h
    rw [isDigit_of_mem_ofNat hmem] at hdigit
    cases hdigit

theorem head?_ofInt_minus {i : Int} : (ofInt i).head? = some '-' ↔ i < 0 := by
  unfold ofInt
  split
  · rename_i hneg
    exact iff_of_true rfl hneg
  · rename_i hneg
    refine iff_of_false (fun h => ?_) hneg
    have hdigit := isDigit_of_mem_ofNat (List.mem_of_head? h)
    cases hdigit

/-- Zero is printed without a sign. -/
theorem ofInt_ne_minus_zero (i : Int) : ofInt i ≠ ['-', '0'] := by
  intro h
  have hneg : i < 0 := head?_ofInt_minus.1 (by rw [h]; rfl)
  rw [ofInt, if_pos hneg, List.cons.injEq] at h
  exact head?_ofNat_ne_zero (n := i.natAbs) (by omega) (by rw [h.2]; rfl)

/-- A text that spells an index: one or more decimal digits that denote it, after a plus sign or none. -/
def SpellsIndex (s : Text) (i : UInt64) : Prop :=
  ∃ digits, digits ≠ [] ∧ (∀ c ∈ digits, c.isDigit = true) ∧ (s = digits ∨ s = '+' :: digits) ∧
    value digits = i.toNat

theorem unsigned?_eq_some_iff {i : UInt64} : unsigned? s = some i ↔ SpellsIndex s i := by
  constructor
  · intro h
    unfold unsigned? at h
    dsimp only at h
    split at h
    · rename_i m hm
      split at h
      · rename_i hsize
        have hi : m = i.toNat := by
          rw [← Option.some.inj h, UInt64.toNat_ofNat_of_lt' hsize]
        split at hm
        · obtain ⟨hne, hdigits, hvalue⟩ := natural?_eq_some_iff.1 hm
          exact ⟨_, hne, hdigits, .inr rfl, hvalue.trans hi⟩
        · obtain ⟨hne, hdigits, hvalue⟩ := natural?_eq_some_iff.1 hm
          exact ⟨_, hne, hdigits, .inl rfl, hvalue.trans hi⟩
      · cases h
    · cases h
  · rintro ⟨digits, hne, hdigits, hs, hvalue⟩
    have hread : natural? digits = some i.toNat := natural?_eq_some_iff.2 ⟨hne, hdigits, hvalue⟩
    have hsigned : unsigned? ('+' :: digits) = some i := by
      simp only [unsigned?, hread]
      rw [if_pos i.toNat_lt_size, UInt64.ofNat_toNat]
    rcases hs with rfl | rfl
    · -- digits do not start with a sign, so they are read as they are after one
      rw [← hsigned]
      unfold unsigned?
      split
      · exact absurd rfl (ne_cons_of_digits hdigits rfl _)
      · rfl
    · exact hsigned

instance (s : Text) (i : UInt64) : Decidable (SpellsIndex s i) :=
  decidable_of_iff _ unsigned?_eq_some_iff

theorem exists_spellsIndex_iff : (∃ i, SpellsIndex s i) ↔ (unsigned? s).isSome = true := by
  simp only [Option.isSome_iff_exists, unsigned?_eq_some_iff]

instance (s : Text) : Decidable (∃ i, SpellsIndex s i) :=
  decidable_of_iff _ exists_spellsIndex_iff.symm

/-- A text spells one index only. -/
theorem SpellsIndex.unique {i j : UInt64} (hi : SpellsIndex s i) (hj : SpellsIndex s j) : i = j :=
  Option.some.inj ((unsigned?_eq_some_iff.2 hi).symm.trans (unsigned?_eq_some_iff.2 hj))

/-- An integer of 64 bits is read back from its text. -/
theorem signed?_ofInt (i : Int64) : signed? (ofInt i.toInt) = some i := by
  have hrange : Int64.minValue.toInt ≤ i.toInt ∧ i.toInt ≤ Int64.maxValue.toInt :=
    ⟨Int64.minValue_le_toInt i, Int64.toInt_le i⟩
  -- without a sign the number is the one that the digits denote, and after a minus sign its opposite
  have hplain (m : Nat) : signed? (ofNat m) =
      if Int64.minValue.toInt ≤ (m : Int) ∧ (m : Int) ≤ Int64.maxValue.toInt then some (.ofInt m) else none := by
    have hsign {c : Char} (hc : c.isDigit = false) (t : Text) : ofNat m ≠ c :: t :=
      ne_cons_of_digits (fun _ => isDigit_of_mem_ofNat) hc t
    unfold signed?
    split
    · rename_i h; exact absurd h (hsign rfl _)
    · rename_i h; exact absurd h (hsign rfl _)
    · rw [natural?_ofNat]; rfl
  have hminus (m : Nat) : signed? ('-' :: ofNat m) =
      if Int64.minValue.toInt ≤ -(m : Int) ∧ -(m : Int) ≤ Int64.maxValue.toInt then some (.ofInt (-m)) else none := by
    simp only [signed?, natural?_ofNat]; rfl
  unfold ofInt
  split
  · rename_i hneg
    have habs : -(i.toInt.natAbs : Int) = i.toInt := by omega
    rw [hminus, habs, if_pos hrange, Int64.ofInt_toInt]
  · rename_i hneg
    have habs : (i.toInt.natAbs : Int) = i.toInt := by omega
    rw [hplain, habs, if_pos hrange, Int64.ofInt_toInt]

end JsonSieve.Text
