/-
Numbers as they are written: the text of a numeral is read back as that numeral, with whatever
follows it, if the numeral has digits where it must and no needless zero in front, and if what follows
does not carry the number on (`EndsNumber`). Each optional part ends where the next one starts, because
the point and the exponent mark are no digits. A numeral without fraction and exponent is read from its text
only (`text_of_numeral?`).
-/
import JsonSieve.Json.Reader
import JsonSieve.Proofs.Text.Cut
import JsonSieve.Proofs.Text.Numeral

namespace JsonSieve.Json

/-- A text that does not carry on a number before it. -/
def EndsNumber (s : Text) : Prop :=
  ∀ c, s.head? = some c → c.isDigit = false ∧ c ≠ '.' ∧ c ≠ 'e' ∧ c ≠ 'E'

theorem endsNumber_nil : EndsNumber [] := by
  intro c h; cases h

theorem endsNumber_cons {c : Char} (s : Text) (h : c.isDigit = false ∧ c ≠ '.' ∧ c ≠ 'e' ∧ c ≠ 'E') :
    EndsNumber (c :: s) := by
  intro d hd; cases hd; exact h

/-! ## Numerals and their texts -/

namespace Numeral

/-- The text of a fraction, if there is one. -/
def fractionText : Option Text → Text
  | none => []
  | some digits => '.' :: digits

/-- The text of an exponent, if there is one; its sign is always written. -/
def exponentText : Option Int → Text
  | none => []
  | some e => 'e' :: (if e < 0 then '-' else '+') :: Text.ofNat e.natAbs

/-- The text of a numeral. -/
def text (n : Numeral) : Text :=
  (if n.negative then ['-'] else []) ++ (n.whole ++ (fractionText n.fraction ++ exponentText n.exponent))

/-- Numerals that can be written: there are digits before the point, a zero only alone, and digits
after the point. -/
structure WellFormed (n : Numeral) : Prop where
  whole_ne : n.whole ≠ []
  whole_digits : ∀ c ∈ n.whole, c.isDigit = true
  whole_zero : n.whole.head? = some '0' → n.whole.length ≤ 1
  fraction_digits : ∀ digits, n.fraction = some digits → digits ≠ [] ∧ ∀ c ∈ digits, c.isDigit = true

end Numeral

/-! ## Reading the parts -/

/-- A row of digits is read up to where no digit follows. -/
theorem digits?_eq_some_iff {s digits rest : Text} : digits? s = some (digits, rest) ↔
    digits ≠ [] ∧ (∀ c ∈ digits, c.isDigit = true) ∧ (∀ c, rest.head? = some c → c.isDigit = false) ∧
      s = digits ++ rest := by
  rw [← Text.takeWhile_dropWhile_iff]
  unfold digits?
  dsimp only
  split
  · rename_i hempty
    constructor
    · intro h; cases h
    · rintro ⟨hne, rfl, -⟩; exact absurd (List.isEmpty_iff.1 hempty) hne
  · rename_i hsome
    rw [Option.some.injEq, Prod.mk.injEq]
    constructor
    · rintro ⟨rfl, rfl⟩; exact ⟨by simpa using hsome, rfl, rfl⟩
    · rintro ⟨-, hrun, hrest⟩; exact ⟨hrun, hrest⟩

theorem digits?_append {digits rest : Text} (hne : digits ≠ []) (hd : ∀ c ∈ digits, c.isDigit = true)
    (hr : ∀ c, rest.head? = some c → c.isDigit = false) :
    digits? (digits ++ rest) = some (digits, rest) :=
  digits?_eq_some_iff.2 ⟨hne, hd, hr, rfl⟩

variable {n : Numeral} {rest : Text}

theorem exponent?_text (e : Option Int) (hr : EndsNumber rest) :
    exponent? (Numeral.exponentText e ++ rest) = some (e, rest) := by
  cases e with
  | none =>
    cases rest with
    | nil => rfl
    | cons c rest =>
      obtain ⟨-, -, he, hE⟩ := hr c rfl
      simp [Numeral.exponentText, exponent?, he, hE]
  | some e =>
    have hdigits := digits?_append (Text.ofNat_ne_nil e.natAbs) (fun c => Text.isDigit_of_mem_ofNat)
      (fun c hc => (hr c hc).1)
    by_cases hneg : e < 0
    · have habs : -(e.natAbs : Int) = e := by omega
      simp only [Numeral.exponentText, exponent?, hneg, hdigits, Text.value_ofNat, habs, List.cons_append,
        true_or, if_true, Option.map_some]
    · have habs : (e.natAbs : Int) = e := by omega
      simp [Numeral.exponentText, exponent?, hneg, hdigits, Text.value_ofNat, habs]

/-- An exponent or its absence ends the digits before it. -/
theorem head_exponentText (e : Option Int) (hr : EndsNumber rest) (c : Char)
    (hc : (Numeral.exponentText e ++ rest).head? = some c) : c.isDigit = false ∧ c ≠ '.' := by
  cases e with
  | none => exact ⟨(hr c hc).1, (hr c hc).2.1⟩
  | some e => cases hc; decide

theorem fraction?_text (h : n.WellFormed) (hr : EndsNumber rest) :
    fraction? (Numeral.fractionText n.fraction ++ (Numeral.exponentText n.exponent ++ rest)) =
      some (n.fraction, Numeral.exponentText n.exponent ++ rest) := by
  have hstop := head_exponentText n.exponent hr
  cases hf : n.fraction with
  | none =>
    rw [Numeral.fractionText, List.nil_append]
    generalize Numeral.exponentText n.exponent ++ rest = s at hstop
    cases s with
    | nil => rfl
    | cons c s =>
      have hpoint : c ≠ '.' := (hstop c rfl).2
      rw [fraction?]
      rintro t ⟨⟩
      exact hpoint rfl
  | some digits =>
    obtain ⟨hne, hd⟩ := h.fraction_digits digits hf
    have hdigits := digits?_append hne hd (fun c hc => (hstop c hc).1)
    simp [Numeral.fractionText, fraction?, hdigits]

theorem whole?_append (h : n.WellFormed) {s : Text} (hs : ∀ c, s.head? = some c → c.isDigit = false) :
    whole? (n.whole ++ s) = some (n.whole, s) := by
  have hzero : ¬ (n.whole.head? = some '0' ∧ 1 < n.whole.length) := by
    rintro ⟨hhead, hlen⟩
    have := h.whole_zero hhead
    omega
  rw [whole?, digits?_append h.whole_ne h.whole_digits hs]
  exact if_neg hzero

/-- The parts of a number after its sign. -/
theorem unsigned_text (h : n.WellFormed) (hr : EndsNumber rest) (negative : Bool) :
    (do
      let (whole, s) ← whole? (n.whole ++ (Numeral.fractionText n.fraction ++
        (Numeral.exponentText n.exponent ++ rest)))
      let (fraction, s) ← fraction? s
      let (exponent, s) ← exponent? s
      some ((⟨negative, whole, fraction, exponent⟩ : Numeral), s)) =
      some (⟨negative, n.whole, n.fraction, n.exponent⟩, rest) := by
  have hstop : ∀ c, (Numeral.fractionText n.fraction ++ (Numeral.exponentText n.exponent ++
      rest)).head? = some c → c.isDigit = false := by
    intro c hc
    cases hf : n.fraction with
    | none => rw [hf] at hc; exact (head_exponentText n.exponent hr c hc).1
    | some digits => rw [hf] at hc; cases hc; decide
  simp only [whole?_append h hstop, fraction?_text h hr, exponent?_text n.exponent hr,
    Option.bind_eq_bind, Option.bind_some]

/-- A numeral is read back from its text. -/
theorem numeral?_text (h : n.WellFormed) (hr : EndsNumber rest) :
    numeral? (n.text ++ rest) = some (n, rest) := by
  obtain ⟨negative, whole, fraction, exponent⟩ := n
  have hread := unsigned_text h hr negative
  simp only [Numeral.text, List.append_assoc] at hread ⊢
  cases negative with
  | true => exact hread
  | false =>
    -- without a sign a digit comes first
    have hsign : ∀ t, whole ++ (Numeral.fractionText fraction ++
        (Numeral.exponentText exponent ++ rest)) ≠ '-' :: t := by
      intro t ht
      obtain ⟨c, cs, hcs⟩ := List.exists_cons_of_ne_nil h.whole_ne
      dsimp only at hcs
      have hc : c.isDigit = true := h.whole_digits c (by simp [hcs])
      rw [hcs, List.cons_append, List.cons.injEq] at ht
      rw [ht.1] at hc
      revert hc; decide
    rw [if_neg (by decide), List.nil_append, numeral?]
    · exact hread
    · exact hsign

/-- A number starts with a minus sign or a digit. -/
theorem head_text (h : n.WellFormed) : ∃ c s, n.text = c :: s ∧ (c = '-' ∨ c.isDigit = true) := by
  obtain ⟨c, cs, hcs⟩ := List.exists_cons_of_ne_nil h.whole_ne
  cases hneg : n.negative with
  | true => exact ⟨'-', _, by simp [Numeral.text, hneg]; rfl, .inl rfl⟩
  | false =>
    exact ⟨c, _, by simp [Numeral.text, hneg, hcs]; rfl, .inr (h.whole_digits c (by simp [hcs]))⟩

/-! ## Numerals that were read -/

variable {s : Text}

/-- The parts of a number follow each other. -/
theorem numeral?_cases (h : numeral? s = some (n, rest)) :
    ∃ t afterWhole afterFraction, s = (if n.negative then ['-'] else []) ++ t ∧
      whole? t = some (n.whole, afterWhole) ∧ fraction? afterWhole = some (n.fraction, afterFraction) ∧
      exponent? afterFraction = some (n.exponent, rest) := by
  have parts {negative : Bool} {t : Text}
      (h : (do
        let (whole, s) ← whole? t
        let (fraction, s) ← fraction? s
        let (exponent, s) ← exponent? s
        some ((⟨negative, whole, fraction, exponent⟩ : Numeral), s)) = some (n, rest)) :
      ∃ afterWhole afterFraction, n.negative = negative ∧ whole? t = some (n.whole, afterWhole) ∧
        fraction? afterWhole = some (n.fraction, afterFraction) ∧
        exponent? afterFraction = some (n.exponent, rest) := by
    obtain ⟨⟨whole, afterWhole⟩, hwhole, h⟩ := Option.bind_eq_some_iff.1 h
    obtain ⟨⟨fraction, afterFraction⟩, hfraction, h⟩ := Option.bind_eq_some_iff.1 h
    obtain ⟨⟨exponent, after⟩, hexponent, h⟩ := Option.bind_eq_some_iff.1 h
    cases h
    exact ⟨afterWhole, afterFraction, rfl, hwhole, hfraction, hexponent⟩
  unfold numeral? at h
  split at h
  rename_i hsign
  split at hsign
  · cases hsign
    obtain ⟨afterWhole, afterFraction, hnegative, hparts⟩ := parts h
    exact ⟨_, afterWhole, afterFraction, by rw [hnegative]; rfl, hparts⟩
  · cases hsign
    obtain ⟨afterWhole, afterFraction, hnegative, hparts⟩ := parts h
    exact ⟨_, afterWhole, afterFraction, by rw [hnegative]; rfl, hparts⟩

theorem whole?_spec {digits : Text} (h : whole? s = some (digits, rest)) :
    digits ≠ [] ∧ (∀ c ∈ digits, c.isDigit = true) ∧ (digits.head? = some '0' → digits.length ≤ 1) ∧
      s = digits ++ rest := by
  obtain ⟨⟨digits', rest'⟩, hdigits, h⟩ := Option.bind_eq_some_iff.1 h
  dsimp only at h
  split at h
  · cases h
  · rename_i hzero
    cases h
    obtain ⟨hne, hall, -, hs⟩ := digits?_eq_some_iff.1 hdigits
    exact ⟨hne, hall, fun hhead => Nat.not_lt.1 fun hlength => hzero ⟨hhead, hlength⟩, hs⟩

theorem eq_of_fraction? (h : fraction? s = some (none, rest)) : s = rest := by
  unfold fraction? at h
  split at h
  · obtain ⟨digits, -, h⟩ := Option.map_eq_some_iff.1 h
    cases h
  · cases h; rfl

theorem eq_of_exponent? (h : exponent? s = some (none, rest)) : s = rest := by
  unfold exponent? at h
  split at h
  · cases h; rfl
  · split at h
    · obtain ⟨digits, -, h⟩ := Option.map_eq_some_iff.1 h
      cases h
    · cases h; rfl

/-- A whole number is read from its text. -/
theorem text_of_numeral? (h : numeral? s = some (n, rest)) (hfraction : n.fraction = none)
    (hexponent : n.exponent = none) : n.WellFormed ∧ s = n.text ++ rest := by
  obtain ⟨t, afterWhole, afterFraction, hs, hwhole, hread, hread'⟩ := numeral?_cases h
  rw [hfraction] at hread
  rw [hexponent] at hread'
  obtain ⟨hne, hdigits, hzero, ht⟩ := whole?_spec hwhole
  refine ⟨⟨hne, hdigits, hzero, fun digits hd => ?_⟩, ?_⟩
  · rw [hfraction] at hd; cases hd
  · rw [hs, ht, eq_of_fraction? hread, eq_of_exponent? hread', Numeral.text, hfraction, hexponent]
    simp [Numeral.fractionText, Numeral.exponentText]

/-! ## Whole numbers -/

/-- The numeral of a whole number. -/
def Numeral.ofInt (i : Int) : Numeral :=
  ⟨decide (i < 0), Text.ofNat i.natAbs, none, none⟩

theorem Numeral.text_ofInt (i : Int) : (ofInt i).text = Text.ofInt i := by
  by_cases hi : i < 0
  · simp [ofInt, text, fractionText, exponentText, Text.ofInt, hi]
  · simp [ofInt, text, fractionText, exponentText, Text.ofInt, hi]

theorem Numeral.wellFormed_ofInt (i : Int) : (ofInt i).WellFormed where
  whole_ne := Text.ofNat_ne_nil _
  whole_digits _ := Text.isDigit_of_mem_ofNat
  whole_zero hzero := by
    have hi : i.natAbs = 0 := by
      by_contra hne
      exact Text.head?_ofNat_ne_zero (Nat.pos_of_ne_zero hne) hzero
    simp [ofInt, hi, Text.ofNat]
  fraction_digits _ h := by cases h

/-- The numbers of 64 bits, with a minus sign or without a sign, are kept as they are. -/
theorem Numeral.number?_ofInt (rounding : Rounding) {i : Int} (hlow : Int64.minValue.toInt ≤ i)
    (hhigh : i < UInt64.size) :
    (ofInt i).number? rounding = some (if i < 0 then .negative (.ofInt i) else .natural (.ofNat i.toNat)) := by
  have hmin : Int64.minValue.toInt = -2 ^ 63 := by decide
  have hsize : i.natAbs < UInt64.size := by
    have : UInt64.size = 2 ^ 64 := rfl
    omega
  unfold number?
  simp only [ofInt, Text.value_ofNat, hsize, if_true]
  by_cases hneg : i < 0
  · have habs : -(i.natAbs : Int) = i := by omega
    have hpos : 0 < i.natAbs := by omega
    simp only [hneg, decide_true, Bool.not_true, Bool.false_eq_true, habs, hpos, hlow, and_self, if_true, if_false]
  · have habs : i.natAbs = i.toNat := by omega
    simp only [hneg, decide_false, Bool.not_false, habs, if_true, if_false]

/-- A whole number whose size takes more than 64 bits is left to the rounding. -/
theorem Numeral.number?_ofInt_large (rounding : Rounding) {i : Int} (h : UInt64.size ≤ i.natAbs) :
    (ofInt i).number? rounding = (ofInt i).float? rounding := by
  unfold number?
  simp only [ofInt, Text.value_ofNat]
  rw [if_neg (Nat.not_lt.2 h)]

end JsonSieve.Json
