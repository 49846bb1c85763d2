/-
The order of texts by their characters is the order by the bytes of their UTF-8 encodings. The bytes of a
character are a mark with its highest digit to base 64 and then its other digits: a longer encoding has a
greater mark, and between equally long ones the first digit that differs decides.
-/
import JsonSieve.Text.Basic
import Mathlib.Algebra.Group.Nat.Defs

namespace JsonSieve.Text

/-! ## Characters -/

/-- The bytes of a number with `k` digits to base 64 after the first byte, which has the mark of the length. -/
def markedDigits (mark : Nat) : Nat → Nat → List UInt8
  | 0, n => [UInt8.ofNat (n + mark)]
  | k + 1, n => markedDigits mark k (n / 64) ++ [UInt8.ofNat (n % 64 + 0x80)]

variable {k mark m n : Nat}

theorem markedDigits_eq_cons (mark k n : Nat) :
    ∃ digits, markedDigits mark k n = UInt8.ofNat (n / 64 ^ k + mark) :: digits := by
  induction k generalizing n with
  | zero => exact ⟨[], by simp [markedDigits]⟩
  | succ k ih =>
    obtain ⟨digits, hdigits⟩ := ih (n / 64)
    refine ⟨digits ++ [UInt8.ofNat (n % 64 + 0x80)], ?_⟩
    rw [markedDigits, hdigits, Nat.div_div_eq_div_mul, Nat.pow_succ']
    rfl

theorem byte_lt_byte (h : m < n) (hn : n < 256) : UInt8.ofNat m < UInt8.ofNat n := by
  rw [UInt8.lt_iff_toNat_lt, UInt8.toNat_ofNat_of_lt' (Nat.lt_trans h hn), UInt8.toNat_ofNat_of_lt' hn]
  exact h

/-- The induction is on the digits after the first byte. -/
theorem markedDigits_lt (h : m < n) (hn : n / 64 ^ k + mark < 256) (s t : List UInt8) :
    markedDigits mark k m ++ s < markedDigits mark k n ++ t := by
  induction k generalizing m n s t with
  | zero =>
    rw [Nat.pow_zero, Nat.div_one] at hn
    exact List.cons_lt_cons_iff.2 (.inl (byte_lt_byte (Nat.add_lt_add_right h mark) hn))
  | succ k ih =>
    rw [markedDigits, markedDigits, List.append_assoc, List.append_assoc]
    rcases Nat.lt_or_ge (m / 64) (n / 64) with hlt | hge
    · exact ih hlt (by rwa [Nat.div_div_eq_div_mul, ← Nat.pow_succ']) _ _
    · have heq : m / 64 = n / 64 := by omega
      have hdigit : m % 64 + 0x80 < n % 64 + 0x80 := by omega
      rw [heq]
      exact List.append_left_lt (List.cons_lt_cons_iff.2 (.inl (byte_lt_byte hdigit (by omega))))

/-- The number of digits after the first byte, and the mark of it, in the encoding of a character. -/
def encodingForm (n : Nat) : Nat × Nat :=
  if n ≤ 0x7f then (0, 0) else if n ≤ 0x7ff then (1, 0xc0) else if n ≤ 0xffff then (2, 0xe0) else (3, 0xf0)

/-- The first byte in the encoding of a character. -/
def firstByte (n : Nat) : Nat :=
  n / 64 ^ (encodingForm n).1 + (encodingForm n).2

theorem encodingForm_cases (n : Nat) :
    n < 0x80 ∧ encodingForm n = (0, 0) ∧ firstByte n = n ∨
      (0x80 ≤ n ∧ n < 0x800) ∧ encodingForm n = (1, 0xc0) ∧ firstByte n = n / 64 + 0xc0 ∨
      (0x800 ≤ n ∧ n < 0x10000) ∧ encodingForm n = (2, 0xe0) ∧ firstByte n = n / 4096 + 0xe0 ∨
      0x10000 ≤ n ∧ encodingForm n = (3, 0xf0) ∧ firstByte n = n / 262144 + 0xf0 := by
  unfold firstByte encodingForm
  split
  · exact .inl ⟨by omega, rfl, Nat.div_one n⟩
  · split
    · exact .inr (.inl ⟨by omega, rfl, rfl⟩)
    · split
      · exact .inr (.inr (.inl ⟨by omega, rfl, rfl⟩))
      · exact .inr (.inr (.inr ⟨by omega, rfl, rfl⟩))

theorem code_lt (c : Char) : c.toNat < 0x110000 := by
  rcases c.valid with h | ⟨-, h⟩
  · exact Nat.lt_trans h (by decide)
  · exact h

theorem utf8EncodeChar_eq (c : Char) :
    String.utf8EncodeChar c = markedDigits (encodingForm c.toNat).2 (encodingForm c.toNat).1 c.toNat := by
  have hvalid := code_lt c
  have hval : c.val.toNat = c.toNat := rfl
  unfold String.utf8EncodeChar encodingForm
  simp only [hval]
  generalize c.toNat = n at hvalid
  -- the highest digit is less than what is left for it beside the mark, so no remainder is taken of it
  split
  · rfl
  · split
    · rw [show n / 64 % 32 = n / 64 by omega]; rfl
    · split
      · rw [show n / 4096 % 16 = n / 64 / 64 by omega]; rfl
      · rw [show n / 262144 % 8 = n / 64 / 64 / 64 by omega, show n / 4096 = n / 64 / 64 by omega]; rfl

theorem firstByte_lt_size (h : n < 0x110000) : firstByte n < 256 := by
  rcases encodingForm_cases n with ⟨_, -, hfirst⟩ | ⟨_, -, hfirst⟩ | ⟨_, -, hfirst⟩ | ⟨_, -, hfirst⟩ <;> omega

/-- A longer encoding has a greater first byte. -/
theorem firstByte_lt (h : m < n) (hform : encodingForm m ≠ encodingForm n) : firstByte m < firstByte n := by
  rcases encodingForm_cases m with ⟨_, em, _⟩ | ⟨_, em, _⟩ | ⟨_, em, _⟩ | ⟨_, em, _⟩ <;>
  rcases encodingForm_cases n with ⟨_, en, _⟩ | ⟨_, en, _⟩ | ⟨_, en, _⟩ | ⟨_, en, _⟩ <;>
  first
    | exact absurd (em.trans en.symm) hform
    | omega

/-- No encoding starts another one, and the order of characters is that of their encodings. -/
theorem utf8EncodeChar_lt {c d : Char} (h : c < d) (s t : List UInt8) :
    String.utf8EncodeChar c ++ s < String.utf8EncodeChar d ++ t := by
  have hbyte := firstByte_lt_size (code_lt d)
  rw [utf8EncodeChar_eq, utf8EncodeChar_eq]
  by_cases hform : encodingForm c.toNat = encodingForm d.toNat
  · rw [hform]
    exact markedDigits_lt h hbyte s t
  · have hless : firstByte c.toNat < firstByte d.toNat := firstByte_lt h hform
    obtain ⟨digits, hc⟩ := markedDigits_eq_cons (encodingForm c.toNat).2 (encodingForm c.toNat).1 c.toNat
    obtain ⟨digits', hd⟩ := markedDigits_eq_cons (encodingForm d.toNat).2 (encodingForm d.toNat).1 d.toNat
    rw [hc, hd]
    exact List.cons_lt_cons_iff.2 (.inl (byte_lt_byte hless hbyte))

/-! ## Texts -/

/-- The bytes of a text. -/
def bytes (s : Text) : List UInt8 :=
  s.flatMap String.utf8EncodeChar

theorem bytes_lt {s t : Text} (h : s < t) : bytes s < bytes t := by
  induction s generalizing t with
  | nil =>
    cases t with
    | nil => exact absurd h (List.lt_irrefl _)
    | cons d t =>
      obtain ⟨byte, rest, hd⟩ := List.exists_cons_of_ne_nil (String.utf8EncodeChar_ne_nil (c := d))
      rw [bytes, bytes, List.flatMap_cons, hd]
      exact List.nil_lt_cons _ _
  | cons c s ih =>
    cases t with
    | nil => exact absurd h (List.not_lt_nil _)
    | cons d t =>
      rw [bytes, bytes, List.flatMap_cons, List.flatMap_cons]
      rcases List.cons_lt_cons_iff.1 h with hlt | ⟨rfl, hlt⟩
      · exact utf8EncodeChar_lt hlt _ _
      · exact List.append_left_lt (ih hlt)

/-- A string is stored as the bytes of its characters. -/
theorem bytes_toList (s : String) : bytes s.toList = s.toUTF8.data.toList := by
  have hstored : (String.ofList s.toList).toByteArray.data.toList = bytes s.toList := by
    rw [String.toByteArray_ofList]
    exact List.toList_data_toByteArray
  rw [← hstored, String.ofList_toList, String.toUTF8_eq_toByteArray]

/-- The order of strings is the order of their bytes. -/
theorem toUTF8_lt {s t : String} (h : s < t) : s.toUTF8.data.toList < t.toUTF8.data.toList := by
  rw [← bytes_toList, ← bytes_toList]
  exact bytes_lt (String.lt_iff.1 h)

end JsonSieve.Text
