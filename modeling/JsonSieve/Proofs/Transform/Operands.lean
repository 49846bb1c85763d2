/-
Operands: the index, the field and the assignment that a directive can start with. Each is read from exactly the
texts of its grammar, which is written down here without the reader, and a text fits a grammar in one way only. An
index has any number of digits, zeros in front too, as long as they denote a number of 64 bits; a name goes on as
far as there are letters and numbers; and no side of an assignment holds a mark that ends sides.
-/
import JsonSieve.Proofs.Path.Pieces
import JsonSieve.Proofs.Text.Cut
import JsonSieve.Proofs.Transform.Copying

namespace JsonSieve

variable {s name rest dest src : Text} {n : Nat} {i : UInt64}

/-! ## Grammars -/

/-- A text starts with an index: digits in brackets that denote a number of 64 bits. -/
def StartsWithIndex (s : Text) (n : Nat) (rest : Text) : Prop :=
  ∃ digits, Text.Denotes digits n ∧ n < 2 ^ 64 ∧ s = '[' :: (digits ++ ']' :: rest)

/-- A text starts with a field: a dot and letters and numbers, possibly none, up to where no more of them follow. -/
def StartsWithField (s name rest : Text) : Prop :=
  (∀ c ∈ name, Unicode.isAlphanumeric c = true) ∧ rest.EndsName ∧ s = '.' :: (name ++ rest)

/-- A text is an assignment: two sides in braces around an equals sign, each without equals signs and closing
braces of its own. -/
def IsAssignment (s dest src : Text) : Prop :=
  ('=' ∉ dest ∧ '}' ∉ dest) ∧ ('=' ∉ src ∧ '}' ∉ src) ∧ s = '{' :: (dest ++ '=' :: (src ++ ['}']))

/-! ## Reading -/

theorem exactIndex?_eq_some_iff : exactIndex? s = some (i, rest) ↔ StartsWithIndex s i.toNat rest := by
  constructor
  · intro h
    obtain ⟨piece, hpiece, rfl⟩ := Path.spelled_of_exactIndex? h
    cases hpiece with
    | index hdigits hne hfits =>
      rw [UInt64.toNat_ofNat_of_lt' hfits]
      exact ⟨_, Text.denotes_iff.2 ⟨hne, hdigits, rfl⟩, hfits, by simp⟩
  · rintro ⟨digits, hdenotes, hfits, rfl⟩
    obtain ⟨hne, hdigits, hvalue⟩ := Text.denotes_iff.1 hdenotes
    rw [exactIndex?_digits hdigits hne (hvalue ▸ hfits), hvalue, UInt64.ofNat_toNat]

theorem exactField?_eq_some_iff : exactField? s = some (name, rest) ↔ StartsWithField s name rest := by
  unfold exactField?
  split
  · rename_i t
    rw [Option.some.injEq, Prod.mk.injEq, Text.takeWhile_dropWhile_iff]
    simp only [StartsWithField, Text.EndsName, List.cons.injEq, true_and]
  · rename_i hdot
    constructor
    · intro h; cases h
    · rintro ⟨-, -, hs⟩; exact absurd hs (hdot _)

/-- A side holds no mark that ends sides. -/
theorem forall_endsSide_iff : (∀ c ∈ s, endsSide c = false) ↔ '=' ∉ s ∧ '}' ∉ s := by
  constructor
  · intro h
    exact ⟨fun hmem => absurd (h _ hmem) (by decide), fun hmem => absurd (h _ hmem) (by decide)⟩
  · rintro ⟨hequals, hbrace⟩ c hc
    have hne : c ≠ '=' := by rintro rfl; exact hequals hc
    have hne' : c ≠ '}' := by rintro rfl; exact hbrace hc
    simp [endsSide, hne, hne']

theorem assignment?_eq_some_iff : assignment? s = some (dest, src) ↔ IsAssignment s dest src := by
  have hside {t : Text} {c : Char} {rest : Text} (hdrop : t.dropWhile (!endsSide ·) = c :: rest) :
      ('=' ∉ t.takeWhile (!endsSide ·) ∧ '}' ∉ t.takeWhile (!endsSide ·)) ∧
        t = t.takeWhile (!endsSide ·) ++ c :: rest := by
    obtain ⟨hall, -, ht⟩ := Text.takeWhile_dropWhile_iff.1 ⟨rfl, hdrop⟩
    exact ⟨forall_endsSide_iff.1 fun d hd => by simpa using hall d hd, ht⟩
  constructor
  · intro h
    unfold assignment? at h
    split at h
    · split at h
      · rename_i after hafter
        split at h
        · rename_i hend
          cases h
          obtain ⟨hdest, hfront⟩ := hside hafter
          obtain ⟨hsrc, hback⟩ := hside hend
          refine ⟨hdest, hsrc, ?_⟩
          rw [← hback, ← hfront]
        · cases h
      · cases h
    · cases h
  · rintro ⟨hdest, hsrc, rfl⟩
    have hread := assignment?_assignmentOf (forall_endsSide_iff.2 hdest) (forall_endsSide_iff.2 hsrc)
    simpa [assignmentOf] using hread

/-- Operands are read exactly, and in one way only: an index is digits in brackets that denote a number below `2 ^
64`, a field a dot with all letters and numbers after it, and an assignment two sides in braces around the only
equality sign. -/
theorem operands_exact (s : Text) :
    (∀ n rest, (∃ i : UInt64, i.toNat = n ∧ exactIndex? s = some (i, rest)) ↔ StartsWithIndex s n rest) ∧
    (∀ name rest, exactField? s = some (name, rest) ↔ StartsWithField s name rest) ∧
    (∀ dest src, assignment? s = some (dest, src) ↔ IsAssignment s dest src) ∧
    (∀ n rest n' rest', StartsWithIndex s n rest → StartsWithIndex s n' rest' → n = n' ∧ rest = rest') ∧
    (∀ name rest name' rest', StartsWithField s name rest → StartsWithField s name' rest' →
      name = name' ∧ rest = rest') ∧
    ∀ dest src dest' src', IsAssignment s dest src → IsAssignment s dest' src' → dest = dest' ∧ src = src' := by
  have hindex (n : Nat) (rest : Text) :
      (∃ i : UInt64, i.toNat = n ∧ exactIndex? s = some (i, rest)) ↔ StartsWithIndex s n rest := by
    constructor
    · rintro ⟨i, rfl, h⟩
      exact exactIndex?_eq_some_iff.1 h
    · intro h
      obtain ⟨-, -, hfits, -⟩ := id h
      have hnat : (UInt64.ofNat n).toNat = n := UInt64.toNat_ofNat_of_lt' hfits
      exact ⟨.ofNat n, hnat, exactIndex?_eq_some_iff.2 (by rwa [hnat])⟩
  refine ⟨hindex, fun _ _ => exactField?_eq_some_iff, fun _ _ => assignment?_eq_some_iff, ?_, ?_, ?_⟩
  · intro n rest n' rest' h h'
    obtain ⟨i, rfl, hread⟩ := (hindex n rest).2 h
    obtain ⟨i', rfl, hread'⟩ := (hindex n' rest').2 h'
    rw [hread] at hread'
    cases hread'
    exact ⟨rfl, rfl⟩
  · intro name rest name' rest' h h'
    rw [← exactField?_eq_some_iff] at h h'
    rw [h] at h'
    cases h'
    exact ⟨rfl, rfl⟩
  · intro dest src dest' src' h h'
    rw [← assignment?_eq_some_iff] at h h'
    rw [h] at h'
    cases h'
    exact ⟨rfl, rfl⟩

/-- The greatest index, with zeros in front, and the next number; a name that ends at a bracket; and an assignment
with nothing on one side. -/
theorem operands_exact_greatest_index :
    let index : Text := "[0018446744073709551615]1".toList
    let beyond : Text := "[18446744073709551616]1".toList
    let field : Text := ".ab1[0]".toList
    let copy : Text := ['{', '.', 'a', '=', '}']
    StartsWithIndex index (2 ^ 64 - 1) ['1'] ∧
      (∀ n rest, StartsWithIndex index n rest → n = 2 ^ 64 - 1 ∧ rest = ['1']) ∧
      (∀ n rest, ¬ StartsWithIndex beyond n rest) ∧
      StartsWithField field ['a', 'b', '1'] ['[', '0', ']'] ∧
      (∀ name rest, StartsWithField field name rest → name = ['a', 'b', '1'] ∧ rest = ['[', '0', ']']) ∧
      IsAssignment copy ['.', 'a'] [] ∧
      ∀ dest src, IsAssignment copy dest src → dest = ['.', 'a'] ∧ src = [] := by
  intro index beyond field copy
  have hindexRead : exactIndex? index = some (18446744073709551615, ['1']) := by decide
  have hbeyondRead : exactIndex? beyond = none := by decide
  have hfieldRead : exactField? field = some (['a', 'b', '1'], ['[', '0', ']']) := by decide
  have hcopyRead : assignment? copy = some (['.', 'a'], []) := by decide
  obtain ⟨hindex, -, -, hindexUnique, -, -⟩ := operands_exact index
  obtain ⟨hbeyond, -⟩ := operands_exact beyond
  obtain ⟨-, hfield, -, -, hfieldUnique, -⟩ := operands_exact field
  obtain ⟨-, -, hcopy, -, -, hcopyUnique⟩ := operands_exact copy
  have hnat : (18446744073709551615 : UInt64).toNat = 2 ^ 64 - 1 := by decide
  have hgreatest : StartsWithIndex index (2 ^ 64 - 1) ['1'] := (hindex _ _).1 ⟨_, hnat, hindexRead⟩
  have hname := (hfield _ _).1 hfieldRead
  have hsides := (hcopy _ _).1 hcopyRead
  refine ⟨hgreatest, fun n rest h => hindexUnique _ _ _ _ h hgreatest, fun n rest h => ?_,
    hname, fun name rest h => hfieldUnique _ _ _ _ h hname, hsides, fun dest src h => hcopyUnique _ _ _ _ h hsides⟩
  obtain ⟨i, -, hread⟩ := (hbeyond n rest).2 h
  rw [hbeyondRead] at hread
  cases hread

end JsonSieve
