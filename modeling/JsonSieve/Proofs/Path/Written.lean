/-
Paths as they are written: a text that starts with the text of a step is read as that step and what
follows it. A key must consist of letters and numbers for this, and what follows must neither
lengthen it nor, right after a dot, start another operator (`Detached`). The text of a path has the
same property of what stands before it, so whole paths are read step by step.
-/
import JsonSieve.Path.Basic
import JsonSieve.Proofs.Text.Cut
import JsonSieve.Proofs.Text.Numeral

namespace JsonSieve

/-! ## Steps that can be written -/

/-- A step that a text can spell: a key has letters and numbers only, or nothing at all. -/
def Step.Writable : Step → Prop
  | .key name => ∀ c ∈ name.toList, Unicode.isAlphanumeric c = true
  | .index _ => True

instance : (step : Step) → Decidable step.Writable
  | .key name => List.decidableBAll (Unicode.isAlphanumeric · = true) name.toList
  | .index _ => instDecidableTrue

/-- A text that can follow a path: it starts neither with a letter or a number nor with an opening
parenthesis. -/
def Text.Detached (s : Text) : Prop :=
  ∀ c, s.head? = some c → Unicode.isAlphanumeric c = false ∧ c ≠ '('

/-- A step starts with a dot or a bracket and so never lengthens what stands before it. -/
theorem Step.detached_text (step : Step) (s : Text) : Text.Detached (step.text ++ s) := by
  intro c h
  cases step with
  | key name => cases h; decide
  | index i => cases h; decide

theorem Path.text_cons_append (step : Step) (path : Path) (rest : Text) :
    Path.text (step :: path) ++ rest = step.text ++ (Path.text path ++ rest) := by
  rw [Path.text, List.flatMap_cons, List.append_assoc]; rfl

theorem Path.detached_text (path : Path) {rest : Text} (hr : rest.Detached) :
    Text.Detached (path.text ++ rest) := by
  cases path with
  | nil => exact hr
  | cons step path =>
    rw [Path.text_cons_append]
    exact step.detached_text _

/-! ## What comes after the mark of a step -/

/-- A digit comes after the opening bracket of an index. -/
theorem Step.text_index (i : UInt64) :
    ∃ c s, (Step.index i).text = '[' :: c :: s ∧ c.isDigit = true := by
  cases hd : Text.ofNat i.toNat with
  | nil => exact absurd hd Nat.toDigits_ne_nil
  | cons c digits =>
    refine ⟨c, digits ++ [']'], by simp [text, hd], ?_⟩
    exact Text.isDigit_of_mem_ofNat (hd ▸ List.mem_cons_self)

/-- After the dot of a key comes a letter, a number or what follows the key, and none of them is a
parenthesis. -/
theorem Step.after_dot_ne {name : String} (hn : (Step.key name).Writable) {rest : Text}
    (hr : rest.Detached) (s : Text) : name.toList ++ rest ≠ '(' :: s := by
  intro h
  cases hname : name.toList with
  | nil => rw [hname, List.nil_append] at h; exact (hr '(' (by simp [h])).2 rfl
  | cons c cs =>
    have hc : Unicode.isAlphanumeric c = true := hn c (by simp [hname])
    rw [hname, List.cons_append, List.cons.injEq] at h
    rw [h.1] at hc
    revert hc; decide

/-! ## Reading a step back -/

/-- The digits of an index end at the closing bracket. -/
theorem exactIndex?_digits {digits : Text} (hdigits : ∀ c ∈ digits, c.isDigit = true)
    (hne : digits ≠ []) (hfits : Text.value digits < UInt64.size) (rest : Text) :
    exactIndex? ('[' :: (digits ++ ']' :: rest)) = some (.ofNat (Text.value digits), rest) := by
  have hstop : ∀ c, (']' :: rest).head? = some c → c.isDigit = false := by rintro c ⟨⟩; rfl
  obtain ⟨htake, hdrop⟩ := Text.takeWhile_dropWhile_iff.2 ⟨hdigits, hstop, rfl⟩
  simp [exactIndex?, htake, hdrop, hne, hfits]

/-- The digits of an index are read back, and their value fits because the index does. -/
theorem exactIndex?_text (i : UInt64) (rest : Text) :
    exactIndex? ((Step.index i).text ++ rest) = some (i, rest) := by
  have hfits : Text.value (Text.ofNat i.toNat) < UInt64.size := by
    rw [Text.value_ofNat]; exact i.toNat_lt
  have hread := exactIndex?_digits (fun c => Text.isDigit_of_mem_ofNat) (Text.ofNat_ne_nil i.toNat)
    hfits rest
  rw [Text.value_ofNat, UInt64.ofNat_toNat] at hread
  simpa [Step.text] using hread

/-- A name is as long as the row of letters and numbers after the dot. -/
theorem exactField?_append {name : Text} (hn : ∀ c ∈ name, Unicode.isAlphanumeric c = true)
    (rest : Text) : exactField? ('.' :: (name ++ rest)) =
      some (name ++ rest.takeWhile Unicode.isAlphanumeric, rest.dropWhile Unicode.isAlphanumeric) := by
  rw [exactField?, List.takeWhile_append_of_pos hn, List.dropWhile_append_of_pos hn]

theorem exactField?_text {name : String} (hn : (Step.key name).Writable) {rest : Text}
    (hr : rest.Detached) :
    exactField? ((Step.key name).text ++ rest) = some (name.toList, rest) := by
  obtain ⟨htake, hdrop⟩ := Text.takeWhile_dropWhile_iff.2 ⟨hn, fun c hc => (hr c hc).1, rfl⟩
  simp [Step.text, exactField?, htake, hdrop]

/-- No index starts with a dot. -/
theorem exactIndex?_key (name : String) (rest : Text) :
    exactIndex? ((Step.key name).text ++ rest) = none := rfl

end JsonSieve
