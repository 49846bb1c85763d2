/-
Cutting a text at a phrase. A cut is made at the first occurrence: what stands before it does not hold the
phrase, also not together with all but the last character of the phrase, where another occurrence could
overlap the one that is cut out. For a mark of two equal characters that says that what stands before the
mark neither holds it nor ends in its character (`Precedes`). A cut after the longest run of characters of a
kind is told by what stands on either side of it (`takeWhile_dropWhile_iff`). Texts that do not hold a separator
are found again between the separators when they are joined (`splitOn_joinWith`).
-/
import JsonSieve.Text.Basic
import Mathlib.Data.List.Infix
import Mathlib.Data.List.TakeWhile

namespace JsonSieve.Text

variable {phrase s before rest : Text} {mark : Char}

/-! ## Leading phrases -/

theorem after?_eq_some_iff : after? phrase s = some rest ↔ phrase ++ rest = s := by
  induction phrase generalizing s with
  | nil => simp [after?, eq_comm]
  | cons p phrase ih =>
    cases s with
    | nil => simp [after?]
    | cons c s =>
      rw [after?]
      split
      · rename_i hpc
        simp [hpc, ih]
      · rename_i hpc
        simp [hpc]

theorem after?_eq_none_iff : after? phrase s = none ↔ ¬ phrase <+: s := by
  rw [Option.eq_none_iff_forall_ne_some]
  constructor
  · rintro hnone ⟨rest, hrest⟩
    exact hnone rest (after?_eq_some_iff.2 hrest)
  · rintro hnot rest hrest
    exact hnot ⟨rest, after?_eq_some_iff.1 hrest⟩

/-! ## First occurrences -/

theorem prefix_of_append_dropLast (before phrase rest : Text) :
    before ++ phrase.dropLast <+: before ++ phrase ++ rest := by
  rw [List.append_assoc, List.prefix_append_right_inj]
  exact (List.dropLast_prefix phrase).trans (List.prefix_append phrase rest)

/-- The induction is on what stands before the phrase: a phrase that started in it would lie in it and in the
front of the phrase that is cut out. -/
theorem cutAt?_append (hne : phrase ≠ []) (hfirst : ¬ phrase <:+: before ++ phrase.dropLast) (rest : Text) :
    cutAt? phrase (before ++ phrase ++ rest) = some (before, rest) := by
  induction before with
  | nil =>
    obtain ⟨c, s, hcons⟩ := List.exists_cons_of_ne_nil hne
    have hafter : after? phrase (c :: (s ++ rest)) = some rest := after?_eq_some_iff.2 (by rw [hcons]; rfl)
    rw [List.nil_append]
    nth_rewrite 2 [hcons]
    rw [List.cons_append, cutAt?, hafter]
  | cons b before ih =>
    have hstart : ¬ phrase <+: b :: (before ++ phrase ++ rest) := by
      intro hstart
      refine hfirst (List.prefix_of_prefix_length_le hstart (prefix_of_append_dropLast (b :: before) _ _) ?_).isInfix
      simp only [List.length_append, List.length_cons, List.length_dropLast]
      omega
    have hrest : ¬ phrase <:+: before ++ phrase.dropLast := fun hin => hfirst (List.infix_cons hin)
    rw [List.cons_append, List.cons_append, cutAt?, after?_eq_none_iff.2 hstart, ih hrest]
    rfl

theorem spec_of_cutAt? (hne : phrase ≠ []) (h : cutAt? phrase s = some (before, rest)) :
    before ++ phrase ++ rest = s ∧ ¬ phrase <:+: before ++ phrase.dropLast := by
  induction s generalizing before with
  | nil =>
    rw [cutAt?, if_neg (by simpa using hne)] at h
    cases h
  | cons c s ih =>
    rw [cutAt?] at h
    split at h
    · rename_i hafter
      cases h
      refine ⟨after?_eq_some_iff.1 hafter, fun hin => ?_⟩
      have hlength := hin.length_le
      have hpos := List.length_pos_iff.2 hne
      rw [List.nil_append, List.length_dropLast] at hlength
      omega
    · rename_i hafter
      obtain ⟨⟨front, after⟩, hcut, hpair⟩ := Option.map_eq_some_iff.1 h
      cases hpair
      obtain ⟨rfl, hfirst⟩ := ih hcut
      refine ⟨rfl, fun hin => ?_⟩
      rcases List.infix_cons_iff.1 hin with hstart | hin
      · -- the phrase would start the text, and the cut would have been made there
        exact after?_eq_none_iff.1 hafter (hstart.trans (prefix_of_append_dropLast (c :: front) _ _))
      · exact hfirst hin

theorem cutAt?_eq_none_iff (hne : phrase ≠ []) : cutAt? phrase s = none ↔ ¬ phrase <:+: s := by
  induction s with
  | nil => simp [cutAt?, hne]
  | cons c s ih =>
    rw [cutAt?, List.infix_cons_iff]
    split
    · rename_i hafter
      have hstart : phrase <+: c :: s := ⟨_, after?_eq_some_iff.1 hafter⟩
      simp [hstart]
    · rename_i hafter
      rw [Option.map_eq_none_iff, ih, or_iff_right (after?_eq_none_iff.1 hafter)]

/-! ## Marks of two equal characters -/

/-- A text after which a mark of two equal characters is the first such mark: the text neither holds the mark
nor ends in its character. -/
def Precedes (mark : Char) (s : Text) : Prop :=
  ¬ [mark, mark] <:+: s ∧ s.getLast? ≠ some mark

instance (mark : Char) (s : Text) : Decidable (Precedes mark s) :=
  inferInstanceAs (Decidable (_ ∧ _))

theorem precedes_iff : Precedes mark s ↔ ¬ [mark, mark] <:+: s ++ [mark] := by
  have hlast : [mark, mark] <:+ s ++ [mark] ↔ s.getLast? = some mark := by
    rw [← List.singleton_append, List.suffix_append_self_iff, List.getLast?_eq_some_iff]
    exact ⟨fun ⟨t, ht⟩ => ⟨t, ht.symm⟩, fun ⟨t, ht⟩ => ⟨t, ht.symm⟩⟩
  rw [List.infix_concat_iff, hlast, not_or, and_comm]
  rfl

/-- A text is cut at a mark exactly where the mark has such a text before it. -/
theorem cutAt?_mark_eq_some_iff :
    cutAt? [mark, mark] s = some (before, rest) ↔ before ++ [mark, mark] ++ rest = s ∧ Precedes mark before := by
  rw [precedes_iff]
  constructor
  · exact spec_of_cutAt? (List.cons_ne_nil _ _)
  · rintro ⟨rfl, hfirst⟩
    exact cutAt?_append (List.cons_ne_nil _ _) hfirst rest

/-! ## Longest runs -/

/-- A text is cut after the longest run of characters of a kind exactly where all before the cut are of the kind
and the next one, if there is one, is not. -/
theorem takeWhile_dropWhile_iff {kind : Char → Bool} {run : Text} :
    s.takeWhile kind = run ∧ s.dropWhile kind = rest ↔
      (∀ c ∈ run, kind c = true) ∧ (∀ c, rest.head? = some c → kind c = false) ∧ s = run ++ rest := by
  constructor
  · rintro ⟨rfl, rfl⟩
    refine ⟨fun c hc => List.mem_takeWhile_imp hc, fun c hc => ?_, List.takeWhile_append_dropWhile.symm⟩
    have hhead := List.head?_dropWhile_not kind s
    rw [hc] at hhead
    simpa using hhead
  · rintro ⟨hrun, hnext, rfl⟩
    rw [List.takeWhile_append_of_pos hrun, List.dropWhile_append_of_pos hrun]
    cases rest with
    | nil => simp
    | cons c rest => simp [hnext c rfl]

/-! ## Pieces between separators -/

variable {sep : Char}

theorem splitOn_of_notMem (h : sep ∉ s) : splitOn sep s = [s] := by
  induction s with
  | nil => rfl
  | cons c s ih =>
    obtain ⟨hc, hs⟩ := List.ne_and_not_mem_of_not_mem_cons h
    rw [splitOn, if_neg hc.symm, ih hs]

theorem splitOn_append_cons (h : sep ∉ s) (t : Text) : splitOn sep (s ++ sep :: t) = s :: splitOn sep t := by
  induction s with
  | nil => rw [List.nil_append, splitOn, if_pos rfl]
  | cons c s ih =>
    obtain ⟨hc, hs⟩ := List.ne_and_not_mem_of_not_mem_cons h
    rw [List.cons_append, splitOn, if_neg hc.symm, ih hs]

/-- Texts without the separator are found again between the separators. -/
theorem splitOn_joinWith {pieces : List Text} (hne : pieces ≠ []) (h : ∀ piece ∈ pieces, sep ∉ piece) :
    splitOn sep (joinWith [sep] pieces) = pieces := by
  induction pieces with
  | nil => exact absurd rfl hne
  | cons first others ih =>
    obtain ⟨hfirst, hothers⟩ := List.forall_mem_cons.1 h
    cases others with
    | nil => exact splitOn_of_notMem hfirst
    | cons second rest =>
      rw [joinWith, List.append_assoc, List.singleton_append, splitOn_append_cons hfirst,
        ih (List.cons_ne_nil _ _) hothers]

end JsonSieve.Text
