/-
The patterns that a filter may look for. They stand in the directive, each between the signs `=/` and `/`,
whatever the data are; and since the members of a group are pieces of the directive that do not overlap,
no two of them start at the same sign, so there are no more of them than signs (`length_patterns_le`).
-/
import JsonSieve.Filter.Apply
import JsonSieve.Proofs.Filter.Parts
import Mathlib.Algebra.Order.BigOperators.Group.List
import Mathlib.Algebra.Order.Ring.Nat

namespace JsonSieve

/-! ## Occurrences -/

namespace Text

/-- The number of places at which a phrase starts in a text. -/
def occurrences (phrase : Text) : Text → Nat
  | [] => 0
  | c :: s => (if phrase.isPrefixOf (c :: s) then 1 else 0) + occurrences phrase s

variable {phrase s t : Text}

theorem occurrences_append_le (phrase s t : Text) :
    occurrences phrase s ≤ occurrences phrase (s ++ t) := by
  induction s with
  | nil => exact Nat.zero_le _
  | cons c s ih =>
    have hstart : phrase.isPrefixOf (c :: s) = true → phrase.isPrefixOf (c :: s ++ t) = true := by
      rw [List.isPrefixOf_iff_prefix, List.isPrefixOf_iff_prefix]
      exact fun h => h.trans (List.prefix_append _ _)
    rw [List.cons_append] at hstart ⊢
    rw [occurrences, occurrences]
    refine Nat.add_le_add ?_ ih
    split
    · rename_i h
      rw [if_pos (hstart h)]
    · exact Nat.zero_le _

theorem occurrences_le_append (phrase s t : Text) :
    occurrences phrase t ≤ occurrences phrase (s ++ t) := by
  induction s with
  | nil => exact Nat.le_refl _
  | cons c s ih => exact Nat.le_trans ih (Nat.le_add_left _ _)

/-- In a piece of a text a phrase starts no more often than in the text. -/
theorem occurrences_le_of_infix (h : s <:+: t) : occurrences phrase s ≤ occurrences phrase t := by
  obtain ⟨before, after, rfl⟩ := h
  exact Nat.le_trans (occurrences_le_append phrase before s) (occurrences_append_le phrase _ after)

/-- A text is enclosed if a mark stands at its start and another one at its end. -/
theorem enclosedBy?_eq_some_iff {mark : Char} : enclosedBy? mark s = some t ↔ s = mark :: (t ++ [mark]) := by
  constructor
  · intro h
    cases s with
    | nil => cases h
    | cons c s =>
      rw [enclosedBy?] at h
      split at h
      · rename_i hmarks
        obtain ⟨rfl, hlast⟩ := hmarks
        cases h
        rw [List.dropLast_append_getLast? _ hlast]
      · cases h
  · rintro rfl
    rw [enclosedBy?, if_pos ⟨rfl, List.getLast?_concat⟩, List.dropLast_concat]

end Text

/-- The members of a group do not overlap. -/
theorem sum_occurrences_membersFrom? {phrase : Text} {depth : Nat} {s : Text} {members : List Text}
    (h : membersFrom? depth s = some members) :
    (members.map (Text.occurrences phrase)).sum ≤ Text.occurrences phrase s := by
  fun_induction membersFrom? depth s generalizing members with
  | case1 => cases h
  | case2 => cases h; exact Nat.zero_le _
  | case3 => cases h
  | case4 s ih =>
    obtain ⟨rest, hs, rfl⟩ := Option.map_eq_some_iff.1 h
    have := ih hs
    simp only [List.map_cons, List.sum_cons, Text.occurrences] at this ⊢
    omega
  | case5 depth c s =>
    rename_i member rest hs ih
    -- a phrase that starts at the first character of the member starts there in the text as well
    cases h
    obtain ⟨hfirst, -⟩ := pieces_of_membersFrom? hs
    have hstart : phrase.isPrefixOf (c :: member) = true → phrase.isPrefixOf (c :: s) = true := by
      rw [List.isPrefixOf_iff_prefix, List.isPrefixOf_iff_prefix]
      exact fun hp => hp.trans (List.cons_prefix_cons.2 ⟨rfl, hfirst⟩)
    have hle := ih hs
    simp only [List.map_cons, List.sum_cons, Text.occurrences] at hle ⊢
    split
    · rename_i hp
      rw [if_pos (hstart hp)]
      omega
    · omega
  | case6 => cases h

theorem sum_occurrences_group? {phrase s : Text} {members : List Text} (h : group? s = some members) :
    (members.map (Text.occurrences phrase)).sum ≤ Text.occurrences phrase s := by
  unfold group? at h
  split at h
  · exact Nat.le_trans (sum_occurrences_membersFrom? h) (Nat.le_add_left _ _)
  · cases h

/-! ## Patterns -/

/-- The patterns of a literal: one or none. -/
def Literal.patterns (literal : Text) : List String :=
  match stringTest literal with
  | .pattern p => [String.ofList p]
  | .exactly _ => []

theorem Literal.text_of_mem_patterns {literal : Text} {p : String} (h : p ∈ patterns literal) :
    literal = '/' :: (p.toList ++ ['/']) := by
  unfold patterns stringTest at h
  cases hquotes : Text.enclosedBy? '"' literal with
  | some s => simp [hquotes] at h
  | none =>
    cases hslashes : Text.enclosedBy? '/' literal with
    | none => simp [hquotes, hslashes] at h
    | some q =>
      simp only [hquotes, hslashes, List.mem_singleton] at h
      rw [h, String.toList_ofList]
      exact Text.enclosedBy?_eq_some_iff.1 hslashes

theorem Literal.length_patterns_le (literal : Text) :
    (patterns literal).length ≤ Text.occurrences ['=', '/'] ('=' :: literal) := by
  cases hpatterns : patterns literal with
  | nil => exact Nat.zero_le _
  | cons p ps =>
    have hone : (p :: ps).length ≤ 1 := by
      rw [← hpatterns, patterns]
      split
      · exact Nat.le_refl 1
      · exact Nat.zero_le 1
    have hp : p ∈ patterns literal := hpatterns ▸ List.mem_cons_self
    rw [text_of_mem_patterns hp]
    exact Nat.le_trans hone (Nat.le_add_right 1 _)

namespace Filter

/-- The patterns that a filter may look for. -/
def patterns : Filter → List String
  | .equals literal => Literal.patterns literal
  | .everyItem rest | .someItem rest | .everyField rest | .someField rest
  | .item _ rest | .field _ rest => rest.patterns
  | .member _ first others => first.patterns ++ others.patterns
  | .pass | .equalsAt _ | .cut _ | .refuse _ => []

/-- The patterns of a directive are those of its literal, if it is a comparison, and otherwise those of what
its form leaves to read, in the same order. -/
theorem patterns_parse (d : Text) :
    (∃ literal, d = '=' :: literal ∧ (parse d).patterns.Sublist (Literal.patterns literal)) ∨
      (parse d).patterns.Sublist ((Form.of d).parts.flatMap fun part => (parse part).patterns) := by
  have hfits := Form.fits_of d
  have hrest (rest : Text) : (if rest.isEmpty then Filter.pass else parse rest).patterns.Sublist
      ([rest].flatMap fun part => (parse part).patterns) := by
    rw [List.flatMap_singleton]
    split
    · exact List.nil_sublist _
    · exact List.Sublist.refl _
  rw [parse_eq]
  cases hform : Form.of d with
  | comparison literal =>
    rw [hform] at hfits
    refine .inl ⟨literal, hfits, ?_⟩
    rw [ofForm]
    -- a literal that starts like a path is looked up and never compiled
    rcases ofLiteral_cases literal with h | ⟨path, h⟩ | ⟨cause, h⟩
    · rw [h]; exact List.Sublist.refl _
    · rw [h]; exact List.nil_sublist _
    · rw [h]; exact List.nil_sublist _
  | group members =>
    right
    rw [ofForm, gathered_members patterns rfl fun _ _ _ => rfl]
    exact List.Sublist.refl _
  | item i rest => exact .inr (hrest rest)
  | field name rest => exact .inr (hrest rest)
  | everyItem rest => right; rw [Form.parts, List.flatMap_singleton]; exact List.Sublist.refl _
  | someItem rest => right; rw [Form.parts, List.flatMap_singleton]; exact List.Sublist.refl _
  | everyField rest => right; rw [Form.parts, List.flatMap_singleton]; exact List.Sublist.refl _
  | someField rest => right; rw [Form.parts, List.flatMap_singleton]; exact List.Sublist.refl _
  | empty => exact .inr (List.nil_sublist _)
  | cut tokens => exact .inr (List.nil_sublist _)
  | unknown => exact .inr (List.nil_sublist _)

/-- A pattern stands in the directive between its signs. The induction is on the parts of the directive. -/
theorem infix_of_mem_patterns {p : String} (d : Text) (h : p ∈ (parse d).patterns) :
    ['=', '/'] ++ p.toList ++ ['/'] <:+: d := by
  induction d using parts_induction with
  | step d ih =>
    rcases patterns_parse d with ⟨literal, rfl, hsub⟩ | hsub
    · rw [Literal.text_of_mem_patterns (hsub.subset h)]
      exact List.infix_refl _
    · obtain ⟨part, hpart, hp⟩ := List.mem_flatMap.1 (hsub.subset h)
      exact (ih part hpart hp).trans (Form.infix_of_mem_parts hpart)

theorem Form.sum_occurrences_parts (phrase d : Text) :
    ((Form.of d).parts.map (Text.occurrences phrase)).sum ≤ Text.occurrences phrase d := by
  have hfits := Form.fits_of d
  have single {part : Text} (h : (Form.of d).parts = [part]) :
      ([part].map (Text.occurrences phrase)).sum ≤ Text.occurrences phrase d := by
    rw [List.map_singleton, List.sum_singleton]
    exact Text.occurrences_le_of_infix (Form.infix_of_mem_parts (h ▸ List.mem_singleton_self part))
  cases hform : Form.of d with
  | group members => rw [hform] at hfits; exact sum_occurrences_group? hfits
  | everyItem rest => exact single (by rw [hform]; rfl)
  | someItem rest => exact single (by rw [hform]; rfl)
  | everyField rest => exact single (by rw [hform]; rfl)
  | someField rest => exact single (by rw [hform]; rfl)
  | item i rest => exact single (by rw [hform]; rfl)
  | field name rest => exact single (by rw [hform]; rfl)
  | empty => exact Nat.zero_le _
  | comparison literal => exact Nat.zero_le _
  | cut tokens => exact Nat.zero_le _
  | unknown => exact Nat.zero_le _

/-- There are no more patterns than signs. The induction is on the parts of the directive. -/
theorem length_patterns_le (d : Text) :
    (parse d).patterns.length ≤ Text.occurrences ['=', '/'] d := by
  induction d using parts_induction with
  | step d ih =>
    rcases patterns_parse d with ⟨literal, rfl, hsub⟩ | hsub
    · exact Nat.le_trans hsub.length_le (Literal.length_patterns_le literal)
    · calc (parse d).patterns.length
          ≤ ((Form.of d).parts.map fun part => (parse part).patterns.length).sum := by
            rw [← List.length_flatMap]; exact hsub.length_le
        _ ≤ ((Form.of d).parts.map (Text.occurrences ['=', '/'])).sum := List.sum_le_sum ih
        _ ≤ Text.occurrences ['=', '/'] d := Form.sum_occurrences_parts _ d

end Filter

end JsonSieve
