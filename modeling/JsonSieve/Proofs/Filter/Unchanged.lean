/-
Filters that only test. A filter takes something away only by a step into all items or all entries or by a
cut; in a test for some item or entry these work on a copy. Without them, wherever it stands, a filter passes
values unchanged, and in the text of a directive each of them is written with its mark, so the text tells.
-/
import JsonSieve.Proofs.Filter.Parts
import JsonSieve.Proofs.Filter.Passing

namespace JsonSieve.Filter

/-! ## Filters that take away -/

/-- Whether a filter may take something away from the values that it passes. -/
def takesAway : Filter → Bool
  | .everyItem _ | .everyField _ | .cut _ => true
  | .item _ rest | .field _ rest => rest.takesAway
  | .member _ first others => first.takesAway || others.takesAway
  | .pass | .equals _ | .equalsAt _ | .someItem _ | .someField _ | .refuse _ => false

/-- The induction is on the filter: what is put back in the place of a part is the part itself. -/
theorem eq_of_apply (choose : RootChoice) (f : Filter) (hf : f.takesAway = false) {root v w : Value}
    {cache cache' : PatternCache} (h : (f.apply choose root v).run cache = (.ok w, cache')) : w = v := by
  induction f generalizing root v w cache cache' with
  | pass => cases h; rfl
  | equals literal => exact Run.passIf_ok h
  | equalsAt path =>
    obtain ⟨other, middle, -, hthen⟩ := Run.bind_ok h
    split at hthen
    · cases hthen; rfl
    · cases hthen
  | someItem rest _ =>
    cases v with
    | list items => exact Run.passIf_ok h
    | _ => cases h
  | someField rest _ =>
    cases v with
    | map entries => exact Run.passIf_ok h
    | _ => cases h
  | item i rest ih =>
    cases v with
    | list items =>
      simp only [apply] at h
      cases hx : items[i.toNat]? with
      | none => rw [hx] at h; cases h
      | some x =>
        rw [hx] at h
        obtain ⟨y, hy, rfl⟩ := Run.map_ok h
        obtain ⟨hlt, rfl⟩ := List.getElem?_eq_some_iff.1 hx
        rw [ih hf hy, List.set_getElem_self]
    | _ => cases h
  | field name rest ih =>
    cases v with
    | map entries =>
      simp only [apply] at h
      split at h
      · exact ih hf h
      · cases hx : Entries.get? name entries with
        | none => rw [hx] at h; cases h
        | some x =>
          rw [hx] at h
          obtain ⟨y, hy, rfl⟩ := Run.map_ok h
          rw [ih hf hy, Entries.put_get? hx]
    | _ => cases h; rfl
  | member text first others ihFirst ihOthers =>
    obtain ⟨hfirst, hothers⟩ := Bool.or_eq_false_iff.1 hf
    obtain ⟨u, middle, hu, hw⟩ := Run.bind_ok h
    rw [ihOthers hothers hw, ihFirst hfirst hu]
  | everyItem => cases hf
  | everyField => cases hf
  | cut => cases hf
  | refuse e => cases h

/-! ## Marks in a directive -/

/-- A text in which the mark stands of an operator that may take away. -/
def MarksTaking (d : Text) : Prop :=
  ['[', ']'] <:+: d ∨ ['.', '(', ')'] <:+: d ∨ '@' ∈ d

instance (d : Text) : Decidable (MarksTaking d) :=
  inferInstanceAs (Decidable (_ ∨ _))

theorem MarksTaking.mono {part d : Text} (h : MarksTaking part) (hp : part <:+: d) : MarksTaking d :=
  h.imp (·.trans hp) (Or.imp (·.trans hp) (hp.subset ·))

theorem takesAway_ofLiteral (literal : Text) : (ofLiteral literal).takesAway = false :=
  ofLiteral_elim (fun _ => rfl) (fun _ => rfl) (fun _ => rfl) literal

/-- An operator that may take away is written in the directive. -/
theorem marksTaking_of_takesAway (d : Text) (htakes : (parse d).takesAway = true) : MarksTaking d := by
  have hwritten := written_parse d
  generalize parse d = f at hwritten htakes
  induction hwritten with
  | within _ hp ih => exact (ih htakes).mono hp
  | pass d => cases htakes
  | refuse e d => cases htakes
  | comparison literal => rw [takesAway_ofLiteral] at htakes; cases htakes
  | everyItem _ _ => exact .inl (List.prefix_append _ _).isInfix
  | someItem _ _ => cases htakes
  | everyField _ _ => exact .inr (.inl (List.prefix_append _ _).isInfix)
  | someField _ _ => cases htakes
  | item i _ ih => exact ih htakes
  | field name _ ih => exact ih htakes
  | member text _ _ ihFirst ihOthers => exact (Bool.or_eq_true_iff.1 htakes).elim ihFirst ihOthers
  | cut tokens s => exact .inr (.inr List.mem_cons_self)

/-- A directive that only tests: no mark of an operator that may take away stands in it, or it starts with a
test for some item or some entry, whatever is written after that. -/
def Tests (d : Text) : Prop :=
  ¬ MarksTaking d ∨ ['[', 'E', ']'] <+: d ∨ ['.', '(', 'E', ')'] <+: d

instance (d : Text) : Decidable (Tests d) :=
  inferInstanceAs (Decidable (_ ∨ _))

theorem takesAway_of_tests {d : Text} (h : Tests d) : (parse d).takesAway = false := by
  obtain hmark | ⟨rest, rfl⟩ | ⟨rest, rfl⟩ := h
  · exact Bool.eq_false_iff.2 fun htakes => hmark (marksTaking_of_takesAway d htakes)
  · rw [parse_eq]; rfl
  · rw [parse_eq]; rfl

end JsonSieve.Filter
