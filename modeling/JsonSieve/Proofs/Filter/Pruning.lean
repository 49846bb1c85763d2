/-
Filters only ever take away: what a filter passes is a pruning of the value. Every operator passes a
pruning if the filters inside it do, and the members of a group prune one after the other. Only a cut of
a list repeats or reorders items, and a cut is written with its mark, so without the mark the pruning is
ordered.
-/
import JsonSieve.Proofs.Filter.Parts
import JsonSieve.Proofs.Filter.Passing
import JsonSieve.Proofs.Value.Pruning

namespace JsonSieve

open Value (PrunesTo)

/-! ## Cuts -/

/-- What is left by a cut of a map is an ordered pruning, and by a cut of a list some pruning. -/
theorem Value.prunesTo_of_cut {ordered : Bool} (ho : ordered = false) {tokens : List Text} {v w : Value}
    (h : v.cut tokens = .ok w) : PrunesTo ordered v w := by
  subst ho
  cases v with
  | list items =>
    rw [Value.cut] at h
    cases hi : cutIndices tokens with
    | error e => rw [hi] at h; cases h
    | ok indices =>
      rw [hi] at h
      cases h
      refine .list_of_subset fun y hy => ?_
      obtain ⟨i, -, hy⟩ := List.mem_filterMap.1 hy
      exact List.mem_of_getElem? hy
  | map entries => cases h; exact .filter _ entries
  | _ => cases h

namespace Filter

/-- Whether a filter cuts somewhere. -/
def cuts : Filter → Bool
  | .cut _ => true
  | .everyItem rest | .someItem rest | .everyField rest | .someField rest
  | .item _ rest | .field _ rest => rest.cuts
  | .member _ first others => first.cuts || others.cuts
  | .pass | .equals _ | .equalsAt _ | .refuse _ => false

theorem cuts_ofLiteral (literal : Text) : (ofLiteral literal).cuts = false :=
  ofLiteral_elim (fun _ => rfl) (fun _ => rfl) (fun _ => rfl) literal

/-- A cut in the filter of a directive is written in the directive. -/
theorem mem_of_cuts (d : Text) (hcuts : (parse d).cuts = true) : '@' ∈ d := by
  have hwritten := written_parse d
  generalize parse d = f at hwritten hcuts
  induction hwritten with
  | within _ hp ih => exact hp.subset (ih hcuts)
  | pass d => cases hcuts
  | refuse e d => cases hcuts
  | comparison literal => rw [cuts_ofLiteral] at hcuts; cases hcuts
  | everyItem _ ih => exact List.mem_append_right _ (ih hcuts)
  | someItem _ ih => exact List.mem_append_right _ (ih hcuts)
  | everyField _ ih => exact List.mem_append_right _ (ih hcuts)
  | someField _ ih => exact List.mem_append_right _ (ih hcuts)
  | item i _ ih => exact ih hcuts
  | field name _ ih => exact ih hcuts
  | member text _ _ ihFirst ihOthers => exact (Bool.or_eq_true_iff.1 hcuts).elim ihFirst ihOthers
  | cut tokens s => exact List.mem_cons_self

/-! ## Filters -/

/-- What a filter passes is a pruning. The induction is on the filter: each operator puts what the
filter inside it has passed in the place of the part that it was applied to. -/
theorem prunesTo_of_apply {ordered : Bool} (choose : RootChoice) (f : Filter)
    (hcuts : ordered = true → f.cuts = false) {root v w : Value} {cache cache' : PatternCache}
    (h : (f.apply choose root v).run cache = (.ok w, cache')) : PrunesTo ordered v w := by
  induction f generalizing root v w cache cache' with
  | pass => cases h; exact .refl ordered v
  | equals literal => rw [Run.passIf_ok h]; exact .refl ordered v
  | equalsAt path =>
    obtain ⟨other, middle, -, hthen⟩ := Run.bind_ok h
    split at hthen
    · cases hthen; exact .refl ordered v
    · cases hthen
  | everyItem rest ih =>
    cases v with
    | list items =>
      obtain ⟨kept, hkept, rfl⟩ := Run.map_ok h
      have hsub : List.SublistForall₂ (fun y x => PrunesTo ordered x y) kept items :=
        Run.keepPassing_ok (fun x y _ _ => ih hcuts) hkept
      exact .list_of_sublist hsub
    | _ => cases h
  | someItem rest ih =>
    cases v with
    | list items => rw [Run.passIf_ok h]; exact .refl ordered _
    | _ => cases h
  | everyField rest ih =>
    cases v with
    | map entries =>
      obtain ⟨kept, hkept, rfl⟩ := Run.map_ok h
      refine .map_of_sublist (Run.keepPassing_ok (fun e f _ _ hpass => ?_) hkept)
      obtain ⟨y, hy, rfl⟩ := Run.map_ok hpass
      exact ⟨rfl, ih hcuts hy⟩
    | _ => cases h
  | someField rest ih =>
    cases v with
    | map entries => rw [Run.passIf_ok h]; exact .refl ordered _
    | _ => cases h
  | item i rest ih =>
    cases v with
    | list items =>
      simp only [apply] at h
      cases hx : items[i.toNat]? with
      | none => rw [hx] at h; cases h
      | some x =>
        rw [hx] at h
        obtain ⟨y, hy, rfl⟩ := Run.map_ok h
        exact .set hx (ih hcuts hy)
    | _ => cases h
  | field name rest ih =>
    cases v with
    | map entries =>
      simp only [apply] at h
      split at h
      · exact ih hcuts h
      · cases hx : Entries.get? name entries with
        | none => rw [hx] at h; cases h
        | some x =>
          rw [hx] at h
          obtain ⟨y, hy, rfl⟩ := Run.map_ok h
          exact .put hx (ih hcuts hy)
    | _ => cases h; exact .refl ordered _
  | member text first others ihFirst ihOthers =>
    have hsplit : ordered = true → first.cuts = false ∧ others.cuts = false := fun ho => by
      simpa [cuts] using hcuts ho
    obtain ⟨u, middle, hfirst, hothers⟩ := Run.bind_ok h
    exact (ihFirst (fun ho => (hsplit ho).1) hfirst).trans (ihOthers (fun ho => (hsplit ho).2) hothers)
  | cut tokens =>
    have ho : ordered = false := by
      cases ordered with
      | false => rfl
      | true => cases hcuts rfl
    cases hv : v.cut tokens with
    | error e => rw [apply, hv] at h; cases h
    | ok u => rw [apply, hv] at h; cases h; exact Value.prunesTo_of_cut ho hv
  | refuse e => cases h

end Filter

/-- A filter only takes away: what it passes is a pruning of the value and of the same kind, and an
ordered one if the directive has no mark of a cut. -/
theorem Value.filter_only_takes_away {v root w : Value} {directive : Text} {cache cache' : PatternCache}
    (h : (v.filterWithRoot root directive).run cache = (.ok w, cache')) :
    PrunesTo false v w ∧ w.kind = v.kind ∧ ('@' ∉ directive → PrunesTo true v w) := by
  have hprunes : PrunesTo false v w :=
    Filter.prunesTo_of_apply Filter.rootIfNeeded (Filter.parse directive) (fun ho => by cases ho) h
  refine ⟨hprunes, hprunes.kind_eq, fun hmark => ?_⟩
  refine Filter.prunesTo_of_apply Filter.rootIfNeeded (Filter.parse directive) (fun _ => ?_) h
  cases hcuts : (Filter.parse directive).cuts with
  | false => rfl
  | true => exact absurd (Filter.mem_of_cuts directive hcuts) hmark

/-- Items and entries that are dropped at two depths, and a list that a cut turns around. -/
theorem Value.filter_only_takes_away_nested :
    let v : Value := .list [.map [("a", .string "x"), ("b", .null)], .null, .map [("a", .string "y")]]
    let w : Value := .list [.map [("a", .string "x")], .map []]
    let turned : Value := .list [.map [("a", .string "y")], .map [("a", .string "x"), ("b", .null)]]
    (v.filterWithRoot .null "[].()=x".toList).run .empty = (.ok w, .empty) ∧ PrunesTo true v w ∧
      (v.filterWithRoot .null "@2,0".toList).run .empty = (.ok turned, .empty) ∧
      PrunesTo false v turned := by
  intro v w turned
  have hdropped : (v.filterWithRoot .null "[].()=x".toList).run .empty = (.ok w, .empty) := by decide +kernel
  have hturned : (v.filterWithRoot .null "@2,0".toList).run .empty = (.ok turned, .empty) := by decide +kernel
  exact ⟨hdropped, (filter_only_takes_away hdropped).2.2 (by decide), hturned,
    (filter_only_takes_away hturned).1⟩

end JsonSieve
