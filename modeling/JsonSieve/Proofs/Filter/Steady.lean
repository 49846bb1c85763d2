/-
Filters are steady: what a filter makes of a value does not depend on the patterns that other
evaluations have compiled before, although groups, existence tests and lists stop early and so leave
different caches behind. A filter is followed through operator by operator once, for every property that
computations hand on to what is built from them (`HandedOn`); of the filter only its patterns and its
refusals matter then. That it fails only by errors of one sort is another such property: so an error that
says that a text is not recognized names a piece of the directive, which is refused on every value.
-/
import JsonSieve.Filter.Apply
import JsonSieve.Proofs.Filter.Cutting
import JsonSieve.Proofs.Filter.Passing
import JsonSieve.Proofs.Filter.Patterns
import JsonSieve.Proofs.Filter.Refusals
import JsonSieve.Proofs.Path.Stepwise
import JsonSieve.Proofs.Pattern.Steady

namespace JsonSieve

/-- A property of computations that those have which give a value or fail by an admitted error, that one computation
after another has if both have it, and that the absorbing of a mismatch does not take away. -/
structure HandedOn (admitted : Error → Prop) (P : ∀ {α : Type}, Run α → Prop) : Prop where
  pure : ∀ {α : Type} (a : α), P (Pure.pure a : Run α)
  raise : ∀ {α : Type} {e : Error}, admitted e → P (throwThe Error e : Run α)
  andThen : ∀ {α β : Type} {x : Run α} {f : α → Run β}, P x → (∀ a, P (f a)) → P (x >>= f)
  absorb : ∀ {α : Type} {x : Run α}, P x → P (Run.absorb x)

namespace HandedOn

variable {admitted : Error → Prop} {P : ∀ {α : Type}, Run α → Prop} (hP : HandedOn admitted P) {α β : Type}
include hP

theorem map (f : α → β) {x : Run α} (hx : P x) : P (f <$> x) := by
  rw [map_eq_pure_bind]
  exact hP.andThen hx fun a => hP.pure (f a)

theorem lift {x : Except Error α} (hx : ∀ e, x = .error e → admitted e) : P (liftM x : Run α) := by
  cases x with
  | ok a => exact hP.pure a
  | error e => exact hP.raise (hx e rfl)

/-! ## Walks over items -/

theorem keepPassing {test : α → Run β} (ht : ∀ x, P (test x)) (xs : List α) : P (Run.keepPassing test xs) := by
  induction xs with
  | nil => exact hP.pure []
  | cons x xs ih =>
    refine hP.andThen (hP.absorb (ht x)) fun passed => ?_
    cases passed with
    | none => exact ih
    | some y => exact hP.andThen ih fun ys => hP.pure (y :: ys)

theorem anyPasses {test : α → Run β} (ht : ∀ x, P (test x)) (xs : List α) : P (Run.anyPasses test xs) := by
  induction xs with
  | nil => exact hP.pure false
  | cons x xs ih =>
    refine hP.andThen (hP.absorb (ht x)) fun passed => ?_
    cases passed with
    | none => exact ih
    | some y => exact hP.pure true

/-- A test that passes a value unchanged or does not match it. -/
theorem passIf (hnone : admitted .noMatch) {test : Run Bool} (ht : P test) (v : Value) :
    P (do if ← test then return v else throw .noMatch : Run Value) := by
  refine hP.andThen ht fun passed => ?_
  cases passed with
  | true => exact hP.pure v
  | false => exact hP.raise hnone

/-! ## Filters -/

theorem accepts {literal : Text}
    (hmatch : ∀ p ∈ Literal.patterns literal, ∀ s, P (Pattern.isMatch p s)) (v : Value) :
    P (Literal.accepts literal v) := by
  unfold Literal.patterns at hmatch
  cases v with
  | string s =>
    unfold Literal.accepts
    cases htest : Literal.stringTest literal with
    | exactly t => exact hP.pure _
    | pattern p =>
      rw [htest] at hmatch
      exact hmatch _ (List.mem_singleton_self _) _
  | _ => exact hP.pure _

/-- The induction is on the filter; the cache is come to only where a literal is a pattern, and an error is raised by
the data, by a cut that cannot be made, or where the filter refuses values. -/
theorem apply (hdata : ∀ e, e.isFatal = false → admitted e) (hillegal : ∀ cause, admitted (.illegal cause)) (f : Filter)
    (hrefused : ∀ e ∈ f.refusals, admitted e) (hmatch : ∀ p ∈ f.patterns, ∀ s, P (Pattern.isMatch p s))
    (choose : Filter.RootChoice) (root v : Value) : P (f.apply choose root v) := by
  induction f generalizing root v with
  | pass => exact hP.pure v
  | equals literal => exact hP.passIf (hdata _ rfl) (hP.accepts hmatch v) v
  | equalsAt path =>
    refine hP.andThen (hP.lift fun e he => hdata e (Value.isFatal_of_get_error he)) fun other => ?_
    split
    · exact hP.pure v
    · exact hP.raise (hdata _ rfl)
  | everyItem rest ih =>
    cases v with
    | list items => exact hP.map Value.list (hP.keepPassing (ih hrefused hmatch root) items)
    | _ => exact hP.raise (hdata _ rfl)
  | someItem rest ih =>
    cases v with
    | list items => exact hP.passIf (hdata _ rfl) (hP.anyPasses (ih hrefused hmatch root) items) (.list items)
    | _ => exact hP.raise (hdata _ rfl)
  | everyField rest ih =>
    cases v with
    | map entries =>
      have entry (e : String × Value) : P ((e.1, ·) <$> rest.apply choose root e.2) :=
        hP.map (e.1, ·) (ih hrefused hmatch root e.2)
      exact hP.map Value.map (hP.keepPassing entry entries)
    | _ => exact hP.raise (hdata _ rfl)
  | someField rest ih =>
    cases v with
    | map entries =>
      exact hP.passIf (hdata _ rfl) (hP.anyPasses (fun e => ih hrefused hmatch root e.2) entries) (.map entries)
    | _ => exact hP.raise (hdata _ rfl)
  | item i rest ih =>
    cases v with
    | list items =>
      simp only [Filter.apply]
      cases items[i.toNat]? with
      | some x => exact hP.map _ (ih hrefused hmatch root x)
      | none => exact hP.raise (hdata _ rfl)
    | _ => exact hP.raise (hdata _ rfl)
  | field name rest ih =>
    cases v with
    | map entries =>
      simp only [Filter.apply]
      split
      · exact ih hrefused hmatch root (.map entries)
      · cases Entries.get? name entries with
        | some x => exact hP.map _ (ih hrefused hmatch root x)
        | none => exact hP.raise (hdata _ rfl)
    | _ => exact hP.pure _
  | member text first others ihFirst ihOthers =>
    obtain ⟨hfirst, hothers⟩ := List.forall_mem_append.1 hmatch
    obtain ⟨hrefusedFirst, hrefusedOthers⟩ := List.forall_mem_append.1 hrefused
    exact hP.andThen (ihFirst hrefusedFirst hfirst (choose text v) v) fun w => ihOthers hrefusedOthers hothers root w
  | cut tokens =>
    refine hP.lift fun e he => ?_
    obtain ⟨cause, rfl⟩ := Value.illegal_of_cut_error he
    exact hillegal cause
  | refuse e => exact hP.raise (hrefused e (List.mem_singleton_self e))

end HandedOn

namespace Compositional

variable {P : ∀ {α : Type}, StateM PatternCache α → Prop} (hP : Compositional P)
include hP

/-- Whatever the errors are, what is built from computations has the property if they have it. -/
theorem handedOn : HandedOn (fun _ => True) (fun x => P x.run) where
  pure a := hP.pure (Except.ok a)
  raise _ := hP.raise _
  andThen := hP.andThen
  absorb hx := by
    refine hP.handle (hP.map some hx) fun e => ?_
    split
    · exact hP.raise e
    · exact hP.pure (Except.ok none)

theorem apply (f : Filter) (hmatch : ∀ p ∈ f.patterns, ∀ s, P (Pattern.isMatch p s).run)
    (choose : Filter.RootChoice) (root v : Value) : P (f.apply choose root v).run :=
  hP.handedOn.apply (fun _ _ => trivial) (fun _ => trivial) f (fun _ _ => trivial) hmatch choose root v

end Compositional

/-! ## Steadiness -/

namespace Run

variable {α β : Type}

theorem steady_absorb {x : Run α} (hx : Steady x.run) : Steady (absorb x).run :=
  Steady.compositional.handedOn.absorb hx

theorem steady_keepPassing {test : α → Run β} (ht : ∀ x, Steady (test x).run) (xs : List α) :
    Steady (keepPassing test xs).run :=
  Steady.compositional.handedOn.keepPassing ht xs

theorem steady_anyPasses {test : α → Run β} (ht : ∀ x, Steady (test x).run) (xs : List α) :
    Steady (anyPasses test xs).run :=
  Steady.compositional.handedOn.anyPasses ht xs

end Run

theorem Literal.steady_accepts (literal : Text) (v : Value) : Steady (accepts literal v).run :=
  Steady.compositional.handedOn.accepts (fun p _ => Pattern.steady_isMatch p) v

theorem Filter.steady_apply (choose : RootChoice) (f : Filter) (root v : Value) :
    Steady (f.apply choose root v).run :=
  Steady.compositional.apply f (fun p _ => Pattern.steady_isMatch p) choose root v

theorem Value.steady_filterWithRoot (v root : Value) (d : Text) : Steady (v.filterWithRoot root d).run :=
  Filter.steady_apply Filter.rootIfNeeded (Filter.parse d) root v

/-! ## Sorts of errors -/

/-- A computation that fails, if at all, by an admitted error. -/
def Run.FailsBy (admitted : Error → Prop) {α : Type} (x : Run α) : Prop :=
  ∀ cache e, (x.run cache).1 = .error e → admitted e

variable {admitted : Error → Prop}

theorem Run.FailsBy.handedOn : HandedOn admitted (FailsBy admitted) where
  pure a cache e h := by cases h
  raise he cache e h := by cases h; exact he
  andThen {α β x f} hx hf cache e h := by
    rw [run_bind] at h
    rcases hrun : x.run cache with ⟨e' | a, middle⟩
    · rw [hrun] at h
      cases h
      exact hx cache _ (congrArg Prod.fst hrun)
    · rw [hrun] at h
      exact hf a middle e h
  absorb {α x} hx cache e h := by
    rw [absorb_run] at h
    rcases hrun : x.run cache with ⟨e' | a, middle⟩
    · rw [hrun] at h
      dsimp only at h
      split at h
      · cases h
        exact hx cache _ (congrArg Prod.fst hrun)
      · cases h
    · rw [hrun] at h
      cases h

/-- Matching fails only if the pattern does not compile. -/
theorem Pattern.failsBy_isMatch {p : String}
    (hp : ∀ flaw, compile p.toList = .error flaw → admitted (.invalidPattern p flaw)) (s : Text) :
    Run.FailsBy admitted (isMatch p s) := by
  refine Run.FailsBy.handedOn.andThen (fun cache e h => ?_) fun expr => Run.FailsBy.handedOn.pure _
  rw [compiled_run] at h
  cases hget : cache.get? p with
  | some expr => rw [hget] at h; cases h
  | none =>
    cases hcompile : compile p.toList with
    | ok expr => simp only [hget, hcompile] at h; cases h
    | error flaw => simp only [hget, hcompile] at h; cases h; exact hp flaw hcompile

/-! ## Errors of a filter -/

namespace Filter

/-- The errors by which a filter can fail: those of the data, that a cut cannot be made, that a pattern of its own does
not compile, and its refusals. -/
inductive MayFailBy (f : Filter) : Error → Prop
  | data {e : Error} (he : e.isFatal = false) : MayFailBy f e
  | cut (cause : Illegal) : MayFailBy f (.illegal cause)
  | pattern {p : String} {flaw : Pattern.Flaw} (hp : p ∈ f.patterns)
      (hflaw : Pattern.compile p.toList = .error flaw) : MayFailBy f (.invalidPattern p flaw)
  | refused {e : Error} (he : e ∈ f.refusals) : MayFailBy f e

theorem failsBy_apply (f : Filter) (choose : RootChoice) (root v : Value) :
    Run.FailsBy f.MayFailBy (f.apply choose root v) :=
  Run.FailsBy.handedOn.apply (fun _ => .data) .cut f (fun _ => .refused)
    (fun _ hp => Pattern.failsBy_isMatch fun _ hflaw => .pattern hp hflaw) choose root v

/-- A text that is not recognized is a contiguous piece of the directive, and is refused as a directive. -/
theorem parse_of_unrecognized {v root : Value} {d : Text} {cache : PatternCache} {t : String}
    (h : ((v.filterWithRoot root d).run cache).1 = .error (.unrecognized t)) :
    t.toList <:+: d ∧ parse t.toList = .refuse (.unrecognized t) := by
  cases failsBy_apply (parse d) rootIfNeeded root v cache _ h with
  | data he => cases he
  | refused he =>
    obtain ⟨piece, hpiece, hparse⟩ := exists_refused_piece he
    rw [← eq_of_parse_unrecognized hparse]
    exact ⟨hpiece, hparse⟩

end Filter

end JsonSieve
