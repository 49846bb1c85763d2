/-
"Tests never depend on map iteration order", and nothing else should: whatever order each walk over the
entries of a map has, a transform and a filter that does not test for some entry of a map come to the same
outcome. Such a test is written with its mark, so the text of a directive tells.
-/
import JsonSieve.Proofs.Chain.Reordering

namespace JsonSieve

open Value (Alike)

/-! ## The mark of a test for some entry -/

/-- A test for some entry of a map in the filter of a directive is written in the directive. -/
theorem Filter.infix_of_testsFields (d : Text) (htests : (parse d).testsFields = true) :
    ['.', '(', 'E', ')'] <:+: d := by
  have hwritten := written_parse d
  generalize parse d = f at hwritten htests
  induction hwritten with
  | within _ hp ih => exact (ih htests).trans hp
  | pass d => cases htests
  | refuse e d => cases htests
  | comparison literal => rw [testsFields_ofLiteral] at htests; cases htests
  | everyItem _ ih => exact (ih htests).trans (List.suffix_append _ _).isInfix
  | someItem _ ih => exact (ih htests).trans (List.suffix_append _ _).isInfix
  | everyField _ ih => exact (ih htests).trans (List.suffix_append _ _).isInfix
  | someField _ _ => exact (List.prefix_append _ _).isInfix
  | item i _ ih => exact ih htests
  | field name _ ih => exact ih htests
  | member text _ _ ihFirst ihOthers => exact (Bool.or_eq_true_iff.1 htests).elim ihFirst ihOthers
  | cut tokens s => cases htests

/-! ## Outcomes -/

/-- Both pass, with values that differ in no more than the order of entries, or both reject by the same
error of the data, or both fail by errors of the directive. -/
def SameOutcome (r s : Except Error Value) : Prop :=
  (∃ x y, r = .ok x ∧ s = .ok y ∧ Alike x y) ∨
    (∃ e, r = .error e ∧ s = .error e ∧ e.isFatal = false) ∨ (Fails r ∧ Fails s)

theorem Agree.sameOutcome {r s : Except Error Value} (h : Agree False Alike r s) : SameOutcome r s := by
  cases h with
  | ok h => exact .inl ⟨_, _, rfl, rfl, h⟩
  | mismatch he => exact .inr (.inl ⟨_, rfl, rfl, he⟩)
  | fails hr hs => exact .inr (.inr ⟨hr, hs⟩)
  | left hlax _ => exact hlax.elim
  | right hlax _ => exact hlax.elim

/-- Results do not depend on the order in which the entries of each map are visited, by either evaluation and in each
walk: a transform and a filter without the mark of a test for some entry come to the same outcome. The filter and the
transform that run are such evaluations. -/
theorem Value.same_outcome_in_any_order (grants : Reservation) {v w root root' : Value} (h : Alike v w)
    (hroot : Alike root root') (d : Text) :
    (¬ ['.', '(', 'E', ')'] <:+: d →
      ∀ r s, (Filter.parse d).Gives Filter.rootIfNeeded root v r →
        (Filter.parse d).Gives Filter.rootIfNeeded root' w s → SameOutcome r s) ∧
    (∀ a b, (Transform.parse d).Gives grants v a → (Transform.parse d).Gives grants w b →
      SameOutcome a.result b.result) ∧
    (∀ cache : PatternCache, cache.Sound →
      (Filter.parse d).Gives Filter.rootIfNeeded root v ((v.filterWithRoot root d).run cache).1) ∧
    (Transform.parse d).Gives grants v (v.transform grants d) := by
  refine ⟨fun hmark r s hr hs => ?_, fun a b ha hb => ?_, fun cache hcache => ?_, ?_⟩
  · refine (Filter.agree_gives (Filter.parse d) (fun htests => ?_) Filter.rootIfNeeded_alike hroot h
      hr hs).sameOutcome
    exact hmark (Filter.infix_of_testsFields d htests)
  · exact (Transform.agree_gives (Transform.parse d) h ha hb).sameOutcome
  · have hanswer : ((v.filterWithRoot root d).run cache).1 =
        ((Filter.parse d).apply Filter.rootIfNeeded root v).answer :=
      (Filter.steady_apply Filter.rootIfNeeded (Filter.parse d) root v).answer hcache
        PatternCache.sound_empty
    rw [hanswer]
    exact Filter.gives_apply Filter.rootIfNeeded (Filter.parse d) root v
  · exact Transform.gives_apply grants (Transform.parse d) v

/-- A group that prunes a map and then looks into what is left, and a copy in every entry. -/
theorem Value.same_outcome_in_any_order_nested :
    let v : Value := .map [("b", .map [("x", .int 1), ("y", .null)]), ("a", .map [("x", .int 2)])]
    let w : Value := .map [("a", .map [("x", .int 2)]), ("b", .map [("y", .null), ("x", .int 1)])]
    let filter : Text := "\x7b.().x=1,.b\x7d".toList
    let transform : Text := ".()\x7b.z=.x\x7d".toList
    Alike v w ∧ Alike .null .null ∧ ¬ ['.', '(', 'E', ')'] <:+: filter ∧
      SameOutcome ((v.filterWithRoot .null filter).run .empty).1
        ((w.filterWithRoot .null filter).run .empty).1 ∧
      SameOutcome (v.transform .standard transform).result (w.transform .standard transform).result := by
  intro v w filter transform
  have hinner : Alike (.map [("x", .int 1), ("y", .null)]) (.map [("y", .null), ("x", .int 1)]) :=
    .of_perm (by decide) (.swap ..)
  have h : Alike v w := by
    refine .map ⟨by decide, by decide, fun key => ?_⟩
    by_cases hb : "b" = key
    · subst hb; exact .some hinner
    · by_cases ha : "a" = key
      · subst ha; exact .some (.refl (by decide))
      · simp only [Entries.get?, if_neg hb, if_neg ha]; exact .none
  have hmark : ¬ ['.', '(', 'E', ')'] <:+: filter := by decide
  obtain ⟨hfilter, -, hleft, -⟩ := same_outcome_in_any_order .standard h .null filter
  obtain ⟨-, -, hright, -⟩ := same_outcome_in_any_order .standard h.symm .null filter
  obtain ⟨-, htransform, -, hleft'⟩ := same_outcome_in_any_order .standard h .null transform
  obtain ⟨-, -, -, hright'⟩ := same_outcome_in_any_order .standard h.symm .null transform
  exact ⟨h, .null, hmark, hfilter hmark _ _ (hleft _ PatternCache.sound_empty)
    (hright _ PatternCache.sound_empty), htransform _ _ hleft' hright'⟩

end JsonSieve
