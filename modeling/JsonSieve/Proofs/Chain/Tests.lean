/-
"Tests do not modify", and so they may stand in any order: each of them looks at the record as it came, and a
record is dropped just if one of them rejects it.
-/
import JsonSieve.Proofs.Chain.Reordering
import JsonSieve.Proofs.Filter.Unchanged

namespace JsonSieve.Chain

variable {grants : Reservation} {texts : List String} {v : Value}

/-! ## A row of tests -/

/-- A test leaves the record as it is or rejects it, where the directive by itself is not in error. -/
theorem passes_or_rejects {d : Text} (htests : Filter.Tests d) (hclean : ¬ Fails (v.filter d).answer) :
    (v.filter d).answer = .ok v ∨ Mismatches (v.filter d).answer := by
  rcases result_cases (v.filter d).answer with ⟨w, hw⟩ | hmis | hfails
  · have hsame : w = v := Filter.eq_of_apply _ _ (Filter.takesAway_of_tests htests) (Prod.ext hw rfl)
    exact .inl (hsame ▸ hw)
  · exact .inr hmis
  · exact absurd hfails hclean

theorem answer_filter_of_passes {text : String} (h : (v.filter text.toList).answer = .ok v)
    (rest : List Directive) : answer grants (.filter text :: rest) v = answer grants rest v := by
  rw [answer_cons grants (fun _ => Directive.noConfusion), Directive.apply, h]

theorem answer_filter_of_rejects {text : String} (h : Mismatches (v.filter text.toList).answer)
    (rest : List Directive) : answer grants (.filter text :: rest) v = .ok none := by
  obtain ⟨e, he, hdata⟩ := h
  rw [answer_cons grants (fun _ => Directive.noConfusion), Directive.apply, he]
  exact if_neg (Bool.eq_false_iff.1 hdata)

theorem answer_of_forall_passes (h : ∀ text ∈ texts, (v.filter text.toList).answer = .ok v) :
    answer grants (texts.map .filter) v = .ok (some ⟨v, none⟩) := by
  induction texts with
  | nil => rfl
  | cons text texts ih =>
    obtain ⟨htext, htexts⟩ := List.forall_mem_cons.1 h
    rw [List.map_cons, answer_filter_of_passes htext, ih htexts]

/-- The record is unchanged when it comes to the first test that rejects it. -/
theorem answer_of_exists_rejects
    (h : ∀ text ∈ texts, (v.filter text.toList).answer = .ok v ∨ Mismatches (v.filter text.toList).answer)
    (hrejects : ∃ text ∈ texts, Mismatches (v.filter text.toList).answer) :
    answer grants (texts.map .filter) v = .ok none := by
  induction texts with
  | nil => obtain ⟨text, hmem, -⟩ := hrejects; cases hmem
  | cons text texts ih =>
    obtain ⟨htext, htexts⟩ := List.forall_mem_cons.1 h
    rcases htext with hpasses | hmis
    · rw [List.map_cons, answer_filter_of_passes hpasses]
      refine ih htexts ?_
      obtain ⟨other, hmem, hother⟩ := hrejects
      rcases List.mem_cons.1 hmem with rfl | hmem
      · obtain ⟨e, he, -⟩ := hother
        rw [hpasses] at he
        cases he
      · exact ⟨other, hmem, hother⟩
    · exact answer_filter_of_rejects hmis _

/-! ## In any order -/

/-- A directive that only tests passes a value unchanged. So filters that only test may be put in any order:
with each of them by itself free of errors of the directive on a record, both chains emit the record
unchanged, if every one of them passes it by itself, and otherwise both drop it. -/
theorem tests_in_any_order (grants : Reservation) :
    (∀ d, Filter.Tests d → ∀ (v root w : Value) (cache cache' : PatternCache),
      (v.filterWithRoot root d).run cache = (.ok w, cache') → w = v) ∧
    ∀ texts texts' : List String, texts.Perm texts' → (∀ text ∈ texts, Filter.Tests text.toList) →
      ∀ v : Value, (∀ text ∈ texts, ¬ Fails (v.filter text.toList).answer) →
      ∀ cache cache' : PatternCache, cache.Sound → cache'.Sound →
        ((∀ text ∈ texts, (v.filter text.toList).answer = .ok v) ∧
          ((run grants (texts.map .filter) v).run cache).1 = .ok (some ⟨v, none⟩) ∧
          ((run grants (texts'.map .filter) v).run cache').1 = .ok (some ⟨v, none⟩)) ∨
        ((∃ text ∈ texts, Mismatches (v.filter text.toList).answer) ∧
          ((run grants (texts.map .filter) v).run cache).1 = .ok none ∧
          ((run grants (texts'.map .filter) v).run cache').1 = .ok none) := by
  refine ⟨fun d htests v root w cache cache' hpass => ?_, ?_⟩
  · exact Filter.eq_of_apply _ _ (Filter.takesAway_of_tests htests) hpass
  · intro texts texts' hperm htests v hclean cache cache' hcache hcache'
    have fresh (directives : List Directive) {cache : PatternCache} (hcache : cache.Sound) :
        ((run grants directives v).run cache).1 = answer grants directives v :=
      (steady_run grants directives v).answer hcache PatternCache.sound_empty
    rw [fresh _ hcache, fresh _ hcache']
    have hsorted : ∀ text ∈ texts,
        (v.filter text.toList).answer = .ok v ∨ Mismatches (v.filter text.toList).answer :=
      fun text hmem => passes_or_rejects (htests text hmem) (hclean text hmem)
    by_cases hrejects : ∃ text ∈ texts, Mismatches (v.filter text.toList).answer
    · obtain ⟨text, hmem, hmis⟩ := hrejects
      exact .inr ⟨⟨text, hmem, hmis⟩, answer_of_exists_rejects hsorted ⟨text, hmem, hmis⟩,
        answer_of_exists_rejects (fun other hother => hsorted other (hperm.mem_iff.2 hother))
          ⟨text, hperm.mem_iff.1 hmem, hmis⟩⟩
    · have hpasses : ∀ text ∈ texts, (v.filter text.toList).answer = .ok v := fun text hmem =>
        (hsorted text hmem).resolve_right fun hmis => hrejects ⟨text, hmem, hmis⟩
      exact .inl ⟨hpasses, answer_of_forall_passes hpasses,
        answer_of_forall_passes fun text hmem => hpasses text (hperm.mem_iff.2 hmem)⟩

/-- A test whose inside prunes a copy, a group, and a step that rejects the record wherever it is put. -/
theorem tests_in_any_order_list :
    let v : Value := .list [.map [("a", .list [.int 1, .int 2])], .map [("b", .string "y")]]
    let probe := "[E].a[]=1"
    let group := "\x7b[0].a[1]=2,[1].b=y\x7d"
    let step := "[1].b=z"
    Filter.Tests probe.toList ∧ (v.filterWithRoot .null probe.toList).run .empty = (.ok v, .empty) ∧
      (∀ w cache, (v.filterWithRoot .null probe.toList).run .empty = (.ok w, cache) → w = v) ∧
      ((run .standard ([probe, group].map .filter) v).run .empty).1 = .ok (some ⟨v, none⟩) ∧
      ((run .standard ([group, probe].map .filter) v).run .empty).1 = .ok (some ⟨v, none⟩) ∧
      ((run .standard ([probe, group, step].map .filter) v).run .empty).1 = .ok none ∧
      ((run .standard ([step, group, probe].map .filter) v).run .empty).1 = .ok none := by
  intro v probe group step
  have hprobe : Filter.Tests probe.toList := by decide +kernel
  have hgroup : Filter.Tests group.toList := by decide +kernel
  have hstep : Filter.Tests step.toList := by decide +kernel
  have hrun : (v.filterWithRoot .null probe.toList).run .empty = (.ok v, .empty) := by decide +kernel
  have hprobed : (v.filter probe.toList).answer = .ok v := by decide +kernel
  have hgrouped : (v.filter group.toList).answer = .ok v := by decide +kernel
  have hrejected : (v.filter step.toList).answer = .error .noMatch := by decide +kernel
  have hmis : Mismatches (v.filter step.toList).answer := ⟨_, hrejected, rfl⟩
  have hboth : ∀ text ∈ [probe, group], (v.filter text.toList).answer = .ok v :=
    List.forall_mem_cons.2 ⟨hprobed, List.forall_mem_singleton.2 hgrouped⟩
  obtain ⟨hsame, hchains⟩ := tests_in_any_order .standard
  have hclean : ∀ text ∈ [probe, group], ¬ Fails (v.filter text.toList).answer :=
    fun text hmem => by rw [hboth text hmem]; exact not_fails_ok
  obtain ⟨-, hemitted⟩ | ⟨⟨text, hmem, e, he, -⟩, -⟩ := hchains [probe, group] [group, probe] (.swap ..)
    (List.forall_mem_cons.2 ⟨hprobe, List.forall_mem_singleton.2 hgroup⟩) v hclean .empty .empty
    PatternCache.sound_empty PatternCache.sound_empty
  · obtain ⟨hall, -⟩ | ⟨-, hdropped⟩ := hchains [probe, group, step] [step, group, probe]
      (List.reverse_perm [probe, group, step]).symm
      (List.forall_mem_cons.2 ⟨hprobe, List.forall_mem_cons.2 ⟨hgroup, List.forall_mem_singleton.2 hstep⟩⟩) v
      (List.forall_mem_append.2 ⟨hclean, List.forall_mem_singleton.2 hmis.not_fails⟩) .empty .empty
      PatternCache.sound_empty PatternCache.sound_empty
    · have hpassed := hall step (by simp)
      rw [hrejected] at hpassed
      cases hpassed
    · exact ⟨hprobe, hrun, fun w cache => hsame _ hprobe v .null w .empty cache, hemitted.1, hemitted.2, hdropped⟩
  · rw [hboth text hmem] at he
    cases he

end JsonSieve.Chain
