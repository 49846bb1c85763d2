/-
Directives and their texts. A directive is its mark followed by a text of any kind, and no mark starts another one,
so a directive and its text determine each other (`parse_eq_ok_iff`), and the texts that are no directive are those
that start with no mark. A chain that was read from texts therefore names the directive at fault, when it fails, by
one of these texts as it was given.
-/
import JsonSieve.Proofs.Chain.Compose
import JsonSieve.Proofs.Filter.Parts
import JsonSieve.Proofs.Text.Cut

namespace JsonSieve

namespace Directive

variable {s : Text} {d : Directive} {e : Error}

/-- What directives start with. -/
def marks : List Text :=
  [filterMark, transformMark, templateFileMark, templateMark]

/-- A text is the directive of its mark, with all that follows the mark, or it starts with no mark and is none. -/
theorem parse_cases (s : Text) :
    (∃ text, filterMark ++ text = s ∧ parse s = .ok (.filter (String.ofList text))) ∨
    (∃ text, transformMark ++ text = s ∧ parse s = .ok (.transform (String.ofList text))) ∨
    (∃ name, templateFileMark ++ name = s ∧ parse s = .ok (.output (.templateFile (String.ofList name)))) ∨
    (∃ text, templateMark ++ text = s ∧ parse s = .ok (.output (.template (String.ofList text)))) ∨
    ((∀ mark ∈ marks, ¬ mark <+: s) ∧ parse s = .error (.unrecognized (String.ofList s))) := by
  unfold parse
  split
  · rename_i text hmark
    exact .inl ⟨text, Text.after?_eq_some_iff.1 hmark, rfl⟩
  · rename_i hfilter
    split
    · rename_i text hmark
      exact .inr (.inl ⟨text, Text.after?_eq_some_iff.1 hmark, rfl⟩)
    · rename_i htransform
      split
      · rename_i name hmark
        exact .inr (.inr (.inl ⟨name, Text.after?_eq_some_iff.1 hmark, rfl⟩))
      · rename_i hfile
        split
        · rename_i text hmark
          exact .inr (.inr (.inr (.inl ⟨text, Text.after?_eq_some_iff.1 hmark, rfl⟩)))
        · rename_i htemplate
          refine .inr (.inr (.inr (.inr ⟨?_, rfl⟩)))
          simp only [marks, List.forall_mem_cons, ← Text.after?_eq_none_iff]
          exact ⟨hfilter, htransform, hfile, htemplate, List.forall_mem_nil _⟩

theorem text_of_parse (h : parse s = .ok d) : d.text = s := by
  obtain ⟨text, rfl, hs⟩ | ⟨text, rfl, hs⟩ | ⟨name, rfl, hs⟩ | ⟨text, rfl, hs⟩ | ⟨-, hs⟩ := parse_cases s
  · rw [hs] at h; cases h; rw [Directive.text, String.toList_ofList]
  · rw [hs] at h; cases h; rw [Directive.text, String.toList_ofList]
  · rw [hs] at h; cases h; rw [text, String.toList_ofList]
  · rw [hs] at h; cases h; rw [Directive.text, String.toList_ofList]
  · rw [hs] at h; cases h

/-- The text of a directive is read back. A mark that is tried before the right one differs from it in a character
that both have, so what follows the right one is not looked at. -/
theorem parse_text (d : Directive) : parse d.text = .ok d := by
  cases d with
  | filter text =>
    show Except.ok (filter (String.ofList text.toList)) = _
    rw [String.ofList_toList]
  | transform text =>
    show Except.ok (transform (String.ofList text.toList)) = _
    rw [String.ofList_toList]
  | output form =>
    cases form with
    | template text =>
      show Except.ok (output (.template (String.ofList text.toList))) = _
      rw [String.ofList_toList]
    | templateFile name =>
      show Except.ok (output (.templateFile (String.ofList name.toList))) = _
      rw [String.ofList_toList]

theorem parse_eq_ok_iff : parse s = .ok d ↔ d.text = s := by
  constructor
  · exact text_of_parse
  · rintro rfl
    exact parse_text d

/-- The texts that are no directive start with no mark, and the error names them. -/
theorem parse_eq_error_iff :
    parse s = .error e ↔ (∀ mark ∈ marks, ¬ mark <+: s) ∧ e = .unrecognized (String.ofList s) := by
  have marked {mark text : Text} (hmem : mark ∈ marks) (hs : mark ++ text = s) (hok : ∃ d, parse s = .ok d) :
      parse s = .error e ↔ (∀ mark ∈ marks, ¬ mark <+: s) ∧ e = .unrecognized (String.ofList s) := by
    obtain ⟨d, hd⟩ := hok
    constructor
    · intro h; rw [hd] at h; cases h
    · rintro ⟨hnone, -⟩; exact absurd ⟨text, hs⟩ (hnone mark hmem)
  obtain ⟨text, hs, hok⟩ | ⟨text, hs, hok⟩ | ⟨name, hs, hok⟩ | ⟨text, hs, hok⟩ | ⟨hnone, herror⟩ := parse_cases s
  · exact marked (by simp [marks]) hs ⟨_, hok⟩
  · exact marked (by simp [marks]) hs ⟨_, hok⟩
  · exact marked (by simp [marks]) hs ⟨_, hok⟩
  · exact marked (by simp [marks]) hs ⟨_, hok⟩
  · rw [herror, Except.error.injEq]
    constructor
    · rintro rfl; exact ⟨hnone, rfl⟩
    · rintro ⟨-, rfl⟩; rfl

end Directive

namespace Chain

variable {grants : Reservation} {texts : List Text} {chain : List Directive} {v : Value}
  {cache cache' : PatternCache} {err : DirectiveError}

/-- A chain that was read from texts names, when it fails, the text of the directive that fails on what those before
it have passed on; that directive is no output form, because an output form does not fail. -/
theorem text_of_run (hparse : texts.map Directive.parse = chain.map .ok)
    (hrun : (run grants chain v).run cache = (.error err, cache')) :
    ∃ front text back passed directive w cache'', texts = front ++ text :: back ∧
      front.map Directive.parse = passed.map .ok ∧ Passes grants passed v cache w cache'' ∧
      Directive.parse text = .ok directive ∧
      (∃ body, directive = .filter body ∨ directive = .transform body) ∧
      (directive.apply grants w).run cache'' = (.error err.cause, cache') ∧ err.directive = String.ofList text := by
  obtain ⟨passed, directive, others, w, cache'', e, rfl, hpassed, hfails, -, rfl⟩ := fails_of_run hrun
  rw [List.map_append, List.map_cons] at hparse
  obtain ⟨front, rest, rfl, hfront, hrest⟩ := List.map_eq_append_iff.1 hparse
  obtain ⟨text, back, rfl, htext, -⟩ := List.map_eq_cons_iff.1 hrest
  have hkind : ∃ body, directive = .filter body ∨ directive = .transform body := by
    cases directive with
    | filter body => exact ⟨body, .inl rfl⟩
    | transform body => exact ⟨body, .inr rfl⟩
    | output form => cases hfails
  refine ⟨front, text, back, passed, directive, w, cache'', rfl, hfront, hpassed, htext, hkind, hfails, ?_⟩
  rw [Directive.text_of_parse htext]

end Chain

/-- Directives and their texts correspond to each other, and any other text is refused by its own name. So the
directive in an error of a chain that has been read from texts is one of these texts as it was given, a filter or a
transform. -/
theorem directives_quoted_verbatim :
    (∀ s d, Directive.parse s = .ok d → d.text = s) ∧
    (∀ d, Directive.parse d.text = .ok d) ∧
    (∀ s, (∀ d, Directive.parse s ≠ .ok d) → Directive.parse s = .error (.unrecognized (String.ofList s))) ∧
    (∀ s e, Directive.parse s = .error e ↔
      (∀ mark ∈ Directive.marks, ¬ mark <+: s) ∧ e = .unrecognized (String.ofList s)) ∧
    ∀ grants texts chain, texts.map Directive.parse = chain.map .ok →
      ∀ v cache err cache', (Chain.run grants chain v).run cache = (.error err, cache') →
        ∃ front text back passed directive w cache'', texts = front ++ text :: back ∧
          front.map Directive.parse = passed.map .ok ∧ Chain.Passes grants passed v cache w cache'' ∧
          Directive.parse text = .ok directive ∧
          (∃ body, directive = .filter body ∨ directive = .transform body) ∧
          (directive.apply grants w).run cache'' = (.error err.cause, cache') ∧ err.directive = String.ofList text := by
  refine ⟨fun s d => Directive.text_of_parse, Directive.parse_text, fun s hnone => ?_,
    fun s e => Directive.parse_eq_error_iff, ?_⟩
  · cases hs : Directive.parse s with
    | ok d => exact absurd hs (hnone d)
    | error e => rw [(Directive.parse_eq_error_iff.1 hs).2]
  · intro grants texts chain hparse v cache err cache' hrun
    exact Chain.text_of_run hparse hrun

/-- A mark behind a mark, a mark of an output form that is not complete, and a filter that is no operator after a
transform that passes. -/
theorem directives_quoted_verbatim_nested_mark :
    let unfinished : Text := "o:template".toList
    let texts : List Text := [['t', ':', '{', '.', 'b', '=', '.', 'a', '}'], "f:f:".toList, "o:template=t:".toList]
    let chain : List Directive := [.transform "\x7b.b=.a\x7d", .filter "f:", .output (.template "t:")]
    let v : Value := .map [("a", .null)]
    let err : DirectiveError := ⟨"f:f:", .unrecognized "f:"⟩
    (∀ d, Directive.parse unfinished ≠ .ok d) ∧
      Directive.parse unfinished = .error (.unrecognized "o:template") ∧
      texts.map Directive.parse = chain.map .ok ∧
      (Chain.run .standard chain v).run .empty = (.error err, .empty) ∧
      ∃ front text back, texts = front ++ text :: back ∧ err.directive = String.ofList text := by
  intro unfinished texts chain v err
  have hnone : ∀ d, Directive.parse unfinished ≠ .ok d := by
    intro d h
    cases h
  have hparse : texts.map Directive.parse = chain.map .ok := by decide +kernel
  let w : Value := .map [("a", .null), ("b", .null)]
  have hpassed : Chain.Passes .standard [.transform "\x7b.b=.a\x7d"] v .empty w .empty :=
    .cons (by simp) (by decide +kernel) .nil
  have hfails : ((Directive.filter "f:").apply .standard w).run .empty =
      (.error (.unrecognized "f:"), .empty) := by
    decide +kernel
  have hrun : (Chain.run .standard chain v).run .empty = (.error err, .empty) :=
    Chain.run_eq_error hpassed hfails rfl _
  obtain ⟨-, -, hunrecognized, -, hchain⟩ := directives_quoted_verbatim
  obtain ⟨front, text, back, -, -, -, -, htexts, -, -, -, -, -, hname⟩ :=
    hchain .standard texts chain hparse v .empty err .empty hrun
  exact ⟨hnone, hunrecognized unfinished hnone, hparse, hrun, front, text, back, htexts, hname⟩

end JsonSieve
