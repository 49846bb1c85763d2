/-
Templates and data. Where the scan of a template goes next depends on the template alone, and a value that has
nothing at a path leaves a gap and no error, so a template is rendered for all values or for none. All records
that a run shows are shown in the form in which the chain ends: once a template has been rendered for one of
them it is rendered for all, and a run that fails at a template has written nothing.
-/
import JsonSieve.CommandLine.Report
import JsonSieve.Proofs.Chain.Compose
import JsonSieve.Proofs.Template.Substitution

namespace JsonSieve

/-! ## Results that fail alike -/

/-- Both results are there, or both are missing by the same error. -/
def FailAlike {ε α β : Type} (r : Except ε α) (s : Except ε β) : Prop :=
  (∃ a b, r = .ok a ∧ s = .ok b) ∨ ∃ e, r = .error e ∧ s = .error e

namespace FailAlike

variable {ε ε' α β γ δ : Type} {r : Except ε α} {s : Except ε β}

theorem ok (a : α) (b : β) : FailAlike (.ok a : Except ε α) (.ok b : Except ε β) :=
  .inl ⟨a, b, rfl, rfl⟩

theorem error (e : ε) : FailAlike (.error e : Except ε α) (.error e : Except ε β) :=
  .inr ⟨e, rfl, rfl⟩

theorem bind {f : α → Except ε γ} {g : β → Except ε δ} (h : FailAlike r s)
    (hfg : ∀ a b, FailAlike (f a) (g b)) : FailAlike (r >>= f) (s >>= g) := by
  obtain ⟨a, b, rfl, rfl⟩ | ⟨e, rfl, rfl⟩ := h
  · exact hfg a b
  · exact error e

theorem map (f : α → γ) (g : β → δ) (h : FailAlike r s) : FailAlike (f <$> r) (g <$> s) := by
  obtain ⟨a, b, rfl, rfl⟩ | ⟨e, rfl, rfl⟩ := h
  · exact ok (f a) (g b)
  · exact error e

theorem mapError (f : ε → ε') (h : FailAlike r s) : FailAlike (r.mapError f) (s.mapError f) := by
  obtain ⟨a, b, rfl, rfl⟩ | ⟨e, rfl, rfl⟩ := h
  · exact ok a b
  · exact error (f e)

end FailAlike

namespace Template

/-- The induction is on what is left of the template. -/
theorem renderFrom_failAlike (template : Text) (v w : Value) (s : Text) :
    FailAlike (renderFrom template v s) (renderFrom template w s) := by
  fun_induction renderFrom template v s with
  | case1 s hs =>
    rw [renderFrom_eq template w s, hs]
    exact .ok s s
  | case2 s hs =>
    rw [renderFrom_eq template w s, hs]
    exact .error _
  | case3 s before inside rest hs ih =>
    rw [renderFrom_eq template w s]
    simp only [hs]
    cases pathOf inside with
    | error e => exact .error e
    | ok path => exact ih.bind fun a b => .ok _ _

theorem render_failAlike (template : Text) (v w : Value) :
    FailAlike (render v template) (render w template) :=
  renderFrom_failAlike template v w template

end Template

/-! ## Records of one run -/

namespace CommandLine

variable {setup : Setup} {ending : Option Failure} {records : List Value} {v w : Value} {a b : Emit}
  {cache cache' after after' : PatternCache} {text : Text} {failure : Failure} {e : Error}

theorem emitText_failAlike (h : a.output = b.output) : FailAlike (emitText setup a) (emitText setup b) := by
  obtain ⟨v, output⟩ := a
  obtain ⟨w, output'⟩ := b
  obtain rfl : output = output' := h
  match output with
  | none => exact .ok _ _
  | some (.template text) => exact (Template.render_failAlike text.toList v w).mapError Failure.rendering
  | some (.templateFile name) =>
    unfold emitText
    dsimp only
    cases Entries.get? name setup.templates with
    | none => exact .error _
    | some text => exact (Template.render_failAlike text v w).mapError Failure.rendering

/-- Records that a chain emits are shown both, or fail both to be shown by the same failure. -/
theorem emitText_failAlike_of_run (ha : (Chain.run setup.host.grants setup.chain v).run cache = (.ok (some a), after))
    (hb : (Chain.run setup.host.grants setup.chain w).run cache' = (.ok (some b), after')) :
    FailAlike (emitText setup a) (emitText setup b) :=
  emitText_failAlike ((Chain.output_of_run ha).trans (Chain.output_of_run hb).symm)

/-- A record that fails at a template has been emitted. -/
theorem emit_of_rendering (h : (recordText setup v).run cache = (.error (.rendering e), after)) :
    ∃ emit, (Chain.run setup.host.grants setup.chain v).run cache = (.ok (some emit), after) ∧
      emitText setup emit = .error (.rendering e) := by
  rw [recordText, PatternCache.run_bind] at h
  rcases hrun : (Chain.run setup.host.grants setup.chain v).run cache with ⟨_ | _ | emit, cache'⟩
  · rw [hrun] at h; cases h
  · rw [hrun] at h; cases h
  · rw [hrun] at h
    obtain ⟨htext, rfl⟩ := Prod.mk.inj h
    exact ⟨emit, rfl, htext⟩

/-- Of a record before one that fails at a template nothing is written: it was dropped. -/
theorem text_eq_nil_of_rendering (hv : (recordText setup v).run cache = (.ok text, after))
    (hw : (recordText setup w).run cache' = (.error (.rendering e), after')) : text = [] := by
  obtain ⟨b, hb, hfails⟩ := emit_of_rendering hw
  rw [recordText, PatternCache.run_bind] at hv
  rcases hrun : (Chain.run setup.host.grants setup.chain v).run cache with ⟨_ | _ | a, cache''⟩
  · rw [hrun] at hv; cases hv
  · rw [hrun] at hv; cases hv; rfl
  · rw [hrun] at hv
    obtain ⟨htext, rfl⟩ := Prod.mk.inj hv
    have htext : emitText setup a = .ok text := htext
    rcases emitText_failAlike_of_run hrun hb with ⟨-, t, -, hb'⟩ | ⟨e', ha', -⟩
    · rw [hfails] at hb'; cases hb'
    · rw [htext] at ha'; cases ha'

theorem recordsText_run (setup : Setup) (ending : Option Failure) (v : Value) (vs : List Value)
    (cache : PatternCache) :
    ((recordsText setup ending (v :: vs)).run cache).1 =
      match (recordText setup v).run cache with
      | (.error failure, _) => ([], some failure)
      | (.ok text, after) =>
        (text ++ ((recordsText setup ending vs).run after).1.1, ((recordsText setup ending vs).run after).1.2) := by
  rw [recordsText, PatternCache.run_bind]
  rcases (recordText setup v).run cache with ⟨_ | _, _⟩ <;> rfl

/-- A failure of a run is what comes after its last record, or the failure of one of the records. -/
theorem failure_of_recordsText (h : ((recordsText setup ending records).run cache).1.2 = some failure) :
    ending = some failure ∨
      ∃ w ∈ records, ∃ cache after, (recordText setup w).run cache = (.error failure, after) := by
  induction records generalizing cache with
  | nil => exact .inl h
  | cons v vs ih =>
    rw [recordsText_run] at h
    rcases hv : (recordText setup v).run cache with ⟨failure' | text, after⟩
    · rw [hv] at h
      cases h
      exact .inr ⟨v, List.mem_cons_self, cache, after, hv⟩
    · rw [hv] at h
      exact (ih h).imp_right fun ⟨w, hw, hfails⟩ => ⟨w, List.mem_cons_of_mem _ hw, hfails⟩

/-- The induction is on the records before the one that fails. -/
theorem recordsText_of_rendering (hending : ending ≠ some (.rendering e))
    (h : ((recordsText setup ending records).run cache).1.2 = some (.rendering e)) :
    ((recordsText setup ending records).run cache).1.1 = [] := by
  induction records generalizing cache with
  | nil => rfl
  | cons v vs ih =>
    rw [recordsText_run] at h ⊢
    rcases hv : (recordText setup v).run cache with ⟨failure | text, after⟩
    · rfl
    · rw [hv] at h
      obtain ⟨w, -, cache', after', hw⟩ := (failure_of_recordsText h).resolve_left hending
      show text ++ _ = []
      rw [text_eq_nil_of_rendering hv hw, ih h, List.append_nil]

/-- Whether a template can be rendered does not depend on the data, for any two values it is rendered for both or
refused for both by the same error. So a run shows all records that it emits or fails at the first, with nothing
written before. -/
theorem template_renders_all_or_none :
    (∀ template v w, FailAlike (Template.render v template) (Template.render w template)) ∧
    (∀ (setup : Setup) v w a b cache cache' after after',
      (Chain.run setup.host.grants setup.chain v).run cache = (.ok (some a), after) →
      (Chain.run setup.host.grants setup.chain w).run cache' = (.ok (some b), after') →
      (∃ text, emitText setup a = .ok text) → ∃ text, emitText setup b = .ok text) ∧
    ∀ setup input e, (inputText setup input).2 = some (.rendering e) → (inputText setup input).1 = [] := by
  refine ⟨Template.render_failAlike, ?_, fun setup input e h => ?_⟩
  · rintro setup v w a b cache cache' after after' ha hb ⟨text, htext⟩
    rcases emitText_failAlike_of_run ha hb with ⟨-, t, -, ht⟩ | ⟨e, he, -⟩
    · exact ⟨t, ht⟩
    · rw [htext] at he; cases he
  · unfold inputText at h ⊢
    refine recordsText_of_rendering ?_ h
    split <;> simp

/-- A record with a gap after one without, and a template that is refused after a record that is dropped. -/
theorem template_renders_all_or_none_gap :
    let form : Output := .template "\x7b\x7b[1]\x7d\x7d;"
    let host : Host := ⟨.standard, .nearest⟩
    let setup : Setup := ⟨host, [.filter "[0]", .output form], [], .compact⟩
    let v : Value := .list [.null, .int 1]
    let w : Value := .list [.null]
    let refused : Setup := ⟨host, [.filter "[0]", .output (.template "\x7b\x7b0\x7d\x7d")], [], .compact⟩
    let input : Text := "\x7b\x7d [1]".toList
    (Chain.run setup.host.grants setup.chain v).run .empty = (.ok (some ⟨v, some form⟩), .empty) ∧
      (Chain.run setup.host.grants setup.chain w).run .empty = (.ok (some ⟨w, some form⟩), .empty) ∧
      emitText setup ⟨v, some form⟩ = .ok "1;".toList ∧ (∃ text, emitText setup ⟨w, some form⟩ = .ok text) ∧
      (inputText refused input).2 = some (.rendering (.illegal (.notExplicit "0"))) ∧
      (inputText refused input).1 = [] := by
  intro form host setup v w refused input
  have hv : (Chain.run setup.host.grants setup.chain v).run .empty = (.ok (some ⟨v, some form⟩), .empty) := by decide +kernel
  have hw : (Chain.run setup.host.grants setup.chain w).run .empty = (.ok (some ⟨w, some form⟩), .empty) := by decide +kernel
  have htext : emitText setup ⟨v, some form⟩ = .ok "1;".toList := by decide +kernel
  have hrefused : (inputText refused input).2 = some (.rendering (.illegal (.notExplicit "0"))) := by decide +kernel
  obtain ⟨-, hshown, hnothing⟩ := template_renders_all_or_none
  exact ⟨hv, hw, htext, hshown setup v w _ _ _ _ _ _ hv hw ⟨_, htext⟩, hrefused, hnothing _ _ _ hrefused⟩

end CommandLine

end JsonSieve
