/-
Chains compose: a chain in two parts makes of a record what the second part makes of what the first
one passes on, with the cache that the first one left, and ends where the first one ends. One
directive ends a chain or hands it a value (`run_cons`); so a chain that is gone through to its end is
a row of directives that passed (`Passes`), and an error in a chain is the error of one directive
after such a row.
-/
import JsonSieve.Chain
import JsonSieve.Proofs.Pattern.Steady
import Mathlib.Data.Prod.Basic

namespace JsonSieve.Chain

variable {grants : Reservation} {directive : Directive} {front back rest : List Directive} {v w x : Value}
  {cache cache' cache'' : PatternCache} {e : Error}

/-! ## One directive -/

theorem run_output (grants : Reservation) (form : Output) (rest : List Directive) (v : Value) :
    run grants (.output form :: rest) v = return .ok (some ⟨v, some form⟩) := rfl

/-- A directive that is no output form hands its value on to the rest of the chain, or ends the chain
by an error that names it or by a drop. -/
theorem run_cons (grants : Reservation) (h : ∀ form, directive ≠ .output form) (rest : List Directive)
    (v : Value) (cache : PatternCache) :
    (run grants (directive :: rest) v).run cache =
      match (directive.apply grants v).run cache with
      | (.ok w, cache') => (run grants rest w).run cache'
      | (.error e, cache') =>
        if e.isFatal then (.error ⟨String.ofList directive.text, e⟩, cache') else (.ok none, cache') := by
  rw [run, PatternCache.run_bind]
  · simp only [StateT.run]
    obtain ⟨e | w, cache'⟩ := (directive.apply grants v).run cache
    · by_cases he : e.isFatal
      · simp only [if_pos he]; rfl
      · simp only [if_neg he]; rfl
    · rfl
  · exact h

/-- The ways on from one directive: it is an output form, it passes, it drops the record, or it fails
by an error that lies in it. -/
theorem run_cons_cases (grants : Reservation) (directive : Directive) (v : Value) (cache : PatternCache) :
    (∃ form, directive = .output form) ∨
    (∃ w cache', (∀ form, directive ≠ .output form) ∧
      (directive.apply grants v).run cache = (.ok w, cache') ∧
      ∀ rest, (run grants (directive :: rest) v).run cache = (run grants rest w).run cache') ∨
    (∃ cache', ∀ rest, (run grants (directive :: rest) v).run cache = (.ok none, cache')) ∨
    ∃ e cache', (directive.apply grants v).run cache = (.error e, cache') ∧ e.isFatal = true ∧
      ∀ rest, (run grants (directive :: rest) v).run cache =
        (.error ⟨String.ofList directive.text, e⟩, cache') := by
  by_cases hform : ∃ form, directive = .output form
  · exact .inl hform
  · have hends : ∀ form, directive ≠ .output form := fun form hd => hform ⟨form, hd⟩
    have hrun := fun rest => run_cons grants hends rest v cache
    rcases hstep : (directive.apply grants v).run cache with ⟨e | w, cache'⟩
    · rw [hstep] at hrun
      by_cases he : e.isFatal = true
      · exact .inr (.inr (.inr ⟨e, cache', rfl, he, fun rest => by rw [hrun]; exact if_pos he⟩))
      · exact .inr (.inr (.inl ⟨cache', fun rest => by rw [hrun]; exact if_neg he⟩))
    · rw [hstep] at hrun
      exact .inr (.inl ⟨w, cache', hends, rfl, hrun⟩)

/-! ## Chains in two parts -/

/-- What follows a chain goes on with the value and the cache that the chain left, unless the chain
has ended. The induction is on the chain. -/
theorem run_append (grants : Reservation) (front back : List Directive) (v : Value) (cache : PatternCache) :
    (run grants (front ++ back) v).run cache =
      match (run grants front v).run cache with
      | (.ok (some ⟨w, none⟩), cache') => (run grants back w).run cache'
      | ended => ended := by
  induction front generalizing v cache with
  | nil => rfl
  | cons directive front ih =>
    rw [List.cons_append]
    obtain ⟨form, rfl⟩ | ⟨w, cache', -, -, hrun⟩ | ⟨cache', hrun⟩ | ⟨e, cache', -, -, hrun⟩ :=
      run_cons_cases grants directive v cache
    · rfl
    · rw [hrun, hrun]; exact ih w cache'
    · rw [hrun, hrun]
    · rw [hrun, hrun]

/-! ## Output forms -/

/-- The output form in which a chain ends, if it has one. -/
def form? : List Directive → Option Output
  | [] => none
  | .output form :: _ => some form
  | _ :: rest => form? rest

theorem mem_of_form? {directives : List Directive} {form : Output} (h : form? directives = some form) :
    .output form ∈ directives := by
  fun_induction form? directives with
  | case1 => cases h
  | case2 => cases h; exact List.mem_cons_self
  | case3 _ _ _ ih => exact List.mem_cons_of_mem _ (ih h)

/-- What a chain emits is shown in the form in which the chain ends, whatever the record is. -/
theorem output_of_run {directives : List Directive} {emit : Emit}
    (h : (run grants directives v).run cache = (.ok (some emit), cache')) : emit.output = form? directives := by
  induction directives generalizing v cache with
  | nil => cases h; rfl
  | cons directive rest ih =>
    obtain ⟨form, rfl⟩ | ⟨w, cache'', hends, -, hrun⟩ | ⟨cache'', hrun⟩ | ⟨e, cache'', -, -, hrun⟩ :=
      run_cons_cases grants directive v cache
    · cases h; rfl
    · rw [hrun] at h
      rw [ih h, form?]
      exact hends
    · rw [hrun] at h; cases h
    · rw [hrun] at h; cases h

/-! ## Directives that pass -/

/-- Directives in a row, none of them an output form, that each pass a value on, the next one being
applied to it with the cache that is left. -/
inductive Passes (grants : Reservation) : List Directive → Value → PatternCache → Value → PatternCache → Prop
  | nil {v : Value} {cache : PatternCache} : Passes grants [] v cache v cache
  | cons {directive : Directive} {rest : List Directive} {v w x : Value}
      {cache cache' cache'' : PatternCache} :
      (∀ form, directive ≠ .output form) → (directive.apply grants v).run cache = (.ok w, cache') →
      Passes grants rest w cache' x cache'' → Passes grants (directive :: rest) v cache x cache''

theorem Passes.run_eq {directives : List Directive} (h : Passes grants directives v cache w cache') :
    (run grants directives v).run cache = (.ok (some ⟨w, none⟩), cache') := by
  induction h with
  | nil => rfl
  | cons hends hstep _ ih => rw [run_cons grants hends, hstep]; exact ih

/-- A chain emits a value without an output form only if all its directives pass. -/
theorem passes_of_run {directives : List Directive}
    (h : (run grants directives v).run cache = (.ok (some ⟨w, none⟩), cache')) :
    Passes grants directives v cache w cache' := by
  induction directives generalizing v cache with
  | nil => cases h; exact .nil
  | cons directive rest ih =>
    obtain ⟨form, rfl⟩ | ⟨x, cache'', hends, hstep, hrun⟩ | ⟨cache'', hrun⟩ | ⟨e, cache'', -, -, hrun⟩ :=
      run_cons_cases grants directive v cache
    · cases h
    · rw [hrun] at h; exact .cons hends hstep (ih h)
    · rw [hrun] at h; cases h
    · rw [hrun] at h; cases h

/-- A chain fails by an error only if one of its directives fails on what the directives before it
have passed on, by an error that lies in the directive; the error names it. -/
theorem fails_of_run {directives : List Directive} {err : DirectiveError}
    (h : (run grants directives v).run cache = (.error err, cache')) :
    ∃ passed directive others w cache'' e, directives = passed ++ directive :: others ∧
      Passes grants passed v cache w cache'' ∧ (directive.apply grants w).run cache'' = (.error e, cache') ∧
      e.isFatal = true ∧ err = ⟨String.ofList directive.text, e⟩ := by
  induction directives generalizing v cache with
  | nil => cases h
  | cons directive rest ih =>
    obtain ⟨form, rfl⟩ | ⟨x, cache₁, hends, hstep, hrun⟩ | ⟨cache₁, hrun⟩ | ⟨e, cache₁, hstep, he, hrun⟩ :=
      run_cons_cases grants directive v cache
    · cases h
    · rw [hrun] at h
      obtain ⟨passed, other, others, w, cache₂, e, rfl, hpassed, hfails⟩ := ih h
      exact ⟨directive :: passed, other, others, w, cache₂, e, rfl, .cons hends hstep hpassed, hfails⟩
    · rw [hrun] at h; cases h
    · rw [hrun] at h
      cases h
      exact ⟨[], directive, rest, v, cache, e, rfl, .nil, hstep, he, rfl⟩

/-- The first directive that fails by an error that lies in it ends the chain by that error. -/
theorem run_eq_error (hpassed : Passes grants front v cache w cache')
    (hfails : (directive.apply grants w).run cache' = (.error e, cache'')) (he : e.isFatal = true)
    (rest : List Directive) :
    (run grants (front ++ directive :: rest) v).run cache =
      (.error ⟨String.ofList directive.text, e⟩, cache'') := by
  have hends : ∀ form, directive ≠ .output form := by
    rintro form rfl; cases hfails
  rw [run_append, hpassed.run_eq]
  show (run grants (directive :: rest) w).run cache' = _
  rw [run_cons grants hends, hfails]
  exact if_pos he

/-- A chain in two parts makes of a record what its back part makes of what the front part passes on, with
the cache that is left; a drop, an error or an output form ends the chain in front. So a chain fails just
if some directive fails on what those before it have passed on, by an error that lies in it, and the error
names that directive. -/
theorem run_composes (grants : Reservation) (front back : List Directive) (v : Value) (cache : PatternCache) :
    (∀ result cache', (run grants front v).run cache = (result, cache') →
      (result = .ok none ∨ (∃ err, result = .error err) ∨
        ∃ w form, result = .ok (some ⟨w, some form⟩)) →
      (run grants (front ++ back) v).run cache = (result, cache')) ∧
    (∀ w cache', (run grants front v).run cache = (.ok (some ⟨w, none⟩), cache') →
      Passes grants front v cache w cache' ∧
      (run grants (front ++ back) v).run cache = (run grants back w).run cache') ∧
    (∀ form others, (run grants (front ++ .output form :: back) v).run cache =
      (run grants (front ++ .output form :: others) v).run cache) ∧
    ∀ err cache', (run grants (front ++ back) v).run cache = (.error err, cache') ↔
      ∃ passed directive others w cache'' e, front ++ back = passed ++ directive :: others ∧
        Passes grants passed v cache w cache'' ∧ (directive.apply grants w).run cache'' = (.error e, cache') ∧
        e.isFatal = true ∧ err = ⟨String.ofList directive.text, e⟩ := by
  refine ⟨?_, fun w cache' h => ⟨passes_of_run h, ?_⟩, fun form others => ?_,
    fun err cache' => ⟨fails_of_run, ?_⟩⟩
  · rintro result cache' h (rfl | ⟨err, rfl⟩ | ⟨w, form, rfl⟩)
    · rw [run_append, h]
    · rw [run_append, h]
    · rw [run_append, h]
  · rw [run_append, h]
  · rw [run_append, run_append]
    simp only [run_output]
  · rintro ⟨passed, directive, others, w, cache'', e, hsplit, hpassed, hfails, he, rfl⟩
    rw [hsplit]
    exact run_eq_error hpassed hfails he others

/-- A front part that emits a value without an output form, and one that drops the record before a
directive that fits no record; and a pattern that does not compile after one that the cache keeps. -/
theorem run_composes_malformed_pattern :
    let v : Value := .map [("a", .string "x")]
    let w : Value := .map [("a", .string "x"), ("b", .string "x")]
    let kept : PatternCache := ⟨[("x", .literal ['x'])]⟩
    let front : List Directive := [.filter ".a=/x/", .transform "{.b=.a}"]
    let back : List Directive := [.filter ".b=/(/", .output (.template "t"), .filter "!"]
    (run .standard front v).run .empty = (.ok (some ⟨w, none⟩), kept) ∧
      Passes .standard front v .empty w kept ∧
      (run .standard (front ++ back) v).run .empty = (run .standard back w).run kept ∧
      (∃ passed directive others u cache e, front ++ back = passed ++ directive :: others ∧
        Passes .standard passed v .empty u cache ∧ (directive.apply .standard u).run cache = (.error e, kept) ∧
        e.isFatal = true ∧
        (⟨"f:.b=/(/", .invalidPattern "(" .malformed⟩ : DirectiveError) =
          ⟨String.ofList directive.text, e⟩) ∧
      (run .standard [.filter ".a=y"] v).run .empty = (.ok none, .empty) ∧
      (run .standard ([.filter ".a=y"] ++ [.filter "!"]) v).run .empty = (.ok none, .empty) := by
  intro v w kept front back
  have hfilter : ((Directive.filter ".a=/x/").apply .standard v).run .empty = (.ok v, kept) := by decide +kernel
  have hpassed : Passes .standard front v .empty w kept :=
    .cons (by simp) hfilter (.cons (by simp) (by decide +kernel) .nil)
  have hfront : (run .standard front v).run .empty = (.ok (some ⟨w, none⟩), kept) := hpassed.run_eq
  have hfails : (run .standard (front ++ back) v).run .empty =
      (.error ⟨"f:.b=/(/", .invalidPattern "(" .malformed⟩, kept) :=
    run_eq_error hpassed (by decide +kernel) rfl _
  have hdrop : (run .standard [.filter ".a=y"] v).run .empty = (.ok none, .empty) := by decide +kernel
  obtain ⟨-, hon, -, herr⟩ := run_composes .standard front back v .empty
  exact ⟨hfront, (hon w kept hfront).1, (hon w kept hfront).2, (herr _ _).1 hfails, hdrop,
    (run_composes .standard [.filter ".a=y"] [.filter "!"] v .empty).1 _ _ hdrop (.inl rfl)⟩

end JsonSieve.Chain
