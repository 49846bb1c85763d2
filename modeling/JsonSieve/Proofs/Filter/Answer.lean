/-
Answers: what a computation gives with a fresh cache. On steady computations answers compose like plain
results, so a walk over items can be told from the answers of its test. Two results agree if both are
there and related, or both are missing by an error of the same sort; where the order of a walk may decide,
an error of the directive agrees with everything (`lax`).
-/
import JsonSieve.Proofs.Filter.Passing
import JsonSieve.Proofs.Filter.Steady

namespace JsonSieve

variable {α β γ δ : Type}

/-! ## Results that agree -/

/-- A result that is an error of the directive. -/
def Fails (r : Except Error α) : Prop :=
  ∃ e, r = .error e ∧ e.isFatal = true

/-- A result that is an error of the data. -/
def Mismatches (r : Except Error α) : Prop :=
  ∃ e, r = .error e ∧ e.isFatal = false

theorem result_cases (r : Except Error α) : (∃ a, r = .ok a) ∨ Mismatches r ∨ Fails r := by
  cases r with
  | ok a => exact .inl ⟨a, rfl⟩
  | error e =>
    cases he : e.isFatal with
    | false => exact .inr (.inl ⟨e, rfl, he⟩)
    | true => exact .inr (.inr ⟨e, rfl, he⟩)

theorem Mismatches.not_fails {r : Except Error α} (h : Mismatches r) : ¬ Fails r := by
  obtain ⟨e, rfl, he⟩ := h
  rintro ⟨e', heq, he'⟩
  cases heq
  rw [he] at he'
  cases he'

theorem not_fails_ok {a : α} : ¬ Fails (.ok a : Except Error α) := by
  rintro ⟨e, he, -⟩
  cases he

theorem not_mismatches_ok {a : α} : ¬ Mismatches (.ok a : Except Error α) := by
  rintro ⟨e, he, -⟩
  cases he

/-- Related results, the same error of the data, or two errors of the directive; with `lax`, an error of the
directive on one side. -/
inductive Agree (lax : Prop) (R : α → β → Prop) : Except Error α → Except Error β → Prop
  | ok {a : α} {b : β} (h : R a b) : Agree lax R (.ok a) (.ok b)
  | mismatch {e : Error} (he : e.isFatal = false) : Agree lax R (.error e) (.error e)
  | fails {r : Except Error α} {s : Except Error β} (hr : Fails r) (hs : Fails s) : Agree lax R r s
  | left {r : Except Error α} {s : Except Error β} (h : lax) (hr : Fails r) : Agree lax R r s
  | right {r : Except Error α} {s : Except Error β} (h : lax) (hs : Fails s) : Agree lax R r s

namespace Agree

variable {lax : Prop} {R : α → β → Prop} {S : γ → δ → Prop} {r : Except Error α} {s : Except Error β}

theorem error (e : Error) : Agree lax R (.error e) (.error e) := by
  cases he : e.isFatal with
  | false => exact .mismatch he
  | true => exact .fails ⟨e, rfl, he⟩ ⟨e, rfl, he⟩

theorem refl {R : α → α → Prop} (hR : ∀ a, R a a) (r : Except Error α) : Agree lax R r r := by
  cases r with
  | ok a => exact .ok (hR a)
  | error e => exact .error e

theorem mono {lax' : Prop} (h : Agree lax R r s) (hlax : lax → lax') : Agree lax' R r s := by
  cases h with
  | ok h => exact .ok h
  | mismatch he => exact .mismatch he
  | fails hr hs => exact .fails hr hs
  | left h hr => exact .left (hlax h) hr
  | right h hs => exact .right (hlax h) hs

theorem bind {f : α → Except Error γ} {g : β → Except Error δ} (h : Agree lax R r s)
    (hfg : ∀ a b, R a b → Agree lax S (f a) (g b)) : Agree lax S (r >>= f) (s >>= g) := by
  cases h with
  | ok hab => exact hfg _ _ hab
  | mismatch he => exact .mismatch he
  | fails hr hs =>
    obtain ⟨e, rfl, he⟩ := hr
    obtain ⟨e', rfl, he'⟩ := hs
    exact .fails ⟨e, rfl, he⟩ ⟨e', rfl, he'⟩
  | left hlax hr => obtain ⟨e, rfl, he⟩ := hr; exact .left hlax ⟨e, rfl, he⟩
  | right hlax hs => obtain ⟨e, rfl, he⟩ := hs; exact .right hlax ⟨e, rfl, he⟩

theorem map {f : α → γ} {g : β → δ} (h : Agree lax R r s) (hfg : ∀ a b, R a b → S (f a) (g b)) :
    Agree lax S (f <$> r) (g <$> s) := by
  cases r <;> cases s <;> exact (h.bind fun a b hab => .ok (hfg a b hab) : Agree lax S (_ >>= _) (_ >>= _))

theorem symm (h : Agree lax R r s) : Agree lax (fun b a => R a b) s r := by
  cases h with
  | ok h => exact .ok h
  | mismatch he => exact .mismatch he
  | fails hr hs => exact .fails hs hr
  | left hlax hr => exact .right hlax hr
  | right hlax hs => exact .left hlax hs

theorem not_mismatches {a : α} (h : Agree lax R (.ok a) s) : ¬ Mismatches s := by
  intro hs
  cases h with
  | ok h => exact not_mismatches_ok hs
  | fails hr _ => exact not_fails_ok hr
  | left _ hr => exact not_fails_ok hr
  | right _ hs' => exact hs.not_fails hs'

/-- Results that agree fail together, unless the order may have decided. -/
theorem fails_iff (h : Agree lax R r s) (hlax : ¬ lax) : Fails r ↔ Fails s := by
  cases h with
  | ok h => exact ⟨fun hr => absurd hr not_fails_ok, fun hs => absurd hs not_fails_ok⟩
  | mismatch he =>
    have hnot {δ : Type} : ¬ Fails (.error _ : Except Error δ) := Mismatches.not_fails ⟨_, rfl, he⟩
    exact ⟨fun hr => absurd hr hnot, fun hs => absurd hs hnot⟩
  | fails hr hs => exact ⟨fun _ => hs, fun _ => hr⟩
  | left h _ => exact absurd h hlax
  | right h _ => exact absurd h hlax

/-- Where neither fails, both are there and related, or both are missing. -/
theorem toOption (h : Agree lax R r s) (hr : ¬ Fails r) (hs : ¬ Fails s) :
    Option.Rel R r.toOption s.toOption := by
  cases h with
  | ok h => exact .some h
  | mismatch he => exact .none
  | fails hr' _ => exact absurd hr' hr
  | left _ hr' => exact absurd hr' hr
  | right _ hs' => exact absurd hs' hs

end Agree

/-! ## Rows of results -/

namespace Results

/-- The results that are there, in order; the first error of the directive ends the walk. -/
def keep : List (Except Error α) → Except Error (List α)
  | [] => .ok []
  | .ok a :: rs => (a :: ·) <$> keep rs
  | .error e :: rs => if e.isFatal then .error e else keep rs

/-- Whether one of the results is there; the first error of the directive before it ends the search. -/
def found : List (Except Error α) → Except Error Bool
  | [] => .ok false
  | .ok _ :: _ => .ok true
  | .error e :: rs => if e.isFatal then .error e else found rs

variable {rs : List (Except Error α)} {ss : List (Except Error β)}

theorem keep_of_mismatch {r : Except Error α} (h : Mismatches r) (rs : List (Except Error α)) :
    keep (r :: rs) = keep rs := by
  obtain ⟨e, rfl, he⟩ := h
  rw [keep, he, if_neg Bool.false_ne_true]

theorem found_of_mismatch {r : Except Error α} (h : Mismatches r) (rs : List (Except Error α)) :
    found (r :: rs) = found rs := by
  obtain ⟨e, rfl, he⟩ := h
  rw [found, he, if_neg Bool.false_ne_true]

theorem fails_keep_of_fails {r : Except Error α} (h : Fails r) (rs : List (Except Error α)) :
    Fails (keep (r :: rs)) := by
  obtain ⟨e, rfl, he⟩ := h
  exact ⟨e, by rw [keep, if_pos he], he⟩

theorem fails_found_of_fails {r : Except Error α} (h : Fails r) (rs : List (Except Error α)) :
    Fails (found (r :: rs)) := by
  obtain ⟨e, rfl, he⟩ := h
  exact ⟨e, by rw [found, if_pos he], he⟩

/-- Where nothing fails, the results are kept that are there. -/
theorem keep_of_not_fails (h : ∀ r ∈ rs, ¬ Fails r) : keep rs = .ok (rs.filterMap Except.toOption) := by
  induction rs with
  | nil => rfl
  | cons r rs ih =>
    obtain ⟨hr, hrs⟩ := List.forall_mem_cons.1 h
    rcases result_cases r with ⟨a, rfl⟩ | hmis | hfails
    · rw [keep, ih hrs]; rfl
    · rw [keep_of_mismatch hmis, ih hrs]
      obtain ⟨e, rfl, -⟩ := hmis
      rfl
    · exact absurd hfails hr

/-- A walk keeps all results that are there, or ends with the first error of the directive. -/
theorem keep_cases (rs : List (Except Error α)) :
    ((∀ r ∈ rs, ¬ Fails r) ∧ keep rs = .ok (rs.filterMap Except.toOption)) ∨
    ∃ before e after, rs = before ++ .error e :: after ∧ (∀ r ∈ before, ¬ Fails r) ∧ e.isFatal = true ∧
      keep rs = .error e := by
  induction rs with
  | nil => exact .inl ⟨List.forall_mem_nil _, rfl⟩
  | cons r rs ih =>
    by_cases hr : Fails r
    · obtain ⟨e, rfl, he⟩ := hr
      exact .inr ⟨[], e, rs, rfl, List.forall_mem_nil _, he, by rw [keep, if_pos he]⟩
    · rcases ih with ⟨hrest, -⟩ | ⟨before, e, after, rfl, hbefore, he, hkeep⟩
      · have hall : ∀ s ∈ r :: rs, ¬ Fails s := List.forall_mem_cons.2 ⟨hr, hrest⟩
        exact .inl ⟨hall, keep_of_not_fails hall⟩
      · refine .inr ⟨r :: before, e, after, rfl, List.forall_mem_cons.2 ⟨hr, hbefore⟩, he, ?_⟩
        rcases result_cases r with ⟨a, rfl⟩ | hmis | hfails
        · rw [keep, hkeep]; rfl
        · rw [keep_of_mismatch hmis, hkeep]
        · exact absurd hfails hr

/-- A result that fails makes the walk fail, wherever it stands. -/
theorem fails_keep (h : ∃ r ∈ rs, Fails r) : Fails (keep rs) := by
  rcases keep_cases rs with ⟨hall, -⟩ | ⟨-, e, -, -, -, he, hkeep⟩
  · obtain ⟨r, hr, hfails⟩ := h
    exact absurd hfails (hall r hr)
  · exact ⟨e, hkeep, he⟩

/-- A search that finds nothing has seen mismatches only, and one that finds something a result. -/
theorem found_cases (rs : List (Except Error α)) :
    (found rs = .ok true ∧ ∃ a, .ok a ∈ rs) ∨ (found rs = .ok false ∧ ∀ r ∈ rs, Mismatches r) ∨
      Fails (found rs) := by
  induction rs with
  | nil => exact .inr (.inl ⟨rfl, by simp⟩)
  | cons r rs ih =>
    rcases result_cases r with ⟨a, rfl⟩ | hmis | hfails
    · exact .inl ⟨rfl, a, List.mem_cons_self⟩
    · rw [found_of_mismatch hmis]
      rcases ih with ⟨hrest, a, ha⟩ | ⟨hrest, hall⟩ | hrest
      · exact .inl ⟨hrest, a, List.mem_cons_of_mem _ ha⟩
      · exact .inr (.inl ⟨hrest, List.forall_mem_cons.2 ⟨hmis, hall⟩⟩)
      · exact .inr (.inr hrest)
    · exact .inr (.inr (fails_found_of_fails hfails rs))

variable {lax : Prop} {R : α → β → Prop}

/-- Results in the same places are kept together. -/
theorem agree_keep (h : List.Forall₂ (Agree lax R) rs ss) :
    Agree lax (List.Forall₂ R) (keep rs) (keep ss) := by
  induction h with
  | nil => exact .ok .nil
  | cons hhead _ ih =>
    cases hhead with
    | ok hab => exact ih.map fun as bs hall => .cons hab hall
    | mismatch he => rw [keep_of_mismatch ⟨_, rfl, he⟩, keep_of_mismatch ⟨_, rfl, he⟩]; exact ih
    | fails hr hs => exact .fails (fails_keep_of_fails hr _) (fails_keep_of_fails hs _)
    | left hlax hr => exact .left hlax (fails_keep_of_fails hr _)
    | right hlax hs => exact .right hlax (fails_keep_of_fails hs _)

theorem agree_found (h : List.Forall₂ (Agree lax R) rs ss) : Agree lax (· = ·) (found rs) (found ss) := by
  induction h with
  | nil => exact .ok rfl
  | cons hhead _ ih =>
    cases hhead with
    | ok hab => exact .ok rfl
    | mismatch he => rw [found_of_mismatch ⟨_, rfl, he⟩, found_of_mismatch ⟨_, rfl, he⟩]; exact ih
    | fails hr hs => exact .fails (fails_found_of_fails hr _) (fails_found_of_fails hs _)
    | left hlax hr => exact .left hlax (fails_found_of_fails hr _)
    | right hlax hs => exact .right hlax (fails_found_of_fails hs _)

end Results

/-! ## Answers -/

namespace Run

variable {x : Run α} {y : Run β} {f : α → Run β} {test : α → Run β} {xs : List α}

/-- What a computation gives with a fresh cache. -/
def answer (x : Run α) : Except Error α :=
  (x.run .empty).1

/-- Whatever has been compiled before, a steady computation gives its answer. -/
theorem run_eq_answer (hx : Steady x.run) {cache : PatternCache} (hcache : cache.Sound) :
    (x.run cache).1 = x.answer :=
  hx.answer hcache PatternCache.sound_empty

theorem answer_bind (hx : Steady x.run) (hf : ∀ a, Steady (f a).run) :
    (x >>= f).answer = x.answer >>= fun a => (f a).answer := by
  have hsound : (x.run .empty).2.Sound := hx.sound PatternCache.sound_empty
  unfold answer
  rw [run_bind]
  rcases hrun : x.run .empty with ⟨e | a, cache⟩
  · rfl
  · rw [hrun] at hsound
    exact (hf a).answer hsound PatternCache.sound_empty

theorem answer_map (g : α → γ) (x : Run α) : (g <$> x).answer = g <$> x.answer := by
  unfold answer
  rw [ExceptT.run_map]
  show Except.map g (x.run .empty).1 = _
  cases (x.run .empty).1 <;> rfl

theorem answer_passIf {test : Run Bool} (htest : Steady test.run) (v : Value) :
    (do if ← test then return v else throw .noMatch : Run Value).answer =
      test.answer >>= fun passed => if passed then .ok v else .error .noMatch := by
  refine (answer_bind htest fun passed => ?_).trans (congrArg (test.answer >>= ·) (funext fun passed => ?_))
  · cases passed with
    | true => exact Steady.pure (Except.ok v)
    | false => exact Steady.throw .noMatch
  · cases passed <;> rfl

theorem answer_absorb (x : Run α) :
    (absorb x).answer =
      match x.answer with
      | .ok a => .ok (some a)
      | .error e => if e.isFatal then .error e else .ok none := by
  unfold answer
  rw [absorb_run]
  rcases x.run .empty with ⟨e | a, cache⟩
  · dsimp only
    split <;> rfl
  · rfl

/-! ## Walks -/

/-- A walk keeps what its test gives on the items. -/
theorem answer_keepPassing (ht : ∀ x, Steady (test x).run) (xs : List α) :
    (keepPassing test xs).answer = Results.keep (xs.map fun x => (test x).answer) := by
  induction xs with
  | nil => rfl
  | cons x xs ih =>
    have hrest := steady_keepPassing ht xs
    have hconsed (y : β) : Steady (do let ys ← keepPassing test xs; return y :: ys : Run (List β)).run :=
      hrest.andThen fun ys => Steady.pure (Except.ok (y :: ys))
    have hcons (y : β) : (do let ys ← keepPassing test xs; return y :: ys : Run (List β)).answer =
        (y :: ·) <$> Results.keep (xs.map fun x => (test x).answer) := by
      rw [← ih]
      refine (answer_bind hrest fun ys => Steady.pure (Except.ok (y :: ys))).trans ?_
      cases (keepPassing test xs).answer <;> rfl
    refine (answer_bind (steady_absorb (ht x)) fun passed => ?_).trans ?_
    · cases passed with
      | some y => exact hconsed y
      | none => exact hrest
    · rw [answer_absorb, List.map_cons]
      cases (test x).answer with
      | ok y => exact hcons y
      | error e =>
        rw [Results.keep]
        by_cases he : e.isFatal = true
        · simp only [if_pos he]; rfl
        · simp only [if_neg he]; exact ih

/-- A search looks for what its test gives on the items. -/
theorem answer_anyPasses (ht : ∀ x, Steady (test x).run) (xs : List α) :
    (anyPasses test xs).answer = Results.found (xs.map fun x => (test x).answer) := by
  induction xs with
  | nil => rfl
  | cons x xs ih =>
    refine (answer_bind (steady_absorb (ht x)) fun passed => ?_).trans ?_
    · cases passed with
      | some y => exact Steady.pure (Except.ok true)
      | none => exact steady_anyPasses ht xs
    · rw [answer_absorb, List.map_cons]
      cases (test x).answer with
      | ok y => rfl
      | error e =>
        rw [Results.found]
        by_cases he : e.isFatal = true
        · simp only [if_pos he]; rfl
        · simp only [if_neg he]; exact ih

end Run

/-! ## Filters -/

namespace Filter

variable (choose : RootChoice) (rest : Filter) (root : Value)

theorem answer_everyItem (items : List Value) :
    ((everyItem rest).apply choose root (.list items)).answer =
      Value.list <$> Results.keep (items.map fun x => (rest.apply choose root x).answer) := by
  rw [apply, Run.answer_map, Run.answer_keepPassing (steady_apply choose rest root)]

theorem answer_someItem (items : List Value) :
    ((someItem rest).apply choose root (.list items)).answer =
      Results.found (items.map fun x => (rest.apply choose root x).answer) >>= fun passed =>
        if passed then .ok (.list items) else .error .noMatch := by
  rw [apply, Run.answer_passIf (Run.steady_anyPasses (steady_apply choose rest root) items),
    Run.answer_anyPasses (steady_apply choose rest root)]

theorem answer_everyField (entries : Entries Value) :
    ((everyField rest).apply choose root (.map entries)).answer =
      Value.map <$> Results.keep (entries.map fun e => (e.1, ·) <$> (rest.apply choose root e.2).answer) := by
  have hentry (e : String × Value) : Steady ((e.1, ·) <$> rest.apply choose root e.2).run :=
    (steady_apply choose rest root e.2).map (e.1, ·)
  rw [apply, Run.answer_map, Run.answer_keepPassing hentry]
  exact congrArg (fun rs => Value.map <$> Results.keep rs)
    (List.map_congr_left fun e _ => Run.answer_map (e.1, ·) _)

theorem answer_someField (entries : Entries Value) :
    ((someField rest).apply choose root (.map entries)).answer =
      Results.found (entries.map fun e => (rest.apply choose root e.2).answer) >>= fun passed =>
        if passed then .ok (.map entries) else .error .noMatch := by
  have hentry (e : String × Value) : Steady (rest.apply choose root e.2).run := steady_apply choose rest root e.2
  rw [apply, Run.answer_passIf (Run.steady_anyPasses hentry entries), Run.answer_anyPasses hentry]

end Filter

end JsonSieve
