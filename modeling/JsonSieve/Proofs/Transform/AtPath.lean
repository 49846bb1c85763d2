/-
Transforming at a path: a directive that starts with the text of an explicit path transforms the
value at that path by the rest and sets what comes of it in its place. A mismatch is absorbed at
every step below the first, so of the steps only the first can fail by the data (`Step.suits`), and
what the attempt on the part leaves is kept either way (`transform_atPath_of_get`).
-/
import JsonSieve.Proofs.Filter.Parts
import JsonSieve.Proofs.Path.Stepwise
import JsonSieve.Proofs.Path.Written
import JsonSieve.Proofs.Transform.Kept

namespace JsonSieve

namespace Attempt

/-- An error that has been let through once is let through again. -/
theorem fatal?_idem (attempt : Attempt) (v : Value) :
    (Attempt.mk v attempt.fatal?).fatal? = attempt.fatal? := by
  simp [fatal?, Option.filter_filter]

theorem fatal?_of_error {attempt : Attempt} {e : Error} (h : attempt.error = some e) :
    attempt.fatal? = if e.isFatal then some e else none := by
  rw [fatal?, h, Option.filter_some]

theorem result_eq_ok {attempt : Attempt} {v : Value} :
    attempt.result = .ok v ↔ attempt.error = none ∧ attempt.after = v := by
  unfold result
  cases attempt.error <;> simp

theorem result_eq_error {attempt : Attempt} {e : Error} :
    attempt.result = .error e ↔ attempt.error = some e := by
  unfold result
  cases attempt.error <;> simp

end Attempt

namespace Transform

/-! ## The transform of a step and what follows it -/

theorem Form.of_index (i : UInt64) (rest : Text) :
    Form.of ((Step.index i).text ++ rest) = .item i rest := by
  have hitem : Form.ofOperand ((Step.index i).text ++ rest) = .item i rest := by
    rw [Form.ofOperand, exactIndex?_text]
  obtain ⟨c, s, htext, hc⟩ := Step.text_index i
  have hclose : c ≠ ']' := by rintro rfl; revert hc; decide
  rw [← hitem, htext]
  simp [Form.of, hclose]

theorem Form.of_key {name : String} (hn : (Step.key name).Writable) {rest : Text}
    (hr : rest.Detached) : Form.of ((Step.key name).text ++ rest) = .field name.toList rest := by
  have hfield : Form.ofOperand ((Step.key name).text ++ rest) = .field name.toList rest := by
    rw [Form.ofOperand, exactIndex?_key, exactField?_text hn hr]
  have hparen := Step.after_dot_ne hn hr
  rw [← hfield]
  unfold Form.of
  split <;> simp_all [Step.text]

/-- The transform of a directive, given its form. -/
def ofForm (d : Text) : Form → Transform
  | .empty => .refuse (.unrecognized "")
  | .everyItem rest => .everyItem (parse rest)
  | .everyField rest => .everyField (parse rest)
  | .item i rest => .item i (parse rest)
  | .field name rest => .field (String.ofList name) (parse rest)
  | .assignment dest src => ofSides dest src
  | .unknown => .refuse (.unrecognized (String.ofList d))

theorem parse_eq (d : Text) : parse d = ofForm d (Form.of d) := by
  rw [parse]
  split
  all_goals rename_i h; rw [h]; rfl

/-- What the form of a directive says about the directive. -/
def Form.Fits (d : Text) : Form → Prop
  | .empty => d = []
  | .everyItem rest => d = ['[', ']'] ++ rest
  | .everyField rest => d = ['.', '(', ')'] ++ rest
  | .item i rest => exactIndex? d = some (i, rest)
  | .field name rest => exactField? d = some (name, rest)
  | .assignment dest src => assignment? d = some (dest, src)
  | .unknown => exactIndex? d = none ∧ exactField? d = none ∧ assignment? d = none

theorem Form.fits_of (d : Text) : (Form.of d).Fits d := by
  unfold Form.of
  split
  · rfl
  · rfl
  · rfl
  · unfold Form.ofOperand
    split
    · assumption
    · split
      · assumption
      · split
        · assumption
        · exact ⟨‹_›, ‹_›, ‹_›⟩

/-- What a form leaves to read is the end of the directive. -/
theorem Form.suffix_of_rest? {d rest : Text} (h : (Form.of d).rest? = some rest) : rest <:+ d := by
  have hfits := Form.fits_of d
  cases hform : Form.of d with
  | everyItem r => rw [hform] at h hfits; cases h; rw [hfits]; exact List.suffix_append _ _
  | everyField r => rw [hform] at h hfits; cases h; rw [hfits]; exact List.suffix_append _ _
  | item i r => rw [hform] at h hfits; cases h; exact suffix_of_exactIndex? hfits
  | field name r => rw [hform] at h hfits; cases h; exact suffix_of_exactField? hfits
  | empty => rw [hform] at h; cases h
  | assignment dest src => rw [hform] at h; cases h
  | unknown => rw [hform] at h; cases h

/-- The transform that goes one step into a value. -/
def atStep : Step → Transform → Transform
  | .key name, rest => .field name rest
  | .index i, rest => .item i rest

/-- A directive that starts with a step is the transform at that step, over the transform of the
rest. -/
theorem parse_step {step : Step} (hs : step.Writable) {rest : Text} (hr : rest.Detached) :
    parse (step.text ++ rest) = atStep step (parse rest) := by
  cases step with
  | key name => rw [parse_eq, Form.of_key hs hr, ofForm, String.ofList_toList]; rfl
  | index i => rw [parse_eq, Form.of_index]; rfl

/-! ## The descent -/

theorem apply_atStep (grants : Reservation) (step : Step) (rest : Transform) (v : Value) :
    (atStep step rest).apply grants v =
      match step.into v with
      | .ok (part, rebuild) => ⟨rebuild (rest.apply grants part).after, (rest.apply grants part).fatal?⟩
      | .error .notFound => ⟨v, none⟩
      | .error e => ⟨v, some e⟩ := by
  cases step with
  | key name =>
    cases v with
    | map entries =>
      by_cases hn : name = ""
      · simp only [atStep, apply, Step.into, if_pos hn]; rfl
      · simp only [atStep, apply, Step.into, if_neg hn]
        cases Entries.get? name entries <;> rfl
    | _ => rfl
  | index i =>
    cases v with
    | list items =>
      simp only [atStep, apply, Step.into]
      cases items[i.toNat]? <;> rfl
    | _ => rfl

end Transform

namespace Value

variable (grants : Reservation)

/-- One step: what the attempt on the part leaves is put in its place, and its mismatch is absorbed; a
step that finds nothing leaves the value. -/
theorem transform_step {step : Step} (hs : step.Writable) {rest : Text} (hr : rest.Detached)
    (v : Value) :
    v.transform grants (step.text ++ rest) =
      match step.into v with
      | .ok (part, rebuild) => ⟨rebuild (part.transform grants rest).after, (part.transform grants rest).fatal?⟩
      | .error .notFound => ⟨v, none⟩
      | .error e => ⟨v, some e⟩ := by
  unfold transform
  rw [Transform.parse_step hs hr, Transform.apply_atStep]

/-- Where the path leads to a value, what the attempt there leaves is put in its place, and only an
error of the directive comes up. -/
theorem transform_atPath_of_get (grants' : Reservation) {path : Path}
    (hp : ∀ step ∈ path, step.Writable) {rest : Text} (hr : rest.Detached) {v w : Value}
    (h : v.get path = .ok w) :
    (v.transform grants (path.text ++ rest)).after =
        (setWithin grants' (w.transform grants rest).after path v).after ∧
      (v.transform grants (path.text ++ rest)).fatal? = (w.transform grants rest).fatal? := by
  induction path generalizing v with
  | nil => cases h; exact ⟨rfl, rfl⟩
  | cons step path ih =>
    obtain ⟨hstep, hpath⟩ := List.forall_mem_cons.1 hp
    obtain ⟨part, rebuild, hinto, hpart⟩ := into_of_get_cons h
    obtain ⟨hafter, hfatal⟩ := ih hpath hpart
    rw [Path.text_cons_append, transform_step grants hstep (Path.detached_text path hr), hinto,
      setWithin_cons hinto]
    refine ⟨?_, ?_⟩
    · simp only [hafter]
    · exact (Attempt.fatal?_idem _ _).trans hfatal

/-- Where the path does not lead to a value, nothing is changed and no error of the directive comes
up. -/
theorem transform_atPath_of_error {path : Path} (hp : ∀ step ∈ path, step.Writable) {rest : Text}
    (hr : rest.Detached) {v : Value} {e : Error} (h : v.get path = .error e) :
    (v.transform grants (path.text ++ rest)).after = v ∧
      (v.transform grants (path.text ++ rest)).fatal? = none := by
  induction path generalizing v with
  | nil => cases h
  | cons step path ih =>
    obtain ⟨hstep, hpath⟩ := List.forall_mem_cons.1 hp
    rw [Path.text_cons_append, transform_step grants hstep (Path.detached_text path hr)]
    cases hinto : step.into v with
    | ok p =>
      obtain ⟨part, rebuild⟩ := p
      rw [get_cons_ok hinto] at h
      obtain ⟨hafter, hfatal⟩ := ih hpath h
      refine ⟨?_, ?_⟩
      · simp only [hafter, Step.rebuild_part hinto]
      · exact (Attempt.fatal?_idem _ _).trans hfatal
    | error e' =>
      rcases Step.error_of_into hinto with rfl | rfl | rfl
      · exact ⟨rfl, rfl⟩
      · exact ⟨rfl, rfl⟩
      · exact ⟨rfl, rfl⟩

/-- In a value of the right kind for the first step the only error is one of the directive. -/
theorem error_transform_atPath {step : Step} {path : Path} (hp : ∀ s ∈ step :: path, s.Writable)
    {rest : Text} (hr : rest.Detached) {v : Value} (hs : step.suits v = true) :
    (v.transform grants (Path.text (step :: path) ++ rest)).error =
      (v.transform grants (Path.text (step :: path) ++ rest)).fatal? := by
  obtain ⟨hstep, -⟩ := List.forall_mem_cons.1 hp
  rw [Path.text_cons_append, transform_step grants hstep (Path.detached_text path hr)]
  cases hinto : step.into v with
  | ok p => exact (Attempt.fatal?_idem _ _).symm
  | error e => rw [Step.error_of_suits hs hinto]; rfl

/-- Where the path leads to a value, an error is one that the rest has as a directive. -/
theorem error_transform_of_get {step : Step} {path : Path} (hp : ∀ s ∈ step :: path, s.Writable)
    {rest : Text} (hr : rest.Detached) {v w : Value} (h : v.get (step :: path) = .ok w) :
    (v.transform grants (Path.text (step :: path) ++ rest)).error = (w.transform grants rest).fatal? := by
  obtain ⟨part, rebuild, hinto, -⟩ := into_of_get_cons h
  rw [error_transform_atPath grants hp hr (Step.suits_of_into hinto)]
  exact (transform_atPath_of_get grants grants hp hr h).2

/-- A value of the wrong kind for the first step fails the directive as it fails getting. -/
theorem result_transform_of_not_suits {step : Step} {path : Path}
    (hp : ∀ s ∈ step :: path, s.Writable) {rest : Text} (hr : rest.Detached) {v : Value}
    (hs : step.suits v = false) :
    ∃ e, (e = .notAList ∨ e = .notAStructure) ∧ v.get (step :: path) = .error e ∧
      (v.transform grants (Path.text (step :: path) ++ rest)).result = .error e := by
  obtain ⟨hstep, -⟩ := List.forall_mem_cons.1 hp
  rw [Path.text_cons_append, transform_step grants hstep (Path.detached_text path hr)]
  rcases Step.error_of_not_suits hs with hinto | hinto
  · exact ⟨.notAList, .inl rfl, get_cons_error hinto, by rw [hinto]; rfl⟩
  · exact ⟨.notAStructure, .inr rfl, get_cons_error hinto, by rw [hinto]; rfl⟩

/-- A path in front of a directive transforms what stands at the path and sets it there, which never
fails, and an error of the directive is let through. A mismatch leaves the value as it was, wherever it is
met but at the first step. -/
theorem transform_path_get_set (grants' : Reservation) (v : Value) {step : Step} {path : Path}
    (hp : ∀ s ∈ step :: path, s.Writable) {rest : Text} (hr : rest.Detached) :
    let transformed := (v.transform grants (Path.text (step :: path) ++ rest)).result
    (∀ w, v.get (step :: path) = .ok w →
      (∀ w', (w.transform grants rest).result = .ok w' →
        ∃ v', (setWithin grants' w' (step :: path) v).result = .ok v' ∧ transformed = .ok v') ∧
      (∀ e, (w.transform grants rest).result = .error e → e.isFatal = false → transformed = .ok v) ∧
      ∀ e, (w.transform grants rest).result = .error e → e.isFatal = true → transformed = .error e) ∧
    ∀ e, v.get (step :: path) = .error e →
      (step.suits v = false → transformed = .error e ∧ (e = .notAList ∨ e = .notAStructure)) ∧
      (step.suits v = true → transformed = .ok v) := by
  intro transformed
  constructor
  · intro w hw
    have herror := error_transform_of_get grants hp hr hw
    obtain ⟨hafter, -⟩ := transform_atPath_of_get grants grants' hp hr hw
    refine ⟨fun w' hw' => ?_, fun e he hdata => ?_, fun e he hdirective => ?_⟩
    · obtain ⟨hnone, rfl⟩ := Attempt.result_eq_ok.1 hw'
      refine ⟨_, result_of_get hw _, Attempt.result_eq_ok.2 ⟨?_, hafter⟩⟩
      rw [herror, Attempt.fatal?, hnone]; rfl
    · -- the part was left alone, and setting it again changes nothing
      have he := Attempt.result_eq_error.1 he
      have hkept : (w.transform grants rest).after = w := Transform.after_eq_of_mismatch _ w e he hdata
      refine Attempt.result_eq_ok.2 ⟨?_, ?_⟩
      · rw [herror, Attempt.fatal?_of_error he, hdata]; rfl
      · rw [hafter, hkept, after_of_get hw]
    · have he := Attempt.result_eq_error.1 he
      rw [Attempt.result_eq_error, herror, Attempt.fatal?_of_error he, hdirective]; rfl
  · intro e he
    refine ⟨fun hs => ?_, fun hs => ?_⟩
    · obtain ⟨e', hkind, hget, hresult⟩ := result_transform_of_not_suits grants hp hr hs
      obtain rfl : e' = e := by rw [hget] at he; cases he; rfl
      exact ⟨hresult, hkind⟩
    · obtain ⟨hafter, hfatal⟩ := transform_atPath_of_error grants hp hr he
      have herror := error_transform_atPath grants hp hr hs
      exact Attempt.result_eq_ok.2 ⟨herror.trans hfatal, hafter⟩

theorem transform_path_get_set_bare_dot :
    let v : Value := .map [("a", .list [.map [("x", .int 1)], .string "s"])]
    v.get [.key "a", .index 0, .key ""] = .ok (.map [("x", .int 1)]) ∧
      (v.transform .standard ".a[0].{.y=.x}".toList).result =
        .ok (.map [("a", .list [.map [("x", .int 1), ("y", .int 1)], .string "s"])]) ∧
      v.get [.key "a", .index 1, .key "x"] = .error .notAStructure ∧
      (v.transform .standard ".a[1].x{.y=.x}".toList).result = .ok v := by
  intro v
  have hr : Text.Detached "{.y=.x}".toList := by rintro c ⟨⟩; decide
  have hw : v.get [.key "a", .index 0, .key ""] = .ok (.map [("x", .int 1)]) := rfl
  have hinner : (Value.transform .standard (.map [("x", .int 1)]) "{.y=.x}".toList).result =
      .ok (.map [("x", .int 1), ("y", .int 1)]) := by decide +kernel
  have hp : ∀ s ∈ [Step.key "a", .index 0, .key ""], s.Writable := by decide
  have hp' : ∀ s ∈ [Step.key "a", .index 1, .key "x"], s.Writable := by decide
  obtain ⟨v', hset, htransformed⟩ :=
    ((transform_path_get_set .standard .standard v hp hr).1 _ hw).1 _ hinner
  cases hset
  exact ⟨hw, htransformed, rfl, ((transform_path_get_set .standard .standard v hp' hr).2 _ rfl).2 rfl⟩

end Value

end JsonSieve
