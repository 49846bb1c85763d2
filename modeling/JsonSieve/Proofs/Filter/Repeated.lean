/-
Filtering twice. A filter made of steps and comparisons passes what it has left of a value, and takes nothing
more away: what it has kept has passed by itself and passes again, and no step looks at the places or the
number of the parts that are kept elsewhere. Groups and cuts are left out; a cut finds other items at the
places it names when it is made a second time.
-/
import JsonSieve.Proofs.Chain.VisitingOrder
import JsonSieve.Proofs.Filter.Pruning
import JsonSieve.Proofs.Filter.Unchanged

namespace JsonSieve

open Value (Alike)

/-! ## Walks over what is kept -/

namespace Results

variable {α : Type} {rs : List (Except Error α)} {f : α → Except Error α} {xs ys : List α}

theorem mem_of_keep (h : keep rs = .ok ys) : ∀ y ∈ ys, .ok y ∈ rs := by
  induction rs generalizing ys with
  | nil => cases h; exact List.forall_mem_nil _
  | cons r rs ih =>
    rcases result_cases r with ⟨a, rfl⟩ | hmis | hfails
    · rw [keep] at h
      cases hrs : keep rs with
      | error e => rw [hrs] at h; cases h
      | ok zs =>
        rw [hrs] at h
        cases h
        refine List.forall_mem_cons.2 ⟨List.mem_cons_self, fun y hy => ?_⟩
        exact List.mem_cons_of_mem _ (ih hrs y hy)
    · rw [keep_of_mismatch hmis] at h
      exact fun y hy => List.mem_cons_of_mem _ (ih h y hy)
    · obtain ⟨e, he, -⟩ := fails_keep_of_fails hfails rs
      rw [he] at h; cases h

/-- Where all results are there, all are kept. -/
theorem keep_map_ok (h : ∀ y ∈ ys, f y = .ok y) : keep (ys.map f) = .ok ys := by
  induction ys with
  | nil => rfl
  | cons y ys ih =>
    obtain ⟨hy, hys⟩ := List.forall_mem_cons.1 h
    rw [List.map_cons, hy, keep, ih hys]
    rfl

/-- A walk keeps all that it has kept before, if the test passes what it has made of an item. -/
theorem keep_again (h : keep (xs.map f) = .ok ys) (hf : ∀ x y, f x = .ok y → f y = .ok y) :
    keep (ys.map f) = .ok ys := by
  refine keep_map_ok fun y hy => ?_
  obtain ⟨x, -, hx⟩ := List.mem_map.1 (mem_of_keep h y hy)
  exact hf x y hx

end Results

theorem ok_of_map {α β : Type} {g : α → β} {r : Except Error α} {b : β} (h : g <$> r = .ok b) :
    ∃ a, r = .ok a ∧ g a = b := by
  cases r with
  | error e => cases h
  | ok a => cases h; exact ⟨a, rfl, rfl⟩

namespace Filter

/-! ## Steps and comparisons -/

/-- Whether a filter is made of steps and comparisons, without groups and cuts. -/
def isStepwise : Filter → Bool
  | .everyItem rest | .someItem rest | .everyField rest | .someField rest
  | .item _ rest | .field _ rest => rest.isStepwise
  | .pass | .equals _ | .equalsAt _ | .refuse _ => true
  | .member _ _ _ | .cut _ => false

theorem isStepwise_ofLiteral (literal : Text) : (ofLiteral literal).isStepwise = true :=
  ofLiteral_elim (fun _ => rfl) (fun _ => rfl) (fun _ => rfl) literal

/-- A group is written with its braces and a cut with its mark. The induction is on the parts of the
directive. -/
theorem isStepwise_parse (d : Text) (hbrace : '{' ∉ d) (hmark : '@' ∉ d) : (parse d).isStepwise = true := by
  induction d using parts_induction with
  | step d ih =>
    have inPart {part : Text} (hpart : part ∈ (Form.of d).parts) : (parse part).isStepwise = true :=
      ih part hpart (fun hmem => hbrace ((Form.infix_of_mem_parts hpart).subset hmem))
        fun hmem => hmark ((Form.infix_of_mem_parts hpart).subset hmem)
    have inRest {rest : Text} (hrest : rest ∈ (Form.of d).parts) :
        (if rest.isEmpty then Filter.pass else parse rest).isStepwise = true := by
      split
      · rfl
      · exact inPart hrest
    have hfits := Form.fits_of d
    rw [parse_eq]
    cases hform : Form.of d with
    | empty => rfl
    | comparison literal => exact isStepwise_ofLiteral literal
    | everyItem rest => exact inPart (hform ▸ List.mem_singleton_self rest)
    | someItem rest => exact inPart (hform ▸ List.mem_singleton_self rest)
    | everyField rest => exact inPart (hform ▸ List.mem_singleton_self rest)
    | someField rest => exact inPart (hform ▸ List.mem_singleton_self rest)
    | item i rest => exact inRest (hform ▸ List.mem_singleton_self rest)
    | field name rest => exact inRest (hform ▸ List.mem_singleton_self rest)
    | group members =>
      rw [hform, Form.Fits, group?.eq_def] at hfits
      split at hfits
      · exact absurd List.mem_cons_self hbrace
      · cases hfits
    | cut tokens =>
      rw [hform, Form.Fits, cutList?.eq_def] at hfits
      split at hfits
      · exact absurd List.mem_cons_self hmark
      · cases hfits
    | unknown => rfl

/-! ## A second time -/

/-- A filter that takes nothing away does the same again. -/
theorem answer_again_of_takesAway (choose : RootChoice) (f : Filter) (hf : f.takesAway = false) {root v w : Value}
    (h : (f.apply choose root v).answer = .ok w) : (f.apply choose root w).answer = .ok w := by
  obtain rfl : w = v := eq_of_apply choose f hf (Prod.ext h rfl)
  exact h

theorem map_of_answer (choose : RootChoice) (f : Filter) {root w : Value} {entries : Entries Value}
    (h : (f.apply choose root (.map entries)).answer = .ok w) : ∃ kept, w = .map kept := by
  have hprunes : Value.PrunesTo false (.map entries) w :=
    prunesTo_of_apply choose f (fun ho => absurd ho Bool.false_ne_true) (Prod.ext h rfl)
  have hkind : w.kind = .map := hprunes.kind_eq
  cases w with
  | map kept => exact ⟨kept, rfl⟩
  | _ => cases hkind

/-- The induction is on the filter. What is kept is what the filter inside has made of a part, and the filter
inside is applied to it by itself. -/
theorem answer_again (choose : RootChoice) (f : Filter) (hf : f.isStepwise = true) {root v w : Value}
    (h : (f.apply choose root v).answer = .ok w) : (f.apply choose root w).answer = .ok w := by
  induction f generalizing v w with
  | everyItem rest ih =>
    cases v with
    | list items =>
      rw [answer_everyItem] at h
      obtain ⟨kept, hkept, rfl⟩ := ok_of_map h
      rw [answer_everyItem, Results.keep_again hkept fun x y => ih hf]
      rfl
    | _ => cases h
  | everyField rest ih =>
    cases v with
    | map entries =>
      rw [answer_everyField] at h
      obtain ⟨kept, hkept, rfl⟩ := ok_of_map h
      rw [answer_everyField, Results.keep_again hkept]
      · rfl
      · intro e e' he
        obtain ⟨y, hy, rfl⟩ := ok_of_map he
        rw [ih hf hy]
        rfl
    | _ => cases h
  | item i rest ih =>
    cases v with
    | list items =>
      simp only [apply] at h
      cases hx : items[i.toNat]? with
      | none => rw [hx] at h; cases h
      | some x =>
        rw [hx, Run.answer_map] at h
        obtain ⟨y, hy, rfl⟩ := ok_of_map h
        have hplace : (items.set i.toNat y)[i.toNat]? = some y :=
          List.getElem?_set_self (List.getElem?_eq_some_iff.1 hx).1
        simp only [apply, hplace, Run.answer_map, ih hf hy]
        exact congrArg (fun items => Except.ok (Value.list items)) (List.set_set y)
    | _ => cases h
  | field name rest ih =>
    cases v with
    | map entries =>
      simp only [apply] at h
      split at h
      · rename_i hname
        -- a bare dot changes nothing about where the filter inside is applied, as what it passes is a map again
        obtain ⟨kept, rfl⟩ := map_of_answer choose rest h
        simp only [apply, if_pos hname]
        exact ih hf h
      · rename_i hname
        cases hx : Entries.get? name entries with
        | none => rw [hx] at h; cases h
        | some x =>
          rw [hx, Run.answer_map] at h
          obtain ⟨y, hy, rfl⟩ := ok_of_map h
          simp only [apply, if_neg hname, Entries.get?_put_self, Run.answer_map, ih hf hy]
          exact congrArg (fun entries => Except.ok (Value.map entries)) (Entries.put_put name y y entries)
    | _ => cases h; rfl
  | pass | equals | equalsAt | someItem | someField | refuse => exact answer_again_of_takesAway choose _ rfl h
  | member => cases hf
  | cut => cases hf

end Filter

/-! ## Directives -/

namespace Value

variable {v root w : Value} {d : Text}

theorem answer_filter_again (hbrace : '{' ∉ d) (hmark : '@' ∉ d) (h : (v.filterWithRoot root d).answer = .ok w) :
    (w.filterWithRoot root d).answer = .ok w :=
  Filter.answer_again Filter.rootIfNeeded (Filter.parse d) (Filter.isStepwise_parse d hbrace hmark) h

/-- Where the entries of maps are visited in another order the second time, no more than the order is changed,
unless a test for some entry then comes upon an error of the directive first. -/
theorem filter_again_in_any_order (hbrace : '{' ∉ d) (hmark : '@' ∉ d)
    (h : (v.filterWithRoot root d).answer = .ok w) {root' w' : Value} (hroot : Alike root root') (hw : Alike w w')
    {r : Except Error Value} (hr : (Filter.parse d).Gives Filter.rootIfNeeded root' w' r) :
    (∃ w'', r = .ok w'' ∧ Alike w w'') ∨ (['.', '(', 'E', ')'] <:+: d ∧ Fails r) := by
  have hagain : (Filter.parse d).Gives Filter.rootIfNeeded root w (.ok w) := by
    rw [← answer_filter_again hbrace hmark h]
    exact Filter.gives_apply Filter.rootIfNeeded (Filter.parse d) root w
  cases Filter.agree_gives (Filter.parse d) id Filter.rootIfNeeded_alike hroot hw hagain hr with
  | ok hsame => exact .inl ⟨_, rfl, hsame⟩
  | fails hfails _ => exact absurd hfails not_fails_ok
  | left _ hfails => exact absurd hfails not_fails_ok
  | right htests hfails => exact .inr ⟨Filter.infix_of_testsFields d htests, hfails⟩

/-- What a directive made of steps and comparisons has passed it passes again and leaves as it is, whatever
either evaluator has compiled before. -/
theorem filter_again (hbrace : '{' ∉ d) (hmark : '@' ∉ d) {cache cache' : PatternCache} (hcache : cache.Sound)
    (hcache' : cache'.Sound) (hpass : ((v.filterWithRoot root d).run cache).1 = .ok w) :
    ((w.filterWithRoot root d).run cache').1 = .ok w := by
  have steady (u : Value) : Steady (u.filterWithRoot root d).run :=
    Filter.steady_apply Filter.rootIfNeeded (Filter.parse d) root u
  have hanswer : (v.filterWithRoot root d).answer = .ok w :=
    ((steady v).answer PatternCache.sound_empty hcache).trans hpass
  exact ((steady w).answer hcache' PatternCache.sound_empty).trans (answer_filter_again hbrace hmark hanswer)

/-- Items are taken away at two levels: one that is no map, and strings in the lists of the others. -/
theorem filter_again_two_levels :
    let v : Value := .list [.map [("a", .list [.string "x", .string "y"]), ("b", .list [.string "y"])], .null,
      .map [("c", .list [.string "x"])]]
    let w : Value := .list [.map [("a", .list [.string "x"]), ("b", .list [])], .map [("c", .list [.string "x"])]]
    let d : Text := "[].()[]=x".toList
    '{' ∉ d ∧ '@' ∉ d ∧ PatternCache.empty.Sound ∧ ((v.filterWithRoot .null d).run .empty).1 = .ok w ∧
      ((w.filterWithRoot .null d).run .empty).1 = .ok w := by
  intro v w d
  have hbrace : '{' ∉ d := by decide
  have hmark : '@' ∉ d := by decide
  have hpass : ((v.filterWithRoot .null d).run .empty).1 = .ok w := by decide +kernel
  exact ⟨hbrace, hmark, PatternCache.sound_empty, hpass,
    filter_again hbrace hmark PatternCache.sound_empty PatternCache.sound_empty hpass⟩

end Value

end JsonSieve
