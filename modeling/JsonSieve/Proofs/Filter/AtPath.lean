/-
Filtering at a path: a directive that starts with the text of an explicit path filters the value at
that path by the rest and sets what passes in its place. Steps are read off the text one by one
(`parse_step`), each step either leads to a part or ends the filter (`apply_atStep`), and so the whole
descent is the getting, the filter of the rest and the setting (`apply_atPath`). A key in something
that is no map is the one mismatch that passes.
-/
import JsonSieve.Proofs.Filter.Parts
import JsonSieve.Proofs.Path.Stepwise
import JsonSieve.Proofs.Path.Written
import JsonSieve.Filter.Apply

namespace JsonSieve

namespace Filter

/-! ## The filter of a step and what follows it -/

/-- The filter of what follows an index or a field: nothing passes everything. -/
def parseRest (rest : Text) : Filter :=
  if rest.isEmpty then .pass else parse rest

/-- A digit after an opening bracket is none of the marks of the list operators. -/
theorem Form.of_index (i : UInt64) (rest : Text) :
    Form.of ((Step.index i).text ++ rest) = .item i rest := by
  have hitem : Form.ofOperand ((Step.index i).text ++ rest) = .item i rest := by
    rw [Form.ofOperand, exactIndex?_text]
  obtain ⟨c, s, htext, hc⟩ := Step.text_index i
  have hclose : c ≠ ']' := by rintro rfl; revert hc; decide
  have hexists : c ≠ 'E' := by rintro rfl; revert hc; decide
  rw [← hitem, htext]
  simp [Form.of, hclose, hexists]

theorem Form.of_key {name : String} (hn : (Step.key name).Writable) {rest : Text}
    (hr : rest.Detached) : Form.of ((Step.key name).text ++ rest) = .field name.toList rest := by
  have hfield : Form.ofOperand ((Step.key name).text ++ rest) = .field name.toList rest := by
    rw [Form.ofOperand, exactIndex?_key, exactField?_text hn hr]
  have hparen := Step.after_dot_ne hn hr
  rw [← hfield]
  unfold Form.of
  split <;> simp_all [Step.text]

/-- The filter that goes one step into a value. -/
def atStep : Step → Filter → Filter
  | .key name, rest => .field name rest
  | .index i, rest => .item i rest

/-- A directive that starts with a step is the filter at that step, over the filter of the rest. -/
theorem parse_step {step : Step} (hs : step.Writable) {rest : Text} (hr : rest.Detached) :
    parse (step.text ++ rest) = atStep step (parseRest rest) := by
  cases step with
  | key name => rw [parse_eq, Form.of_key hs hr, ofForm, String.ofList_toList]; rfl
  | index i => rw [parse_eq, Form.of_index]; rfl

/-! ## The descent -/

/-- One step: what passes of the part is put in its place, a key in something that is no map passes,
and any other failure of the step is the failure of the filter. -/
theorem apply_atStep (choose : RootChoice) (step : Step) (rest : Filter) (root v : Value) :
    (atStep step rest).apply choose root v =
      match step.into v with
      | .ok (part, rebuild) => rebuild <$> rest.apply choose root part
      | .error .notAStructure => return v
      | .error e => throw e := by
  cases step with
  | key name =>
    cases v with
    | map entries =>
      by_cases hn : name = ""
      · simp only [atStep, apply, Step.into, if_pos hn, id_map]
      · simp only [atStep, apply, Step.into, if_neg hn]
        cases Entries.get? name entries <;> rfl
    | _ => rfl
  | index i =>
    cases v with
    | list items =>
      simp only [atStep, apply, Step.into]
      cases items[i.toNat]? <;> rfl
    | _ => rfl

/-- What a filter makes of a value whose part at `path` it filters by `inner`: the value with what
passes at the path, or the value itself if a key of the path is looked for in something that is no
map, or else the error of getting the part. -/
def atPath (grants : Reservation) (path : Path) (inner : Value → Run Value) (v : Value) : Run Value :=
  match v.get path with
  | .ok w => (fun w' => (Value.setWithin grants w' path v).after) <$> inner w
  | .error .notAStructure => return v
  | .error e => throw e

/-- The induction is on the path; what the first step leads to is filtered at the rest of it. -/
theorem apply_atPath (choose : RootChoice) (grants : Reservation) (root : Value) {path : Path}
    (hp : ∀ step ∈ path, step.Writable) {rest : Text} (hr : rest.Detached) (v : Value) :
    (parseRest (path.text ++ rest)).apply choose root v =
      atPath grants path ((parseRest rest).apply choose root) v := by
  induction path generalizing v with
  | nil => simp [Path.text, atPath, Value.get, Value.setWithin]
  | cons step path ih =>
    obtain ⟨hstep, hpath⟩ := List.forall_mem_cons.1 hp
    have hsome : (step.text ++ (Path.text path ++ rest)).isEmpty = false := by
      cases step <;> rfl
    rw [Path.text_cons_append, parseRest, hsome, if_neg Bool.false_ne_true,
      parse_step hstep (Path.detached_text path hr), apply_atStep, atPath]
    cases hinto : step.into v with
    | error e =>
      rw [Value.get_cons_error hinto]
      cases e <;> rfl
    | ok p =>
      obtain ⟨part, rebuild⟩ := p
      simp only [ih hpath part, atPath, Value.get_cons_ok hinto]
      cases part.get path with
      | ok w => simp only [Value.setWithin_cons hinto, Functor.map_map]
      | error e =>
        cases e with
        | notAStructure => simp only [map_pure, Step.rebuild_part hinto]
        | _ => rfl

theorem parseRest_of_ne_nil {s : Text} (h : s ≠ []) : parseRest s = parse s :=
  if_neg (by simpa using h)

end Filter

namespace Value

theorem filterWithRoot_eq_atPath (grants : Reservation) (v root : Value) {path : Path}
    (hne : path ≠ []) (hp : ∀ step ∈ path, step.Writable) {rest : Text} (hr : rest.Detached) :
    v.filterWithRoot root (path.text ++ rest) =
      Filter.atPath grants path ((Filter.parseRest rest).apply Filter.rootIfNeeded root) v := by
  have hsome : path.text ++ rest ≠ [] := by
    cases path with
    | nil => exact absurd rfl hne
    | cons step path => rw [Path.text_cons_append]; cases step <;> simp [Step.text]
  rw [← Filter.apply_atPath _ grants root hp hr v, Filter.parseRest_of_ne_nil hsome]
  rfl

/-- A path in front of a directive filters what stands at the path, under the same root, and sets what
passes there, which never fails. Where the path leads to no value that is the error, but a key that is
looked for in what is no map passes. -/
theorem filter_path_get_set (grants : Reservation) (v root : Value) {path : Path} (hne : path ≠ [])
    (hp : ∀ step ∈ path, step.Writable) {rest : Text} (hr : rest.Detached) :
    (∀ w, v.get path = .ok w →
      (rest = [] → v.filterWithRoot root (path.text ++ rest) = return v) ∧
      (rest ≠ [] → v.filterWithRoot root (path.text ++ rest) = do
        let w' ← w.filterWithRoot root rest
        ((setWithin grants w' path v).result : Except Error Value)) ∧
      ∀ w', ∃ v', (setWithin grants w' path v).result = .ok v') ∧
    (v.get path = .error .notFound →
      v.filterWithRoot root (path.text ++ rest) = throw .notFound) ∧
    (v.get path = .error .notAList →
      v.filterWithRoot root (path.text ++ rest) = throw .notAList) ∧
    (v.get path = .error .notAStructure →
      v.filterWithRoot root (path.text ++ rest) = return v) := by
  have heq := filterWithRoot_eq_atPath grants v root hne hp hr
  refine ⟨fun w hw => ⟨?_, fun hrest => ?_, fun w' => ⟨_, result_of_get hw w'⟩⟩, fun he => ?_,
    fun he => ?_, fun he => ?_⟩
  · rintro rfl
    -- nothing after the path passes what is there, and setting that changes nothing
    have hpass : (Filter.parseRest []).apply Filter.rootIfNeeded root w = return w := rfl
    rw [heq, Filter.atPath, hw]
    simp only [hpass, map_pure, after_of_get hw]
  · rw [heq, Filter.atPath, hw, Filter.parseRest_of_ne_nil hrest]
    simp only [result_of_get hw, map_eq_pure_bind]
    rfl
  · rw [heq, Filter.atPath, he]
  · rw [heq, Filter.atPath, he]
  · rw [heq, Filter.atPath, he]

theorem filter_path_get_set_bare_dot :
    let path : Path := [.key "a", .index 1, .key ""]
    let v : Value := .map [("a", .list [.null, .map [("b", .string "xy"), ("c", .int 1)]])]
    path.text ++ "@b".toList = ".a[1].@b".toList ∧
      v.get path = .ok (.map [("b", .string "xy"), ("c", .int 1)]) ∧
      (v.filterWithRoot .null ".a[1].@b".toList).run .empty =
        (.ok (.map [("a", .list [.null, .map [("b", .string "xy")]])]), .empty) := by
  intro path v
  have hr : Text.Detached "@b".toList := by rintro c ⟨⟩; decide
  have htext : path.text ++ "@b".toList = ".a[1].@b".toList := by decide
  have hw : v.get path = .ok (.map [("b", .string "xy"), ("c", .int 1)]) := rfl
  have hp : ∀ step ∈ path, step.Writable := by decide
  obtain ⟨hget, -⟩ := filter_path_get_set .standard v .null (by decide) hp hr
  have heq := (hget _ hw).2.1 (by decide)
  have hinner : Value.filterWithRoot (.map [("b", .string "xy"), ("c", .int 1)]) .null "@b".toList =
      return .map [("b", .string "xy")] := by
    have hparse : Filter.parse "@b".toList = .cut ["b".toList] := by decide +kernel
    rw [filterWithRoot, hparse]
    rfl
  refine ⟨htext, hw, ?_⟩
  rw [← htext, heq, hinner]
  rfl

end Value

end JsonSieve
