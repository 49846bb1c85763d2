/-
The root of a filter: a copy of the value stands for the root only if the directive's text may look
up a path (`mayLookUp`), and null otherwise. That choice cannot be observed. A filter that looks up
nothing in its root gives the same result and the same cache under any root, and a directive whose
text has no lookup has such a filter, because the filter is built from contiguous pieces of the text
and each lookup of it is written there.
-/
import JsonSieve.Filter.Apply
import JsonSieve.Proofs.Filter.Parts

namespace JsonSieve.Filter

/-! ## Filters that look up nothing in their root -/

/-- Whether a filter looks up a path in the root that it is given. The members of a group have roots
of their own. -/
def looksUp : Filter → Bool
  | .equalsAt _ => true
  | .everyItem rest | .someItem rest | .everyField rest | .someField rest
  | .item _ rest | .field _ rest => rest.looksUp
  | .member _ _ others => others.looksUp
  | .pass | .equals _ | .cut _ | .refuse _ => false

/-- The induction is on the filter: every operator hands its root on unchanged, or not at all. -/
theorem apply_eq_of_looksUp (choose : RootChoice) (f : Filter) (h : f.looksUp = false)
    (root root' : Value) : f.apply choose root = f.apply choose root' := by
  induction f with
  | pass => rfl
  | equals literal => rfl
  | equalsAt path => cases h
  | everyItem rest ih => funext v; simp only [apply, ih h]
  | someItem rest ih => funext v; simp only [apply, ih h]
  | everyField rest ih => funext v; simp only [apply, ih h]
  | someField rest ih => funext v; simp only [apply, ih h]
  | item i rest ih => funext v; simp only [apply, ih h]
  | field name rest ih => funext v; simp only [apply, ih h]
  | member text first others _ ih => funext v; simp only [apply, ih h]
  | cut tokens => rfl
  | refuse e => rfl

/-! ## Directives without lookups -/

/-- Whether the text of a directive may look up a path: an equality sign stands before a dot or an
opening bracket. -/
def mayLookUp (directive : Text) : Bool :=
  Text.occursIn ['=', '.'] directive || Text.occursIn ['=', '['] directive

theorem mayLookUp_of_infix {part d : Text} (h : mayLookUp part = true) (hp : part <:+: d) :
    mayLookUp d = true := by
  unfold mayLookUp at h ⊢
  rw [Bool.or_eq_true] at h ⊢
  exact h.imp (Text.occursIn_of_infix · hp) (Text.occursIn_of_infix · hp)

theorem mayLookUp_of_ofLiteral {literal : Text} (h : (ofLiteral literal).looksUp = true) :
    mayLookUp (['='] ++ literal) = true := by
  unfold ofLiteral at h
  split at h
  · rename_i s
    have : Text.occursIn ['=', '.'] (['='] ++ '.' :: s) = true :=
      Text.occursIn_iff.2 (List.prefix_append ['=', '.'] s).isInfix
    rw [mayLookUp, this, Bool.true_or]
  · rename_i s
    have : Text.occursIn ['=', '['] (['='] ++ '[' :: s) = true :=
      Text.occursIn_iff.2 (List.prefix_append ['=', '['] s).isInfix
    rw [mayLookUp, this, Bool.or_true]
  · cases h

/-- A lookup in the filter of a directive is written in the directive. -/
theorem mayLookUp_of_looksUp (d : Text) (hlooksUp : (parse d).looksUp = true) : mayLookUp d = true := by
  have hwritten := written_parse d
  generalize parse d = f at hwritten hlooksUp
  induction hwritten with
  | within _ hp ih => exact mayLookUp_of_infix (ih hlooksUp) hp
  | pass d => cases hlooksUp
  | refuse e d => cases hlooksUp
  | comparison literal => exact mayLookUp_of_ofLiteral hlooksUp
  | everyItem _ ih => exact mayLookUp_of_infix (ih hlooksUp) (List.suffix_append _ _).isInfix
  | someItem _ ih => exact mayLookUp_of_infix (ih hlooksUp) (List.suffix_append _ _).isInfix
  | everyField _ ih => exact mayLookUp_of_infix (ih hlooksUp) (List.suffix_append _ _).isInfix
  | someField _ ih => exact mayLookUp_of_infix (ih hlooksUp) (List.suffix_append _ _).isInfix
  | item i _ ih => exact ih hlooksUp
  | field name _ ih => exact ih hlooksUp
  | member text _ _ _ ihOthers => exact ihOthers hlooksUp
  | cut tokens s => cases hlooksUp

/-- A directive without lookups is filtered the same under any two roots. -/
theorem apply_parse_eq_of_root (choose : RootChoice) {d : Text} (h : mayLookUp d = false)
    (root root' : Value) : (parse d).apply choose root = (parse d).apply choose root' := by
  have hl : (parse d).looksUp = false := by
    cases hl : (parse d).looksUp with
    | false => rfl
    | true => rw [mayLookUp_of_looksUp d hl] at h; cases h
  exact apply_eq_of_looksUp choose (parse d) hl root root'

/-! ## The choice of the root -/

/-- The root that is chosen for a directive serves it as well as the value itself. -/
theorem apply_parse_rootIfNeeded (choose : RootChoice) (d : Text) (v : Value) :
    (parse d).apply choose (rootIfNeeded d v) = (parse d).apply choose v := by
  cases hd : mayLookUp d with
  | true =>
    have : rootIfNeeded d v = v := if_pos hd
    rw [this]
  | false => exact apply_parse_eq_of_root choose hd _ _

/-- A filter may as well have the value itself as its root. -/
theorem filter_eq_filterWithRoot (v : Value) (directive : Text) :
    v.filter directive = v.filterWithRoot v directive :=
  congrFun (apply_parse_rootIfNeeded rootIfNeeded directive v) v

/-- A comparison has no members to choose roots for. -/
theorem apply_ofLiteral (choose choose' : RootChoice) (literal : Text) :
    (ofLiteral literal).apply choose = (ofLiteral literal).apply choose' :=
  ofLiteral_elim (fun _ => rfl) (fun _ => rfl) (fun _ => rfl) literal

/-- Choosing roots only where they are needed is the same as always giving the value, in every group
at any depth. -/
theorem apply_parse_rootAlways (d : Text) :
    (parse d).apply rootIfNeeded = (parse d).apply rootAlways := by
  induction d using parts_induction with
  | step d ih =>
    have ihRest (rest : Text) (hr : rest ∈ (Form.of d).parts) :
        (if rest.isEmpty then Filter.pass else parse rest).apply rootIfNeeded =
          (if rest.isEmpty then Filter.pass else parse rest).apply rootAlways := by
      split
      · rfl
      · exact ih rest hr
    rw [parse_eq]
    cases hf : Form.of d with
    | empty => rfl
    | comparison literal => exact apply_ofLiteral rootIfNeeded rootAlways literal
    | everyItem rest =>
      funext root v; simp only [ofForm, apply, ih rest (hf ▸ List.mem_singleton_self rest)]
    | someItem rest =>
      funext root v; simp only [ofForm, apply, ih rest (hf ▸ List.mem_singleton_self rest)]
    | everyField rest =>
      funext root v; simp only [ofForm, apply, ih rest (hf ▸ List.mem_singleton_self rest)]
    | someField rest =>
      funext root v; simp only [ofForm, apply, ih rest (hf ▸ List.mem_singleton_self rest)]
    | item i rest =>
      funext root v; simp only [ofForm, apply, ihRest rest (hf ▸ List.mem_singleton_self rest)]
    | field name rest =>
      funext root v; simp only [ofForm, apply, ihRest rest (hf ▸ List.mem_singleton_self rest)]
    | group members =>
      have ihMembers : ∀ text ∈ members,
          (parse text).apply rootIfNeeded = (parse text).apply rootAlways :=
        fun text ht => ih text (hf ▸ ht)
      -- the members are filters in a row, each with a root chosen when its turn comes
      clear ih hf
      unfold ofForm
      induction members with
      | nil => rfl
      | cons text others ihOthers =>
        have hOthers := ihOthers fun t ht => ihMembers t (List.mem_cons_of_mem _ ht)
        funext root v
        simp only [List.foldr_cons, apply, apply_parse_rootIfNeeded]
        simp only [ihMembers text List.mem_cons_self, hOthers, rootAlways]
    | cut tokens => rfl
    | unknown => rfl

/-- The choice of the root cannot be observed: neither the value as its own root nor a full copy of each
group's current value changes a result or a cache, and a directive without an equality sign before a dot
or an opening bracket ignores its root. -/
theorem filter_root_choice (v : Value) (directive : Text) (cache : PatternCache) :
    (v.filter directive).run cache = (v.filterWithRoot v directive).run cache ∧
    (∀ root, (v.filterWithRoot root directive).run cache =
      ((parse directive).apply rootAlways root v).run cache) ∧
    (Text.occursIn ['=', '.'] directive = false → Text.occursIn ['=', '['] directive = false →
      ∀ root root', (v.filterWithRoot root directive).run cache =
        (v.filterWithRoot root' directive).run cache) := by
  refine ⟨?_, fun root => ?_, fun hdot hbracket root root' => ?_⟩
  · unfold Value.filter Value.filterWithRoot
    rw [apply_parse_rootIfNeeded]
  · unfold Value.filterWithRoot
    rw [apply_parse_rootAlways]
  · have h : mayLookUp directive = false := by rw [mayLookUp, hdot, hbracket]; rfl
    unfold Value.filterWithRoot
    rw [apply_parse_eq_of_root rootIfNeeded h root root']

theorem filter_root_choice_without_lookup :
    let v : Value := .list [.map [("a", .int 1), ("b", .null)], .bool true]
    let directive : Text := "[]{.a=1,@b}".toList
    Text.occursIn ['=', '.'] directive = false ∧ Text.occursIn ['=', '['] directive = false ∧
      (v.filterWithRoot .null directive).run .empty =
        (v.filterWithRoot (.list [v, v]) directive).run .empty := by
  intro v directive
  have hdot : Text.occursIn ['=', '.'] directive = false := by decide
  have hbracket : Text.occursIn ['=', '['] directive = false := by decide
  exact ⟨hdot, hbracket, (filter_root_choice v directive .empty).2.2 hdot hbracket _ _⟩

end JsonSieve.Filter
