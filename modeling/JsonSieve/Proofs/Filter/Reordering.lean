/-
Filters on values that differ in the visiting order of entries: they pass values that differ in no more,
or reject both by the same error. That is shown for evaluations in which every walk over a map has an order
of its own (`Filter.Gives`), of which the evaluation of the program is one. Only a test for some entry of a
map stops at the first entry that passes; there, and only there, the order may decide whether an error of
the directive is come upon.
-/
import JsonSieve.Proofs.Filter.Answer
import JsonSieve.Proofs.Path.Reordering

namespace JsonSieve

open Entries (Matched)
open Value (Alike alike_list alike_map)

/-! ## Rows of results for entries -/

namespace Results

variable {α β : Type} {lax : Prop} {R : α → β → Prop} {os : Entries (Except Error α)}
  {ps : Entries (Except Error β)}

/-- The results for the contents of entries, each with its key. -/
def keepEntries (os : Entries (Except Error α)) : Except Error (Entries α) :=
  keep (os.map fun o => (o.1, ·) <$> o.2)

theorem fails_entry {o : String × Except Error α} : Fails ((o.1, ·) <$> o.2) ↔ Fails o.2 := by
  obtain ⟨key, a | e⟩ := o
  · constructor
    · rintro ⟨e', h, he⟩; cases h; exact ⟨_, rfl, he⟩
    · rintro ⟨e', h, he⟩; cases h; exact ⟨_, rfl, he⟩
  · exact ⟨fun h => absurd h not_fails_ok, fun h => absurd h not_fails_ok⟩

theorem keepEntries_of_not_fails (h : ∀ o ∈ os, ¬ Fails o.2) :
    keepEntries os = .ok (Entries.pick (fun _ o => o.toOption) os) := by
  rw [keepEntries, keep_of_not_fails, List.filterMap_map]
  · refine congrArg Except.ok (List.filterMap_congr fun o _ => ?_)
    obtain ⟨key, a | e⟩ := o <;> rfl
  · rintro _ hmem
    obtain ⟨o, ho, rfl⟩ := List.mem_map.1 hmem
    exact mt fails_entry.1 (h o ho)

theorem fails_keepEntries (h : ∃ o ∈ os, Fails o.2) : Fails (keepEntries os) := by
  obtain ⟨o, ho, hfails⟩ := h
  exact fails_keep ⟨_, List.mem_map.2 ⟨o, ho, rfl⟩, fails_entry.2 hfails⟩

/-- Results under the same keys are kept together, and one that fails does so wherever it stands. -/
theorem agree_keepEntries (h : Matched (Agree lax R) os ps) :
    Agree lax (Matched R) (keepEntries os) (keepEntries ps) := by
  -- what fails on one side fails on the other as well, unless an order decides inside it
  by_cases hleft : ∃ o ∈ os, Fails o.2
  · by_cases hlax : lax
    · exact .left hlax (fails_keepEntries hleft)
    · obtain ⟨o, ho, hfails⟩ := hleft
      obtain ⟨p, hp, hop⟩ := h.exists_right ho
      have hright : Fails p := (hop.fails_iff hlax).1 hfails
      exact .fails (fails_keepEntries ⟨o, ho, hfails⟩)
        (fails_keepEntries ⟨_, Entries.mem_of_get? hp, hright⟩)
  · by_cases hright : ∃ p ∈ ps, Fails p.2
    · by_cases hlax : lax
      · exact .right hlax (fails_keepEntries hright)
      · obtain ⟨p, hp, hfails⟩ := hright
        obtain ⟨o, ho, hop⟩ := h.symm.exists_right hp
        exact absurd ⟨_, Entries.mem_of_get? ho, (hop.fails_iff hlax).2 hfails⟩ hleft
    · push Not at hleft hright
      rw [keepEntries_of_not_fails hleft, keepEntries_of_not_fails hright]
      exact .ok (h.pick fun key o p ho hp hop => hop.toOption (hleft _ ho) (hright _ hp))

/-- Where a search among entries fails on neither side, both find a result or both find none. -/
theorem agree_foundEntries (hlax : lax) (h : Matched (Agree lax R) os ps) :
    Agree lax (· = ·) (found (os.map (·.2))) (found (ps.map (·.2))) := by
  rcases found_cases (os.map (·.2)) with ⟨hos, a, ha⟩ | ⟨hos, hall⟩ | hfails
  · rcases found_cases (ps.map (·.2)) with ⟨hps, -⟩ | ⟨-, hall⟩ | hfails
    · rw [hos, hps]; exact .ok rfl
    -- what was found on the left stands on the right as well, where all mismatch
    · obtain ⟨o, ho, hoa⟩ := List.mem_map.1 ha
      obtain ⟨p, hp, hop⟩ := h.exists_right ho
      rw [hoa] at hop
      exact absurd (hall p (List.mem_map.2 ⟨_, Entries.mem_of_get? hp, rfl⟩)) hop.not_mismatches
    · exact .right hlax hfails
  · rcases found_cases (ps.map (·.2)) with ⟨hps, b, hb⟩ | ⟨hps, -⟩ | hfails
    · obtain ⟨p, hp, hpb⟩ := List.mem_map.1 hb
      obtain ⟨o, ho, hop⟩ := h.symm.exists_right hp
      have hop := hop.symm
      rw [hpb] at hop
      exact absurd (hall o (List.mem_map.2 ⟨_, Entries.mem_of_get? ho, rfl⟩)) hop.not_mismatches
    · rw [hos, hps]; exact .ok rfl
    · exact .right hlax hfails
  · exact .left hlax hfails

end Results

/-! ## Filters -/

/-- Values that pass unchanged if both tests say so. -/
theorem Agree.passIf {lax : Prop} {r s : Except Error Bool} (h : Agree lax (· = ·) r s) {v w : Value}
    (hvw : Alike v w) :
    Agree lax Alike (r >>= fun passed => if passed then .ok v else .error .noMatch)
      (s >>= fun passed => if passed then .ok w else .error .noMatch) := by
  refine h.bind ?_
  rintro passed _ rfl
  cases passed with
  | true => exact .ok hvw
  | false => exact .error .noMatch

theorem Literal.accepts_alike {v w : Value} (h : Alike v w) (literal : Text) :
    accepts literal v = accepts literal w := by
  cases h.tree <;> rfl

theorem Value.cut_alike {v w : Value} (h : Alike v w) (tokens : List Text) {lax : Prop} :
    Agree lax Alike (v.cut tokens) (w.cut tokens) := by
  cases v with
  | list xs =>
    obtain ⟨ys, rfl, hall⟩ := alike_list.1 h
    rw [Value.cut, Value.cut]
    cases cutIndices tokens with
    | error e => exact .error e
    | ok indices =>
      refine .ok (.list ?_)
      induction indices with
      | nil => exact .nil
      | cons i indices ih =>
        rw [List.filterMap_cons, List.filterMap_cons]
        rcases getElem?_cases hall i.toNat with ⟨hx, hy⟩ | ⟨x, y, hx, hy, hxy⟩
        · rw [hx, hy]; exact ih
        · rw [hx, hy]; exact .cons hxy ih
  | map es =>
    obtain ⟨fs, rfl, hall⟩ := alike_map.1 h
    have picked (entries : List (String × Value)) :
        entries.filter (fun e => tokens.contains e.1.toList) =
          Entries.pick (fun key x => if tokens.contains key.toList then some x else none) entries := by
      rw [Entries.pick, ← List.filterMap_eq_filter]
      refine List.filterMap_congr fun e _ => ?_
      rw [Option.guard_apply]
      split <;> rfl
    rw [Value.cut, Value.cut, picked, picked]
    refine .ok (.map (hall.pick fun key x y _ _ hxy => ?_))
    split
    · exact .some hxy
    · exact .none
  | _ => cases h.tree; exact .error _

namespace Filter

/-- Whether a filter tests for some entry of a map. -/
def testsFields : Filter → Bool
  | .someField _ => true
  | .everyItem rest | .someItem rest | .everyField rest | .item _ rest | .field _ rest => rest.testsFields
  | .member _ first others => first.testsFields || others.testsFields
  | .pass | .equals _ | .equalsAt _ | .cut _ | .refuse _ => false

theorem testsFields_ofLiteral (literal : Text) : (ofLiteral literal).testsFields = false :=
  ofLiteral_elim (fun _ => rfl) (fun _ => rfl) (fun _ => rfl) literal

/-! ## Walks in whatever order -/

/-- What a filter may give where every walk over the entries of a map has an order of its own. -/
def Gives (choose : RootChoice) : Filter → (root v : Value) → Except Error Value → Prop
  | .everyItem rest, root, .list items, r =>
    ∃ outcomes, List.Forall₂ (Gives choose rest root) items outcomes ∧
      r = Value.list <$> Results.keep outcomes
  | .someItem rest, root, .list items, r =>
    ∃ outcomes, List.Forall₂ (Gives choose rest root) items outcomes ∧
      r = do if ← Results.found outcomes then .ok (.list items) else .error .noMatch
  | .everyField rest, root, .map entries, r =>
    ∃ outcomes, Entries.Visited (Gives choose rest root) entries outcomes ∧
      r = Value.map <$> Results.keepEntries outcomes
  | .someField rest, root, .map entries, r =>
    ∃ outcomes, Entries.Visited (Gives choose rest root) entries outcomes ∧
      r = do if ← Results.found (outcomes.map (·.2)) then .ok (.map entries) else .error .noMatch
  | .item i rest, root, .list items, r =>
    match items[i.toNat]? with
    | some x => ∃ s, Gives choose rest root x s ∧ r = (fun y => .list (items.set i.toNat y)) <$> s
    | none => r = .error .notFound
  | .field name rest, root, .map entries, r =>
    if name = "" then Gives choose rest root (.map entries) r
    else
      match Entries.get? name entries with
      | some x => ∃ s, Gives choose rest root x s ∧ r = (fun y => .map (Entries.put name y entries)) <$> s
      | none => r = .error .notFound
  | .member text first others, root, v, r =>
    ∃ s, Gives choose first (choose text v) v s ∧
      match s with
      | .ok w => Gives choose others root w r
      | .error e => r = .error e
  | f, root, v, r => r = (f.apply choose root v).answer

/-- The evaluation in the order in which the entries stand is one of them. The induction is on the filter. -/
theorem gives_apply (choose : RootChoice) (f : Filter) (root v : Value) :
    f.Gives choose root v (f.apply choose root v).answer := by
  induction f generalizing root v with
  | everyItem rest ih =>
    cases v with
    | list items =>
      rw [answer_everyItem]
      exact ⟨_, List.forall₂_map_right_iff.2 (List.forall₂_same.2 fun x _ => ih root x), rfl⟩
    | _ => rfl
  | someItem rest ih =>
    cases v with
    | list items =>
      rw [answer_someItem]
      exact ⟨_, List.forall₂_map_right_iff.2 (List.forall₂_same.2 fun x _ => ih root x), rfl⟩
    | _ => rfl
  | everyField rest ih =>
    cases v with
    | map entries =>
      refine ⟨_, .in_order (f := fun x => (rest.apply choose root x).answer) fun e _ => ih root e.2, ?_⟩
      rw [answer_everyField, Results.keepEntries, List.map_map]
      rfl
    | _ => rfl
  | someField rest ih =>
    cases v with
    | map entries =>
      refine ⟨_, .in_order (f := fun x => (rest.apply choose root x).answer) fun e _ => ih root e.2, ?_⟩
      rw [answer_someField, List.map_map]
      rfl
    | _ => rfl
  | item i rest ih =>
    cases v with
    | list items =>
      simp only [apply, Gives]
      cases items[i.toNat]? with
      | some x => exact ⟨_, ih root x, Run.answer_map _ _⟩
      | none => rfl
    | _ => rfl
  | field name rest ih =>
    cases v with
    | map entries =>
      simp only [apply, Gives]
      split
      · exact ih root _
      · cases Entries.get? name entries with
        | some x => exact ⟨_, ih root x, Run.answer_map _ _⟩
        | none => rfl
    | _ => rfl
  | member text first others ihFirst ihOthers =>
    refine ⟨_, ihFirst (choose text v) v, ?_⟩
    rw [apply, Run.answer_bind (steady_apply choose first _ _) (fun w => steady_apply choose others root w)]
    cases (first.apply choose (choose text v) v).answer with
    | ok w => exact ihOthers root w
    | error e => rfl
  | pass | equals | equalsAt | cut | refuse => rfl

/-- Whatever the orders are, what is given agrees. The induction is on the filter. -/
theorem agree_gives {lax : Prop} (f : Filter) (hlax : f.testsFields = true → lax) {choose : RootChoice}
    (hchoose : ∀ text v w, Alike v w → Alike (choose text v) (choose text w)) {root root' v w : Value}
    (hroot : Alike root root') (h : Alike v w) {r s : Except Error Value} (hr : f.Gives choose root v r)
    (hs : f.Gives choose root' w s) : Agree lax Alike r s := by
  induction f generalizing root root' v w r s with
  | pass => cases hr; cases hs; exact .ok h
  | equals literal =>
    cases hr
    cases hs
    rw [apply, apply, Run.answer_passIf (Literal.steady_accepts literal v),
      Run.answer_passIf (Literal.steady_accepts literal w), Literal.accepts_alike h]
    exact Agree.passIf (.refl (fun _ => rfl) _) h
  | equalsAt path =>
    cases hr
    cases hs
    rw [apply, apply]
    cases hx : root.get path with
    | error e => rw [Value.get_error_alike hroot hx]; exact .error e
    | ok x =>
      obtain ⟨y, hy, hxy⟩ := Value.get_alike hroot hx
      have hsame : (x == v) = (y == w) := hxy.same_eq h
      rw [hy]
      show Agree lax Alike (if x == v then (return v : Run Value) else throw .noMatch).answer
        (if y == w then (return w : Run Value) else throw .noMatch).answer
      rw [hsame]
      split
      · exact .ok h
      · exact .error .noMatch
  | everyItem rest ih =>
    cases v with
    | list xs =>
      obtain ⟨ys, rfl, hall⟩ := alike_list.1 h
      obtain ⟨os, hos, rfl⟩ := hr
      obtain ⟨ps, hps, rfl⟩ := hs
      have hagree := forall₂_join hall hos hps fun x y o p hxy ho hp => ih hlax hroot hxy ho hp
      exact (Results.agree_keep hagree).map fun zs ws hzs => .list hzs
    | map es => obtain ⟨fs, rfl, -⟩ := alike_map.1 h; cases hr; cases hs; exact .error .notAList
    | _ => cases h.tree; cases hr; cases hs; exact .error .notAList
  | someItem rest ih =>
    cases v with
    | list xs =>
      obtain ⟨ys, rfl, hall⟩ := alike_list.1 h
      obtain ⟨os, hos, rfl⟩ := hr
      obtain ⟨ps, hps, rfl⟩ := hs
      have hagree := forall₂_join hall hos hps fun x y o p hxy ho hp => ih hlax hroot hxy ho hp
      exact (Results.agree_found hagree).passIf h
    | map es => obtain ⟨fs, rfl, -⟩ := alike_map.1 h; cases hr; cases hs; exact .error .notAList
    | _ => cases h.tree; cases hr; cases hs; exact .error .notAList
  | everyField rest ih =>
    cases v with
    | map es =>
      obtain ⟨fs, rfl, hall⟩ := alike_map.1 h
      obtain ⟨os, hos, rfl⟩ := hr
      obtain ⟨ps, hps, rfl⟩ := hs
      have hagree := hall.join (hos.matched hall.left) (hps.matched hall.right)
        fun x y o p hxy ho hp => ih hlax hroot hxy ho hp
      exact (Results.agree_keepEntries hagree).map fun zs ws hzs => .map hzs
    | list xs => obtain ⟨ys, rfl, -⟩ := alike_list.1 h; cases hr; cases hs; exact .error .notAStructure
    | _ => cases h.tree; cases hr; cases hs; exact .error .notAStructure
  | someField rest ih =>
    cases v with
    | map es =>
      obtain ⟨fs, rfl, hall⟩ := alike_map.1 h
      obtain ⟨os, hos, rfl⟩ := hr
      obtain ⟨ps, hps, rfl⟩ := hs
      have hlax : lax := hlax rfl
      have hagree := hall.join (hos.matched hall.left) (hps.matched hall.right)
        fun x y o p hxy ho hp => ih (fun _ => hlax) hroot hxy ho hp
      exact (Results.agree_foundEntries hlax hagree).passIf h
    | list xs => obtain ⟨ys, rfl, -⟩ := alike_list.1 h; cases hr; cases hs; exact .error .notAStructure
    | _ => cases h.tree; cases hr; cases hs; exact .error .notAStructure
  | item i rest ih =>
    cases v with
    | list xs =>
      obtain ⟨ys, rfl, hall⟩ := alike_list.1 h
      simp only [Gives] at hr hs
      rcases Value.getElem?_cases hall i.toNat with ⟨hx, hy⟩ | ⟨x, y, hx, hy, hxy⟩
      · rw [hx] at hr
        rw [hy] at hs
        cases hr
        cases hs
        exact .error .notFound
      · rw [hx] at hr
        rw [hy] at hs
        obtain ⟨r, hr, rfl⟩ := hr
        obtain ⟨s, hs, rfl⟩ := hs
        exact (ih hlax hroot hxy hr hs).map fun z w hzw => .list (Value.forall₂_set hall hzw _)
    | map es => obtain ⟨fs, rfl, -⟩ := alike_map.1 h; cases hr; cases hs; exact .error .notAList
    | _ => cases h.tree; cases hr; cases hs; exact .error .notAList
  | field name rest ih =>
    cases v with
    | map es =>
      obtain ⟨fs, rfl, hall⟩ := alike_map.1 h
      simp only [Gives] at hr hs
      by_cases hn : name = ""
      · rw [if_pos hn] at hr hs
        exact ih hlax hroot h hr hs
      · rw [if_neg hn] at hr hs
        rcases hall.get?_cases name with ⟨hx, hy⟩ | ⟨x, y, hx, hy, hxy⟩
        · rw [hx] at hr
          rw [hy] at hs
          cases hr
          cases hs
          exact .error .notFound
        · rw [hx] at hr
          rw [hy] at hs
          obtain ⟨r, hr, rfl⟩ := hr
          obtain ⟨s, hs, rfl⟩ := hs
          exact (ih hlax hroot hxy hr hs).map fun z w hzw => .map (hall.put hzw name)
    | list xs => obtain ⟨ys, rfl, -⟩ := alike_list.1 h; cases hr; cases hs; exact .ok h
    | _ => cases h.tree; cases hr; cases hs; exact .ok h
  | member text first others ihFirst ihOthers =>
    have hfirst : first.testsFields = true → lax := fun hf => hlax (by simp [testsFields, hf])
    have hothers : others.testsFields = true → lax := fun ho => hlax (by simp [testsFields, ho])
    obtain ⟨r', hr', hr⟩ := hr
    obtain ⟨s', hs', hs⟩ := hs
    cases ihFirst hfirst (hchoose text v w h) h hr' hs' with
    | ok hab => exact ihOthers hothers hroot hab hr hs
    | mismatch he => cases hr; cases hs; exact .mismatch he
    | fails hfails hfails' =>
      obtain ⟨e, rfl, he⟩ := hfails
      obtain ⟨e', rfl, he'⟩ := hfails'
      cases hr
      cases hs
      exact .fails ⟨e, rfl, he⟩ ⟨e', rfl, he'⟩
    | left hlax hfails => obtain ⟨e, rfl, he⟩ := hfails; cases hr; exact .left hlax ⟨e, rfl, he⟩
    | right hlax hfails => obtain ⟨e, rfl, he⟩ := hfails; cases hs; exact .right hlax ⟨e, rfl, he⟩
  | cut tokens => cases hr; cases hs; exact Value.cut_alike h tokens
  | refuse e => cases hr; cases hs; exact .error e

end Filter

end JsonSieve
