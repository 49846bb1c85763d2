/-
Paths do not tell apart values that differ in the visiting order of entries: a step leads to parts that
again differ in no more, with the same ways to build around them, or fails by the same error. So getting
and setting do the same on both, up to the order, and with the same error.
-/
import JsonSieve.Proofs.Path.Agreement
import JsonSieve.Proofs.Value.Reordering

namespace JsonSieve

open Value (Alike alike_list alike_map)

variable {grants : Reservation} {step : Step} {path : Path} {v w x y part new new' : Value}
  {rebuild : Value → Value} {e : Error} {xs ys : List Value}

theorem Value.getElem?_cases (h : List.Forall₂ Alike xs ys) (i : Nat) :
    (xs[i]? = none ∧ ys[i]? = none) ∨ ∃ x y, xs[i]? = some x ∧ ys[i]? = some y ∧ Alike x y := by
  have hlen := h.length_eq
  by_cases hi : i < xs.length
  · have hj : i < ys.length := by omega
    exact .inr ⟨xs[i], ys[i], List.getElem?_eq_getElem hi, List.getElem?_eq_getElem hj, h.get hi hj⟩
  · exact .inl ⟨List.getElem?_eq_none (by omega), List.getElem?_eq_none (by omega)⟩

theorem Value.forall₂_set (h : List.Forall₂ Alike xs ys) (hxy : Alike x y) (i : Nat) :
    List.Forall₂ Alike (xs.set i x) (ys.set i y) := by
  induction h generalizing i with
  | nil => exact .nil
  | cons hhead htail ih =>
    cases i with
    | zero => exact .cons hxy htail
    | succ i => exact .cons hhead (ih i)

/-! ## One step -/

theorem Step.into_alike (h : Alike v w) (hinto : step.into v = .ok (part, rebuild)) :
    ∃ part' rebuild', step.into w = .ok (part', rebuild') ∧ Alike part part' ∧
      ∀ x y, Alike x y → Alike (rebuild x) (rebuild' y) := by
  obtain ⟨entries, rfl, rfl, rfl, rfl⟩ | ⟨name, entries, rfl, hn, rfl, hx, rfl⟩ |
    ⟨i, items, rfl, rfl, hx, rfl⟩ := into_cases hinto
  · obtain ⟨fs, rfl, hall⟩ := alike_map.1 h
    exact ⟨_, id, rfl, h, fun x y hxy => hxy⟩
  · obtain ⟨fs, rfl, hall⟩ := alike_map.1 h
    obtain ⟨y, hy, hpart⟩ := hall.exists_right (Entries.mem_of_get? hx)
    refine ⟨y, fun z => .map (Entries.put name z fs), ?_, hpart, fun x y hxy => .map (hall.put hxy name)⟩
    simp only [into, if_neg hn, hy]
  · obtain ⟨ys, rfl, hall⟩ := alike_list.1 h
    rcases Value.getElem?_cases hall i.toNat with ⟨hx', -⟩ | ⟨x, y, hx', hy, hpart⟩
    · rw [hx] at hx'; cases hx'
    · rw [hx] at hx'
      cases hx'
      refine ⟨y, fun z => .list (ys.set i.toNat z), ?_, hpart, fun x y hxy => .list (Value.forall₂_set hall hxy _)⟩
      simp only [into, hy]

theorem Step.suits_alike (h : Alike v w) (step : Step) : step.suits v = step.suits w := by
  cases step with
  | key name => cases h.tree <;> rfl
  | index i => cases h.tree <;> rfl

theorem Step.into_error_alike (h : Alike v w) (hinto : step.into v = .error e) : step.into w = .error e := by
  cases hw : step.into w with
  -- a step that leads somewhere on the right does so on the left
  | ok found =>
    obtain ⟨_, _, hv, -⟩ := into_alike h.symm (show step.into w = .ok (found.1, found.2) from hw)
    rw [hinto] at hv
    cases hv
  | error e' =>
    cases step with
    | key name =>
      cases v with
      | map es =>
        obtain ⟨fs, rfl, -⟩ := alike_map.1 h
        rw [error_of_suits rfl hinto, error_of_suits rfl hw]
      | list xs => obtain ⟨ys, rfl, -⟩ := alike_list.1 h; rw [← hinto, ← hw]; rfl
      | _ => cases h.tree; rw [← hinto, ← hw]
    | index i =>
      cases v with
      | list xs =>
        obtain ⟨ys, rfl, -⟩ := alike_list.1 h
        rw [error_of_suits rfl hinto, error_of_suits rfl hw]
      | map es => obtain ⟨fs, rfl, -⟩ := alike_map.1 h; rw [← hinto, ← hw]; rfl
      | _ => cases h.tree; rw [← hinto, ← hw]

theorem Step.attach_alike (h : Alike v w) (hxy : Alike x y) (hinto : step.into v = .error .notFound) :
    Alike (step.attach v x) (step.attach w y) := by
  obtain ⟨name, es, rfl, -, rfl, -⟩ | ⟨i, xs, rfl, rfl, -⟩ := into_notFound hinto
  · obtain ⟨fs, rfl, hall⟩ := alike_map.1 h
    exact .map (hall.put hxy name)
  · obtain ⟨ys, rfl, hall⟩ := alike_list.1 h
    have hpadding : List.Forall₂ Alike (List.replicate (i.toNat - xs.length) Value.null)
        (List.replicate (i.toNat - ys.length) Value.null) := by
      rw [hall.length_eq]
      exact List.forall₂_same.2 fun z hz => List.eq_of_mem_replicate hz ▸ .null
    exact .list (List.rel_append (List.rel_append hall hpadding) (.cons hxy .nil))

theorem Step.refusal_alike (h : Alike v w) (grants : Reservation) (rest : Path) (step : Step) :
    step.refusal grants rest v = step.refusal grants rest w := by
  cases step with
  | key name => rfl
  | index i =>
    cases v with
    | list xs =>
      obtain ⟨ys, rfl, hall⟩ := alike_list.1 h
      rw [refusal, refusal, hall.length_eq]
    | map es => obtain ⟨fs, rfl, -⟩ := alike_map.1 h; rfl
    | _ => cases h.tree; rfl

namespace Value

/-! ## Getting -/

theorem get_alike (h : Alike v w) (hx : v.get path = .ok x) : ∃ y, w.get path = .ok y ∧ Alike x y := by
  induction path generalizing v w with
  | nil => cases hx; exact ⟨w, rfl, h⟩
  | cons step path ih =>
    obtain ⟨part, rebuild, hinto, hpart⟩ := into_of_get_cons hx
    obtain ⟨part', rebuild', hinto', halike, -⟩ := Step.into_alike h hinto
    rw [get_cons_ok hinto']
    exact ih halike hpart

theorem get_error_alike (h : Alike v w) (he : v.get path = .error e) : w.get path = .error e := by
  induction path generalizing v w with
  | nil => cases he
  | cons step path ih =>
    cases hinto : step.into v with
    | ok found =>
      obtain ⟨part', rebuild', hinto', halike, -⟩ :=
        Step.into_alike h (show step.into v = .ok (found.1, found.2) from hinto)
      rw [get_cons_ok hinto'] at *
      rw [get_cons_ok (show step.into v = .ok (found.1, found.2) from hinto)] at he
      exact ih halike he
    | error e' =>
      rw [get_cons_error hinto] at he
      cases he
      exact get_cons_error (Step.into_error_alike h hinto)

/-! ## Setting -/

theorem alike_blankFor (path : Path) : Alike (blankFor path) (blankFor path) := by
  unfold blankFor
  split
  · exact .null
  · exact .map ⟨List.nodup_nil, List.nodup_nil, fun key => .none⟩
  · exact .list .nil

/-- Setting does the same, with the same error. The induction is on the path. -/
theorem setWithin_alike (hnew : Alike new new') (h : Alike v w) :
    (setWithin grants new path v).error = (setWithin grants new' path w).error ∧
      Alike (setWithin grants new path v).after (setWithin grants new' path w).after := by
  induction path generalizing v w with
  | nil => exact ⟨rfl, hnew⟩
  | cons step path ih =>
    obtain ⟨part, rebuild, hinto⟩ | hinto | hs := step.into_trichotomy v
    · obtain ⟨part', rebuild', hinto', hpart, hrebuild⟩ := Step.into_alike h hinto
      rw [setWithin_cons hinto, setWithin_cons hinto']
      exact ⟨(ih hpart).1, hrebuild _ _ (ih hpart).2⟩
    · obtain ⟨herror, hafter⟩ := ih (alike_blankFor path)
      rw [setWithin_of_notFound hinto, setWithin_of_notFound (Step.into_error_alike h hinto), herror,
        Step.refusal_alike h]
      cases (setWithin grants new' path (blankFor path)).error <|> step.refusal grants path w with
      | some e => exact ⟨rfl, h⟩
      | none => exact ⟨rfl, Step.attach_alike h hafter hinto⟩
    · have hs' : step.suits w = false := (Step.suits_alike h step).symm.trans hs
      obtain ⟨e, hinto, -, -, hset⟩ := setWithin_of_not_suits hs path new
      obtain ⟨e', hinto', -, -, hset'⟩ := setWithin_of_not_suits hs' path new'
      rw [Step.into_error_alike h hinto] at hinto'
      cases hinto'
      rw [hset, hset']
      exact ⟨rfl, h⟩

end Value

end JsonSieve
