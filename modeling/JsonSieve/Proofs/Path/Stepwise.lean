/-
Paths step by step: one step into a value leads to a part and says how the value is built again
around another part in its place (`Step.into`). Getting is one step after the other; setting at a
path that leads to a value walks the same parts and builds the value again on the way back, so it
grows nothing, cannot fail, and changes nothing when the value that is there is set.
-/
import JsonSieve.Path.Access
import JsonSieve.Proofs.Value.Entries

namespace JsonSieve

/-- One step into a value: the part that it leads to, and the value around another part in its
place. -/
def Step.into : Step → Value → Except Error (Value × (Value → Value))
  | .key name, .map entries =>
    if name = "" then .ok (.map entries, id)
    else
      match Entries.get? name entries with
      | some part => .ok (part, fun x => .map (Entries.put name x entries))
      | none => .error .notFound
  | .key _, _ => .error .notAStructure
  | .index i, .list items =>
    match items[i.toNat]? with
    | some part => .ok (part, fun x => .list (items.set i.toNat x))
    | none => .error .notFound
  | .index _, _ => .error .notAList

/-- Whether a value is of the kind that a step looks into. -/
def Step.suits : Step → Value → Bool
  | .key _, .map _ => true
  | .index _, .list _ => true
  | _, _ => false

variable {grants : Reservation} {step : Step} {path : Path} {v w part : Value}
  {rebuild : Value → Value}

/-! ## One step -/

/-- The steps that lead somewhere: a bare dot in a map, a key that a map has, an index in a list. -/
theorem Step.into_cases (h : step.into v = .ok (part, rebuild)) :
    (∃ entries, step = .key "" ∧ v = .map entries ∧ part = v ∧ rebuild = id) ∨
    (∃ name entries, step = .key name ∧ name ≠ "" ∧ v = .map entries ∧
      Entries.get? name entries = some part ∧ rebuild = fun x => .map (Entries.put name x entries)) ∨
    ∃ i items, step = .index i ∧ v = .list items ∧ items[i.toNat]? = some part ∧
      rebuild = fun x => .list (items.set i.toNat x) := by
  unfold into at h
  split at h
  · rename_i name entries
    by_cases hn : name = ""
    · rw [if_pos hn] at h
      cases h
      exact .inl ⟨entries, by rw [hn], rfl, rfl, rfl⟩
    · rw [if_neg hn] at h
      cases hx : Entries.get? name entries with
      | none => rw [hx] at h; cases h
      | some x => rw [hx] at h; cases h; exact .inr (.inl ⟨name, entries, rfl, hn, rfl, hx, rfl⟩)
  · cases h
  · rename_i i items
    cases hx : items[i.toNat]? with
    | none => rw [hx] at h; cases h
    | some x => rw [hx] at h; cases h; exact .inr (.inr ⟨i, items, rfl, rfl, hx, rfl⟩)
  · cases h

/-- The value around the part that is there is the value itself. -/
theorem Step.rebuild_part (h : step.into v = .ok (part, rebuild)) : rebuild part = v := by
  rcases into_cases h with ⟨entries, rfl, rfl, rfl, rfl⟩ | ⟨name, entries, rfl, -, rfl, hx, rfl⟩ |
    ⟨i, items, rfl, rfl, hx, rfl⟩
  · rfl
  · simp only [Entries.put_get? hx]
  · obtain ⟨hi, rfl⟩ := List.getElem?_eq_some_iff.1 hx
    simp only [List.set_getElem_self]

/-- In a value of the right kind a step fails only because nothing is there. -/
theorem Step.error_of_suits {e : Error} (hs : step.suits v = true) (h : step.into v = .error e) :
    e = .notFound := by
  cases step with
  | key name =>
    cases v with
    | map entries =>
      by_cases hn : name = ""
      · rw [into, if_pos hn] at h; cases h
      · rw [into, if_neg hn] at h
        cases hx : Entries.get? name entries with
        | none => rw [hx] at h; cases h; rfl
        | some x => rw [hx] at h; cases h
    | _ => cases hs
  | index i =>
    cases v with
    | list items =>
      rw [into] at h
      cases hx : items[i.toNat]? with
      | none => rw [hx] at h; cases h; rfl
      | some x => rw [hx] at h; cases h
    | _ => cases hs

/-- In a value of another kind a step fails by that kind. -/
theorem Step.error_of_not_suits (hs : step.suits v = false) :
    step.into v = .error .notAList ∨ step.into v = .error .notAStructure := by
  cases step with
  | key name =>
    cases v with
    | map entries => cases hs
    | _ => exact .inr rfl
  | index i =>
    cases v with
    | list items => cases hs
    | _ => exact .inl rfl

/-- A step fails in three ways. -/
theorem Step.error_of_into {e : Error} (h : step.into v = .error e) :
    e = .notFound ∨ e = .notAList ∨ e = .notAStructure := by
  cases hs : step.suits v with
  | true => exact .inl (error_of_suits hs h)
  | false =>
    rcases error_of_not_suits hs with he | he
    · rw [h] at he; cases he; exact .inr (.inl rfl)
    · rw [h] at he; cases he; exact .inr (.inr rfl)

theorem Step.suits_of_into (h : step.into v = .ok (part, rebuild)) : step.suits v = true := by
  cases hs : step.suits v with
  | true => rfl
  | false =>
    rcases error_of_not_suits hs with he | he
    · rw [h] at he; cases he
    · rw [h] at he; cases he

namespace Value

theorem get_cons (step : Step) (path : Path) (v : Value) :
    v.get (step :: path) = step.into v >>= fun p => p.1.get path := by
  cases step with
  | key name =>
    cases v with
    | map entries =>
      by_cases hn : name = ""
      · simp only [get, Step.into, if_pos hn]; rfl
      · simp only [get, Step.into, if_neg hn]
        cases Entries.get? name entries <;> rfl
    | _ => rfl
  | index i =>
    cases v with
    | list items =>
      simp only [get, Step.into]
      cases items[i.toNat]? <;> rfl
    | _ => rfl

theorem get_cons_ok (h : step.into v = .ok (part, rebuild)) : v.get (step :: path) = part.get path := by
  rw [get_cons, h]; rfl

theorem get_cons_error {e : Error} (h : step.into v = .error e) : v.get (step :: path) = .error e := by
  rw [get_cons, h]; rfl

/-- Getting fails by the data only. -/
theorem isFatal_of_get_error {e : Error} (h : v.get path = .error e) : e.isFatal = false := by
  induction path generalizing v with
  | nil => cases h
  | cons step path ih =>
    cases hinto : step.into v with
    | ok p => exact ih (get_cons_ok hinto ▸ h)
    | error e' =>
      rw [get_cons_error hinto] at h
      cases h
      rcases Step.error_of_into hinto with rfl | rfl | rfl
      · rfl
      · rfl
      · rfl

/-- Setting beyond a part that is there sets in the part. -/
theorem setWithin_cons (h : step.into v = .ok (part, rebuild)) (new : Value) :
    setWithin grants new (step :: path) v =
      ⟨rebuild (setWithin grants new path part).after, (setWithin grants new path part).error⟩ := by
  rcases Step.into_cases h with ⟨entries, rfl, rfl, rfl, rfl⟩ | ⟨name, entries, rfl, hn, rfl, hx, rfl⟩ |
    ⟨i, items, rfl, rfl, hx, rfl⟩
  · simp only [setWithin, if_true]; rfl
  · simp only [setWithin, if_neg hn, hx]
  · simp only [setWithin, hx]

/-! ## Setting where getting succeeds -/

/-- The first step of a path that leads to a value leads to a part from which the rest does. -/
theorem into_of_get_cons (h : v.get (step :: path) = .ok w) :
    ∃ part rebuild, step.into v = .ok (part, rebuild) ∧ part.get path = .ok w := by
  rw [get_cons] at h
  cases hinto : step.into v with
  | error e => rw [hinto] at h; cases h
  | ok p => rw [hinto] at h; exact ⟨p.1, p.2, rfl, h⟩

theorem error_of_get (h : v.get path = .ok w) (new : Value) :
    (setWithin grants new path v).error = none := by
  induction path generalizing v with
  | nil => rfl
  | cons step path ih =>
    obtain ⟨part, rebuild, hinto, hpart⟩ := into_of_get_cons h
    rw [setWithin_cons hinto]
    exact ih hpart

/-- Setting what is there already changes nothing. -/
theorem after_of_get (h : v.get path = .ok w) : (setWithin grants w path v).after = v := by
  induction path generalizing v with
  | nil => cases h; rfl
  | cons step path ih =>
    obtain ⟨part, rebuild, hinto, hpart⟩ := into_of_get_cons h
    rw [setWithin_cons hinto]
    simp only [ih hpart, Step.rebuild_part hinto]

theorem result_of_get (h : v.get path = .ok w) (new : Value) :
    (setWithin grants new path v).result = .ok (setWithin grants new path v).after := by
  rw [Attempt.result, error_of_get h]

end Value

end JsonSieve
