/-
Getting and setting form a lens on every path: what was set is read back, a later setting at the same
path replaces an earlier one and needs no more room, and setting what is there changes nothing. A step
of a setting that succeeds fixes a slot and the value around whatever is in it; the step then leads
into that slot, and out of it by the same way (`exists_slot`). The laws follow by induction on the
path.
-/
import JsonSieve.Proofs.Path.Agreement
import JsonSieve.Proofs.Path.Frame

namespace JsonSieve

variable {grants : Reservation} {a part v w : Value} {rebuild : Value → Value} {step : Step}
  {path : Path}

/-! ## Into a slot and out again -/

/-- The value around something else in the place of a part is entered at that place, and left by the
same way. After a bare dot the place is the whole value, which must be a map. -/
theorem Step.into_rebuild (h : step.into v = .ok (part, rebuild)) {x : Value}
    (hx : step = .key "" → x.kind = .map) : step.into (rebuild x) = .ok (x, rebuild) := by
  obtain ⟨entries, rfl, rfl, rfl, rfl⟩ | ⟨name, entries, rfl, hn, rfl, hpart, rfl⟩ |
    ⟨i, items, rfl, rfl, hpart, rfl⟩ := into_cases h
  · cases x with
    | map others => rfl
    | _ => cases hx rfl
  · simp only [into, if_neg hn, Entries.get?_put_self, Entries.put_put]
  · obtain ⟨hi, -⟩ := List.getElem?_eq_some_iff.1 hpart
    simp only [into, List.getElem?_set_self hi, List.set_set]

/-- What was attached is entered as a part, and another part in its place is what would have been
attached instead. -/
theorem Step.into_attach (h : step.into v = .error .notFound) (x : Value) :
    step.into (step.attach v x) = .ok (x, step.attach v) := by
  obtain ⟨name, entries, rfl, hn, rfl, hnone⟩ | ⟨i, items, rfl, rfl, hnone⟩ := into_notFound h
  · simp only [into, attach, if_neg hn, Entries.get?_put_self, Entries.put_put]
    rfl
  · have hlen : items.length ≤ i.toNat := List.getElem?_eq_none_iff.1 hnone
    have hpad : (items ++ List.replicate (i.toNat - items.length) Value.null).length = i.toNat := by
      rw [List.length_append, List.length_replicate]; omega
    have hslot : (items ++ List.replicate (i.toNat - items.length) Value.null ++ [x])[i.toNat]? =
        some x := by
      rw [List.getElem?_append_right hpad.le, hpad, Nat.sub_self]; rfl
    have hset (y : Value) : (items ++ List.replicate (i.toNat - items.length) Value.null ++ [x]).set
        i.toNat y = items ++ List.replicate (i.toNat - items.length) Value.null ++ [y] := by
      rw [List.set_append_right _ _ hpad.le, hpad, Nat.sub_self]; rfl
    simp only [into, attach, hslot, hset]
    rfl

/-- A bare dot leads to a map, namely the value itself, or is refused by the kind of the value. -/
theorem Step.kind_of_into_dot (h : (Step.key "").into v = .ok (part, rebuild)) : part.kind = .map := by
  cases v with
  | map entries => cases h; rfl
  | _ => cases h

theorem Step.into_dot_ne : (Step.key "").into v ≠ .error .notFound := by
  cases v <;> simp [into]

namespace Value

/-- A step of a setting that succeeds sets the rest in a slot and builds the value around it. Neither
the slot nor the way of building depends on what is set, and afterwards the step leads into the slot. -/
theorem exists_slot (h : (setWithin grants a (step :: path) v).error = none) :
    ∃ slot build, (setWithin grants a path slot).error = none ∧
      (∀ b, setWithin grants b (step :: path) v =
        ⟨build (setWithin grants b path slot).after, none⟩) ∧
      (step = .key "" → slot.kind = .map) ∧
      ∀ x, (step = .key "" → x.kind = .map) → step.into (build x) = .ok (x, build) := by
  obtain ⟨part, rebuild, hinto⟩ | hinto | hs := step.into_trichotomy v
  · have hpart : (setWithin grants a path part).error = none := by
      rw [setWithin_cons hinto] at h; exact h
    refine ⟨part, rebuild, hpart, fun b => ?_, ?_, fun x hx => Step.into_rebuild hinto hx⟩
    · rw [setWithin_cons hinto, error_eq_of_new grants b a, hpart]
    · rintro rfl
      exact Step.kind_of_into_dot hinto
  · rw [error_of_notFound hinto] at h
    cases hfresh : (setWithin grants a path (blankFor path)).error with
    | some e => rw [hfresh] at h; cases h
    | none =>
      rw [hfresh] at h
      have hroom : step.refusal grants path v = none := h
      refine ⟨blankFor path, step.attach v, hfresh, fun b => ?_, ?_,
        fun x _ => Step.into_attach hinto x⟩
      · rw [setWithin_of_notFound hinto, error_eq_of_new grants b a, hfresh, hroom]
        rfl
      · rintro rfl
        exact absurd hinto Step.into_dot_ne
  · obtain ⟨e, -, -, -, hset⟩ := setWithin_of_not_suits hs path a
    rw [hset] at h
    cases h

/-! ## The laws -/

/-- A path that ends in a bare dot addresses maps only. -/
def Fits (path : Path) (a : Value) : Prop :=
  path.getLast? = some (.key "") → a.kind = .map

theorem Fits.tail (h : Fits (step :: path) a) : Fits path a := by
  cases path with
  | nil => intro hlast; cases hlast
  | cons next path => rwa [Fits, List.getLast?_cons_cons] at h

/-- After a bare dot a map stays a map. -/
theorem kind_after_dot (hv : v.kind = .map) (hfits : Fits (.key "" :: path) a) :
    (setWithin grants a path v).after.kind = .map := by
  induction path with
  | nil => exact hfits rfl
  | cons next path ih =>
    by_cases hn : next = .key ""
    · subst hn
      cases v with
      | map entries => rw [setWithin, if_pos rfl]; exact ih hfits.tail
      | _ => cases hv
    · rw [kind_after (by rw [Path.core_cons hn]; exact List.cons_ne_nil _ _), hv]

/-- What is in the slot of a step can be entered by the step. -/
theorem into_slot {slot : Value} {build : Value → Value} (hdot : step = .key "" → slot.kind = .map)
    (hbuild : ∀ x, (step = .key "" → x.kind = .map) → step.into (build x) = .ok (x, build))
    (hfits : Fits (step :: path) a) :
    step.into (build (setWithin grants a path slot).after) =
      .ok ((setWithin grants a path slot).after, build) := by
  refine hbuild _ fun hs => ?_
  subst hs
  exact kind_after_dot (hdot rfl) hfits

/-- What was set is read back. -/
theorem get_after_set (hfits : Fits path a) (h : (setWithin grants a path v).error = none) :
    (setWithin grants a path v).after.get path = .ok a := by
  induction path generalizing v with
  | nil => rfl
  | cons step path ih =>
    obtain ⟨slot, build, hslot, hset, hdot, hbuild⟩ := exists_slot h
    rw [hset, get_cons_ok (into_slot hdot hbuild hfits)]
    exact ih hfits.tail hslot

/-- A later setting at the same path replaces an earlier one. -/
theorem after_set_set (hfits : Fits path a) (h : (setWithin grants a path v).error = none)
    (others : Reservation) (b : Value) :
    (setWithin others b path (setWithin grants a path v).after).after =
      (setWithin grants b path v).after := by
  induction path generalizing v with
  | nil => rfl
  | cons step path ih =>
    obtain ⟨slot, build, hslot, hset, hdot, hbuild⟩ := exists_slot h
    rw [hset, hset, setWithin_cons (into_slot hdot hbuild hfits)]
    dsimp only
    rw [ih hfits.tail hslot]

/-- Getting and setting form a lens: what was set is read back, unless a path ends in a bare dot and no
map was set, a second setting overrides a first one, whatever room is refused, and setting what a path
reads changes nothing. -/
theorem get_set_lens (grants : Reservation) (path : Path) (v : Value) :
    (∀ a, (setWithin grants a path v).error = none →
      (path.getLast? = some (.key "") → a.kind = .map) →
      (setWithin grants a path v).after.get path = .ok a ∧
      ∀ others b, (setWithin others b path (setWithin grants a path v).after).error = none ∧
        (setWithin grants b path v).error = none ∧
        (setWithin others b path (setWithin grants a path v).after).after =
          (setWithin grants b path v).after) ∧
    ∀ w, v.get path = .ok w → setWithin grants w path v = ⟨v, none⟩ := by
  refine ⟨fun a h hfits => ?_, fun w hw => ?_⟩
  · have hget := get_after_set hfits h
    refine ⟨hget, fun others b => ⟨error_of_get hget b, ?_, after_set_set hfits h others b⟩⟩
    rw [error_eq_of_new grants b a, h]
  · have herr : (setWithin grants w path v).error = none := error_of_get hw w
    have hafter : (setWithin grants w path v).after = v := after_of_get hw
    calc setWithin grants w path v
        = ⟨(setWithin grants w path v).after, (setWithin grants w path v).error⟩ := rfl
      _ = ⟨v, none⟩ := by rw [herr, hafter]

/-- A path through a bare dot, a list that is padded and a map that is grown, ending in a bare dot. -/
theorem get_set_lens_bare_dots :
    let v : Value := .map [("a", .list [.float ⟨0x8000000000000000⟩]), ("b", .null)]
    let path : Path := [.key "a", .index 2, .key "", .key "c", .key ""]
    let a : Value := .map [("d", .int 1)]
    let grants : Reservation := fun _ held _ => held == 1
    (setWithin grants a path v).error = none ∧ a.kind = .map ∧
      (setWithin grants a path v).after = .map [("a", .list [.float ⟨0x8000000000000000⟩, .null,
        .map [("c", .map [("d", .int 1)])]]), ("b", .null)] ∧
      (setWithin grants a path v).after.get path = .ok a ∧
      (setWithin (fun _ _ _ => false) .null path (setWithin grants a path v).after).after =
        (setWithin grants .null path v).after ∧
      setWithin grants (.list [.float ⟨0x8000000000000000⟩]) [.key "", .key "a"] v = ⟨v, none⟩ := by
  intro v path a grants
  have h : (setWithin grants a path v).error = none := by decide
  obtain ⟨hget, hset⟩ := (get_set_lens grants path v).1 a h fun _ => rfl
  exact ⟨h, rfl, rfl, hget, (hset (fun _ _ _ => false) .null).2.2,
    (get_set_lens grants [.key "", .key "a"] v).2 _ rfl⟩

end Value

end JsonSieve
