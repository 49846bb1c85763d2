/-
Setting at a path, "a failed set leaves the value untouched": whatever requests for room are
refused, an attempt that fails leaves exactly the value that was there. An attempt descends into the
slots that exist and into the empty containers that it grows (`Descends`); wherever it has to grow a
list, the arithmetic on lengths stays in range, and growing to the greatest index always fails.
-/
import JsonSieve.Path.Access
import JsonSieve.Proofs.Value.Entries

namespace JsonSieve.Value

variable {grants : Reservation} {new : Value}

/-! ## Failure leaves the value -/

/-- The induction follows the attempt: only an existing slot is changed before the error is known,
and by induction it is not changed at all. -/
theorem after_eq_of_error {path : Path} {v : Value} {e : Error}
    (h : (setWithin grants new path v).error = some e) : (setWithin grants new path v).after = v := by
  fun_induction setWithin grants new path v with
  | case1 => cases h
  | case2 path entries ih => exact ih h
  | case3 name path entries hn slot hs inner ih =>
    -- the slot was changed in place, to what it was
    have : inner.after = slot := ih h
    rw [this, Entries.put_get? hs]
  | case4 => rfl
  | case5 => cases h
  | case6 => rfl
  | case7 i path items slot hs inner ih =>
    have : inner.after = slot := ih h
    obtain ⟨hi, hslot⟩ := List.getElem?_eq_some_iff.1 hs
    rw [this, ← hslot, List.set_getElem_self]
  | case8 => rfl
  | case9 => cases h
  | case10 => rfl
  | case11 => rfl

/-! ## The parts that an attempt descends into -/

/-- An attempt at a path in a value comes to an attempt at a rest of the path in a part: a slot that
exists, or the empty container that is to become a new slot. -/
inductive Descends : Path → Value → Path → Value → Prop
  | refl {path : Path} {v : Value} : Descends path v path v
  | self {path rest : Path} {entries : List (String × Value)} {part : Value} :
      Descends path (.map entries) rest part → Descends (.key "" :: path) (.map entries) rest part
  | entry {name : String} {path rest : Path} {entries : List (String × Value)} {slot part : Value} :
      name ≠ "" → Entries.get? name entries = some slot → Descends path slot rest part →
      Descends (.key name :: path) (.map entries) rest part
  | newEntry {name : String} {path rest : Path} {entries : List (String × Value)} {part : Value} :
      name ≠ "" → Entries.get? name entries = none → Descends path (blankFor path) rest part →
      Descends (.key name :: path) (.map entries) rest part
  | item {i : UInt64} {path rest : Path} {items : List Value} {slot part : Value} :
      items[i.toNat]? = some slot → Descends path slot rest part →
      Descends (.index i :: path) (.list items) rest part
  | newItem {i : UInt64} {path rest : Path} {items : List Value} {part : Value} :
      items[i.toNat]? = none → Descends path (blankFor path) rest part →
      Descends (.index i :: path) (.list items) rest part

/-- An error in a part is the error of the whole attempt. -/
theorem Descends.error_eq {path rest : Path} {v part : Value} {e : Error}
    (hd : Descends path v rest part) (h : (setWithin grants new rest part).error = some e) :
    (setWithin grants new path v).error = some e := by
  induction hd with
  | refl => exact h
  | self _ ih => rw [setWithin, if_pos rfl]; exact ih h
  | entry hn hs _ ih => simp only [setWithin, if_neg hn, hs]; exact ih h
  | newEntry hn hs _ ih => simp only [setWithin, if_neg hn, hs, ih h]
  | item hs _ ih => simp only [setWithin, hs]; exact ih h
  | newItem hs _ ih => simp only [setWithin, hs, ih h]

/-! ## Lengths of lists that grow -/

/-- The number after an index is one more: the sum never wraps. -/
theorem nextIndex?_eq_some {i n : UInt64} : nextIndex? i = some n ↔ n.toNat = i.toNat + 1 := by
  have hn := n.toNat_lt
  unfold nextIndex?
  split
  · rename_i hi
    have hsum : (i + 1).toNat = i.toNat + 1 := by
      rw [UInt64.toNat_add]
      exact Nat.mod_eq_of_lt hi
    rw [Option.some.injEq, ← UInt64.toNat_inj, hsum]
    exact eq_comm
  · rename_i hi
    have : UInt64.size = 2 ^ 64 := rfl
    constructor
    · intro h; cases h
    · intro h; omega

/-- Only the greatest index has no number after it. -/
theorem nextIndex?_eq_none {i : UInt64} : nextIndex? i = none ↔ i.toNat = UInt64.size - 1 := by
  have hi := i.toNat_lt
  have : UInt64.size = 2 ^ 64 := rfl
  unfold nextIndex?
  split
  · constructor
    · intro h; cases h
    · intro h; omega
  · exact ⟨fun _ => by omega, fun _ => rfl⟩

/-- At the greatest index a list does not grow: either what is to be the new item cannot be built, or
the list gets no room. -/
theorem error_of_greatest_index {i : UInt64} {rest : Path} {items : List Value}
    (hi : i.toNat = UInt64.size - 1) (hend : items[i.toNat]? = none) :
    (setWithin grants new (.index i :: rest) (.list items)).error =
      ((setWithin grants new rest (blankFor rest)).error <|> some (.illegal (.cannotGrow i))) := by
  simp only [setWithin, hend, nextIndex?_eq_none.2 hi, Option.any_none]
  cases (setWithin grants new rest (blankFor rest)).error with
  | none => rfl
  | some e => rfl

theorem message_cannotGrow_greatest {i : UInt64} (hi : i.toNat = UInt64.size - 1) :
    (Illegal.cannotGrow i).message =
      "cannot grow a list to index 18446744073709551615".toList := by
  obtain rfl : i = 18446744073709551615 := UInt64.toNat_inj.1 hi
  rfl

/-- A failed attempt to set leaves exactly the value that was there, whatever room is refused. Lists are
grown to one more than an index past their end, unless it is the greatest: then the attempt fails and
names it, if the new item itself can be built. -/
theorem setWithin_atomic (grants : Reservation) (new : Value) (path : Path) (v : Value) :
    (∀ e, (setWithin grants new path v).error = some e → (setWithin grants new path v).after = v) ∧
    ∀ i rest items, Descends path v (.index i :: rest) (.list items) → items[i.toNat]? = none →
      items.length ≤ i.toNat ∧
      (∀ length, nextIndex? i = some length →
        length.toNat = i.toNat + 1 ∧ items.length < length.toNat) ∧
      (nextIndex? i = none ↔ i.toNat = UInt64.size - 1) ∧
      (i.toNat = UInt64.size - 1 →
        (setWithin grants new path v).error =
          ((setWithin grants new rest (blankFor rest)).error <|> some (.illegal (.cannotGrow i))) ∧
        (Illegal.cannotGrow i).message =
          "cannot grow a list to index 18446744073709551615".toList) := by
  refine ⟨fun e => after_eq_of_error, fun i rest items hd hend => ?_⟩
  have hlen : items.length ≤ i.toNat := List.getElem?_eq_none_iff.1 hend
  refine ⟨hlen, fun length hl => ?_, nextIndex?_eq_none, fun hi => ?_⟩
  · have := nextIndex?_eq_some.1 hl
    exact ⟨this, by omega⟩
  · have herr : (setWithin grants new (.index i :: rest) (.list items)).error = _ :=
      error_of_greatest_index hi hend
    refine ⟨?_, message_cannotGrow_greatest hi⟩
    -- the error at the list is some error in either case, and so the error of the whole attempt
    cases hf : (setWithin grants new rest (blankFor rest)).error with
    | none => rw [hf] at herr; exact hd.error_eq herr
    | some e => rw [hf] at herr; exact hd.error_eq herr

theorem setWithin_atomic_greatest_index :
    let path : Path := [.key "a", .index 18446744073709551615, .key "b"]
    let v : Value := .map [("a", .list [.bool true])]
    let attempt := setWithin (fun _ _ _ => true) .null path v
    Descends path v [.index 18446744073709551615, .key "b"] (.list [.bool true]) ∧
      attempt.error = some (.illegal (.cannotGrow 18446744073709551615)) ∧ attempt.after = v := by
  intro path v attempt
  have hd : Descends path v [.index 18446744073709551615, .key "b"] (.list [.bool true]) :=
    .entry (by decide) rfl .refl
  obtain ⟨hkeep, hgrow⟩ := setWithin_atomic (fun _ _ _ => true) .null path v
  have herr := ((hgrow _ _ _ hd rfl).2.2.2 rfl).1
  exact ⟨hd, herr, hkeep _ herr⟩

end JsonSieve.Value
