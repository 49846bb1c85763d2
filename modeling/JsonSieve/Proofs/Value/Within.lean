/-
Which parts the changes to a value can let in. A test of single parts that null and all lists pass, and
maps by their keys alone, is kept by all of them (`Lasting`): pruning and getting lead to parts that were
there, and setting adds nulls, empty containers, the value that is set, and the keys of its path.
-/
import JsonSieve.Proofs.Path.Agreement
import JsonSieve.Proofs.Value.Pruning

namespace JsonSieve.Value

variable {v w x y part new : Value} {items : List Value} {entries es fs : List (String × Value)}

/-! ## Tests that changes keep -/

/-- A test of single parts that null and every list pass, and every map as far as its keys allow: fewer
keys do no harm, nor does a key that `new` allows where it does not stand yet. -/
structure Lasting (test : Value → Prop) (new : String → Prop) : Prop where
  null : test .null
  list : ∀ items, test (.list items)
  empty : test (.map [])
  fewer : ∀ {es fs}, (Entries.keys fs).Sublist (Entries.keys es) → test (.map es) → test (.map fs)
  more : ∀ {es key x}, new key → key ∉ Entries.keys es → test (.map es) → test (.map (es ++ [(key, x)]))

variable {test : Value → Prop} {allowed : String → Prop}

theorem Everywhere.of_prunesTo (ht : Lasting test allowed) {ordered : Bool} (h : PrunesTo ordered v w)
    (hv : v.Everywhere test) : w.Everywhere test := by
  induction h with
  | list place there _ _ ih =>
    obtain ⟨-, hitems⟩ := everywhere_list.1 hv
    refine everywhere_list.2 ⟨ht.list _, fun y hy => ?_⟩
    obtain ⟨j, hj⟩ := List.getElem?_of_mem hy
    have hx := List.getElem?_eq_getElem (there j (List.getElem?_eq_some_iff.1 hj).1)
    exact ih j _ y hx hj (hitems _ (List.mem_of_getElem? hx))
  | map keys old there _ ih =>
    obtain ⟨hself, hcontents⟩ := everywhere_map.1 hv
    refine everywhere_map.2 ⟨ht.fewer keys hself, fun f hf => ?_⟩
    exact ih f.1 f.2 hf (hcontents _ (there f.1 f.2 hf))
  | null => exact hv
  | bool b => exact hv
  | int i => exact hv
  | float x => exact hv
  | string s => exact hv

/-! ## Getting -/

theorem Within.of_into {step : Step} {rebuild : Value → Value} (h : step.into v = .ok (part, rebuild)) :
    Within part v := by
  obtain ⟨entries, rfl, rfl, rfl, -⟩ | ⟨name, entries, rfl, -, rfl, hx, -⟩ |
    ⟨i, items, rfl, rfl, hx, -⟩ := Step.into_cases h
  · exact .self
  · exact .content (Entries.mem_of_get? hx) .self
  · exact .item (List.mem_of_getElem? hx) .self

theorem Within.of_get {path : Path} (h : v.get path = .ok w) : Within w v := by
  induction path generalizing v with
  | nil => cases h; exact .self
  | cons step path ih =>
    obtain ⟨part, rebuild, hinto, hpart⟩ := into_of_get_cons h
    exact (ih hpart).trans (.of_into hinto)

/-- The part at a path holds each key once in every map if the value does. -/
theorem keysOnce_of_get (hv : v.keysOnce = true) (h : v.get path = .ok w) : w.keysOnce = true :=
  keysOnce_iff.2 fun entries hentries => keysOnce_iff.1 hv entries (hentries.trans (.of_get h))

/-! ## Setting -/

theorem Everywhere.setItem (ht : Lasting test allowed) (i : Nat) (hv : (list items).Everywhere test)
    (hy : y.Everywhere test) : (list (items.set i y)).Everywhere test := by
  refine everywhere_list.2 ⟨ht.list _, fun x hx => ?_⟩
  rcases List.mem_or_eq_of_mem_set hx with hx | rfl
  · exact (everywhere_list.1 hv).2 x hx
  · exact hy

theorem Everywhere.putEntry (ht : Lasting test allowed) {name : String} (hv : (map entries).Everywhere test)
    (hx : Entries.get? name entries = some x) (hy : y.Everywhere test) :
    (map (Entries.put name y entries)).Everywhere test := by
  obtain ⟨hself, hcontents⟩ := everywhere_map.1 hv
  refine everywhere_map.2 ⟨ht.fewer (by rw [Entries.keys_put hx]) hself, fun e he => ?_⟩
  rcases Entries.mem_put he with rfl | he
  · exact hy
  · exact hcontents e he

theorem Everywhere.rebuild (ht : Lasting test allowed) {step : Step} {rebuild : Value → Value}
    (h : step.into v = .ok (part, rebuild)) (hv : v.Everywhere test) (hy : y.Everywhere test) :
    (rebuild y).Everywhere test := by
  obtain ⟨entries, rfl, rfl, rfl, rfl⟩ | ⟨name, entries, rfl, -, rfl, hx, rfl⟩ |
    ⟨i, items, rfl, rfl, hx, rfl⟩ := Step.into_cases h
  · exact hy
  · exact hv.putEntry ht hx hy
  · exact hv.setItem ht i.toNat hy

theorem Everywhere.null (ht : Lasting test allowed) : (Value.null).Everywhere test :=
  (everywhere_scalar rfl).2 ht.null

theorem Everywhere.blankFor (ht : Lasting test allowed) (path : Path) :
    (blankFor path).Everywhere test := by
  unfold Value.blankFor
  split
  · exact .null ht
  · exact everywhere_map.2 ⟨ht.empty, by simp⟩
  · exact everywhere_list.2 ⟨ht.list [], by simp⟩

theorem Everywhere.attach (ht : Lasting test allowed) {step : Step} (h : step.into v = .error .notFound)
    (hstep : ∀ name, step = .key name → allowed name) (hv : v.Everywhere test)
    (hy : y.Everywhere test) : (step.attach v y).Everywhere test := by
  obtain ⟨name, entries, rfl, -, rfl, hnone⟩ | ⟨i, items, rfl, rfl, -⟩ := Step.into_notFound h
  · obtain ⟨hself, hcontents⟩ := everywhere_map.1 hv
    rw [Step.attach, Entries.put_of_get?_none hnone]
    refine everywhere_map.2 ⟨ht.more (hstep name rfl) (Entries.notMem_keys_of_get? hnone) hself, ?_⟩
    intro e he
    rcases List.mem_append.1 he with he | he
    · exact hcontents e he
    · rw [List.mem_singleton.1 he]; exact hy
  · refine everywhere_list.2 ⟨ht.list _, fun x hx => ?_⟩
    simp only [List.mem_append, List.mem_replicate, List.mem_singleton] at hx
    rcases hx with (hx | ⟨-, rfl⟩) | rfl
    · exact (everywhere_list.1 hv).2 x hx
    · exact .null ht
    · exact hy

/-- What a setting leaves behind holds only what was there, what is set, and keys of the path. -/
theorem Everywhere.setWithin (ht : Lasting test allowed) {grants : Reservation} {path : Path}
    (hpath : ∀ name, .key name ∈ path → allowed name) (hnew : new.Everywhere test)
    (hv : v.Everywhere test) : (setWithin grants new path v).after.Everywhere test := by
  induction path generalizing v with
  | nil => exact hnew
  | cons step path ih =>
    have hrest : ∀ name, .key name ∈ path → allowed name := fun name hmem =>
      hpath name (List.mem_cons_of_mem _ hmem)
    obtain ⟨part, rebuild, hinto⟩ | hinto | hs := step.into_trichotomy v
    · rw [setWithin_cons hinto]
      have hpart : part.Everywhere test := fun x hx => hv x (hx.trans (.of_into hinto))
      exact hv.rebuild ht hinto (ih hrest hpart)
    -- a missing part is made from a blank one, and put in its place if nothing fails
    · rw [setWithin_of_notFound hinto]
      split
      · exact hv
      · exact hv.attach ht hinto (fun name hname => hpath name (hname ▸ List.mem_cons_self))
          (ih hrest (.blankFor ht path))
    · obtain ⟨e, -, -, -, hset⟩ := setWithin_of_not_suits hs path new
      rw [hset]
      exact hv

end JsonSieve.Value
