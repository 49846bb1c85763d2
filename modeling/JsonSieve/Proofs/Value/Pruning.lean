/-
Prunings: what is left of a value when parts of it are taken away. Scalars stay as they are, bit by bit;
a map loses entries, and a list keeps items of the old one, each of them pruned in turn. In an ordered
pruning the items that are left stand in the old order, none of them twice. Prunings compose
(`PrunesTo.trans`), so a value that is pruned step by step is a pruning of the first one.
-/
import JsonSieve.Proofs.Value.Tree
import Mathlib.Data.List.Forall2
import Mathlib.Data.List.Nodup

namespace JsonSieve.Value

/-- The second value is what is left of the first one. The item at `j` is left of the one at
`place j`, and the content `y` under a key of the content `old key y` under the same key. -/
inductive PrunesTo (ordered : Bool) : Value → Value → Prop
  | null : PrunesTo ordered .null .null
  | bool (b : Bool) : PrunesTo ordered (.bool b) (.bool b)
  | int (i : Int64) : PrunesTo ordered (.int i) (.int i)
  | float (x : Double) : PrunesTo ordered (.float x) (.float x)
  | string (s : String) : PrunesTo ordered (.string s) (.string s)
  | list {xs ys : List Value} (place : Nat → Nat)
      (there : ∀ j, j < ys.length → place j < xs.length)
      (order : ordered = true → ∀ i j, i < j → j < ys.length → place i < place j)
      (items : ∀ j x y, xs[place j]? = some x → ys[j]? = some y → PrunesTo ordered x y) :
      PrunesTo ordered (.list xs) (.list ys)
  | map {es fs : List (String × Value)} (keys : (Entries.keys fs).Sublist (Entries.keys es))
      (old : String → Value → Value) (there : ∀ key y, (key, y) ∈ fs → (key, old key y) ∈ es)
      (contents : ∀ key y, (key, y) ∈ fs → PrunesTo ordered (old key y) y) :
      PrunesTo ordered (.map es) (.map fs)

namespace PrunesTo

variable {ordered : Bool} {u v w x y : Value} {xs ys : List Value} {es fs : List (String × Value)}

theorem refl (ordered : Bool) (v : Value) : PrunesTo ordered v v := by
  induction v using parts_induction with
  | null => exact .null
  | bool b => exact .bool b
  | int i => exact .int i
  | float x => exact .float x
  | string s => exact .string s
  | list items ih =>
    refine .list id (fun j hj => hj) (fun _ i j hij _ => hij) ?_
    intro j x y hx hy
    cases hx.symm.trans hy
    exact ih x (List.mem_of_getElem? hx)
  | map entries ih =>
    refine .map (List.Sublist.refl _) (fun _ y => y) (fun key y h => h) ?_
    intro key y h
    exact ih (key, y) h

/-- What is left of a pruning is left of the first value. The induction is on the later pruning. -/
theorem trans (h : PrunesTo ordered u v) (h' : PrunesTo ordered v w) : PrunesTo ordered u w := by
  induction h' generalizing u with
  | null => exact h
  | bool b => exact h
  | int i => exact h
  | float x => exact h
  | string s => exact h
  | list place' there' order' _ ih =>
    cases h with
    | list place there order items =>
      refine .list (place ∘ place') (fun j hj => there _ (there' j hj)) ?_ ?_
      · intro ho i j hij hj
        exact order ho _ _ (order' ho i j hij hj) (there' j hj)
      · intro j x z hx hz
        have hj := there' j (List.getElem?_eq_some_iff.1 hz).1
        have hy := List.getElem?_eq_getElem hj
        exact ih j _ z hy hz (items _ x _ hx hy)
  | map keys' old' there' _ ih =>
    cases h with
    | map keys old there contents =>
      refine .map (keys'.trans keys) (fun key z => old key (old' key z)) ?_ ?_
      · intro key z hz
        exact there key _ (there' key z hz)
      · intro key z hz
        exact ih key z hz (contents key _ (there' key z hz))

theorem kind_eq (h : PrunesTo ordered v w) : w.kind = v.kind := by
  cases h <;> rfl

/-! ## Ways to prune -/

/-- A list of prunings of some of the items, in their order. -/
theorem list_of_sublist (h : List.SublistForall₂ (fun y x => PrunesTo ordered x y) ys xs) :
    PrunesTo ordered (.list xs) (.list ys) := by
  have places : ∃ place : Nat → Nat, (∀ j, j < ys.length → place j < xs.length) ∧
      (∀ i j, i < j → j < ys.length → place i < place j) ∧
      ∀ j x y, xs[place j]? = some x → ys[j]? = some y → PrunesTo ordered x y := by
    induction h with
    | nil => exact ⟨id, by simp, by simp, by simp⟩
    | cons hxy _ ih =>
      obtain ⟨place, there, order, items⟩ := ih
      refine ⟨fun j => if j = 0 then 0 else place (j - 1) + 1, fun j hj => ?_, fun i j hij hj => ?_,
        fun j x y hx hy => ?_⟩
      · cases j with
        | zero => simp
        | succ j => simpa using there j (by simpa using hj)
      · obtain ⟨j, rfl⟩ := Nat.exists_eq_add_one.2 (Nat.zero_lt_of_lt hij)
        cases i with
        | zero => simp
        | succ i => simpa using order i j (by omega) (by simpa using hj)
      · cases j with
        | zero =>
          simp only [if_true, List.getElem?_cons_zero, Option.some.injEq] at hx hy
          rw [← hx, ← hy]
          exact hxy
        | succ j => exact items j x y (by simpa using hx) (by simpa using hy)
    | cons_right _ ih =>
      obtain ⟨place, there, order, items⟩ := ih
      refine ⟨fun j => place j + 1, fun j hj => ?_, fun i j hij hj => ?_, fun j x y hx hy => ?_⟩
      · simpa using there j hj
      · simpa using order i j hij hj
      · exact items j x y (by simpa using hx) hy
  obtain ⟨place, there, order, items⟩ := places
  exact .list place there (fun _ => order) items

/-- A list of items of the old one, in whatever order and number. -/
theorem list_of_subset (h : ys ⊆ xs) : PrunesTo false (.list xs) (.list ys) := by
  have found : ∀ j : Nat, ∃ i : Nat, ∀ y, ys[j]? = some y → xs[i]? = some y := by
    intro j
    cases hy : ys[j]? with
    | none => exact ⟨0, by simp⟩
    | some y =>
      obtain ⟨i, hi⟩ := List.getElem?_of_mem (h (List.mem_of_getElem? hy))
      refine ⟨i, ?_⟩
      rintro _ ⟨⟩
      exact hi
  choose place hplace using found
  refine .list place (fun j hj => ?_) (fun ho => by cases ho) (fun j x y hx hy => ?_)
  · exact (List.getElem?_eq_some_iff.1 (hplace j _ (List.getElem?_eq_getElem hj))).1
  · cases hx.symm.trans (hplace j y hy)
    exact refl false x

/-- A map of prunings of some of the contents under their keys. -/
theorem map_of_sublist
    (h : List.SublistForall₂ (fun f e => f.1 = e.1 ∧ PrunesTo ordered e.2 f.2) fs es) :
    PrunesTo ordered (.map es) (.map fs) := by
  -- the entries that are kept, before their contents are pruned
  obtain ⟨gs, hall, hsub⟩ := List.sublistForall₂_iff.1 h
  have hkeys : Entries.keys fs = Entries.keys gs := by
    clear h hsub
    induction hall with
    | nil => rfl
    | cons hhead _ ih => exact congrArg₂ List.cons hhead.1 ih
  have found : ∀ key y, ∃ x, (key, y) ∈ fs → (key, x) ∈ es ∧ PrunesTo ordered x y := by
    intro key y
    by_cases hmem : (key, y) ∈ fs
    · obtain ⟨e, he, hkey, hprunes⟩ : ∃ e ∈ gs, key = e.1 ∧ PrunesTo ordered e.2 y := by
        clear h hsub hkeys
        induction hall with
        | nil => cases hmem
        | cons hhead _ ih =>
          rcases List.mem_cons.1 hmem with heq | hmem
          · exact ⟨_, List.mem_cons_self, by rw [← hhead.1, ← heq], by simpa [← heq] using hhead.2⟩
          · obtain ⟨e, he, hrest⟩ := ih hmem
            exact ⟨e, List.mem_cons_of_mem _ he, hrest⟩
      exact ⟨e.2, fun _ => ⟨hkey ▸ hsub.subset he, hprunes⟩⟩
    · exact ⟨.null, fun h => absurd h hmem⟩
  choose old hold using found
  exact .map (hkeys ▸ hsub.map _) old (fun key y h => (hold key y h).1) fun key y h => (hold key y h).2

/-- A list with one of its items pruned. -/
theorem set {i : Nat} (hx : xs[i]? = some x) (h : PrunesTo ordered x y) :
    PrunesTo ordered (.list xs) (.list (xs.set i y)) := by
  refine list_of_sublist ?_
  induction xs generalizing i with
  | nil => simp at hx
  | cons z xs ih =>
    have same : List.SublistForall₂ (fun y x => PrunesTo ordered x y) xs xs :=
      List.sublistForall₂_iff.2 ⟨xs, List.forall₂_same.2 fun x _ => refl ordered x, List.Sublist.refl _⟩
    cases i with
    | zero => cases hx; exact .cons h same
    | succ i => exact .cons (refl ordered z) (ih (by simpa using hx))

/-- A map with one of its contents pruned. -/
theorem put {name : String} (hx : Entries.get? name es = some x) (h : PrunesTo ordered x y) :
    PrunesTo ordered (.map es) (.map (Entries.put name y es)) := by
  refine map_of_sublist ?_
  induction es with
  | nil => cases hx
  | cons e es ih =>
    have same : List.SublistForall₂ (fun f e : String × Value => f.1 = e.1 ∧ PrunesTo ordered e.2 f.2) es es :=
      List.sublistForall₂_iff.2
        ⟨es, List.forall₂_same.2 fun e _ => ⟨rfl, refl ordered e.2⟩, List.Sublist.refl _⟩
    by_cases hk : e.1 = name
    · simp only [Entries.get?, hk, if_true, Option.some.injEq] at hx
      simp only [Entries.put, hk, if_true]
      exact .cons ⟨hk.symm, hx ▸ h⟩ same
    · simp only [Entries.get?, hk, if_false] at hx
      simp only [Entries.put, hk, if_false]
      exact .cons ⟨rfl, refl ordered e.2⟩ (ih hx)

/-- A map with some of its entries. -/
theorem filter (test : String × Value → Bool) (es : List (String × Value)) :
    PrunesTo ordered (.map es) (.map (es.filter test)) :=
  map_of_sublist <| List.sublistForall₂_iff.2
    ⟨es.filter test, List.forall₂_same.2 fun e _ => ⟨rfl, refl ordered e.2⟩, List.filter_sublist⟩

end PrunesTo

end JsonSieve.Value
