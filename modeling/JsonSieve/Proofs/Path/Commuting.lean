/-
Settings at independent addresses commute. What a setting that succeeds makes of a value does not depend
on the room that lists were granted, so it is told by steps alone (`Sets`): a step has a slot, and the
value is built around what the rest of the path makes of it. Two paths that part go the same way first,
through slots that both orders grow alike; where they part, neither step changes the slot of the other,
and building around two slots gives the same tree in either order. Only the order in which new keys have
come into a map is left of the order of the settings.
-/
import JsonSieve.Proofs.Path.Frame
import JsonSieve.Proofs.Value.Tree
import Mathlib.Logic.Basic

namespace JsonSieve

open Value (Blank SameTree blankFor blank_blankFor placed getElem?_placed get_around_of_ne
  get_around_self setWithin setWithin_step)

/-! ## Two entries and two items -/

namespace Entries

variable {α : Type} {key other : String} (entries : Entries α)

theorem keys_put_congr (key : String) (x y : α) : keys (put key x entries) = keys (put key y entries) := by
  have h := keys_put (x := y) (get?_put_self key x entries)
  rw [put_put] at h
  exact h.symm

/-- Two new keys come in the order in which they are put; nothing else depends on that order. -/
theorem keys_put_perm (h : other ≠ key) (x y : α) :
    (keys (put other y (put key x entries))).Perm (keys (put key x (put other y entries))) := by
  induction entries with
  | nil => simpa [put, h, Ne.symm h, keys] using List.Perm.swap other key []
  | cons entry rest ih =>
    obtain ⟨k, z⟩ := entry
    by_cases hk : k = key
    · subst hk
      simp [put, Ne.symm h]
    · by_cases ho : k = other
      · subst ho
        simp [put, h]
      · simp only [put, if_neg hk, if_neg ho]
        exact ih.cons k

theorem get?_put_comm (h : other ≠ key) (x y : α) (k : String) :
    get? k (put other y (put key x entries)) = get? k (put key x (put other y entries)) := by
  by_cases hk : k = key
  · subst hk
    rw [get?_put_of_ne (Ne.symm h), get?_put_self, get?_put_self]
  · by_cases ho : k = other
    · subst ho
      rw [get?_put_self, get?_put_of_ne h, get?_put_self]
    · rw [get?_put_of_ne ho, get?_put_of_ne hk, get?_put_of_ne hk, get?_put_of_ne ho]

end Entries

namespace Value

theorem length_placed (items : List Value) (n : Nat) (x : Value) :
    (placed items n x).length = max (n + 1) items.length := by
  unfold placed
  split
  · rw [List.length_set]; omega
  · rw [List.length_append, List.length_append, List.length_replicate, List.length_singleton]; omega

theorem placed_placed (items : List Value) (n : Nat) (x y : Value) :
    placed (placed items n x) n y = placed items n y := by
  refine List.ext_getElem? fun j => ?_
  rw [getElem?_placed, getElem?_placed, getElem?_placed, length_placed]
  by_cases hj : j = n
  · rw [if_pos hj, if_pos hj]
  · rw [if_neg hj, if_neg hj, if_neg hj, if_neg (by omega)]

/-- An item past another one is preceded by the same padding, whichever comes first. -/
theorem placed_comm {n m : Nat} (h : m ≠ n) (items : List Value) (x y : Value) :
    placed (placed items n x) m y = placed (placed items m y) n x := by
  refine List.ext_getElem? fun j => ?_
  rw [getElem?_placed, getElem?_placed, getElem?_placed, getElem?_placed, length_placed, length_placed]
  by_cases hn : j = n
  · rw [if_neg (by omega), if_pos hn, if_pos hn, if_neg (by omega)]
  · by_cases hm : j = m
    · rw [if_pos hm, if_neg hn, if_pos hm, if_neg (by omega)]
    · rw [if_neg hm, if_neg hn, if_neg hn, if_neg hm, ← ite_or, ← ite_or]
      exact if_congr (by omega) rfl rfl

end Value

/-! ## Around two parts -/

namespace Step

variable {s t : Step} {v x y : Value}

theorem around_around (s : Step) (v x y : Value) : s.around (s.around v x) y = s.around v y := by
  cases s with
  | key name =>
    cases v with
    | map entries => rw [around, around, around, Entries.put_put]
    | _ => rfl
  | index i =>
    cases v with
    | list items => rw [around, around, around, Value.placed_placed]
    | _ => rfl

theorem kind_around (s : Step) (v x : Value) : (s.around v x).kind = v.kind := by
  cases s <;> cases v <;> rfl

theorem around_congr (h : SameTree x y) (s : Step) (v : Value) :
    SameTree (s.around v x) (s.around v y) := by
  cases s with
  | key name =>
    cases v with
    | map entries =>
      refine .map (Entries.keys_put_congr entries name x y ▸ .refl _) fun key z w hz hw => ?_
      by_cases hk : key = name
      · subst hk
        rw [Entries.get?_put_self] at hz hw
        cases hz
        cases hw
        exact h
      · rw [Entries.get?_put_of_ne hk] at hz hw
        rw [hz] at hw
        cases hw
        exact .refl z
    | _ => exact .refl _
  | index i =>
    cases v with
    | list items =>
      refine .list ?_ fun j z w hz hw => ?_
      · rw [Value.length_placed, Value.length_placed]
      · rw [getElem?_placed] at hz hw
        by_cases hj : j = i.toNat
        · rw [if_pos hj] at hz hw
          cases hz
          cases hw
          exact h
        · rw [if_neg hj] at hz hw
          rw [hz] at hw
          cases hw
          exact .refl z
    | _ => exact .refl _

/-- Building around two parts gives the same tree in either order. -/
theorem around_comm (hst : t ≠ s) (v x y : Value) :
    SameTree (t.around (s.around v x) y) (s.around (t.around v y) x) := by
  cases v with
  | map entries =>
    cases s with
    | index i => cases t <;> exact .refl _
    | key name =>
      cases t with
      | index j => exact .refl _
      | key other =>
        have hne : other ≠ name := by rintro rfl; exact hst rfl
        refine .map (Entries.keys_put_perm entries hne x y) fun key z w hz hw => ?_
        rw [Entries.get?_put_comm entries hne, hw] at hz
        cases hz
        exact .refl z
  | list items =>
    cases s with
    | key name => cases t <;> exact .refl _
    | index i =>
      cases t with
      | key other => exact .refl _
      | index j =>
        have hne : j.toNat ≠ i.toNat := fun h => hst (by rw [UInt64.toNat_inj.1 h])
        rw [around, around, around, around, Value.placed_comm hne]
        exact .refl _
  | _ => cases s <;> cases t <;> exact .refl _

end Step

/-! ## Slots -/

namespace Step.Slot

variable {s t : Step} {p q : Path} {v slot slot' : Value}

theorem suits (h : s.Slot p v slot) : s.suits v = true := by
  rcases h with h | ⟨h, -⟩
  · obtain ⟨part, rebuild, hinto, -⟩ := Value.into_of_get_cons h
    exact suits_of_into hinto
  · cases hv : s.suits v with
    | true => rfl
    | false =>
      rcases error_of_not_suits hv with he | he
      · rw [Value.get_cons_error he] at h; cases h
      · rw [Value.get_cons_error he] at h; cases h

theorem unique (h : s.Slot p v slot) (h' : s.Slot p v slot') : slot = slot' := by
  rcases h with h | ⟨h, rfl⟩
  · rcases h' with h' | ⟨h', -⟩
    · rw [h] at h'; cases h'; rfl
    · rw [h] at h'; cases h'
  · rcases h' with h' | ⟨-, rfl⟩
    · rw [h] at h'; cases h'
    · rfl

end Step.Slot

/-! ## Settings that succeed -/

namespace Value

/-- What a setting that succeeds makes of a value, whatever room it was granted. -/
inductive Sets (new : Value) : Path → Value → Value → Prop
  | here {v : Value} : Sets new [] v new
  | dot {p : Path} {v w : Value} : v.kind = .map → Sets new p v w → Sets new (.key "" :: p) v w
  | step {s : Step} {p : Path} {v slot x : Value} : s ≠ .key "" → s.Slot p v slot → Sets new p slot x →
      Sets new (s :: p) v (s.around v x)

variable {a b new v w slot x y : Value} {s t : Step} {p q : Path} {grants : Reservation}

theorem sets_of_error (h : (setWithin grants new p v).error = none) :
    Sets new p v (setWithin grants new p v).after := by
  induction p generalizing v with
  | nil => exact .here
  | cons s p ih =>
    by_cases hs : s = .key ""
    · subst hs
      cases v with
      | map entries =>
        rw [setWithin, if_pos rfl] at h ⊢
        exact .dot rfl (ih h)
      | _ => cases h
    · obtain ⟨slot, -, hslot, hinner, hafter⟩ := setWithin_step hs h
      rw [hafter]
      exact .step hs hslot (ih hinner)

namespace Sets

theorem exists_slot (hs : s ≠ .key "") (h : Sets new (s :: p) v w) :
    ∃ slot x, s.Slot p v slot ∧ Sets new p slot x ∧ w = s.around v x := by
  cases h with
  | dot => exact absurd rfl hs
  | step _ hslot hx => exact ⟨_, _, hslot, hx, rfl⟩

theorem of_dot (h : Sets new (.key "" :: p) v w) : v.kind = .map ∧ Sets new p v w := by
  cases h with
  | dot hv h => exact ⟨hv, h⟩
  | step hs => exact absurd rfl hs

theorem unique (h : Sets new p v w) {w' : Value} (h' : Sets new p v w') : w = w' := by
  induction h generalizing w' with
  | here => cases h'; rfl
  | dot _ _ ih => exact ih h'.of_dot.2
  | step hs hslot _ ih =>
    obtain ⟨slot', x', hslot', hx', rfl⟩ := h'.exists_slot hs
    cases hslot.unique hslot'
    rw [ih hx']

/-- Below a value a setting keeps its kind. -/
theorem kind_eq (h : Sets new p v w) (hp : p.core ≠ []) : w.kind = v.kind := by
  induction h with
  | here => exact absurd rfl hp
  | dot _ _ ih => exact ih (by rwa [Path.core_dot] at hp)
  | step => exact Step.kind_around _ _ _

/-- The value that is set into is of the kind that the path asks for. -/
theorem kind_blankFor (h : Sets new p v w) (hp : p ≠ []) : (blankFor p).kind = v.kind := by
  cases h with
  | here => exact absurd rfl hp
  | dot hv _ => exact hv.symm
  | @step s _ v _ _ _ hslot _ =>
    have hsuits := hslot.suits
    cases s with
    | key name => cases v with
      | map entries => rfl
      | _ => cases hsuits
    | index i => cases v with
      | list items => rfl
      | _ => cases hsuits

end Sets

theorem Blank.eq_of_kind (hv : v.Blank) (hw : w.Blank) (h : v.kind = w.kind) : v = w := by
  rcases hv with rfl | rfl | rfl <;> rcases hw with rfl | rfl | rfl <;> simp [kind] at h ⊢

/-! ## Slots of two settings -/

/-- Where two paths go the same way, both grow the same container. -/
theorem Sets.slot_eq (hpart : Path.Part p q) (hp : s.Slot p v slot) {slot' : Value} (hq : s.Slot q v slot')
    (hx : Sets a p slot x) (hy : Sets b q x y) : slot = slot' := by
  rcases hp with hp | ⟨hp, rfl⟩
  · rcases hq with hq | ⟨hq, -⟩
    · rw [hp] at hq; cases hq; rfl
    · rw [hp] at hq; cases hq
  · rcases hq with hq | ⟨-, rfl⟩
    · rw [hp] at hq; cases hq
    · have hne {r : Path} (hr : r.core ≠ []) : r ≠ [] := by rintro rfl; exact hr rfl
      obtain ⟨hpcore, hqcore⟩ := hpart.core_ne_nil
      refine (blank_blankFor p).eq_of_kind (blank_blankFor q) ?_
      rw [hy.kind_blankFor (hne hqcore), hx.kind_eq hpcore]

/-- Where two paths part, the second one finds the slot that it found before the first one was set: the
padding of a list can only be set itself. -/
theorem Sets.slot_eq_of_around (hs : s ≠ .key "") (ht : t ≠ .key "") (hts : t ≠ s) {part : Value}
    (hq : t.Slot q v slot) {slot' : Value} (hq' : t.Slot q (s.around v part) slot') (hy : Sets b q slot' y) :
    slot' = slot := by
  rcases get_around_of_ne hs ht hts v part with heq | ⟨hbefore, hafter, -⟩
  · unfold Step.Slot at hq'
    rw [heq] at hq'
    exact Step.Slot.unique hq' hq
  · rcases hq with hq | ⟨-, rfl⟩
    · rw [hbefore] at hq; cases hq
    · rcases hq' with hq' | ⟨hq', -⟩
      · rw [hafter] at hq'
        cases hq'
        cases q with
        | nil => rfl
        | cons u q => have := hy.kind_blankFor (List.cons_ne_nil u q); cases u <;> cases this
      · rw [hafter] at hq'; cases hq'

/-! ## Both orders -/

/-- The induction is on the way that the two paths go together before they part. -/
theorem Sets.comm (hpart : Path.Part p q) {w₁ w₂ w' : Value} (ha : Sets a p v w₁) (hab : Sets b q w₁ w)
    (hb : Sets b q v w₂) (hba : Sets a p w₂ w') : SameTree w w' := by
  induction hpart generalizing v w₁ w w₂ w' with
  | here hs ht hts =>
    obtain ⟨slot₁, x₁, hslot₁, hx₁, rfl⟩ := ha.exists_slot hs
    obtain ⟨slot₁', y₁, hslot₁', hy₁, rfl⟩ := hab.exists_slot ht
    obtain ⟨slot₂, y₂, hslot₂, hy₂, rfl⟩ := hb.exists_slot ht
    obtain ⟨slot₂', x₂, hslot₂', hx₂, rfl⟩ := hba.exists_slot hs
    cases slot_eq_of_around hs ht hts hslot₂ hslot₁' hy₁
    cases slot_eq_of_around ht hs (Ne.symm hts) hslot₁ hslot₂' hx₂
    cases hx₁.unique hx₂
    cases hy₁.unique hy₂
    exact Step.around_comm hts v x₁ y₁
  | @next s p q hs hpart ih =>
    obtain ⟨slot₁, x₁, hslot₁, hx₁, rfl⟩ := ha.exists_slot hs
    obtain ⟨slot₂, y₂, hslot₂, hy₂, rfl⟩ := hb.exists_slot hs
    obtain ⟨x₁', y₁, hslot₁', hy₁, rfl⟩ := hab.exists_slot hs
    obtain ⟨y₂', x₂, hslot₂', hx₂, rfl⟩ := hba.exists_slot hs
    -- the later setting goes on in what the earlier one has put into the slot
    cases Step.Slot.unique hslot₁' (.inl (get_around_self hs hslot₁.suits x₁))
    cases Step.Slot.unique hslot₂' (.inl (get_around_self hs hslot₂.suits y₂))
    cases slot_eq hpart hslot₁ hslot₂ hx₁ hy₁
    rw [Step.around_around, Step.around_around]
    exact Step.around_congr (ih hx₁ hy₁ hy₂ hx₂) s v
  | dotLeft _ ih => exact ih ha.of_dot.2 hab hb hba.of_dot.2
  | dotRight _ ih => exact ih ha hab.of_dot.2 hb.of_dot.2 hba

/-- Settings at two independent paths, where neither is a prefix of the other once bare dots are left out,
make the same tree of a value in either order, if both succeed in both orders, whatever room lists were
granted in each of the four settings. -/
theorem independent_settings_commute {p q : Path} (hpq : p.Independent q) (v a b : Value)
    (grants₁ grants₂ grants₃ grants₄ : Reservation)
    (ha : (setWithin grants₁ a p v).error = none)
    (hab : (setWithin grants₂ b q (setWithin grants₁ a p v).after).error = none)
    (hb : (setWithin grants₃ b q v).error = none)
    (hba : (setWithin grants₄ a p (setWithin grants₃ b q v).after).error = none) :
    SameTree (setWithin grants₂ b q (setWithin grants₁ a p v).after).after
      (setWithin grants₄ a p (setWithin grants₃ b q v).after).after :=
  (sets_of_error ha).comm hpq.part (sets_of_error hab) (sets_of_error hb) (sets_of_error hba)

/-- An index that is padding for the other one, and two keys of a map that either setting grows. -/
theorem independent_settings_commute_padding :
    let v : Value := .map [("k", .null)]
    let p : Path := [.key "a", .index 2, .key "m"]
    let q : Path := [.key "", .key "a", .index 0]
    let r : Path := [.key "a", .index 2, .key "", .key "n"]
    let set (new : Value) (path : Path) (v : Value) := setWithin .standard new path v
    let refused (new : Value) (path : Path) (v : Value) := setWithin (fun _ _ _ => false) new path v
    p.Independent q ∧ (set (.int 1) p v).error = none ∧
      (refused .null q (set (.int 1) p v).after).error = none ∧
      (set .null q v).error = none ∧ (set (.int 1) p (set .null q v).after).error = none ∧
      SameTree (refused .null q (set (.int 1) p v).after).after
        (set (.int 1) p (set .null q v).after).after ∧
      p.Independent r ∧ SameTree
        (.map [("k", .null), ("a", .list [.null, .null, .map [("m", .int 1), ("n", .null)]])])
        (.map [("k", .null), ("a", .list [.null, .null, .map [("n", .null), ("m", .int 1)]])]) := by
  intro v p q r set refused
  have hpq : p.Independent q := by constructor <;> decide
  have hpr : p.Independent r := by constructor <;> decide
  have ha : (set (.int 1) p v).error = none := by decide
  have hab : (refused .null q (set (.int 1) p v).after).error = none := by decide
  have hb : (set .null q v).error = none := by decide
  have hba : (set (.int 1) p (set .null q v).after).error = none := by decide
  exact ⟨hpq, ha, hab, hb, hba, independent_settings_commute hpq v _ _ _ _ _ _ ha hab hb hba, hpr,
    independent_settings_commute hpr v (.int 1) .null .standard (fun _ _ _ => false) .standard
      (fun _ _ _ => false) ha (by decide) (by decide) (by decide)⟩

end Value

end JsonSieve
