/-
Equality of values, container by container. It is symmetric, also where the entries of maps stand in
different orders, and a value is equal to itself unless a float in it stands for no number.
-/
import JsonSieve.Proofs.Value.Order
import JsonSieve.Proofs.Value.Tree
import Mathlib.Data.List.Forall2

namespace JsonSieve.Value

variable {v w : Value} {xs ys : List Value} {es fs : List (String × Value)}

/-! ## Container by container -/

theorem sameItems_iff : sameItems xs ys = true ↔ List.Forall₂ (fun x y => same x y = true) xs ys := by
  induction xs generalizing ys with
  | nil =>
    cases ys with
    | nil => simp [sameItems]
    | cons y ys => simp [sameItems]
  | cons x xs ih =>
    cases ys with
    | nil => simp [sameItems]
    | cons y ys => rw [sameItems, Bool.and_eq_true, ih, List.forall₂_cons]

theorem sameEntries_iff :
    sameEntries es fs = true ↔ ∀ e ∈ es, ∃ y, Entries.get? e.1 fs = some y ∧ same e.2 y = true := by
  induction es with
  | nil => simp [sameEntries]
  | cons e es ih =>
    rw [sameEntries, Bool.and_eq_true, ih, List.forall_mem_cons]
    refine and_congr_left fun _ => ?_
    cases Entries.get? e.1 fs with
    | none => simp
    | some y => simp

theorem same_map_iff : same (.map es) (.map fs) = true ↔ es.length = fs.length ∧
    ∀ e ∈ es, ∃ y, Entries.get? e.1 fs = some y ∧ same e.2 y = true := by
  rw [same, Bool.and_eq_true, sameEntries_iff, beq_iff_eq]

/-! ## Equality to itself -/

theorem numericallyEqual_self_iff {x : Double} : x.numericallyEqual x = true ↔ x.isNaN = false := by
  simp [Double.numericallyEqual]

/-- A value is equal to itself unless some float in it stands for no number. -/
theorem same_self_iff (hkeys : v.keysOnce = true) : same v v = true ↔ v.withoutNaN = true := by
  induction v using parts_induction with
  | null => exact iff_of_true rfl rfl
  | bool b => exact iff_of_true (beq_self_eq_true b) rfl
  | int i => exact iff_of_true (beq_self_eq_true i) rfl
  | float x => simp [same, numericallyEqual_self_iff, withoutNaN, all]
  | string s => exact iff_of_true (beq_self_eq_true s) rfl
  | list items ih =>
    rw [same, sameItems_iff, List.forall₂_same, withoutNaN_list]
    exact forall₂_congr fun x hx => ih x hx (keysOnce_list hkeys x hx)
  | map entries ih =>
    obtain ⟨hnodup, hcontents⟩ := keysOnce_map hkeys
    rw [same_map_iff, and_iff_right rfl, withoutNaN_map]
    refine forall₂_congr fun e he => ?_
    have hget : Entries.get? e.1 entries = some e.2 := (Entries.get?_eq_some_iff hnodup).2 he
    simp only [hget, Option.some.injEq, exists_eq_left', ih e he (hcontents e he)]

theorem isNaN_of_isFinite {x : Double} (h : x.isFinite = true) : x.isNaN = false := by
  have hlt : x.magnitude < Double.infinityMagnitude := of_decide_eq_true h
  exact decide_eq_false (by omega)

theorem withoutNaN_of_floatsFinite (h : v.floatsFinite = true) : v.withoutNaN = true := by
  induction v using parts_induction with
  | float x => simp [withoutNaN, all, isNaN_of_isFinite h]
  | list items ih => exact withoutNaN_list.2 fun x hx => ih x hx (floatsFinite_list h x hx)
  | map entries ih => exact withoutNaN_map.2 fun e he => ih e he (floatsFinite_map h e he)
  | _ => rfl

theorem same_self (hkeys : v.keysOnce = true) (hfloats : v.floatsFinite = true) :
    same v v = true :=
  (same_self_iff hkeys).2 (withoutNaN_of_floatsFinite hfloats)

/-! ## Symmetry -/

theorem numericallyEqual_comm (x y : Double) : x.numericallyEqual y = y.numericallyEqual x := by
  rw [Double.numericallyEqual, Double.numericallyEqual, Bool.and_comm (!x.isNaN),
    Bool.and_comm (x.magnitude == 0), Bool.beq_comm]

/-- Equal maps have the same keys: as many of them, and the keys of one are among those of the other. -/
theorem keys_perm_of_same (hkeys : (Entries.keys es).Nodup) (h : same (.map es) (.map fs) = true) :
    (Entries.keys es).Perm (Entries.keys fs) := by
  obtain ⟨hlength, hcontents⟩ := same_map_iff.1 h
  have hsubset : Entries.keys es ⊆ Entries.keys fs := by
    intro key hkey
    obtain ⟨e, he, rfl⟩ := List.mem_map.1 hkey
    obtain ⟨y, hy, -⟩ := hcontents e he
    exact List.mem_map.2 ⟨_, Entries.mem_of_get? hy, rfl⟩
  exact (List.subperm_of_subset hkeys hsubset).perm_of_length_le (by simp [Entries.keys, hlength])

theorem same_symm (hv : v.keysOnce = true) (hw : w.keysOnce = true) (h : same v w = true) :
    same w v = true := by
  induction v using parts_induction generalizing w with
  | null =>
    cases w with
    | null => exact h
    | _ => cases h
  | bool b =>
    cases w with
    | bool c => exact Bool.beq_comm.trans h
    | _ => cases h
  | int i =>
    cases w with
    | int j => exact Bool.beq_comm.trans h
    | _ => cases h
  | float x =>
    cases w with
    | float y => exact (numericallyEqual_comm y x).trans h
    | _ => cases h
  | string s =>
    cases w with
    | string t => exact Bool.beq_comm.trans h
    | _ => cases h
  | list xs ih =>
    cases w with
    | list ys =>
      rw [same, sameItems_iff, List.forall₂_iff_get] at h ⊢
      obtain ⟨hlength, hsame⟩ := h
      refine ⟨hlength.symm, fun i hi hj => ih _ (List.get_mem ..) ?_ ?_ (hsame i hj hi)⟩
      · exact keysOnce_list hv _ (List.get_mem ..)
      · exact keysOnce_list hw _ (List.get_mem ..)
    | _ => cases h
  | map es ih =>
    cases w with
    | map fs =>
      obtain ⟨hes, hecontents⟩ := keysOnce_map hv
      obtain ⟨hfs, hfcontents⟩ := keysOnce_map hw
      have hkeys := keys_perm_of_same hes h
      obtain ⟨hlength, hsame⟩ := same_map_iff.1 h
      refine same_map_iff.2 ⟨hlength.symm, fun f hf => ?_⟩
      -- an entry of the other map stands under a key of this one, whose content is equal to it
      obtain ⟨e, he, hkey⟩ := List.mem_map.1 (hkeys.mem_iff.2 (List.mem_map_of_mem (f := (·.1)) hf))
      obtain ⟨y, hy, hey⟩ := hsame e he
      rw [hkey, (Entries.get?_eq_some_iff hfs).2 hf] at hy
      cases hy
      refine ⟨e.2, ?_, ih e he (hecontents e he) (hfcontents f hf) hey⟩
      rw [← hkey]
      exact (Entries.get?_eq_some_iff hes).2 he
    | _ => cases h

/-- Equality of values does not depend on which of the two comes first. -/
theorem same_comm (hv : v.keysOnce = true) (hw : w.keysOnce = true) : same v w = same w v :=
  Bool.eq_iff_iff.2 ⟨same_symm hv hw, same_symm hw hv⟩

end JsonSieve.Value
