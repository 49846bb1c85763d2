/-
Entries in ascending order of keys. Where no key stands twice, both ways of ordering entries, one by
one and all at once, give the same: the one arrangement of the entries in which the keys ascend. What
is found under a key does not depend on the arrangement, and a change of the contents none on it.
-/
import JsonSieve.Value.Entries
import Mathlib.Data.List.Nodup
import Mathlib.Data.List.Perm.Basic

namespace JsonSieve.Entries

variable {α β : Type} {es fs : Entries α}

/-- Entries whose keys ascend, none of them standing twice. -/
def Ascending (es : Entries α) : Prop :=
  es.Pairwise fun a b => a.1 < b.1

theorem Ascending.nodup (h : Ascending es) : (keys es).Nodup :=
  List.pairwise_map.2 (List.Pairwise.imp (fun {_ _} hlt => String.ne_of_lt hlt) h)

/-- Entries can be arranged in ascending order in one way only. -/
theorem Ascending.eq_of_perm (he : Ascending es) (hf : Ascending fs) (h : es.Perm fs) : es = fs :=
  h.eq_of_pairwise (fun _ _ _ _ hab hba => absurd (String.lt_trans hab hba) (String.lt_irrefl _)) he hf

/-! ## All at once -/

theorem sorted_perm (es : Entries α) : (sorted es).Perm es :=
  List.mergeSort_perm es keyLe

theorem ascending_sorted (h : (keys es).Nodup) : Ascending (sorted es) := by
  have hle : (sorted es).Pairwise fun a b => keyLe a b = true := by
    refine List.pairwise_mergeSort (fun a b c hab hbc => ?_) (fun a b => ?_) es
    · simp only [keyLe, decide_eq_true_eq] at *
      exact String.le_trans hab hbc
    · simpa [keyLe] using String.le_total a.1 b.1
  have hne : (sorted es).Pairwise fun a b => a.1 ≠ b.1 :=
    List.pairwise_map.1 (((sorted_perm es).map _).nodup_iff.2 h)
  refine (hle.and hne).imp fun ⟨hab, hne⟩ => ?_
  by_contra hlt
  exact hne (String.le_antisymm (of_decide_eq_true hab) (String.not_lt.1 hlt))

/-- A change of the contents does not change the order. -/
theorem sorted_map (f : α → β) (es : Entries α) :
    sorted (es.map fun e => (e.1, f e.2)) = (sorted es).map fun e => (e.1, f e.2) :=
  (List.map_mergeSort (f := fun e : String × α => (e.1, f e.2)) fun _ _ _ _ => rfl).symm

/-! ## One by one -/

theorem putOrdered_perm {key : String} (h : key ∉ keys es) (x : α) :
    (putOrdered key x es).Perm ((key, x) :: es) := by
  induction es with
  | nil => exact .refl _
  | cons e es ih =>
    obtain ⟨hne, hrest⟩ := not_or.1 (mt List.mem_cons.2 h)
    rw [putOrdered, if_neg (Ne.symm hne)]
    split
    · exact .refl _
    · exact ((ih hrest).cons e).trans (.swap ..)

theorem mem_putOrdered {key : String} {x : α} {e : String × α} (h : e ∈ putOrdered key x es) :
    e = (key, x) ∨ e ∈ es := by
  induction es with
  | nil => exact .inl (List.mem_singleton.1 h)
  | cons f es ih =>
    rw [putOrdered] at h
    split at h
    · rename_i hk
      rcases List.mem_cons.1 h with rfl | h
      · exact .inl (by rw [hk])
      · exact .inr (List.mem_cons_of_mem _ h)
    · split at h
      · exact (List.mem_cons.1 h).imp_right id
      · rcases List.mem_cons.1 h with rfl | h
        · exact .inr List.mem_cons_self
        · exact (ih h).imp_right (List.mem_cons_of_mem _)

theorem Ascending.putOrdered (he : Ascending es) (key : String) (x : α) :
    Ascending (putOrdered key x es) := by
  induction es with
  | nil => exact List.pairwise_singleton _ _
  | cons e es ih =>
    obtain ⟨hhead, htail⟩ := List.pairwise_cons.1 he
    rw [Entries.putOrdered]
    split
    · exact List.pairwise_cons.2 ⟨hhead, htail⟩
    · rename_i hne
      split
      · rename_i hlt
        refine List.pairwise_cons.2 ⟨fun f hf => ?_, he⟩
        obtain rfl | hf := List.mem_cons.1 hf
        · exact hlt
        · exact String.lt_trans hlt (hhead f hf)
      · rename_i hnlt
        refine List.pairwise_cons.2 ⟨fun f hf => ?_, ih htail⟩
        obtain rfl | hf := mem_putOrdered hf
        · by_contra hlt
          exact hne (String.le_antisymm (String.not_lt.1 hnlt) (String.not_lt.1 hlt))
        · exact hhead f hf

theorem foldl_putOrdered_perm (h : (keys (fs ++ es)).Nodup) :
    (es.foldl (fun sorted e => putOrdered e.1 e.2 sorted) fs).Perm (fs ++ es) := by
  induction es generalizing fs with
  | nil => simp
  | cons e es ih =>
    have hmid : (keys (e :: (fs ++ es))).Nodup := ((List.perm_middle.map _).nodup_iff).1 h
    obtain ⟨hnew, hrest⟩ := List.nodup_cons.1 hmid
    have hfs : e.1 ∉ keys fs := fun hmem => hnew (by simp [keys] at hmem ⊢; tauto)
    have hperm := (putOrdered_perm hfs e.2).append_right es
    have hall := ih (((hperm.map _).nodup_iff).2 hmid)
    exact (hall.trans hperm).trans List.perm_middle.symm

/-- Ordered entries ascend, also where keys stood twice. -/
theorem ascending_ordered (es : Entries α) : Ascending (ordered es) := by
  have step : ∀ fs : Entries α, Ascending fs →
      Ascending (es.foldl (fun sorted e => putOrdered e.1 e.2 sorted) fs) := by
    induction es with
    | nil => exact fun fs hf => hf
    | cons e es ih => exact fun fs hf => ih _ (hf.putOrdered e.1 e.2)
  exact step [] .nil

theorem mem_of_ordered {e : String × α} (h : e ∈ ordered es) : e ∈ es := by
  have step : ∀ fs : Entries α, e ∈ es.foldl (fun sorted e => putOrdered e.1 e.2 sorted) fs →
      e ∈ fs ∨ e ∈ es := by
    clear h
    induction es with
    | nil => exact fun fs h => .inl h
    | cons f es ih =>
      intro fs h
      rcases ih _ h with h | h
      · rcases mem_putOrdered h with rfl | h
        · exact .inr List.mem_cons_self
        · exact .inl h
      · exact .inr (List.mem_cons_of_mem _ h)
  exact (step [] h).resolve_left List.not_mem_nil

theorem ordered_perm (h : (keys es).Nodup) : (ordered es).Perm es :=
  foldl_putOrdered_perm h

/-- Where no key stands twice, entries put in order one by one are the sorted entries. -/
theorem ordered_eq_sorted (h : (keys es).Nodup) : ordered es = sorted es := by
  have hperm := (ordered_perm h).trans (sorted_perm es).symm
  exact (ascending_ordered es).eq_of_perm (ascending_sorted h) hperm

/-- Ordering entries that are in order already changes nothing. -/
theorem ordered_sorted (h : (keys es).Nodup) : ordered (sorted es) = ordered es := by
  have hsorted := ascending_sorted h
  rw [ordered_eq_sorted hsorted.nodup, ordered_eq_sorted h]
  exact (ascending_sorted hsorted.nodup).eq_of_perm hsorted (sorted_perm _)

/-! ## Contents -/

theorem get?_eq_some_iff (h : (keys es).Nodup) {key : String} {x : α} :
    get? key es = some x ↔ (key, x) ∈ es := by
  induction es with
  | nil => simp [get?]
  | cons e es ih =>
    obtain ⟨hnew, hrest⟩ := List.nodup_cons.1 h
    rw [get?, List.mem_cons]
    split
    · rename_i hk
      have hnot : (key, x) ∉ es := fun hmem => hnew (List.mem_map.2 ⟨_, hmem, hk.symm⟩)
      simp [hnot, Prod.ext_iff, hk, eq_comm]
    · rename_i hk
      simp [ih hrest, Prod.ext_iff, Ne.symm hk]

/-- What is found under a key does not depend on the arrangement of the entries. -/
theorem get?_perm (h : (keys es).Nodup) (hperm : es.Perm fs) (key : String) :
    get? key es = get? key fs := by
  have hf : (keys fs).Nodup := (hperm.map _).nodup_iff.1 h
  refine Option.ext fun x => ?_
  rw [get?_eq_some_iff h, get?_eq_some_iff hf, hperm.mem_iff]

theorem get?_map (f : α → β) (key : String) (es : Entries α) :
    get? key (es.map fun e => (e.1, f e.2)) = (get? key es).map f := by
  induction es with
  | nil => rfl
  | cons e es ih =>
    rw [List.map_cons, get?, get?]
    split
    · rfl
    · exact ih

theorem keys_map (f : α → β) (es : Entries α) : keys (es.map fun e => (e.1, f e.2)) = keys es := by
  rw [keys, List.map_map]; rfl

end JsonSieve.Entries
