/-
Laws of the entries of a map: what is read after a content is put under a key, and which entries and
keys there are then.
-/
import JsonSieve.Value.Entries

namespace JsonSieve.Entries

variable {α : Type} {key : String} {x : α} {entries : Entries α}

/-- Putting back the content that a key has changes nothing. -/
theorem put_get? {key : String} {x : α} {entries : Entries α} (h : get? key entries = some x) :
    put key x entries = entries := by
  induction entries with
  | nil => cases h
  | cons entry rest ih =>
    obtain ⟨k, y⟩ := entry
    by_cases hk : k = key
    · rw [get?, if_pos hk] at h
      cases h
      rw [put, if_pos hk]
    · rw [get?, if_neg hk] at h
      rw [put, if_neg hk, ih h]

theorem get?_put_self (key : String) (x : α) (entries : Entries α) :
    get? key (put key x entries) = some x := by
  induction entries with
  | nil => simp [put, get?]
  | cons entry rest ih =>
    by_cases hk : entry.1 = key
    · simp [put, get?, hk]
    · simp [put, get?, hk, ih]

/-- The last of two contents that are put under a key stays. -/
theorem put_put (key : String) (x y : α) (entries : Entries α) :
    put key y (put key x entries) = put key y entries := by
  induction entries with
  | nil => simp [put]
  | cons entry rest ih =>
    by_cases hk : entry.1 = key
    · simp [put, hk]
    · simp [put, hk, ih]

/-- Putting a content under a key leaves the other keys. -/
theorem get?_put_of_ne {key other : String} (h : other ≠ key) (x : α) (entries : Entries α) :
    get? other (put key x entries) = get? other entries := by
  induction entries with
  | nil => simp [put, get?, Ne.symm h]
  | cons entry rest ih =>
    by_cases hk : entry.1 = key
    · simp [put, get?, hk, Ne.symm h]
    · simp [put, get?, hk, ih]

/-! ## Entries and keys -/

theorem mem_of_get? (h : get? key entries = some x) : (key, x) ∈ entries := by
  induction entries with
  | nil => cases h
  | cons entry rest ih =>
    obtain ⟨k, y⟩ := entry
    rw [get?] at h
    split at h
    · rename_i hk
      cases h; rw [hk]; exact List.mem_cons_self
    · exact List.mem_cons_of_mem _ (ih h)

theorem notMem_keys_of_get? (h : get? key entries = none) : key ∉ keys entries := by
  induction entries with
  | nil => exact List.not_mem_nil
  | cons entry rest ih =>
    obtain ⟨k, y⟩ := entry
    rw [get?] at h
    split at h
    · cases h
    · rename_i hk
      intro hm
      rcases List.mem_cons.1 hm with rfl | hm
      · exact hk rfl
      · exact ih h hm

theorem mem_put {e : String × α} (h : e ∈ put key x entries) : e = (key, x) ∨ e ∈ entries := by
  induction entries with
  | nil => exact .inl (List.mem_singleton.1 h)
  | cons entry rest ih =>
    obtain ⟨k, y⟩ := entry
    rw [put] at h
    split at h
    · rename_i hk
      rcases List.mem_cons.1 h with rfl | h
      · exact .inl (by rw [hk])
      · exact .inr (List.mem_cons_of_mem _ h)
    · rcases List.mem_cons.1 h with rfl | h
      · exact .inr List.mem_cons_self
      · exact (ih h).imp_right (List.mem_cons_of_mem _)

/-- The place of an old content is kept. -/
theorem keys_put {y : α} (h : get? key entries = some y) : keys (put key x entries) = keys entries := by
  induction entries with
  | nil => cases h
  | cons entry rest ih =>
    obtain ⟨k, z⟩ := entry
    rw [get?] at h
    rw [put]
    split at h
    · rename_i hk
      rw [if_pos hk]; rfl
    · rename_i hk
      rw [if_neg hk]
      exact congrArg (k :: ·) (ih h)

/-- A new key comes last. -/
theorem put_of_get?_none (h : get? key entries = none) : put key x entries = entries ++ [(key, x)] := by
  induction entries with
  | nil => rfl
  | cons entry rest ih =>
    obtain ⟨k, y⟩ := entry
    rw [get?] at h
    split at h
    · cases h
    · rename_i hk
      rw [put, if_neg hk, ih h]; rfl

end JsonSieve.Entries
