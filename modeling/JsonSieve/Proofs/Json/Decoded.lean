/-
What decoding can give: the value of a document that was read holds each key of a map once, because
objects are kept in ascending order, and its floats are finite, because a number that is too large for a
double is no number and a whole number of 64 bits is not too large.
-/
import JsonSieve.Proofs.Double.Whole
import JsonSieve.Proofs.Value.ReadBack

namespace JsonSieve

/-! ## Documents -/

namespace Json

variable {rounding : Rounding}

/-- The value of a document holds each key once and finite floats only. -/
def Decodes (json : Json) : Prop :=
  (Value.ofJson json).keysOnce = true ∧ (Value.ofJson json).floatsFinite = true

theorem decodes_array {items : List Json} (h : ∀ x ∈ items, x.Decodes) : (array items).Decodes := by
  unfold Decodes
  rw [Value.ofJson, Value.ofJsonItems_eq_map]
  constructor
  · refine Value.all_list.2 ⟨rfl, fun v hv => ?_⟩
    obtain ⟨x, hx, rfl⟩ := List.mem_map.1 hv
    exact (h x hx).1
  · refine Value.all_list.2 ⟨rfl, fun v hv => ?_⟩
    obtain ⟨x, hx, rfl⟩ := List.mem_map.1 hv
    exact (h x hx).2

theorem decodes_object {members : List (String × Json)} (h : ∀ m ∈ members, m.2.Decodes) :
    (object (Entries.ordered members)).Decodes := by
  unfold Decodes
  rw [Value.ofJson, Value.ofJsonMembers_eq_map]
  constructor
  · refine Value.all_map.2 ⟨?_, fun e he => ?_⟩
    · simp only [decide_eq_true_eq, Entries.keys_map]
      exact (Entries.ascending_ordered members).nodup
    · obtain ⟨m, hm, rfl⟩ := List.mem_map.1 he
      exact (h m (Entries.mem_of_ordered hm)).1
  · refine Value.all_map.2 ⟨rfl, fun e he => ?_⟩
    obtain ⟨m, hm, rfl⟩ := List.mem_map.1 he
    exact (h m (Entries.mem_of_ordered hm)).2

theorem float_of_float? {numeral : Numeral} {n : Number} (h : numeral.float? rounding = some n) :
    ∃ x, n = .float x ∧ x.isFinite = true := by
  unfold Numeral.float? at h
  dsimp only at h
  split at h
  · rename_i hfinite
    cases h
    exact ⟨_, rfl, hfinite⟩
  · cases h

/-- Only a float that is finite, or a whole number, is read as a number. -/
theorem finite_of_number? {numeral : Numeral} {n : Number} (h : numeral.number? rounding = some n) :
    ∀ x, n = .float x → x.isFinite = true := by
  have float (hf : numeral.float? rounding = some n) : ∀ x, n = .float x → x.isFinite = true := by
    obtain ⟨y, rfl, hfinite⟩ := float_of_float? hf
    rintro x ⟨⟩
    exact hfinite
  unfold Numeral.number? at h
  split at h
  · dsimp only at h
    split at h
    · rename_i hsize
      split at h
      · cases h; simp
      · split at h
        · cases h; simp
        · cases h
          rintro x ⟨⟩
          exact (Double.isFinite_ofNat_iff true _).2 (hsize.trans_le Double.size_le_overflow)
    · exact float h
  · exact float h

theorem decodes_number {n : Number} (h : ∀ x, n = .float x → x.isFinite = true) :
    (number n).Decodes := by
  unfold Decodes
  rw [Value.ofJson]
  cases hint : n.int? with
  | some i => exact ⟨rfl, rfl⟩
  | none =>
    refine ⟨rfl, ?_⟩
    show n.toDouble.isFinite = true
    cases n with
    | natural n => exact (Double.isFinite_ofNat_iff false n.toNat).2 (n.toNat_lt.trans_le Double.size_le_overflow)
    | negative i => cases hint
    | float x => exact h x rfl

/-! ## Reading -/

section Parts

variable {α : Type} {part : Text → Option (α × Text)} {closing : Char} {holds : α → Prop}

theorem forall_of_partsWithin (hpart : ∀ s x rest, part s = some (x, rest) → holds x) {fuel : Nat}
    {s rest : Text} {xs : List α} (h : partsWithin part closing fuel s = some (xs, rest)) :
    ∀ x ∈ xs, holds x := by
  induction fuel generalizing s xs with
  | zero => cases h
  | succ fuel ih =>
    rw [partsWithin] at h
    obtain ⟨⟨y, rest₁⟩, hy, h⟩ := Option.bind_eq_some_iff.1 h
    dsimp only at h
    split at h
    · cases h
    · split at h
      · cases h
        intro x hx
        rw [List.mem_singleton.1 hx]
        exact hpart _ _ _ hy
      · split at h
        · obtain ⟨⟨ys, rest₂⟩, hys, h⟩ := Option.bind_eq_some_iff.1 h
          cases h
          intro x hx
          rcases List.mem_cons.1 hx with rfl | hx
          · exact hpart _ _ _ hy
          · exact ih hys x hx
        · cases h

theorem forall_of_parts (hpart : ∀ s x rest, part s = some (x, rest) → holds x) {s rest : Text}
    {xs : List α} (h : parts part closing s = some (xs, rest)) : ∀ x ∈ xs, holds x := by
  unfold parts at h
  split at h
  · cases h
  · split at h
    · cases h
      intro x hx
      cases hx
    · exact forall_of_partsWithin hpart h

end Parts

theorem content_of_member? {content : Text → Option (Json × Text)} {s rest : Text} {m : String × Json}
    (h : member? content s = some (m, rest)) : ∃ t rest', content t = some (m.2, rest') := by
  unfold member? at h
  split at h
  · obtain ⟨⟨key, rest₁⟩, -, h⟩ := Option.bind_eq_some_iff.1 h
    dsimp only at h
    split at h
    · rename_i rest₂ _
      obtain ⟨⟨x, rest₃⟩, hx, h⟩ := Option.bind_eq_some_iff.1 h
      cases h
      exact ⟨rest₂, rest₃, hx⟩
    · cases h
  · cases h

/-- What is read is a container whose parts are read with one container less, or a scalar; a number is what the
numeral at the start of the text, after white space, denotes. -/
theorem readWithin_cases {depth : Nat} {s rest : Text} {json : Json}
    (h : readWithin rounding depth s = some (json, rest)) :
    (∃ left items t, depth = left + 1 ∧ parts (readWithin rounding left) ']' t = some (items, rest) ∧
      json = .array items) ∨
    (∃ left members t, depth = left + 1 ∧
      parts (member? (readWithin rounding left)) '\x7d' t = some (members, rest) ∧
      json = .object (Entries.ordered members)) ∨
    (∃ numeral n, numeral? (skipBlanks s) = some (numeral, rest) ∧ numeral.number? rounding = some n ∧
      json = .number n) ∨
    (∃ t, json = .string t) ∨ json = .null ∨ ∃ b, json = .bool b := by
  unfold readWithin at h
  split at h
  · split at h
    · cases h
    · rename_i t _ _ left
      obtain ⟨⟨items, rest'⟩, hparts, heq⟩ := Option.map_eq_some_iff.1 h
      cases heq
      exact .inl ⟨left, items, t, rfl, hparts, rfl⟩
  · split at h
    · cases h
    · rename_i t _ _ left
      obtain ⟨⟨members, rest'⟩, hparts, heq⟩ := Option.map_eq_some_iff.1 h
      cases heq
      exact .inr (.inl ⟨left, members, t, rfl, hparts, rfl⟩)
  · obtain ⟨⟨t, rest'⟩, -, heq⟩ := Option.map_eq_some_iff.1 h
    cases heq
    exact .inr (.inr (.inr (.inl ⟨_, rfl⟩)))
  · cases h; exact .inr (.inr (.inr (.inr (.inl rfl))))
  · cases h; exact .inr (.inr (.inr (.inr (.inr ⟨_, rfl⟩))))
  · cases h; exact .inr (.inr (.inr (.inr (.inr ⟨_, rfl⟩))))
  · obtain ⟨⟨numeral, rest'⟩, hnumeral, h⟩ := Option.bind_eq_some_iff.1 h
    obtain ⟨n, hn, heq⟩ := Option.bind_eq_some_iff.1 h
    cases heq
    exact .inr (.inr (.inl ⟨numeral, n, hnumeral, hn, rfl⟩))

/-- The induction is on the containers that may still be opened. -/
theorem decodes_of_readWithin {depth : Nat} {s rest : Text} {json : Json}
    (h : readWithin rounding depth s = some (json, rest)) : json.Decodes := by
  induction depth using Nat.strong_induction_on generalizing s rest json with
  | _ depth ih =>
    obtain ⟨left, items, t, rfl, hparts, rfl⟩ | ⟨left, members, t, rfl, hparts, rfl⟩ |
      ⟨numeral, n, -, hn, rfl⟩ | ⟨t, rfl⟩ | rfl | ⟨b, rfl⟩ := readWithin_cases h
    · exact decodes_array (forall_of_parts (fun s x rest hx => ih left left.lt_succ_self hx) hparts)
    · refine decodes_object (forall_of_parts (fun s m rest hm => ?_) hparts)
      obtain ⟨t, rest', hx⟩ := content_of_member? hm
      exact ih left left.lt_succ_self hx
    · exact decodes_number (finite_of_number? hn)
    · exact ⟨rfl, rfl⟩
    · exact ⟨rfl, rfl⟩
    · exact ⟨rfl, rfl⟩

theorem decodes_of_readAll {input : Text} {json : Json} (h : json ∈ (readAll rounding input).1) : json.Decodes := by
  have step : ∀ fuel s, json ∈ (readAllWithin rounding fuel s).1 → json.Decodes := by
    intro fuel
    induction fuel with
    | zero => intro s h; cases h
    | succ fuel ih =>
      intro s h
      rw [readAllWithin] at h
      cases hnext : next rounding s with
      | finished => rw [hnext] at h; cases h
      | broken => rw [hnext] at h; cases h
      | document first rest =>
        rw [hnext] at h
        rcases List.mem_cons.1 h with rfl | h
        · unfold next at hnext
          split at hnext
          · cases hnext
          · split at hnext
            · cases hnext
            · rename_i hread
              split at hnext
              · cases hnext; exact decodes_of_readWithin hread
              · cases hnext
        · exact ih rest h
  exact step _ _ h

end Json

end JsonSieve
