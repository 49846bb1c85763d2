/-
Cuts: a cut that is written as its tokens after the mark, separated by commas, is cut into exactly these tokens
(`parse_cutOf`). Applied to a list, all tokens have to spell indices, and what is left are the items at these indices
in the order of the tokens; applied to a map, the tokens are keys, and it only matters which ones there are, so cuts
of a map can be made in any order.
-/
import JsonSieve.Filter.Apply
import JsonSieve.Proofs.Filter.Parts
import JsonSieve.Proofs.Text.Cut
import JsonSieve.Proofs.Text.Numeral
import Mathlib.Data.List.Forall2

namespace JsonSieve

variable {tokens : List Text}

/-! ## Indices -/

/-- Either all tokens spell indices, and these are read, or there is a first token that spells none, and it is named. -/
theorem cutIndices_cases (tokens : List Text) :
    (∃ indices, (∀ token ∈ tokens, ∃ i, Text.SpellsIndex token i) ∧
      List.Forall₂ Text.SpellsIndex tokens indices ∧ cutIndices tokens = .ok indices) ∨
    ∃ before token after, tokens = before ++ token :: after ∧ (∀ t ∈ before, ∃ i, Text.SpellsIndex t i) ∧
      (¬ ∃ i, Text.SpellsIndex token i) ∧
      cutIndices tokens = .error (.illegal (.cannotCutBy (String.ofList token))) := by
  induction tokens with
  | nil => exact .inl ⟨[], List.forall_mem_nil _, .nil, rfl⟩
  | cons token tokens ih =>
    cases hread : Text.unsigned? token with
    | none =>
      have htoken : ¬ ∃ i, Text.SpellsIndex token i := by simp [Text.exists_spellsIndex_iff, hread]
      exact .inr ⟨[], token, tokens, rfl, List.forall_mem_nil _, htoken, by rw [cutIndices, hread]⟩
    | some i =>
      have hi : Text.SpellsIndex token i := Text.unsigned?_eq_some_iff.1 hread
      rcases ih with ⟨indices, hall, hspelled, hok⟩ | ⟨before, t, after, rfl, hbefore, ht, herror⟩
      · refine .inl ⟨i :: indices, List.forall_mem_cons.2 ⟨⟨i, hi⟩, hall⟩, .cons hi hspelled, ?_⟩
        rw [cutIndices, hread, hok]
        rfl
      · refine .inr ⟨token :: before, t, after, rfl, List.forall_mem_cons.2 ⟨⟨i, hi⟩, hbefore⟩, ht, ?_⟩
        rw [cutIndices, hread, herror]
        rfl

/-! ## Cuts of a list -/

theorem Value.cut_list_of_spelled (h : ∀ token ∈ tokens, ∃ i, Text.SpellsIndex token i) (xs : List Value) :
    ∃ indices, List.Forall₂ Text.SpellsIndex tokens indices ∧
      (list xs).cut tokens = .ok (list (indices.filterMap fun i => xs[i.toNat]?)) := by
  rcases cutIndices_cases tokens with ⟨indices, -, hspelled, hok⟩ | ⟨before, token, after, rfl, -, htoken, -⟩
  · refine ⟨indices, hspelled, ?_⟩
    rw [cut, hok]
    rfl
  · exact absurd (h token (by simp)) htoken

theorem Value.cut_list_of_not_spelled (h : ∃ token ∈ tokens, ¬ ∃ i, Text.SpellsIndex token i) (xs : List Value) :
    ∃ before token after, tokens = before ++ token :: after ∧ (∀ t ∈ before, ∃ i, Text.SpellsIndex t i) ∧
      (¬ ∃ i, Text.SpellsIndex token i) ∧
      (list xs).cut tokens = .error (.illegal (.cannotCutBy (String.ofList token))) := by
  rcases cutIndices_cases tokens with ⟨-, hall, -⟩ | ⟨before, token, after, htokens, hbefore, htoken, herror⟩
  · obtain ⟨token, hmem, htoken⟩ := h
    exact absurd (hall token hmem) htoken
  · refine ⟨before, token, after, htokens, hbefore, htoken, ?_⟩
    rw [cut, herror]
    rfl

/-- A cut fails because it cannot be made, and not by the data alone. -/
theorem Value.illegal_of_cut_error {v : Value} {e : Error} (h : v.cut tokens = .error e) :
    ∃ cause, e = .illegal cause := by
  cases v with
  | list items =>
    rw [cut] at h
    rcases cutIndices_cases tokens with ⟨indices, -, -, hok⟩ | ⟨-, token, -, -, -, -, herror⟩
    · rw [hok] at h; cases h
    · rw [herror] at h; cases h; exact ⟨_, rfl⟩
  | map entries => cases h
  | _ => cases h; exact ⟨_, rfl⟩

/-! ## Cuts as they are written -/

/-- A cut, written as its tokens. -/
def Filter.cutOf (tokens : List Text) : Text :=
  '@' :: Text.joinWith [','] tokens

theorem Filter.parse_cutOf (hne : tokens ≠ []) (h : ∀ token ∈ tokens, ',' ∉ token) :
    parse (cutOf tokens) = .cut tokens := by
  have hform : Form.of (cutOf tokens) = .cut (Text.splitOn ',' (Text.joinWith [','] tokens)) := rfl
  rw [parse_eq, hform, Text.splitOn_joinWith hne h]
  rfl

namespace Value

theorem filterWithRoot_cutOf (hne : tokens ≠ []) (h : ∀ token ∈ tokens, ',' ∉ token) (v root : Value) :
    v.filterWithRoot root (Filter.cutOf tokens) = (v.cut tokens : Except Error Value) := by
  rw [filterWithRoot, Filter.parse_cutOf hne h]
  rfl

theorem filter_cutOf_map (hne : tokens ≠ []) (h : ∀ token ∈ tokens, ',' ∉ token) (entries : Entries Value) :
    (map entries).filter (Filter.cutOf tokens) = return map (entries.filter fun e => e.1.toList ∈ tokens) := by
  have hkept : entries.filter (fun e => tokens.contains e.1.toList) = entries.filter fun e => e.1.toList ∈ tokens :=
    List.filter_congr fun e _ => List.contains_eq_mem e.1.toList tokens
  rw [filter, filterWithRoot_cutOf hne h, cut, hkept]
  rfl

/-- What is left of a map after two cuts is named by both. -/
theorem filter_cutOf_twice {others : List Text} (hne : tokens ≠ []) (h : ∀ token ∈ tokens, ',' ∉ token)
    (hne' : others ≠ []) (h' : ∀ token ∈ others, ',' ∉ token) (entries : Entries Value) :
    ((map entries).filter (Filter.cutOf tokens) >>= (·.filter (Filter.cutOf others))) =
      return map (entries.filter fun e => e.1.toList ∈ tokens ∧ e.1.toList ∈ others) := by
  rw [filter_cutOf_map hne h, pure_bind, filter_cutOf_map hne' h', List.filter_filter]
  refine congrArg (fun es => (pure (map es) : Run Value)) (List.filter_congr fun e _ => ?_)
  rw [Bool.decide_and, Bool.and_comm]

/-- A cut leaves what is named: of a list the items at the indices that exist, in the order of the tokens and as often
as they are named, where the first token that is no index refuses the cut; of a map the entries whose key is a token.
So two cuts of a map can be made in either order. -/
theorem cut_leaves_what_is_named (hne : tokens ≠ []) (h : ∀ token ∈ tokens, ',' ∉ token) :
    let cut (tokens : List Text) (v : Value) : Run Value := v.filter (Filter.cutOf tokens)
    (∀ v root : Value, v.filterWithRoot root (Filter.cutOf tokens) = cut tokens v) ∧
    (∀ xs, (∀ token ∈ tokens, ∃ i, Text.SpellsIndex token i) →
      ∃ indices, List.Forall₂ Text.SpellsIndex tokens indices ∧
        cut tokens (list xs) = return list (indices.filterMap fun i => xs[i.toNat]?)) ∧
    (∀ xs, (∃ token ∈ tokens, ¬ ∃ i, Text.SpellsIndex token i) →
      ∃ before token after, tokens = before ++ token :: after ∧ (∀ t ∈ before, ∃ i, Text.SpellsIndex t i) ∧
        (¬ ∃ i, Text.SpellsIndex token i) ∧
        cut tokens (list xs) = throw (.illegal (.cannotCutBy (String.ofList token)))) ∧
    (∀ entries, cut tokens (map entries) = return map (entries.filter fun e => e.1.toList ∈ tokens)) ∧
    ∀ entries others, others ≠ [] → (∀ token ∈ others, ',' ∉ token) →
      let both : Value := map (entries.filter fun e => e.1.toList ∈ tokens ∧ e.1.toList ∈ others)
      (cut tokens (map entries) >>= cut others) = pure both ∧
        (cut others (map entries) >>= cut tokens) = pure both := by
  intro cut
  have hcut (v : Value) : cut tokens v = (v.cut tokens : Except Error Value) := filterWithRoot_cutOf hne h v _
  refine ⟨fun v root => (filterWithRoot_cutOf hne h v root).trans (hcut v).symm, fun xs hall => ?_, fun xs hsome => ?_,
    filter_cutOf_map hne h, fun entries others hothers hfree => ⟨?_, ?_⟩⟩
  · obtain ⟨indices, hspelled, hok⟩ := cut_list_of_spelled hall xs
    refine ⟨indices, hspelled, ?_⟩
    rw [hcut, hok]
    rfl
  · obtain ⟨before, token, after, htokens, hbefore, htoken, herror⟩ := cut_list_of_not_spelled hsome xs
    refine ⟨before, token, after, htokens, hbefore, htoken, ?_⟩
    rw [hcut, herror]
    rfl
  · exact filter_cutOf_twice hne h hothers hfree entries
  · refine (filter_cutOf_twice hothers hfree hne h entries).trans ?_
    exact congrArg (fun es => (pure (map es) : Run Value)) (List.filter_congr fun e _ => by simp [and_comm])

/-- Indices with a sign, with zeros in front, past the end and named twice; a negative index behind one past the end;
and keys of which one is named twice, one is empty and one is missing, and one is no key of the other cut. -/
theorem cut_leaves_what_is_named_repeated :
    let xs : List Value := [.int 1, .string "x"]
    let indices : List Text := ["+1".toList, "9".toList, "00".toList, "+1".toList]
    let negative : List Text := ["9".toList, "-1".toList, "x".toList]
    let keys : List Text := ["b".toList, [], "b".toList, "z".toList]
    let others : List Text := ["a".toList, "b".toList]
    let entries : Entries Value := [("a", .null), ("b", .bool true), ("", .int 0)]
    (∀ tokens ∈ [indices, negative, keys, others], tokens ≠ [] ∧ ∀ token ∈ tokens, ',' ∉ token) ∧
      (∀ token ∈ indices, ∃ i, Text.SpellsIndex token i) ∧
      (list xs).filter (Filter.cutOf indices) = pure (list [.string "x", .int 1, .string "x"]) ∧
      (∃ token ∈ negative, ¬ ∃ i, Text.SpellsIndex token i) ∧
      (list xs).filter (Filter.cutOf negative) = throw (.illegal (.cannotCutBy "-1")) ∧
      ((map entries).filter (Filter.cutOf keys) >>= (·.filter (Filter.cutOf others))) =
        pure (map [("b", .bool true)]) := by
  intro xs indices negative keys others entries
  have hspelled : ∀ token ∈ indices, ∃ i, Text.SpellsIndex token i := by decide
  have hrefused : ∃ token ∈ negative, ¬ ∃ i, Text.SpellsIndex token i := by decide
  obtain ⟨-, hlist, -⟩ := @cut_leaves_what_is_named indices (by decide) (by decide)
  obtain ⟨-, -, hrefuse, -⟩ := @cut_leaves_what_is_named negative (by decide) (by decide)
  obtain ⟨-, -, -, -, htwice⟩ := @cut_leaves_what_is_named keys (by decide) (by decide)
  refine ⟨by decide, hspelled, ?_, hrefused, ?_, (htwice entries others (by decide) (by decide)).1⟩
  · obtain ⟨found, hfound, hcut⟩ := hlist xs hspelled
    obtain rfl : found = [1, 9, 0, 1] :=
      List.right_unique_forall₂' (R := Text.SpellsIndex) (fun _ _ _ => Text.SpellsIndex.unique) hfound (by decide)
    exact hcut
  · obtain ⟨before, token, after, htokens, hbefore, htoken, hcut⟩ := hrefuse xs hrefused
    change ["9".toList, "-1".toList, "x".toList] = before ++ token :: after at htokens
    -- the first token spells an index and the second none, so it is the second that is named
    rcases before with _ | ⟨t, _ | ⟨t', before⟩⟩
    · cases htokens
      exact absurd (by decide) htoken
    · cases htokens
      exact hcut
    · obtain rfl : "-1".toList = t' := (List.cons.inj (List.cons.inj htokens).2).1
      exact absurd (hbefore "-1".toList (by simp)) (by decide)

end Value

end JsonSieve
