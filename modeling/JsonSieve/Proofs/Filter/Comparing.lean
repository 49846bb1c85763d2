/-
Comparing two places of a value. One of the paths is followed by the filter, step by step, the other is read as
a whole and looked up in the root, which is the value. What is compared is therefore what both lead to, and since
equality of values is symmetric, either path may come first.
-/
import JsonSieve.Proofs.Filter.AtPath
import JsonSieve.Proofs.Filter.Root
import JsonSieve.Proofs.Path.Pieces
import JsonSieve.Proofs.Value.Equality
import JsonSieve.Proofs.Value.Within

namespace JsonSieve

variable {p q : Path} {v a b : Value}

/-- The text of a comparison of the values at two paths. -/
def comparisonOf (p q : Path) : Text :=
  p.text ++ ['='] ++ q.text

/-- The text of a path starts with a mark, so after an equality sign it is looked up. -/
theorem Filter.ofLiteral_text (hne : q ≠ []) (hq : ∀ step ∈ q, step.Writable) :
    ofLiteral q.text = .equalsAt q := by
  have hread : Path.parse q.text = .ok q := Path.parse_eq_ok_iff.2 (Path.spelled_text hq)
  unfold ofLiteral
  rw [hread]
  cases q with
  | nil => exact absurd rfl hne
  | cons step q => cases step <;> rfl

namespace Value

/-- What a comparison does with what the first path leads to: the other path is looked up, and what it leads to
is compared with it. -/
theorem filter_comparisonOf (hpne : p ≠ []) (hqne : q ≠ []) (hp : ∀ step ∈ p, step.Writable)
    (hq : ∀ step ∈ q, step.Writable) (ha : v.get p = .ok a) :
    v.filter (comparisonOf p q) =
      match v.get q with
      | .ok b => if b == a then return v else throw .noMatch
      | .error e => throw e := by
  have hrest : Text.Detached (['='] ++ q.text) := by rintro c ⟨⟩; decide
  have hlookup : Filter.parseRest (['='] ++ q.text) = .equalsAt q := by
    rw [Filter.parseRest_of_ne_nil (by simp), Filter.parse_eq]
    exact Filter.ofLiteral_text hqne hq
  rw [Filter.filter_eq_filterWithRoot, comparisonOf, List.append_assoc,
    filterWithRoot_eq_atPath .standard v v hpne hp hrest, hlookup, Filter.atPath, ha]
  cases hb : v.get q with
  | error e => simp only [Filter.apply, hb]; rfl
  | ok b =>
    -- what is at the first path passes unchanged, and setting that changes nothing
    have hback : (setWithin .standard a p v).after = v := after_of_get ha
    have hcompare : (Filter.equalsAt q).apply Filter.rootIfNeeded v a =
        if b == a then return a else throw .noMatch := by
      simp only [Filter.apply, hb]; rfl
    simp only [hcompare]
    cases b == a with
    | true => exact congrArg (pure : Value → Run Value) hback
    | false => rfl

theorem filter_comparisonOf_of_get (hpne : p ≠ []) (hqne : q ≠ []) (hp : ∀ step ∈ p, step.Writable)
    (hq : ∀ step ∈ q, step.Writable) (ha : v.get p = .ok a) (hb : v.get q = .ok b) :
    v.filter (comparisonOf p q) = if b == a then return v else throw .noMatch := by
  rw [filter_comparisonOf hpne hqne hp hq ha, hb]

/-- Two paths with an equality sign between them compare what stands there: equal values pass, others do not match,
and a second path that leads nowhere fails by the error of getting it. So two paths that lead to values can be
swapped, and each equals itself unless a float in it stands for no number. -/
theorem filter_compares_places (hv : v.keysOnce = true) (hpne : p ≠ []) (hqne : q ≠ [])
    (hp : ∀ step ∈ p, step.Writable) (hq : ∀ step ∈ q, step.Writable) :
    let compare (p q : Path) : Run Value := v.filter (comparisonOf p q)
    (∀ a, v.get p = .ok a →
      (∀ b, v.get q = .ok b → (a == b) = true → compare p q = return v) ∧
      (∀ b, v.get q = .ok b → (a == b) = false → compare p q = throw .noMatch) ∧
      ∀ e, v.get q = .error e → compare p q = throw e) ∧
    (∀ a b, v.get p = .ok a → v.get q = .ok b → compare q p = compare p q) ∧
    ∀ a, v.get p = .ok a → a.withoutNaN = true → compare p p = return v := by
  intro compare
  have hcomm {a b : Value} (ha : v.get p = .ok a) (hb : v.get q = .ok b) : (b == a) = (a == b) :=
    same_comm (keysOnce_of_get hv hb) (keysOnce_of_get hv ha)
  have hboth {a b : Value} (ha : v.get p = .ok a) (hb : v.get q = .ok b) :
      compare p q = if a == b then return v else throw .noMatch := by
    rw [← hcomm ha hb]
    exact filter_comparisonOf_of_get hpne hqne hp hq ha hb
  refine ⟨fun a ha => ⟨fun b hb hab => ?_, fun b hb hab => ?_, fun e he => ?_⟩, fun a b ha hb => ?_,
    fun a ha hnan => ?_⟩
  · rw [hboth ha hb, if_pos hab]
  · rw [hboth ha hb, if_neg (Bool.eq_false_iff.1 hab)]
  · refine (filter_comparisonOf hpne hqne hp hq ha).trans ?_
    rw [he]
  · rw [hboth ha hb]
    exact filter_comparisonOf_of_get hqne hpne hq hp hb ha
  · have hself : same a a = true := (same_self_iff (keysOnce_of_get hv ha)).2 hnan
    exact (filter_comparisonOf_of_get hpne hpne hp hp ha ha).trans (if_pos hself)

/-- Equal maps whose entries stand in different orders, a path that leads nowhere, and a float that stands for no
number and is not equal to itself. -/
theorem filter_compares_places_reordered :
    let v : Value := .map [("a", .map [("x", .list [.int 1]), ("y", .null)]),
      ("b", .list [.map [("y", .null), ("x", .list [.int 1])]]), ("x", .float .nan)]
    let p : Path := [.key "a", .key ""]
    let q : Path := [.key "b", .index 0]
    let r : Path := [.key "x", .index 2]
    let x : Path := [.key "x"]
    v.keysOnce = true ∧ (∀ step ∈ p ++ q ++ r ++ x, step.Writable) ∧ comparisonOf p q = ".a.=.b[0]".toList ∧
      v.filter (comparisonOf p q) = pure v ∧ v.filter (comparisonOf q p) = v.filter (comparisonOf p q) ∧
      v.filter (comparisonOf p p) = pure v ∧
      v.get r = .error .notAList ∧ v.filter (comparisonOf p r) = throw .notAList ∧
      (Value.float .nan == .float .nan) = false ∧ v.filter (comparisonOf x x) = throw .noMatch := by
  intro v p q r x
  have hv : v.keysOnce = true := by decide
  have hwritable : ∀ step ∈ p ++ q ++ r ++ x, step.Writable := by decide
  have hp : ∀ step ∈ p, step.Writable := by decide
  have hq : ∀ step ∈ q, step.Writable := by decide
  have hr : ∀ step ∈ r, step.Writable := by decide
  have hx : ∀ step ∈ x, step.Writable := by decide
  obtain ⟨hcompare, hswap, hself⟩ := filter_compares_places hv (List.cons_ne_nil _ _) (List.cons_ne_nil _ _) hp hq
  obtain ⟨hlist, -⟩ := filter_compares_places hv (List.cons_ne_nil _ _) (List.cons_ne_nil _ _) hp hr
  obtain ⟨hnan, -⟩ := filter_compares_places hv (List.cons_ne_nil _ _) (List.cons_ne_nil _ _) hx hx
  refine ⟨hv, hwritable, by decide, (hcompare _ rfl).1 _ rfl rfl, hswap _ _ rfl rfl, hself _ rfl rfl, rfl, ?_, rfl, ?_⟩
  · exact (hlist _ rfl).2.2 _ rfl
  · exact (hnan _ rfl).2.1 _ rfl rfl

end Value

end JsonSieve
