/-
Refusals of transforms: the errors with which a transform fails on every value that comes to it. As for filters, each
is found when the directive is read, in a contiguous piece of it that is refused as a whole. A transform fails by an
error of the data, because a list cannot grow, or by one of its refusals, so for both kinds of directives a text that is
not recognized is such a piece.
-/
import JsonSieve.Proofs.Filter.Steady
import JsonSieve.Proofs.Path.Agreement
import JsonSieve.Proofs.Transform.AtPath

namespace JsonSieve

namespace Transform

variable {d : Text} {e : Error}

/-! ## Refused pieces -/

/-- The errors with which a transform refuses values. -/
def refusals : Transform → List Error
  | .refuse e => [e]
  | .everyItem rest | .everyField rest | .item _ rest | .field _ rest => rest.refusals
  | .copy _ _ => []

/-- An assignment is a copy, or one of its sides is no path. -/
theorem ofSides_cases (dest src : Text) :
    (∃ p q, ofSides dest src = .copy p q) ∨ ∃ cause, ofSides dest src = .refuse (.illegal cause) := by
  unfold ofSides
  rcases Path.parse_cases dest with ⟨p, hdest⟩ | ⟨cause, hdest⟩
  · rcases Path.parse_cases src with ⟨q, hsrc⟩ | ⟨cause, hsrc⟩
    · rw [hdest, hsrc]; exact .inl ⟨p, q, rfl⟩
    · rw [hdest, hsrc]; exact .inr ⟨cause, rfl⟩
  · rw [hdest]; exact .inr ⟨cause, rfl⟩

/-- A refusal is that of the whole directive or comes from what its form leaves to read. -/
theorem mem_refusals_parse (h : e ∈ (parse d).refusals) :
    parse d = .refuse e ∨ ∃ rest, (Form.of d).rest? = some rest ∧ e ∈ (parse rest).refusals := by
  have hwhole {e' : Error} (hparse : parse d = .refuse e') : parse d = .refuse e := by
    rw [hparse, refusals, List.mem_singleton] at h
    rw [hparse, h]
  have hparse := parse_eq d
  cases hform : Form.of d with
  | empty => rw [hform] at hparse; exact .inl (hwhole hparse)
  | unknown => rw [hform] at hparse; exact .inl (hwhole hparse)
  | assignment dest src =>
    rw [hform, ofForm] at hparse
    rcases ofSides_cases dest src with ⟨p, q, hcopy⟩ | ⟨cause, hrefuse⟩
    · rw [hparse, hcopy] at h; cases h
    · exact .inl (hwhole (hparse.trans hrefuse))
  | everyItem rest => rw [hparse, hform] at h; exact .inr ⟨rest, rfl, h⟩
  | everyField rest => rw [hparse, hform] at h; exact .inr ⟨rest, rfl, h⟩
  | item i rest => rw [hparse, hform] at h; exact .inr ⟨rest, rfl, h⟩
  | field name rest => rw [hparse, hform] at h; exact .inr ⟨rest, rfl, h⟩

theorem exists_refused_piece (d : Text) (h : e ∈ (parse d).refusals) :
    ∃ piece, piece <:+: d ∧ parse piece = .refuse e := by
  rcases mem_refusals_parse h with hwhole | ⟨rest, hrest, hmem⟩
  · exact ⟨d, List.infix_refl d, hwhole⟩
  · obtain ⟨piece, hpiece, hparse⟩ := exists_refused_piece rest hmem
    exact ⟨piece, hpiece.trans (Form.suffix_of_rest? hrest).isInfix, hparse⟩
termination_by d.length
decreasing_by exact Form.length_of_rest? hrest

/-- A text that is not recognized is named as it is. -/
theorem eq_of_parse_unrecognized {t : String} (h : parse d = .refuse (.unrecognized t)) : d = t.toList := by
  have hfits := Form.fits_of d
  rw [parse_eq] at h
  cases hform : Form.of d with
  | empty => rw [hform] at h hfits; cases h; exact hfits
  | unknown => rw [hform] at h; cases h; rw [String.toList_ofList]
  | assignment dest src =>
    rw [hform, ofForm] at h
    rcases ofSides_cases dest src with ⟨p, q, hcopy⟩ | ⟨cause, hrefuse⟩
    · rw [hcopy] at h; cases h
    · rw [hrefuse] at h; cases h
  | everyItem rest => rw [hform] at h; cases h
  | everyField rest => rw [hform] at h; cases h
  | item i rest => rw [hform] at h; cases h
  | field name rest => rw [hform] at h; cases h

/-! ## Errors of a transform -/

/-- The errors by which a transform can fail: those of the data, that a list cannot grow, and its refusals. -/
inductive MayFailBy (t : Transform) : Error → Prop
  | data {e : Error} (he : e.isFatal = false) : MayFailBy t e
  | grow (i : UInt64) : MayFailBy t (.illegal (.cannotGrow i))
  | refused {e : Error} (he : e ∈ t.refusals) : MayFailBy t e

theorem MayFailBy.of_rest {t rest : Transform} (h : rest.MayFailBy e) (hrest : rest.refusals = t.refusals) :
    t.MayFailBy e := by
  cases h with
  | data he => exact .data he
  | grow i => exact .grow i
  | refused he => exact .refused (hrest ▸ he)

/-- The induction is on the transform; what comes up from a part is the error of the attempt on the part. -/
theorem mayFailBy_apply {grants : Reservation} (t : Transform) (v : Value)
    (h : (t.apply grants v).error = some e) : t.MayFailBy e := by
  induction t generalizing v with
  | everyItem rest ih =>
    cases v with
    | list items =>
      obtain ⟨x, -, hx⟩ := exists_of_changeItems h
      exact (ih x (Attempt.error_of_fatal? hx)).of_rest rfl
    | _ => cases h; exact .data rfl
  | everyField rest ih =>
    cases v with
    | map entries =>
      simp only [apply] at h
      rw [changeEntries_eq] at h
      obtain ⟨x, -, hx⟩ := exists_of_changeItems h
      exact (ih x (Attempt.error_of_fatal? hx)).of_rest rfl
    | _ => cases h; exact .data rfl
  | item i rest ih =>
    cases v with
    | list items =>
      simp only [apply] at h
      split at h
      · exact (ih _ (Attempt.error_of_fatal? h)).of_rest rfl
      · cases h
    | _ => cases h; exact .data rfl
  | field name rest ih =>
    cases v with
    | map entries =>
      simp only [apply] at h
      split at h
      · exact (ih _ (Attempt.error_of_fatal? h)).of_rest rfl
      · split at h
        · exact (ih _ (Attempt.error_of_fatal? h)).of_rest rfl
        · cases h
    | _ => cases h; exact .data rfl
  | copy dest src =>
    rw [apply, copyWithin] at h
    split at h
    · rcases Value.error_cases h with rfl | rfl | ⟨i, rfl⟩
      · exact .data rfl
      · exact .data rfl
      · exact .grow i
    · rename_i hget
      cases h
      exact .data (Value.isFatal_of_get_error hget)
  | refuse e' => cases h; exact .refused (List.mem_singleton_self _)

/-- A text that is not recognized is a contiguous piece of the directive, and is refused as a directive. -/
theorem parse_of_unrecognized {grants : Reservation} {v : Value} {t : String}
    (h : (v.transform grants d).error = some (.unrecognized t)) :
    t.toList <:+: d ∧ parse t.toList = .refuse (.unrecognized t) := by
  cases mayFailBy_apply (parse d) v h with
  | data he => cases he
  | refused he =>
    obtain ⟨piece, hpiece, hparse⟩ := exists_refused_piece d he
    rw [← eq_of_parse_unrecognized hparse]
    exact ⟨hpiece, hparse⟩

end Transform

/-- A directive, of a filter or a transform, that fails because a text is not recognized names a contiguous piece of
itself, and there is nothing to be done with that piece: as a directive of the same kind it fails in the same way on
every value, whatever the root is and whatever has been compiled before. So such an error lies in the directive. -/
theorem unrecognized_names_refused_piece (d : Text) :
    (∀ (v root : Value) (cache : PatternCache) (t : String),
      ((v.filterWithRoot root d).run cache).1 = .error (.unrecognized t) →
        t.toList <:+: d ∧ ∀ (w root' : Value) (cache' : PatternCache),
          (w.filterWithRoot root' t.toList).run cache' = (.error (.unrecognized t), cache')) ∧
    (∀ (grants : Reservation) (v : Value) (t : String), (v.transform grants d).error = some (.unrecognized t) →
      t.toList <:+: d ∧ ∀ (grants' : Reservation) (w : Value),
        w.transform grants' t.toList = ⟨w, some (.unrecognized t)⟩) ∧
    ∀ t : String, (Error.unrecognized t).isFatal = true := by
  refine ⟨fun v root cache t h => ?_, fun grants v t h => ?_, fun t => rfl⟩
  · obtain ⟨hpiece, hparse⟩ := Filter.parse_of_unrecognized h
    refine ⟨hpiece, fun w root' cache' => ?_⟩
    rw [Value.filterWithRoot, hparse]
    rfl
  · obtain ⟨hpiece, hparse⟩ := Transform.parse_of_unrecognized h
    refine ⟨hpiece, fun grants' w => ?_⟩
    rw [Value.transform, hparse]
    rfl

/-- An index past 64 bits in a member of a group, come to in a list, an empty member after one that passes, and the
empty rest of a transform that ends at a field. -/
theorem unrecognized_names_refused_piece_within :
    let within : Text := "[]{.a,[18446744073709551616]}".toList
    let large : String := "[18446744073709551616]"
    let group : Text := "{=1,}".toList
    let v : Value := .map [("a", .null)]
    ((Value.list [v]).filterWithRoot .null within |>.run .empty).1 = .error (.unrecognized large) ∧
      large.toList <:+: within ∧
      (∀ (w root : Value) (cache : PatternCache),
        (w.filterWithRoot root large.toList).run cache = (.error (.unrecognized large), cache)) ∧
      ((Value.int 1).filterWithRoot .null group |>.run .empty).1 = .error (.unrecognized "") ∧ [] <:+: group ∧
      (v.transform .standard ".a".toList).error = some (.unrecognized "") ∧
      ∀ (grants : Reservation) (w : Value), w.transform grants [] = ⟨w, some (.unrecognized "")⟩ := by
  intro within large group v
  have hwithin : ((Value.list [v]).filterWithRoot .null within |>.run .empty).1 = .error (.unrecognized large) := by decide +kernel
  have hgroup : ((Value.int 1).filterWithRoot .null group |>.run .empty).1 = .error (.unrecognized "") := by decide +kernel
  have hfield : (v.transform .standard ".a".toList).error = some (.unrecognized "") := by decide +kernel
  obtain ⟨hpiece, hfails⟩ := (unrecognized_names_refused_piece within).1 _ _ _ _ hwithin
  obtain ⟨hempty, -⟩ := (unrecognized_names_refused_piece group).1 _ _ _ _ hgroup
  obtain ⟨-, htransform⟩ := (unrecognized_names_refused_piece ".a".toList).2.1 _ _ _ hfield
  exact ⟨hwithin, hpiece, hfails, hgroup, hempty, hfield, htransform⟩

end JsonSieve
