/-
Refusals: the errors with which a filter fails on whatever value comes to it. Each of them is found when the
directive is read, in a contiguous piece of the directive that is refused as a whole (`exists_refused_piece`); and a
piece that is refused because it is not recognized is the text that the error names (`eq_of_parse_unrecognized`).
-/
import JsonSieve.Proofs.Filter.Parts

namespace JsonSieve.Filter

variable {d : Text} {e : Error}

/-- The errors with which a filter refuses values. -/
def refusals : Filter → List Error
  | .refuse e => [e]
  | .everyItem rest | .someItem rest | .everyField rest | .someField rest
  | .item _ rest | .field _ rest => rest.refusals
  | .member _ first others => first.refusals ++ others.refusals
  | .pass | .equals _ | .equalsAt _ | .cut _ => []

/-- A refusal is that of the whole directive or comes from a part of it. -/
theorem mem_refusals_parse (h : e ∈ (parse d).refusals) :
    parse d = .refuse e ∨ ∃ part ∈ (Form.of d).parts, e ∈ (parse part).refusals := by
  have hwhole {e' : Error} (hparse : parse d = .refuse e') : parse d = .refuse e := by
    rw [hparse, refusals, List.mem_singleton] at h
    rw [hparse, h]
  have hrest {rest : Text} (h : e ∈ (if rest.isEmpty then Filter.pass else parse rest).refusals) :
      ∃ part ∈ [rest], e ∈ (parse part).refusals := by
    split at h
    · cases h
    · exact ⟨rest, List.mem_singleton_self rest, h⟩
  have hparse := parse_eq d
  cases hform : Form.of d with
  | empty => rw [hform] at hparse; exact .inl (hwhole hparse)
  | unknown => rw [hform] at hparse; exact .inl (hwhole hparse)
  | comparison literal =>
    rw [hform, ofForm] at hparse
    obtain hequals | ⟨path, hequals⟩ | ⟨cause, hrefuse⟩ := ofLiteral_cases literal
    · rw [hparse, hequals] at h; cases h
    · rw [hparse, hequals] at h; cases h
    · exact .inl (hwhole (hparse.trans hrefuse))
  | everyItem rest => rw [hparse, hform] at h; exact .inr ⟨rest, List.mem_singleton_self rest, h⟩
  | someItem rest => rw [hparse, hform] at h; exact .inr ⟨rest, List.mem_singleton_self rest, h⟩
  | everyField rest => rw [hparse, hform] at h; exact .inr ⟨rest, List.mem_singleton_self rest, h⟩
  | someField rest => rw [hparse, hform] at h; exact .inr ⟨rest, List.mem_singleton_self rest, h⟩
  | item i rest => rw [hparse, hform] at h; exact .inr (hrest h)
  | field name rest => rw [hparse, hform] at h; exact .inr (hrest h)
  | group members =>
    rw [hparse, hform, ofForm, gathered_members refusals rfl fun _ _ _ => rfl] at h
    exact .inr (List.mem_flatMap.1 h)
  | cut tokens => rw [hparse, hform] at h; cases h

/-- The induction is on the parts of the directive. -/
theorem exists_refused_piece (h : e ∈ (parse d).refusals) : ∃ piece, piece <:+: d ∧ parse piece = .refuse e := by
  induction d using parts_induction with
  | step d ih =>
    rcases mem_refusals_parse h with hwhole | ⟨part, hpart, hmem⟩
    · exact ⟨d, List.infix_refl d, hwhole⟩
    · obtain ⟨piece, hpiece, hparse⟩ := ih part hpart hmem
      exact ⟨piece, hpiece.trans (Form.infix_of_mem_parts hpart), hparse⟩

/-- A text that is not recognized is named as it is. -/
theorem eq_of_parse_unrecognized {t : String} (h : parse d = .refuse (.unrecognized t)) : d = t.toList := by
  have hfits := Form.fits_of d
  rw [parse_eq] at h
  cases hform : Form.of d with
  | empty => rw [hform] at h hfits; cases h; exact hfits
  | unknown => rw [hform] at h; cases h; rw [String.toList_ofList]
  | comparison literal =>
    rw [hform, ofForm] at h
    obtain hequals | ⟨path, hequals⟩ | ⟨cause, hrefuse⟩ := ofLiteral_cases literal
    · rw [hequals] at h; cases h
    · rw [hequals] at h; cases h
    · rw [hrefuse] at h; cases h
  | group members =>
    rw [hform] at h
    cases members <;> cases h
  | everyItem rest => rw [hform] at h; cases h
  | someItem rest => rw [hform] at h; cases h
  | everyField rest => rw [hform] at h; cases h
  | someField rest => rw [hform] at h; cases h
  | item i rest => rw [hform] at h; cases h
  | field name rest => rw [hform] at h; cases h
  | cut tokens => rw [hform] at h; cases h

end JsonSieve.Filter
