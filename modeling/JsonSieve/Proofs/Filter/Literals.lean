/-
What literals stand for. A literal in double quotes stands for the string between them, whatever is written there; an
integer, written in decimal, stands for itself and for the string that its text is; and a literal that does not start
like a path can only fail to match, unless it is a pattern that does not compile and a string is compared with it.
-/
import JsonSieve.Proofs.Filter.Steady
import JsonSieve.Proofs.Text.Numeral

namespace JsonSieve

/-! ## Literals -/

theorem Text.enclosedBy?_of_head?_ne {mark : Char} {s : Text} (h : s.head? ≠ some mark) :
    enclosedBy? mark s = none := by
  rw [Option.eq_none_iff_forall_ne_some]
  intro t ht
  rw [enclosedBy?_eq_some_iff.1 ht] at h
  exact h rfl

namespace Literal

theorem stringTest_between_quotes (t : Text) : stringTest ('"' :: (t ++ ['"'])) = .exactly t := by
  rw [stringTest, Text.enclosedBy?_eq_some_iff.2 rfl]

/-- A literal that starts with neither mark is compared as it is written. -/
theorem stringTest_of_unmarked {literal : Text} (hquote : literal.head? ≠ some '"')
    (hslash : literal.head? ≠ some '/') : stringTest literal = .exactly literal := by
  rw [stringTest, Text.enclosedBy?_of_head?_ne hquote, Text.enclosedBy?_of_head?_ne hslash]

theorem accepts_string_of_exactly {literal t : Text} (h : stringTest literal = .exactly t) (s : String) :
    accepts literal (.string s) = return s.toList == t := by
  rw [accepts, h]

/-- No number starts with a quote, so a literal between quotes stands for nothing but a string. -/
theorem accepts_between_quotes (t : Text) {v : Value} (hv : v ≠ .string (String.ofList t)) :
    accepts ('"' :: (t ++ ['"'])) v = return false := by
  cases v with
  | string s =>
    have hne : s.toList ≠ t := by
      rintro rfl
      exact hv (by rw [String.ofList_toList])
    rw [accepts_string_of_exactly (stringTest_between_quotes t), beq_false_of_ne hne]
  | _ => rfl

theorem accepts_decimal_int (i j : Int64) : accepts (Text.ofInt j.toInt) (.int i) = return decide (i = j) := by
  have hsame : (some j == some i) = decide (i = j) := by
    rw [Bool.eq_iff_iff, beq_iff_eq, decide_eq_true_iff, Option.some_inj]
    exact eq_comm
  rw [accepts, Text.signed?_ofInt, hsame]

theorem stringTest_decimal (j : Int64) : stringTest (Text.ofInt j.toInt) = .exactly (Text.ofInt j.toInt) :=
  stringTest_of_unmarked (Text.head?_ofInt_ne (by decide) rfl) (Text.head?_ofInt_ne (by decide) rfl)

/-- Comparing with a literal fails only if a string is compared with a pattern that does not compile. -/
theorem failsBy_accepts (literal : Text) (v : Value) :
    Run.FailsBy (fun e => ∃ (s p : String) (flaw : Pattern.Flaw), v = .string s ∧ literal = '/' :: (p.toList ++ ['/']) ∧
      Pattern.compile p.toList = .error flaw ∧ e = .invalidPattern p flaw) (accepts literal v) := by
  cases v with
  | string s =>
    refine Run.FailsBy.handedOn.accepts (fun p hp => Pattern.failsBy_isMatch fun flaw hflaw => ?_) (.string s)
    exact ⟨s, p, flaw, rfl, text_of_mem_patterns hp, hflaw, rfl⟩
  | _ => exact Run.FailsBy.handedOn.pure _

end Literal

/-! ## Comparisons -/

namespace Value

variable {literal : Text} {v : Value}

theorem filterWithRoot_literal (hdot : literal.head? ≠ some '.') (hbracket : literal.head? ≠ some '[')
    (v root : Value) :
    v.filterWithRoot root ('=' :: literal) =
      (do if ← Literal.accepts literal v then return v else throw .noMatch) := by
  have hform : Filter.Form.of ('=' :: literal) = .comparison literal := rfl
  rw [filterWithRoot, Filter.parse_eq, hform, Filter.ofForm, Filter.ofLiteral_of_not_path hdot hbracket]
  rfl

theorem filterWithRoot_literal_of_accepts (hdot : literal.head? ≠ some '.') (hbracket : literal.head? ≠ some '[')
    {accepted : Bool} (h : Literal.accepts literal v = return accepted) (root : Value) :
    v.filterWithRoot root ('=' :: literal) = if accepted then return v else throw .noMatch := by
  rw [filterWithRoot_literal hdot hbracket, h, pure_bind]

theorem filterWithRoot_between_quotes (t : Text) (root : Value) {accepted : Bool}
    (h : Literal.accepts ('"' :: (t ++ ['"'])) v = return accepted) :
    v.filterWithRoot root ('=' :: '"' :: (t ++ ['"'])) = if accepted then return v else throw .noMatch := by
  have hhead {c : Char} (hc : c ≠ '"') : ('"' :: (t ++ ['"'])).head? ≠ some c := by simpa using hc.symm
  exact filterWithRoot_literal_of_accepts (hhead (by decide)) (hhead (by decide)) h root

theorem filterWithRoot_decimal (j : Int64) (root : Value) {accepted : Bool}
    (h : Literal.accepts (Text.ofInt j.toInt) v = return accepted) :
    v.filterWithRoot root ('=' :: Text.ofInt j.toInt) = if accepted then return v else throw .noMatch :=
  filterWithRoot_literal_of_accepts (Text.head?_ofInt_ne (by decide) rfl) (Text.head?_ofInt_ne (by decide) rfl) h root

/-- What literals accept: a text between quotes the string that it is, and the decimal text of an integer that integer
and the string that is this text. A literal fails otherwise only by a pattern that does not compile and that a string
is compared with. -/
theorem literals_accept_what_they_denote :
    let compare (literal : Text) (v root : Value) : Run Value := v.filterWithRoot root ('=' :: literal)
    (∀ (t : Text) (v root : Value),
      (v = .string (String.ofList t) → compare ('"' :: (t ++ ['"'])) v root = return v) ∧
      (v ≠ .string (String.ofList t) → compare ('"' :: (t ++ ['"'])) v root = throw .noMatch)) ∧
    (∀ (j : Int64) (root : Value),
      let decimal := Text.ofInt j.toInt
      (∀ i, compare decimal (.int i) root = if i = j then return .int i else throw .noMatch) ∧
      (∀ s, compare decimal (.string s) root = if s.toList = decimal then return .string s else throw .noMatch) ∧
      ∀ v : Value, v.kind ∈ [Kind.null, .bool, .list, .map] → compare decimal v root = throw .noMatch) ∧
    ∀ literal : Text, literal.head? ≠ some '.' → literal.head? ≠ some '[' →
      ∀ (v root : Value) (cache : PatternCache) (e : Error), ((compare literal v root).run cache).1 = .error e →
        e = .noMatch ∨ ∃ (s p : String) (flaw : Pattern.Flaw), v = .string s ∧ literal = '/' :: (p.toList ++ ['/']) ∧
          Pattern.compile p.toList = .error flaw ∧ e = .invalidPattern p flaw := by
  refine ⟨fun t v root => ⟨?_, fun hv => ?_⟩, fun j root => ⟨fun i => ?_, fun s => ?_, fun v hv => ?_⟩,
    fun literal hdot hbracket v root => ?_⟩
  · rintro rfl
    have haccepts := Literal.accepts_string_of_exactly (Literal.stringTest_between_quotes t) (String.ofList t)
    rw [String.toList_ofList, beq_self_eq_true] at haccepts
    exact filterWithRoot_between_quotes t root haccepts
  · exact filterWithRoot_between_quotes t root (Literal.accepts_between_quotes t hv)
  · simpa using filterWithRoot_decimal j root (Literal.accepts_decimal_int i j)
  · have haccepts := Literal.accepts_string_of_exactly (Literal.stringTest_decimal j) s
    simpa using filterWithRoot_decimal j root haccepts
  · have haccepts : Literal.accepts (Text.ofInt j.toInt) v = return false := by
      cases v with
      | int i => simp [kind] at hv
      | float x => simp [kind] at hv
      | string s => simp [kind] at hv
      | _ => rfl
    exact filterWithRoot_decimal j root haccepts
  · change Run.FailsBy _ (v.filterWithRoot root ('=' :: literal))
    rw [filterWithRoot_literal hdot hbracket]
    refine Run.FailsBy.handedOn.passIf (Or.inl rfl) (fun cache e he => ?_) v
    exact .inr (Literal.failsBy_accepts literal v cache e he)

/-- A text that has quotes and slashes in it and starts like a path, the least integer of 64 bits, and a pattern with a
group that is not closed. -/
theorem literals_accept_what_they_denote_verbatim :
    let compare (literal : Text) (v : Value) : Run Value := v.filterWithRoot .null ('=' :: literal)
    let text : String := ".a\"=[/0]\"/"
    let quoted : Text := '"' :: (text.toList ++ ['"'])
    let least : Text := "-9223372036854775808".toList
    let unclosed : Text := "/a(/".toList
    compare quoted (.string text) = pure (.string text) ∧ compare quoted (.string ".a") = throw .noMatch ∧
      compare least (.int Int64.minValue) = pure (.int Int64.minValue) ∧ compare least (.list []) = throw .noMatch ∧
      ((compare unclosed (.string "a")).run .empty).1 = .error (.invalidPattern "a(" .malformed) ∧
      unclosed.head? ≠ some '.' ∧ unclosed.head? ≠ some '[' ∧ Pattern.compile "a(".toList = .error .malformed := by
  intro compare text quoted least unclosed
  have hrun : ((filterWithRoot (.string "a") .null ('=' :: unclosed)).run .empty).1 =
      .error (.invalidPattern "a(" .malformed) := by
    decide +kernel
  obtain ⟨hquoted, hdecimal, hfails⟩ := literals_accept_what_they_denote
  obtain ⟨hint, -, hkinds⟩ := hdecimal Int64.minValue .null
  have hpasses := (hquoted text.toList (.string text) .null).1 (by rw [String.ofList_toList])
  have hrejects := (hquoted text.toList (.string ".a") .null).2 (by simp [text])
  refine ⟨hpasses, hrejects, hint _, hkinds _ (by decide), hrun, by decide, by decide, ?_⟩
  rcases hfails unclosed (by decide) (by decide) _ _ _ _ hrun with he | ⟨s, p, flaw, -, -, hflaw, he⟩
  · cases he
  · cases he
    exact hflaw

end Value

end JsonSieve
