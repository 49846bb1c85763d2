/-
Copies. An assignment in braces whose sides are explicit paths reads the value at the source before it sets
anything, so what was at the source is then at the destination, even where one of the two lies inside the other.
Where they are independent, the setting leaves the source alone, and a second copy finds everything in place. A
side spells a path without any of the characters that end a side, so the two sides are read as they are written.
-/
import JsonSieve.Proofs.Path.Lens
import JsonSieve.Proofs.Path.Pieces
import JsonSieve.Proofs.Text.Cut
import JsonSieve.Proofs.Transform.AtPath

namespace JsonSieve

variable {path p q : Path} {step : Step} {piece s dest src : Text} {v v' w : Value}

/-! ## The sides of an assignment -/

theorem endsSide_of_isAlphanumeric {c : Char} (h : Unicode.isAlphanumeric c = true) : endsSide c = false := by
  have hequals : c ≠ '=' := by rintro rfl; revert h; decide
  have hbrace : c ≠ '}' := by rintro rfl; revert h; decide
  simp [endsSide, hequals, hbrace]

theorem endsSide_of_isDigit {c : Char} (h : c.isDigit = true) : endsSide c = false := by
  have hequals : c ≠ '=' := by rintro rfl; revert h; decide
  have hbrace : c ≠ '}' := by rintro rfl; revert h; decide
  simp [endsSide, hequals, hbrace]

theorem Step.Spelled.endsSide (h : step.Spelled piece) : ∀ c ∈ piece, endsSide c = false := by
  cases h with
  | key hletters =>
    exact List.forall_mem_cons.2 ⟨by decide, fun c hc => endsSide_of_isAlphanumeric (hletters c hc)⟩
  | index hdigit =>
    refine List.forall_mem_cons.2 ⟨by decide, List.forall_mem_append.2 ⟨fun c hc => ?_, ?_⟩⟩
    · exact endsSide_of_isDigit (hdigit c hc)
    · exact List.forall_mem_singleton.2 (by decide)

/-- No character of an explicit path ends a side. -/
theorem Path.endsSide_of_parse (h : Path.parse s = .ok path) : ∀ c ∈ s, endsSide c = false := by
  obtain ⟨pieces, hpieces, rfl⟩ := Path.parse_eq_ok_iff.1 h
  clear h
  induction hpieces with
  | nil => exact List.forall_mem_nil _
  | cons hpiece _ ih => exact List.forall_mem_append.2 ⟨hpiece.endsSide, ih⟩

/-- A side ends at the first character that ends sides. -/
theorem side_append {c : Char} (hs : ∀ c ∈ s, endsSide c = false) (hc : endsSide c = true) (rest : Text) :
    (s ++ c :: rest).takeWhile (!endsSide ·) = s ∧ (s ++ c :: rest).dropWhile (!endsSide ·) = c :: rest := by
  have hside : ∀ c ∈ s, (!endsSide c) = true := fun c hmem => by rw [hs c hmem]; rfl
  refine Text.takeWhile_dropWhile_iff.2 ⟨hside, ?_, rfl⟩
  rintro d ⟨⟩
  rw [hc]; rfl

/-- The text of an assignment. -/
def assignmentOf (dest src : Text) : Text :=
  ['{'] ++ dest ++ ['='] ++ src ++ ['}']

theorem assignment?_assignmentOf (hdest : ∀ c ∈ dest, endsSide c = false) (hsrc : ∀ c ∈ src, endsSide c = false) :
    assignment? (assignmentOf dest src) = some (dest, src) := by
  obtain ⟨htake, hdrop⟩ := side_append hdest (c := '=') (by decide) (src ++ ['}'])
  obtain ⟨htake', hdrop'⟩ := side_append hsrc (c := '}') (by decide) []
  have htext : assignmentOf dest src = '{' :: (dest ++ '=' :: (src ++ ['}'])) := by simp [assignmentOf]
  simp only [htext, assignment?, htake, hdrop, htake', hdrop']

theorem Transform.parse_assignmentOf (hdest : Path.parse dest = .ok p) (hsrc : Path.parse src = .ok q) :
    parse (assignmentOf dest src) = .copy p q := by
  have hform : Form.of (assignmentOf dest src) = .assignment dest src := by
    have hassign := assignment?_assignmentOf (Path.endsSide_of_parse hdest) (Path.endsSide_of_parse hsrc)
    show Form.ofOperand (assignmentOf dest src) = .assignment dest src
    unfold Form.ofOperand
    rw [hassign]
    rfl
  rw [parse_eq, hform, ofForm, ofSides, hdest, hsrc]

/-- A path that ends in a bare dot is spelled by a text that does. -/
theorem Path.Spelled.getLast? (h : path.Spelled s) (hlast : path.getLast? = some (.key "")) :
    s.getLast? = some '.' := by
  obtain ⟨pieces, hpieces, rfl⟩ := h
  induction hpieces with
  | nil => cases hlast
  | cons hpiece htail ih =>
    cases htail with
    | nil =>
      cases hlast
      generalize hstep : Step.key "" = step at hpiece
      cases hpiece with
      | @key name =>
        -- the name is empty, so the piece is the dot alone
        have hname : name = [] := String.ofList_eq_empty_iff.1 (Step.key.inj hstep).symm
        rw [hname]
        rfl
      | index => cases hstep
    | cons hnext htail =>
      rw [List.getLast?_cons_cons] at hlast
      rw [List.flatten_cons, List.getLast?_append, ih hlast]
      rfl

namespace Value

/-! ## Copies -/

theorem result_copyWithin_eq_ok_iff {grants : Reservation} :
    (Transform.copyWithin grants p q v).result = .ok v' ↔
      ∃ w, v.get q = .ok w ∧ (setWithin grants w p v).error = none ∧ (setWithin grants w p v).after = v' := by
  unfold Transform.copyWithin
  cases v.get q with
  | error e => simp [Attempt.result]
  | ok w => simp [Attempt.result_eq_ok]

/-- An assignment that succeeds leaves at the destination what the source led to before, even if one of the two lies
inside the other. If they are independent the source still leads to that, and assigning again changes nothing. -/
theorem copy_reads_back (grants : Reservation) (hdest : Path.parse dest = .ok p) (hsrc : Path.parse src = .ok q)
    (hdot : dest.getLast? ≠ some '.') (v : Value) :
    let copy (v : Value) : Except Error Value := (v.transform grants (assignmentOf dest src)).result
    ∀ v', copy v = .ok v' → ∃ w, v.get q = .ok w ∧ v'.get p = .ok w ∧
      (p.Independent q → v'.get q = .ok w ∧ copy v' = .ok v') := by
  intro copy v' hcopy
  have hcopies (u : Value) : copy u = (Transform.copyWithin grants p q u).result := by
    unfold copy transform
    rw [Transform.parse_assignmentOf hdest hsrc]
    rfl
  have hfits (w : Value) : Fits p w :=
    fun hlast => absurd ((Path.parse_eq_ok_iff.1 hdest).getLast? hlast) hdot
  rw [hcopies] at hcopy
  obtain ⟨w, hw, herror, rfl⟩ := result_copyWithin_eq_ok_iff.1 hcopy
  have hback : (setWithin grants w p v).after.get p = .ok w := get_after_set (hfits w) herror
  refine ⟨w, hw, hback, fun hpq => ?_⟩
  have hkept : (setWithin grants w p v).after.get q = .ok w := (get_after_of_part hpq.part herror).1 w hw
  refine ⟨hkept, ?_⟩
  rw [hcopies]
  exact result_copyWithin_eq_ok_iff.2 ⟨w, hkept, error_of_get hback w, after_of_get hback⟩

/-- A map copied into itself, and an item copied past the end of a new list, twice. -/
theorem copy_reads_back_inside :
    let x : Value := map [("z", list [.int 1, .int 2])]
    let v : Value := map [("x", x)]
    let nested : Value := map [("x", map [("z", list [x, .int 2])])]
    let grown : Value := map [("x", x), ("y", list [.null, .int 2])]
    let into : Text := assignmentOf ".x.z[0]".toList ".x".toList
    let beside : Text := assignmentOf ".y[1]".toList ".x..z[01]".toList
    (v.transform .standard into).result = .ok nested ∧ nested.get [.key "x", .key "z", .index 0] = .ok x ∧
      (v.transform .standard beside).result = .ok grown ∧ grown.get [.key "y", .index 1] = .ok (.int 2) ∧
      Path.Independent [.key "y", .index 1] [.key "x", .key "", .key "z", .index 1] ∧
      grown.get [.key "x", .key "", .key "z", .index 1] = .ok (.int 2) ∧
      (grown.transform .standard beside).result = .ok grown := by
  intro x v nested grown into beside
  have hitem : Path.parse ".x.z[0]".toList = .ok [.key "x", .key "z", .index 0] := by decide +kernel
  have hx : Path.parse ".x".toList = .ok [.key "x"] := by decide +kernel
  have hy : Path.parse ".y[1]".toList = .ok [.key "y", .index 1] := by decide +kernel
  have hz : Path.parse ".x..z[01]".toList = .ok [.key "x", .key "", .key "z", .index 1] := by decide +kernel
  have hnested : (v.transform .standard into).result = .ok nested := by decide +kernel
  have hgrown : (v.transform .standard beside).result = .ok grown := by decide +kernel
  have hpq : Path.Independent [.key "y", .index 1] [.key "x", .key "", .key "z", .index 1] := by
    constructor <;> decide
  obtain ⟨w, hw, hback, -⟩ := copy_reads_back .standard hitem hx (by decide) v nested hnested
  cases hw
  obtain ⟨w, hw, hback', hagain⟩ := copy_reads_back .standard hy hz (by decide) v grown hgrown
  cases hw
  exact ⟨hnested, hback, hgrown, hback', hpq, hagain hpq⟩

end Value

end JsonSieve
