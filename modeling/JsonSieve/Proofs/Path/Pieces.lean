/-
Explicit paths are read exactly: a text is one if and only if it is a row of pieces, each of which spells
a step by itself. A piece starts with a mark that no name holds, so a row of pieces can be cut in one way
only, and the reader, which takes the longest piece each time, comes as far as any row of pieces does.
-/
import JsonSieve.Proofs.Path.Written
import Mathlib.Data.List.Forall2

namespace JsonSieve

/-! ## Pieces -/

/-- A text spells a step: a dot with letters and numbers after it, possibly none, or one or more digits in
brackets that denote a number of 64 bits. -/
inductive Step.Spelled : Step → Text → Prop
  | key {name : Text} (letters : ∀ c ∈ name, Unicode.isAlphanumeric c = true) :
      Spelled (.key (String.ofList name)) ('.' :: name)
  | index {digits : Text} (digit : ∀ c ∈ digits, c.isDigit = true) (nonempty : digits ≠ [])
      (fits : Text.value digits < UInt64.size) :
      Spelled (.index (.ofNat (Text.value digits))) ('[' :: (digits ++ [']']))

/-- A text spells a path: it is a row of pieces that spell the steps. -/
def Path.Spelled (path : Path) (s : Text) : Prop :=
  ∃ pieces, List.Forall₂ Step.Spelled path pieces ∧ pieces.flatten = s

/-- A text that cannot lengthen a name in front of it. -/
def Text.EndsName (s : Text) : Prop :=
  ∀ c, s.head? = some c → Unicode.isAlphanumeric c = false

variable {s rest piece : Text} {step : Step} {path path' : Path} {pieces pieces' : List Text}

theorem Step.Spelled.ne_nil (h : step.Spelled piece) : piece ≠ [] := by
  cases h <;> exact List.cons_ne_nil _ _

theorem Step.Spelled.endsName (h : step.Spelled piece) (s : Text) : Text.EndsName (piece ++ s) := by
  intro c hc
  cases h with
  | key => cases hc; decide
  | index => cases hc; decide

theorem Path.endsName_flatten (h : List.Forall₂ Step.Spelled path pieces) :
    Text.EndsName pieces.flatten := by
  cases h with
  | nil => intro c hc; cases hc
  | cons hstep _ => exact hstep.endsName _

/-! ## Reading pieces -/

namespace Path

/-- From a piece a step is read, and with it what follows only if that lengthens a name. -/
theorem step?_append (h : step.Spelled piece) (s : Text) :
    ∃ step' rest, step? (piece ++ s) = some (step', rest) ∧ rest.length ≤ s.length ∧
      (s.EndsName → step' = step ∧ rest = s) := by
  cases h with
  | key hletters =>
    rename_i name
    refine ⟨.key (String.ofList (name ++ s.takeWhile Unicode.isAlphanumeric)), _, ?_,
      (List.dropWhile_sublist Unicode.isAlphanumeric).length_le, fun hs => ?_⟩
    · have hindex : exactIndex? ('.' :: (name ++ s)) = none := rfl
      simp [step?, hindex, exactField?_append hletters]
    · cases s with
      | nil => simp
      | cons c s => simp [hs c rfl]
  | index hdigit hne hfits =>
    rename_i digits
    refine ⟨_, s, ?_, Nat.le_refl _, fun _ => ⟨rfl, rfl⟩⟩
    have hread := exactIndex?_digits hdigit hne hfits s
    simp [step?, hread]

theorem spelled_of_exactIndex? {i : UInt64} (h : exactIndex? s = some (i, rest)) :
    ∃ piece, (Step.index i).Spelled piece ∧ piece ++ rest = s := by
  unfold exactIndex? at h
  split at h
  · rename_i t
    dsimp only at h
    split at h
    · rename_i after hafter
      split at h
      · cases h
      · rename_i hne
        split at h
        · rename_i hfits
          cases h
          have ht : t.takeWhile Char.isDigit ++ ']' :: rest = t := by
            rw [← hafter, List.takeWhile_append_dropWhile]
          refine ⟨_, .index (fun c hc => List.mem_takeWhile_imp hc) (by simpa using hne) hfits, ?_⟩
          simp [ht]
        · cases h
    · cases h
  · cases h

theorem spelled_of_exactField? {name : Text} (h : exactField? s = some (name, rest)) :
    ∃ piece, (Step.key (String.ofList name)).Spelled piece ∧ piece ++ rest = s := by
  unfold exactField? at h
  split at h
  · cases h
    exact ⟨_, .key fun c hc => List.mem_takeWhile_imp hc, by simp⟩
  · cases h

/-- What is read as a step is a piece that spells it. -/
theorem spelled_of_step? (h : step? s = some (step, rest)) :
    ∃ piece, step.Spelled piece ∧ piece ++ rest = s := by
  unfold step? at h
  split at h
  · rename_i hi
    cases h
    exact spelled_of_exactIndex? hi
  · obtain ⟨⟨name, after⟩, hf, hstep⟩ := Option.map_eq_some_iff.1 h
    cases hstep
    exact spelled_of_exactField? hf

theorem steps_of_step? (h : step? s = some (step, rest)) :
    steps s = (step :: (steps rest).1, (steps rest).2) := by
  rw [steps]
  split
  · rename_i hnone
    rw [h] at hnone; cases hnone
  · rename_i hsome
    rw [h] at hsome; cases hsome; rfl

/-- What is read as a row of steps is a row of pieces. The induction is on what is left of the text. -/
theorem spelled_steps (s : Text) :
    ∃ pieces, List.Forall₂ Step.Spelled (steps s).1 pieces ∧ pieces.flatten ++ (steps s).2 = s := by
  fun_induction steps s with
  | case1 s h => exact ⟨[], .nil, rfl⟩
  | case2 s step after hstep path rest hsteps ih =>
    obtain ⟨piece, hpiece, rfl⟩ := spelled_of_step? hstep
    obtain ⟨pieces, hpieces, hafter⟩ := ih
    rw [hsteps] at hpieces hafter
    exact ⟨piece :: pieces, .cons hpiece hpieces, by rw [List.flatten_cons, List.append_assoc, hafter]⟩

theorem length_snd_steps_le (s : Text) : (steps s).2.length ≤ s.length := by
  obtain ⟨pieces, -, hs⟩ := spelled_steps s
  have hlength := congrArg List.length hs
  rw [List.length_append] at hlength
  omega

/-- No row of pieces that starts a text goes on further than the steps that are read. -/
theorem length_steps_le (h : List.Forall₂ Step.Spelled path pieces) (s : Text) :
    (steps (pieces.flatten ++ s)).2.length ≤ s.length := by
  induction h with
  | nil => exact length_snd_steps_le s
  | cons hpiece htail ih =>
    rename_i step piece path pieces
    rw [List.flatten_cons, List.append_assoc]
    obtain ⟨step', rest, hread, hlength, hends⟩ := step?_append hpiece (pieces.flatten ++ s)
    rw [steps_of_step? hread]
    cases htail with
    | nil =>
      -- the last piece may be a name that what follows lengthens, and then still more is read
      exact (length_snd_steps_le rest).trans hlength
    | cons hnext _ =>
      obtain ⟨-, rfl⟩ := hends (by
        rw [List.flatten_cons, List.append_assoc]; exact hnext.endsName _)
      exact ih

/-! ## Cutting a row of pieces -/

/-- A row of pieces can be cut into pieces in one way only, and spells one path only. -/
theorem pieces_unique (h : List.Forall₂ Step.Spelled path pieces)
    (h' : List.Forall₂ Step.Spelled path' pieces') (heq : pieces.flatten = pieces'.flatten) :
    pieces = pieces' ∧ path = path' := by
  induction h generalizing path' pieces' with
  | nil =>
    cases h' with
    | nil => exact ⟨rfl, rfl⟩
    | cons hpiece _ => exact absurd (List.append_eq_nil_iff.1 heq.symm).1 hpiece.ne_nil
  | cons hpiece htail ih =>
    rename_i step piece path pieces
    cases h' with
    | nil => exact absurd (List.append_eq_nil_iff.1 heq).1 hpiece.ne_nil
    | cons hpiece' htail' =>
      rename_i step' piece' path' pieces'
      rw [List.flatten_cons, List.flatten_cons] at heq
      obtain ⟨read, rest, hread, -, hends⟩ := step?_append hpiece pieces.flatten
      obtain ⟨read', rest', hread', -, hends'⟩ := step?_append hpiece' pieces'.flatten
      obtain ⟨rfl, rfl⟩ := hends (endsName_flatten htail)
      obtain ⟨rfl, rfl⟩ := hends' (endsName_flatten htail')
      rw [heq, hread'] at hread
      obtain ⟨hstep, hrest⟩ := Prod.mk.inj (Option.some.inj hread)
      obtain ⟨rfl, rfl⟩ := ih htail' hrest.symm
      exact ⟨by rw [List.append_cancel_right heq], by rw [hstep]⟩

/-! ## Whole texts -/

theorem parse_of_steps {path : Path} (h : steps s = (path, rest)) :
    parse s = if rest.isEmpty then .ok path else .error (.illegal (.notExplicit (String.ofList rest))) := by
  rw [parse, h]

theorem parse_eq_ok_iff : parse s = .ok path ↔ path.Spelled s := by
  obtain ⟨pieces, hpieces, hs⟩ := spelled_steps s
  rw [parse_of_steps rfl]
  constructor
  · intro h
    split at h
    · rename_i hrest
      cases h
      rw [List.isEmpty_iff.1 hrest, List.append_nil] at hs
      exact ⟨pieces, hpieces, hs⟩
    · cases h
  · rintro ⟨pieces', hpieces', hs'⟩
    -- no row of pieces goes on further, so nothing is left of the text
    have hlength := length_steps_le hpieces' []
    rw [List.append_nil, hs', List.length_nil, Nat.le_zero, List.length_eq_zero_iff] at hlength
    rw [hlength, List.append_nil, ← hs'] at hs
    rw [hlength, (pieces_unique hpieces hpieces' hs).2]
    rfl

/-- A text that is no row of pieces is refused for what follows the longest row that it starts with. -/
theorem parse_eq_error (h : ∀ path : Path, ¬ path.Spelled s) :
    ∃ front rest, front ++ rest = s ∧ (∃ path : Path, path.Spelled front) ∧
      (∀ other, other <+: s → (∃ path : Path, path.Spelled other) → other.length ≤ front.length) ∧
      parse s = .error (.illegal (.notExplicit (String.ofList rest))) := by
  obtain ⟨pieces, hpieces, hs⟩ := spelled_steps s
  refine ⟨pieces.flatten, (steps s).2, hs, ⟨_, pieces, hpieces, rfl⟩, ?_, ?_⟩
  · rintro _ ⟨after, rfl⟩ ⟨path, others, hothers, rfl⟩
    have hle := length_steps_le hothers after
    have hlength := congrArg List.length hs
    rw [List.length_append, List.length_append] at hlength
    omega
  · rw [parse_of_steps rfl, if_neg]
    intro hrest
    rw [List.isEmpty_iff.1 hrest, List.append_nil] at hs
    exact h _ ⟨pieces, hpieces, hs⟩

theorem message_notExplicit (rest : Text) (describe : String → Pattern.Flaw → Text) :
    (Error.illegal (.notExplicit (String.ofList rest))).message describe =
      "illegal operation: cannot use ".toList ++ Text.quoted rest ++ " in an explicit path".toList := by
  have hfront : "illegal operation: cannot use ".toList =
      "illegal operation: ".toList ++ "cannot use ".toList := by rw [← String.toList_append]; rfl
  unfold Error.message Illegal.message
  simp only [String.toList_ofList, hfront, List.append_assoc]

/-! ## Texts of paths -/

theorem spelled_text_step (h : step.Writable) : step.Spelled step.text := by
  cases step with
  | key name =>
    have hkey := Step.Spelled.key h
    rwa [String.ofList_toList] at hkey
  | index i =>
    have hindex : (Step.index (.ofNat (Text.value (Text.ofNat i.toNat)))).Spelled
        ('[' :: (Text.ofNat i.toNat ++ [']'])) := by
      refine .index (fun c => Text.isDigit_of_mem_ofNat) (Text.ofNat_ne_nil _) ?_
      rw [Text.value_ofNat]; exact i.toNat_lt
    rwa [Text.value_ofNat, UInt64.ofNat_toNat] at hindex

/-- The texts of the steps of a path are pieces. -/
theorem spelled_text (h : ∀ step ∈ path, step.Writable) : path.Spelled path.text := by
  refine ⟨path.map Step.text, ?_, rfl⟩
  rw [List.forall₂_map_right_iff, List.forall₂_same]
  exact fun step hmem => spelled_text_step (h step hmem)

/-- A piece without superfluous zeros in front of an index. -/
def plainPiece : Text → Text
  | '[' :: s => '[' :: (Text.plainDigits s.dropLast ++ [']'])
  | piece => piece

theorem text_of_spelled (h : step.Spelled piece) : step.text = plainPiece piece := by
  cases h with
  | key => simp [Step.text, plainPiece]
  | index hdigit hne hfits =>
    have hnat := UInt64.toNat_ofNat_of_lt' hfits
    simp [Step.text, plainPiece, hnat, Text.ofNat_value hdigit]

theorem text_eq_flatten (h : List.Forall₂ Step.Spelled path pieces) :
    path.text = (pieces.map plainPiece).flatten := by
  induction h with
  | nil => rfl
  | cons hpiece _ ih =>
    rw [List.map_cons, List.flatten_cons, ← ih, ← text_of_spelled hpiece]
    rfl

/-- A text is read as an explicit path just if it is a row of pieces, in one way only; any other is
refused with what follows the longest such row. The text of a path is the row without superfluous zeros,
and it is read back as the path. -/
theorem parse_exact (s : Text) :
    (∀ path, parse s = .ok path ↔ path.Spelled s) ∧
    (∀ (path path' : Path) pieces pieces', List.Forall₂ Step.Spelled path pieces → pieces.flatten = s →
      List.Forall₂ Step.Spelled path' pieces' → pieces'.flatten = s →
      pieces = pieces' ∧ path = path' ∧ path.text = (pieces.map plainPiece).flatten) ∧
    ((∀ path : Path, ¬ path.Spelled s) → ∃ front rest, front ++ rest = s ∧
      (∃ path : Path, path.Spelled front) ∧
      (∀ other, other <+: s → (∃ path : Path, path.Spelled other) → other.length ≤ front.length) ∧
      ∃ e : Error, parse s = .error e ∧ e = .illegal (.notExplicit (String.ofList rest)) ∧
        ∀ describe, e.message describe = "illegal operation: cannot use ".toList ++ Text.quoted rest ++
          " in an explicit path".toList) ∧
    ∀ path : Path, (∀ step ∈ path, step.Writable) → parse path.text = .ok path := by
  refine ⟨fun path => parse_eq_ok_iff, ?_, ?_, fun path hsteps => parse_eq_ok_iff.2 (spelled_text hsteps)⟩
  · intro path path' pieces pieces' h hs h' hs'
    obtain ⟨hpieces, hpath⟩ := pieces_unique h h' (hs.trans hs'.symm)
    exact ⟨hpieces, hpath, text_eq_flatten h⟩
  · intro hnone
    obtain ⟨front, rest, hfront, hspelled, hlongest, herror⟩ := parse_eq_error hnone
    exact ⟨front, rest, hfront, hspelled, hlongest, _, herror, rfl, message_notExplicit rest⟩

/-- A name, a bare dot, zeros in front of an index, and an index that is not closed. -/
theorem parse_exact_unclosed_index :
    let path : Path := [.key (String.ofList ['b']), .key (String.ofList []), .index 7]
    let pieces : List Text := [['.', 'b'], ['.'], ['[', '0', '0', '7', ']']]
    let unclosed : Text := ['.', 'b', '[', '1']
    List.Forall₂ Step.Spelled path pieces ∧ parse pieces.flatten = .ok path ∧
      path.text = ['.', 'b', '.', '[', '7', ']'] ∧
      (∀ step ∈ path, step.Writable) ∧ parse path.text = .ok path ∧
      (∀ path : Path, ¬ path.Spelled unclosed) ∧ ∃ front rest, front ++ rest = unclosed ∧
        parse unclosed = .error (.illegal (.notExplicit (String.ofList rest))) := by
  intro path pieces unclosed
  have hname : (Step.key (String.ofList ['b'])).Spelled ['.', 'b'] :=
    .key (List.all_eq_true.1 (by decide))
  have hdot : (Step.key (String.ofList [])).Spelled ['.'] := .key (List.forall_mem_nil _)
  have hindex : (Step.index 7).Spelled ['[', '0', '0', '7', ']'] :=
    @Step.Spelled.index ['0', '0', '7'] (List.all_eq_true.1 (by decide)) (by decide) (by decide)
  have hspelled : List.Forall₂ Step.Spelled path pieces := .cons hname (.cons hdot (.cons hindex .nil))
  have hwritable : ∀ step ∈ path, step.Writable := by decide
  have hnone : ∀ path : Path, ¬ path.Spelled unclosed := by
    intro path h
    have hfirst : step? unclosed = some (.key (String.ofList ['b']), ['[', '1']) := rfl
    have hsteps : steps unclosed = ([.key (String.ofList ['b'])], ['[', '1']) := by
      rw [steps_of_step? hfirst, steps]; rfl
    have hrefused := parse_of_steps hsteps
    rw [parse_eq_ok_iff.2 h] at hrefused
    cases hrefused
  obtain ⟨hread, hcut, -, hback⟩ := parse_exact pieces.flatten
  obtain ⟨-, -, herror, -⟩ := parse_exact unclosed
  obtain ⟨-, -, htext⟩ := hcut path path pieces pieces hspelled rfl hspelled rfl
  have hplain : (pieces.map plainPiece).flatten = ['.', 'b', '.', '[', '7', ']'] := by decide
  obtain ⟨front, rest, hfront, -, -, e, he, rfl, -⟩ := herror hnone
  exact ⟨hspelled, (hread path).2 ⟨pieces, hspelled, rfl⟩, htext.trans hplain, hwritable,
    hback path hwritable, hnone, front, rest, hfront, he⟩

end Path

end JsonSieve
