/-
What a filter directive leaves to read: every part of its form is a contiguous piece of the
directive, the filter of a directive is built from the filters of its parts (`parse_eq`), and so what
holds of a directive whenever it holds of its parts holds of every directive (`parts_induction`). With
that, each operator of the filter of a directive stands in the directive (`written_parse`).
-/
import JsonSieve.Filter.Basic

namespace JsonSieve

/-! ## Phrases in a text -/

/-- A phrase occurs in a text exactly if it is a contiguous piece of it. -/
theorem Text.occursIn_iff {phrase s : Text} : occursIn phrase s = true ↔ phrase <:+: s := by
  induction s with
  | nil => rw [occursIn, List.isEmpty_iff, List.infix_nil]
  | cons c s ih => rw [occursIn, Bool.or_eq_true, List.isPrefixOf_iff_prefix, ih, List.infix_cons_iff]

/-- What occurs in a piece of a text occurs in the text. -/
theorem Text.occursIn_of_infix {phrase s t : Text} (h : occursIn phrase s = true) (hst : s <:+: t) :
    occursIn phrase t = true :=
  occursIn_iff.2 ((occursIn_iff.1 h).trans hst)

/-! ## Pieces -/

theorem suffix_of_exactIndex? {s rest : Text} {i : UInt64} (h : exactIndex? s = some (i, rest)) :
    rest <:+ s := by
  unfold exactIndex? at h
  split at h
  · rename_i t
    dsimp only at h
    split at h
    · rename_i r hr
      have hsuffix : r <:+ '[' :: t :=
        (List.suffix_cons ']' r).trans (hr ▸ (List.dropWhile_suffix _).trans (List.suffix_cons '[' t))
      split at h
      · cases h
      · split at h
        · cases h; exact hsuffix
        · cases h
    · cases h
  · cases h

theorem suffix_of_exactField? {s name rest : Text} (h : exactField? s = some (name, rest)) :
    rest <:+ s := by
  unfold exactField? at h
  split at h
  · rename_i t
    cases h
    exact (List.dropWhile_suffix _).trans (List.suffix_cons '.' t)
  · cases h

/-- A text that is no explicit path cannot be used as one. -/
theorem Path.parse_cases (s : Text) :
    (∃ path, parse s = .ok path) ∨ ∃ cause, parse s = .error (.illegal cause) := by
  unfold parse
  dsimp only
  split
  · exact .inl ⟨_, rfl⟩
  · exact .inr ⟨_, rfl⟩

/-- The first member of a group starts the text after its opening brace, and the others lie further
on. -/
theorem pieces_of_membersFrom? {depth : Nat} {s member : Text} {others : List Text}
    (h : membersFrom? depth s = some (member :: others)) :
    member <+: s ∧ ∀ other ∈ others, other <:+: s := by
  fun_induction membersFrom? depth s generalizing member others with
  | case1 => cases h
  | case2 =>
    cases h
    refine ⟨List.nil_prefix, fun other ho => ?_⟩
    cases ho
  | case3 => cases h
  | case4 s ih =>
    -- a comma: the member ends here, and the first of the others is what starts after it
    obtain ⟨members, hs, hm⟩ := Option.map_eq_some_iff.1 h
    cases hm
    refine ⟨List.nil_prefix, fun other ho => ?_⟩
    cases others with
    | nil => cases ho
    | cons m ms =>
      obtain ⟨hfirst, hrest⟩ := ih hs
      rcases List.mem_cons.1 ho with rfl | ho
      · exact List.infix_cons hfirst.isInfix
      · exact List.infix_cons (hrest other ho)
  | case5 =>
    rename_i hs ih
    -- any other character lengthens the member that goes on after it
    cases h
    obtain ⟨hfirst, hrest⟩ := ih hs
    exact ⟨List.cons_prefix_cons.2 ⟨rfl, hfirst⟩, fun other ho => List.infix_cons (hrest other ho)⟩
  | case6 => cases h

theorem infix_of_group? {s : Text} {members : List Text} (h : group? s = some members) :
    ∀ member ∈ members, member <:+: s := by
  unfold group? at h
  split at h
  · rename_i t
    -- the opening brace stands before the first member, so that is a piece but no start of the text
    cases members with
    | nil => intro member hm; cases hm
    | cons m ms =>
      obtain ⟨hfirst, hrest⟩ := pieces_of_membersFrom? h
      intro member hm
      rcases List.mem_cons.1 hm with rfl | hm
      · exact List.infix_cons hfirst.isInfix
      · exact List.infix_cons (hrest member hm)
  · cases h

namespace Filter

/-- What the form of a directive says about the directive. -/
def Form.Fits (d : Text) : Form → Prop
  | .empty => d = []
  | .comparison literal => d = ['='] ++ literal
  | .everyItem rest => d = ['[', ']'] ++ rest
  | .someItem rest => d = ['[', 'E', ']'] ++ rest
  | .everyField rest => d = ['.', '(', ')'] ++ rest
  | .someField rest => d = ['.', '(', 'E', ')'] ++ rest
  | .item i rest => exactIndex? d = some (i, rest)
  | .field name rest => exactField? d = some (name, rest)
  | .group members => group? d = some members
  | .cut tokens => cutList? d = some tokens
  | .unknown => exactIndex? d = none ∧ exactField? d = none ∧ group? d = none ∧ cutList? d = none

theorem Form.fits_ofOperand (d : Text) : (Form.ofOperand d).Fits d := by
  unfold Form.ofOperand
  split
  · assumption
  · split
    · assumption
    · split
      · assumption
      · split
        · assumption
        · exact ⟨‹_›, ‹_›, ‹_›, ‹_›⟩

theorem Form.fits_of (d : Text) : (Form.of d).Fits d := by
  unfold Form.of
  split
  case h_7 => exact Form.fits_ofOperand d
  all_goals rfl

/-- What a form leaves to read is a contiguous piece of the directive. -/
theorem Form.infix_of_mem_parts {d part : Text} (h : part ∈ (Form.of d).parts) : part <:+: d := by
  have after {front rest : Text} (hd : d = front ++ rest) (hp : part ∈ [rest]) : part <:+: d := by
    rw [List.mem_singleton.1 hp, hd]; exact (List.suffix_append front rest).isInfix
  have hfits := Form.fits_of d
  cases hf : Form.of d with
  | everyItem rest => rw [hf] at h hfits; exact after hfits h
  | someItem rest => rw [hf] at h hfits; exact after hfits h
  | everyField rest => rw [hf] at h hfits; exact after hfits h
  | someField rest => rw [hf] at h hfits; exact after hfits h
  | item i rest =>
    rw [hf] at h hfits
    rw [List.mem_singleton.1 h]; exact (suffix_of_exactIndex? hfits).isInfix
  | field name rest =>
    rw [hf] at h hfits
    rw [List.mem_singleton.1 h]; exact (suffix_of_exactField? hfits).isInfix
  | group members => rw [hf] at h hfits; exact infix_of_group? hfits part h
  | empty => rw [hf] at h; cases h
  | comparison literal => rw [hf] at h; cases h
  | cut tokens => rw [hf] at h; cases h
  | unknown => rw [hf] at h; cases h

/-! ## The filter of a comparison -/

/-- A literal that does not start like a path is compared as it is. -/
theorem ofLiteral_of_not_path {literal : Text} (hdot : literal.head? ≠ some '.')
    (hbracket : literal.head? ≠ some '[') : ofLiteral literal = .equals literal := by
  unfold ofLiteral
  split
  · exact absurd rfl hdot
  · exact absurd rfl hbracket
  · rfl

/-- A literal is compared as it is, or looked up as a path, or it starts like a path and is none. -/
theorem ofLiteral_cases (literal : Text) :
    ofLiteral literal = .equals literal ∨ (∃ path, ofLiteral literal = .equalsAt path) ∨
      ∃ cause, ofLiteral literal = .refuse (.illegal cause) := by
  unfold ofLiteral
  rcases Path.parse_cases literal with ⟨path, h⟩ | ⟨cause, h⟩
  · rw [h]
    split
    · exact .inr (.inl ⟨path, rfl⟩)
    · exact .inr (.inl ⟨path, rfl⟩)
    · exact .inl rfl
  · rw [h]
    split
    · exact .inr (.inr ⟨cause, rfl⟩)
    · exact .inr (.inr ⟨cause, rfl⟩)
    · exact .inl rfl

/-- What holds of every comparison with a literal or with the value at a path, and of every refusal, holds of the filter
of a comparison. -/
@[elab_as_elim]
theorem ofLiteral_elim {motive : Filter → Prop} (equals : ∀ literal, motive (.equals literal))
    (equalsAt : ∀ path, motive (.equalsAt path)) (refuse : ∀ e, motive (.refuse e)) (literal : Text) :
    motive (ofLiteral literal) := by
  rcases ofLiteral_cases literal with h | ⟨path, h⟩ | ⟨cause, h⟩
  · rw [h]; exact equals literal
  · rw [h]; exact equalsAt path
  · rw [h]; exact refuse _

/-! ## The filter of a directive, from the filters of its parts -/

/-- The filter of a directive, given its form. -/
def ofForm (d : Text) : Form → Filter
  | .empty => .refuse (.unrecognized "")
  | .comparison literal => ofLiteral literal
  | .everyItem rest => .everyItem (parse rest)
  | .someItem rest => .someItem (parse rest)
  | .everyField rest => .everyField (parse rest)
  | .someField rest => .someField (parse rest)
  | .item i rest => .item i (if rest.isEmpty then .pass else parse rest)
  | .field name rest => .field (String.ofList name) (if rest.isEmpty then .pass else parse rest)
  | .group members => members.foldr (fun text others => .member text (parse text) others) .pass
  | .cut tokens => .cut tokens
  | .unknown => .refuse (.unrecognized (String.ofList d))

theorem parse_eq (d : Text) : parse d = ofForm d (Form.of d) := by
  rw [parse]
  split
  -- the members come with proofs that they are members, which the filter does not use
  case h_9 members h =>
    rw [h]
    exact List.foldr_attach (f := fun text others => Filter.member text (parse text) others)
  all_goals rename_i h; rw [h]; rfl

/-- What is gathered from the filter of a group is what is gathered from the members, one after the other. -/
theorem gathered_members {β : Type} (gather : Filter → List β) (hpass : gather .pass = [])
    (hmember : ∀ text first others, gather (.member text first others) = gather first ++ gather others)
    (members : List Text) :
    gather (members.foldr (fun text others => .member text (parse text) others) .pass) =
      members.flatMap fun text => gather (parse text) := by
  induction members with
  | nil => exact hpass
  | cons text members ih => rw [List.foldr_cons, hmember, ih, List.flatMap_cons]

/-- What holds of a directive whenever it holds of the parts that its form leaves to read holds of
every directive. -/
theorem parts_induction {motive : Text → Prop}
    (step : ∀ d, (∀ part ∈ (Form.of d).parts, motive part) → motive d) (d : Text) : motive d :=
  step d fun part _ => parts_induction step part
termination_by d.length
decreasing_by exact Form.length_of_mem_parts ‹_›

/-! ## Operators in the text of a directive -/

/-- A filter whose operators are written in a text, each in a piece of it. -/
inductive Written : Filter → Text → Prop
  | within {f : Filter} {part d : Text} (h : Written f part) (hp : part <:+: d) : Written f d
  | pass (d : Text) : Written .pass d
  | refuse (e : Error) (d : Text) : Written (.refuse e) d
  | comparison (literal : Text) : Written (ofLiteral literal) (['='] ++ literal)
  | everyItem {f : Filter} {rest : Text} (h : Written f rest) : Written (.everyItem f) (['[', ']'] ++ rest)
  | someItem {f : Filter} {rest : Text} (h : Written f rest) : Written (.someItem f) (['[', 'E', ']'] ++ rest)
  | everyField {f : Filter} {rest : Text} (h : Written f rest) :
      Written (.everyField f) (['.', '(', ')'] ++ rest)
  | someField {f : Filter} {rest : Text} (h : Written f rest) :
      Written (.someField f) (['.', '(', 'E', ')'] ++ rest)
  | item (i : UInt64) {f : Filter} {d : Text} (h : Written f d) : Written (.item i f) d
  | field (name : String) {f : Filter} {d : Text} (h : Written f d) : Written (.field name f) d
  | member (text : Text) {first others : Filter} {d : Text} (hfirst : Written first d)
      (hothers : Written others d) : Written (.member text first others) d
  | cut (tokens : List Text) (s : Text) : Written (.cut tokens) ('@' :: s)

theorem written_parse (d : Text) : Written (parse d) d := by
  induction d using parts_induction with
  | step d ih =>
    have inPart {part : Text} (hpart : part ∈ (Form.of d).parts) : Written (parse part) d :=
      .within (ih part hpart) (Form.infix_of_mem_parts hpart)
    have inRest {rest : Text} (hrest : rest ∈ (Form.of d).parts) :
        Written (if rest.isEmpty then Filter.pass else parse rest) d := by
      split
      · exact .pass d
      · exact inPart hrest
    have hfits := Form.fits_of d
    rw [parse_eq]
    cases hform : Form.of d with
    | empty => exact .refuse _ d
    | comparison literal => rw [hform] at hfits; subst hfits; exact .comparison literal
    | everyItem rest =>
      rw [hform] at hfits; subst hfits; exact .everyItem (ih rest (hform ▸ List.mem_singleton_self rest))
    | someItem rest =>
      rw [hform] at hfits; subst hfits; exact .someItem (ih rest (hform ▸ List.mem_singleton_self rest))
    | everyField rest =>
      rw [hform] at hfits; subst hfits; exact .everyField (ih rest (hform ▸ List.mem_singleton_self rest))
    | someField rest =>
      rw [hform] at hfits; subst hfits; exact .someField (ih rest (hform ▸ List.mem_singleton_self rest))
    | item i rest => exact .item i (inRest (hform ▸ List.mem_singleton_self rest))
    | field name rest => exact .field _ (inRest (hform ▸ List.mem_singleton_self rest))
    | group members =>
      have hmembers : ∀ text ∈ members, Written (parse text) d := fun text ht => inPart (hform ▸ ht)
      clear ih hfits hform inPart inRest
      unfold ofForm
      induction members with
      | nil => exact .pass d
      | cons text others ihOthers =>
        obtain ⟨hfirst, hothers⟩ := List.forall_mem_cons.1 hmembers
        exact .member text hfirst (ihOthers hothers)
    | cut tokens =>
      -- only a text that starts with the mark is read as a cut
      rw [hform, Form.Fits, cutList?.eq_def] at hfits
      split at hfits
      · exact .cut tokens _
      · cases hfits
    | unknown => exact .refuse _ d

end Filter

end JsonSieve
