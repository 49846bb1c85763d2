/-
Groups: a group that is written as its members between braces, separated by commas, is cut into
exactly these members (`group?_groupOf`), whatever groups stand inside them, and nothing else is cut
as a group (`spec_of_membersFrom?`); and it is applied by filtering with one member after the other,
each on what the one before it left (`filterWithRoot_groupOf`).
-/
import JsonSieve.Filter.Apply
import JsonSieve.Proofs.Filter.Parts
import Mathlib.Data.List.Infix

namespace JsonSieve

/-! ## Members -/

namespace Text

/-- How many braces a text opens, less those that it closes. -/
def depth (s : Text) : Int :=
  s.count '{' - s.count '}'

theorem depth_nil : depth [] = 0 := rfl

theorem depth_cons (c : Char) (s : Text) : depth (c :: s) = depth [c] + depth s := by
  unfold depth
  rw [List.count_cons, List.count_cons, List.count_singleton, List.count_singleton]
  omega

/-- A text after which a number of open braces are closed: none is closed that was not open, all are
at the end, and no comma stands where none is open. -/
structure Closes (opened : Nat) (s : Text) : Prop where
  nested : ∀ front, front <+: s → 0 ≤ opened + depth front
  closed : opened + depth s = 0
  commas : ∀ front, front ++ [','] <+: s → opened + depth front ≠ 0

/-- A text that can be a member of a group: its braces are balanced, and no comma stands outside
them. -/
abbrev IsMember (s : Text) : Prop :=
  Closes 0 s

theorem closes_iff_inits {opened : Nat} {s : Text} :
    Closes opened s ↔ (∀ front ∈ s.inits, 0 ≤ opened + depth front) ∧ opened + depth s = 0 ∧
      ∀ front ∈ s.inits, front ++ [','] <+: s → opened + depth front ≠ 0 := by
  constructor
  · intro h
    exact ⟨fun front hf => h.nested front ((List.mem_inits _ _).1 hf), h.closed,
      fun front _ hc => h.commas front hc⟩
  · rintro ⟨hnested, hclosed, hcommas⟩
    refine ⟨fun front hf => hnested front ((List.mem_inits _ _).2 hf), hclosed, fun front hc => ?_⟩
    exact hcommas front ((List.mem_inits _ _).2 ((List.prefix_append _ _).trans hc)) hc

instance (opened : Nat) (s : Text) : Decidable (Closes opened s) :=
  decidable_of_iff _ closes_iff_inits.symm

/-- The number of braces that are open after a character. -/
def openAfter (opened : Nat) (c : Char) : Nat :=
  if c = '{' then opened + 1 else if c = '}' then opened - 1 else opened

/-- A character that closes no brace which is not open changes their number by its own depth. -/
theorem openAfter_eq {opened : Nat} {c : Char} (h : opened = 0 → c ≠ '}') :
    (openAfter opened c : Int) = opened + depth [c] := by
  unfold openAfter
  split
  · rename_i hc; subst hc; rfl
  · split
    · rename_i hc
      subst hc
      have hopen : opened ≠ 0 := fun hzero => h hzero rfl
      have hdepth : depth ['}'] = -1 := rfl
      omega
    · rename_i hl hr
      have hdepth : depth [c] = 0 := by simp [depth, hl, hr]
      omega

variable {opened : Nat} {c : Char} {s : Text}

/-- What the first character of a text that closes the open braces can be, and what is left to close
after it. -/
theorem Closes.of_cons (h : Closes opened (c :: s)) :
    (opened = 0 → c ≠ '}') ∧ (opened = 0 → c ≠ ',') ∧ Closes (openAfter opened c) s := by
  have hbrace : opened = 0 → c ≠ '}' := by
    rintro rfl rfl
    exact absurd (h.nested ['}'] (List.prefix_append ['}'] s)) (by decide)
  have hopen := openAfter_eq hbrace
  refine ⟨hbrace, ?_, ?_⟩
  · rintro rfl rfl
    exact h.commas [] (List.prefix_append [','] s) rfl
  · constructor
    · intro front hf
      have := h.nested (c :: front) (List.cons_prefix_cons.2 ⟨rfl, hf⟩)
      rw [depth_cons] at this
      omega
    · have := h.closed
      rw [depth_cons] at this
      omega
    · intro front hf
      have := h.commas (c :: front) (List.cons_prefix_cons.2 ⟨rfl, hf⟩)
      rw [depth_cons] at this
      omega

/-- A text that closes the braces which a character leaves open, with that character in front. -/
theorem Closes.cons (hbrace : opened = 0 → c ≠ '}') (hcomma : opened = 0 → c ≠ ',')
    (h : Closes (openAfter opened c) s) : Closes opened (c :: s) := by
  have hopen := openAfter_eq hbrace
  constructor
  · intro front hf
    rcases List.prefix_cons_iff.1 hf with rfl | ⟨t, rfl, ht⟩
    · rw [depth_nil]; omega
    · have := h.nested t ht
      rw [depth_cons]
      omega
  · have := h.closed
    rw [depth_cons]
    omega
  · intro front hf
    cases front with
    | nil =>
      -- the comma is the first character itself, so some brace is open
      obtain ⟨rfl, -⟩ := List.cons_prefix_cons.1 hf
      have hne : opened ≠ 0 := fun hzero => hcomma hzero rfl
      rw [depth_nil]
      omega
    | cons d t =>
      obtain ⟨rfl, ht⟩ := List.cons_prefix_cons.1 hf
      have := h.commas t ht
      rw [depth_cons]
      omega

theorem closes_nil : Closes 0 [] := by decide

end Text

/-! ## Cutting a group -/

/-- A text that closes the open braces lengthens the first of the members that are read after it. The
induction is on that text, with the number of open braces free. -/
theorem membersFrom?_append {opened : Nat} {s t member : Text} {others : List Text}
    (hs : Text.Closes opened s) (ht : membersFrom? 0 t = some (member :: others)) :
    membersFrom? opened (s ++ t) = some ((s ++ member) :: others) := by
  induction s generalizing opened with
  | nil =>
    have hopen : opened = 0 := by
      have := hs.closed
      rw [Text.depth_nil] at this
      omega
    rw [hopen]
    exact ht
  | cons c s ih =>
    obtain ⟨hbrace, hcomma, hrest⟩ := hs.of_cons
    rw [List.cons_append, membersFrom?]
    · have hread := ih hrest
      unfold Text.openAfter at hread
      rw [hread]
      rfl
    · exact hbrace
    · exact hcomma

/-- A group, written as its members. -/
def Filter.groupOf (members : List Text) : Text :=
  '{' :: (Text.joinWith [','] members ++ ['}'])

theorem membersFrom?_joinWith {members : List Text} (hne : members ≠ [])
    (h : ∀ member ∈ members, Text.IsMember member) :
    membersFrom? 0 (Text.joinWith [','] members ++ ['}']) = some members := by
  induction members with
  | nil => exact absurd rfl hne
  | cons first others ih =>
    obtain ⟨hfirst, hothers⟩ := List.forall_mem_cons.1 h
    cases others with
    | nil =>
      have hend : membersFrom? 0 ['}'] = some [[]] := rfl
      rw [Text.joinWith, membersFrom?_append hfirst hend, List.append_nil]
    | cons second rest =>
      -- the comma after the first member ends it, and the others are read after the comma
      have hcomma : membersFrom? 0 (',' :: (Text.joinWith [','] (second :: rest) ++ ['}'])) =
          some ([] :: second :: rest) := by
        rw [membersFrom?, ih (List.cons_ne_nil _ _) hothers]
        rfl
      rw [Text.joinWith, List.append_assoc, List.append_assoc, List.singleton_append,
        membersFrom?_append hfirst hcomma, List.append_nil]

theorem group?_groupOf {members : List Text} (hne : members ≠ [])
    (h : ∀ member ∈ members, Text.IsMember member) :
    group? (Filter.groupOf members) = some members :=
  membersFrom?_joinWith hne h

theorem Text.joinWith_cons_cons (sep : Text) (c : Char) (s : Text) (rest : List Text) :
    joinWith sep ((c :: s) :: rest) = c :: joinWith sep (s :: rest) := by
  cases rest <;> rfl

/-- What is read as members is their texts with commas between them and a closing brace at the end. The
first of them closes the braces that were open before, and the others are members by themselves. -/
theorem spec_of_membersFrom? {opened : Nat} {s : Text} {members : List Text}
    (h : membersFrom? opened s = some members) :
    ∃ first others, members = first :: others ∧ Text.Closes opened first ∧
      (∀ member ∈ others, Text.IsMember member) ∧ s = Text.joinWith [','] members ++ ['}'] := by
  fun_induction membersFrom? opened s generalizing members with
  | case1 => cases h
  | case2 s hs =>
    cases h
    rw [List.isEmpty_iff.1 hs]
    exact ⟨[], [], rfl, Text.closes_nil, List.forall_mem_nil _, rfl⟩
  | case3 => cases h
  | case4 s ih =>
    -- a comma outside inner braces: an empty member ends here, and what follows has members of its own
    obtain ⟨rest, hrest, rfl⟩ := Option.map_eq_some_iff.1 h
    obtain ⟨first, others, rfl, hfirst, hothers, rfl⟩ := ih hrest
    exact ⟨[], first :: others, rfl, Text.closes_nil, List.forall_mem_cons.2 ⟨hfirst, hothers⟩, rfl⟩
  | case5 opened c s hbrace hcomma _ member rest hrest =>
    rename_i ih
    -- any other character lengthens the first member of what follows it
    cases h
    obtain ⟨first, others, heq, hfirst, hothers, hs⟩ := ih hrest
    cases heq
    refine ⟨c :: member, rest, rfl, Text.Closes.cons hbrace hcomma hfirst, hothers, ?_⟩
    rw [hs, Text.joinWith_cons_cons, List.cons_append]
  | case6 => cases h

theorem group?_eq_some_iff {s : Text} {members : List Text} :
    group? s = some members ↔
      members ≠ [] ∧ s = Filter.groupOf members ∧ ∀ member ∈ members, Text.IsMember member := by
  constructor
  · intro h
    unfold group? at h
    split at h
    · obtain ⟨first, others, rfl, hfirst, hothers, rfl⟩ := spec_of_membersFrom? h
      exact ⟨List.cons_ne_nil _ _, rfl, List.forall_mem_cons.2 ⟨hfirst, hothers⟩⟩
    · cases h
  · rintro ⟨hne, rfl, hmembers⟩
    exact group?_groupOf hne hmembers

/-- Groups are cut exactly at the commas outside inner braces: a text is cut into members just if it is these between
braces, with commas between them, each of which closes what it opens and has no comma outside. So a text can be cut in
one way only. -/
theorem group?_exact (s : Text) :
    (∀ members, group? s = some members ↔
      members ≠ [] ∧ s = Filter.groupOf members ∧ ∀ member ∈ members, Text.IsMember member) ∧
    (group? s = none ↔
      ¬ ∃ members, members ≠ [] ∧ s = Filter.groupOf members ∧ ∀ member ∈ members, Text.IsMember member) := by
  refine ⟨fun members => group?_eq_some_iff, ?_⟩
  constructor
  · rintro hnone ⟨members, hsplit⟩
    rw [group?_eq_some_iff.2 hsplit] at hnone
    cases hnone
  · intro hnot
    cases hgroup : group? s with
    | none => rfl
    | some members => exact absurd ⟨members, group?_eq_some_iff.1 hgroup⟩ hnot

example : group? "{é,{b,{}},}".toList = some ["é".toList, "{b,{}}".toList, []] ∧ group? "{a}{b}".toList = none := by
  decide

/-! ## Applying a group -/

namespace Filter

theorem Form.of_groupOf {members : List Text} (hne : members ≠ [])
    (h : ∀ member ∈ members, Text.IsMember member) :
    Form.of (groupOf members) = .group members := by
  show Form.ofOperand (groupOf members) = .group members
  unfold Form.ofOperand
  rw [show exactIndex? (groupOf members) = none from rfl,
    show exactField? (groupOf members) = none from rfl, group?_groupOf hne h]

/-- The members of a group are applied in order, each as a filter of its own; the root of the group
is not looked at. -/
theorem apply_members (d : Text) (members : List Text) (root v : Value) :
    (ofForm d (.group members)).apply rootIfNeeded root v = members.foldlM Value.filter v := by
  induction members generalizing v with
  | nil => rfl
  | cons text others ih => exact congrArg (v.filter text >>= ·) (funext fun w => ih w)

end Filter

/-- A group passes what its members, one after the other, let pass. -/
theorem Value.filterWithRoot_groupOf {members : List Text} (hne : members ≠ [])
    (h : ∀ member ∈ members, Text.IsMember member) (v root : Value) :
    v.filterWithRoot root (Filter.groupOf members) = members.foldlM Value.filter v := by
  rw [Value.filterWithRoot, Filter.parse_eq, Filter.Form.of_groupOf hne h]
  exact Filter.apply_members _ members root v

end JsonSieve
